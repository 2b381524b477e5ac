import Rpc.ForStd.Dialogue
import Rpc.ForStd.Transition

/-!
# Protocols of resources

A resource that is used by calls has a protocol: `next st q ans` is its state after
the call `q` has been answered by `ans` in state `st`, and `none` if the call is not
allowed there.

`Obeys next R st p`: from `st` on, the program `p` makes allowed calls only, whatever
the answers are, and ends in a state and with a result that `R` relates.  The rules
follow the program; `Obeys.runs` says what it means for the calls of a run.
-/

namespace Dialogue

variable {S Q A α β ε : Type} {next : S → Q → A → Option S}

/-- The program obeys the protocol. -/
def Obeys (next : S → Q → A → Option S) (R : S → α → Prop) : S → Dialogue Q A α → Prop
  | st, done a => R st a
  | st, ask q k => ∀ ans, ∃ st', next st q ans = some st' ∧ Obeys next R st' (k ans)

/-- The calls of a run are allowed ones, and lead to a state that fits its result. -/
theorem Obeys.runs {R : S → α → Prop} {st : S} {p : Dialogue Q A α} {t : List (Q × A)} {a : α}
    (h : Obeys next R st p) (hruns : Runs p t a) :
    ∃ st', Transition.run (fun st x => next st x.1 x.2) st t = some st' ∧ R st' a := by
  induction p generalizing st t with
  | done b =>
    obtain ⟨rfl, rfl⟩ := runs_done hruns
    exact ⟨st, rfl, h⟩
  | ask q k ih =>
    cases hruns with
    | @ask _ _ ans t _ hruns =>
      obtain ⟨st', hnext, hrest⟩ := h ans
      obtain ⟨st'', hrun, hR⟩ := ih ans hrest hruns
      refine ⟨st'', ?_, hR⟩
      simp only [Transition.run, hnext]
      exact hrun

/-- One program after the other, if the second obeys wherever the first ends. -/
theorem Obeys.bind {R : S → α → Prop} {R' : S → β → Prop} {st : S} {p : Dialogue Q A α}
    {f : α → Dialogue Q A β} (h : Obeys next R st p)
    (hf : ∀ st a, R st a → Obeys next R' st (f a)) : Obeys next R' st (p >>= f) := by
  induction p generalizing st with
  | done a => exact hf st a h
  | ask q k ih =>
    intro ans
    obtain ⟨st', hnext, hrest⟩ := h ans
    exact ⟨st', hnext, ih ans hrest⟩

/-- For a program that can fail, the second part takes over where the first has not failed. -/
theorem Obeys.bind_except {R : S → Except ε α → Prop} {R' : S → Except ε β → Prop} {st : S}
    {p : ExceptT ε (Dialogue Q A) α} {f : α → ExceptT ε (Dialogue Q A) β}
    (h : Obeys next R st p.run) (hok : ∀ st a, R st (.ok a) → Obeys next R' st (f a).run)
    (herror : ∀ st e, R st (.error e) → R' st (.error e)) : Obeys next R' st (p >>= f).run := by
  rw [ExceptT.run_bind]
  apply h.bind
  intro st r hR
  cases r with
  | ok a => exact hok st a hR
  | error e => exact herror st e hR

end Dialogue
