/-!
# Programs that ask

A sequential program that waits for answers: it is done, or it asks a question and
goes on with the answer.  Blocking calls to a server are such programs; what the
server does is not part of them.

* `Goes p t q`: with the questions and answers `t`, in this order, `p` becomes `q`.
* `Runs p t a`: with `t`, the program ends in `a`.
* `Asks P p`: every question of `p` meets `P`.
* `exec` runs a program against a server given by a function; `play` does so when nothing can
  happen on the way.
-/

/-- A program with questions `Q` and answers `A`. -/
inductive Dialogue (Q A α : Type) where
  | done (a : α)
  | ask (q : Q) (k : A → Dialogue Q A α)

namespace Dialogue

variable {Q A α β ε σ : Type}

/-- One program after the other. -/
def bind : Dialogue Q A α → (α → Dialogue Q A β) → Dialogue Q A β
  | done a, f => f a
  | ask q k, f => ask q fun ans => (k ans).bind f

instance : Monad (Dialogue Q A) where
  pure := done
  bind := Dialogue.bind

/-- Nothing is done with the result. -/
theorem map_id (p : Dialogue Q A α) : id <$> p = p := by
  induction p with
  | done a => rfl
  | ask q k ih => exact congrArg (ask q) (funext ih)

/-- The order in which programs are put together does not matter. -/
theorem bind_bind {γ : Type} (p : Dialogue Q A α) (f : α → Dialogue Q A β)
    (g : β → Dialogue Q A γ) : p >>= f >>= g = p >>= fun a => f a >>= g := by
  induction p with
  | done a => rfl
  | ask q k ih => exact congrArg (ask q) (funext ih)

instance instLawfulMonad : LawfulMonad (Dialogue Q A) :=
  LawfulMonad.mk' _ map_id (fun _ _ => rfl) bind_bind

/-- Ask one question. -/
def query (q : Q) : Dialogue Q A A := ask q done

/-- With these questions and answers, the first program becomes the second. -/
inductive Goes : Dialogue Q A α → List (Q × A) → Dialogue Q A α → Prop where
  | refl (p : Dialogue Q A α) : Goes p [] p
  | ask {q : Q} {k : A → Dialogue Q A α} {ans : A} {t : List (Q × A)} {p : Dialogue Q A α}
      (h : Goes (k ans) t p) : Goes (.ask q k) ((q, ans) :: t) p

/-- With these questions and answers, the program ends in `a`. -/
def Runs (p : Dialogue Q A α) (t : List (Q × A)) (a : α) : Prop := Goes p t (done a)

/-- One more answer. -/
theorem Goes.snoc {p : Dialogue Q A α} {t : List (Q × A)} {q : Q} {k : A → Dialogue Q A α}
    (h : Goes p t (.ask q k)) (ans : A) : Goes p (t ++ [(q, ans)]) (k ans) := by
  -- the question is where the run ends, so the induction is over the run
  generalize hp : Dialogue.ask q k = p' at h
  induction h with
  | refl p =>
    subst hp
    exact .ask (.refl _)
  | ask _ ih => exact .ask (ih hp)

/-- A program that is done asks nothing. -/
theorem runs_done {a b : α} {t : List (Q × A)} (h : Runs (done a) t b) : t = [] ∧ a = b := by
  cases h with
  | refl => exact ⟨rfl, rfl⟩

/-- A run of one program after the other is a run of each. -/
theorem runs_bind {p : Dialogue Q A α} {f : α → Dialogue Q A β} {t : List (Q × A)} {b : β}
    (h : Runs (p >>= f) t b) :
    ∃ t₁ t₂ a, t = t₁ ++ t₂ ∧ Runs p t₁ a ∧ Runs (f a) t₂ b := by
  induction p generalizing t with
  | done a => exact ⟨[], t, a, rfl, .refl _, h⟩
  | ask q k ih =>
    cases h with
    | ask h =>
      obtain ⟨t₁, t₂, a, rfl, h₁, h₂⟩ := ih _ h
      exact ⟨_, t₂, a, rfl, .ask h₁, h₂⟩

/-- The same for programs that can fail: the second does not run when the first has failed. -/
theorem runs_bind_except {p : ExceptT ε (Dialogue Q A) α} {f : α → ExceptT ε (Dialogue Q A) β}
    {t : List (Q × A)} {r : Except ε β} (h : Runs (p >>= f).run t r) :
    (∃ e, Runs p.run t (.error e) ∧ r = .error e) ∨
      ∃ t₁ t₂ a, t = t₁ ++ t₂ ∧ Runs p.run t₁ (.ok a) ∧ Runs (f a).run t₂ r := by
  rw [ExceptT.run_bind] at h
  obtain ⟨t₁, t₂, a, rfl, h₁, h₂⟩ := runs_bind h
  cases a with
  | ok a => exact .inr ⟨t₁, t₂, a, rfl, h₁, h₂⟩
  | error e =>
    -- after an error nothing is asked
    obtain ⟨rfl, rfl⟩ := runs_done h₂
    rw [List.append_nil]
    exact .inl ⟨e, h₁, rfl⟩

/-- Every question the program can ask meets `P`. -/
inductive Asks (P : Q → Prop) : Dialogue Q A α → Prop where
  | done (a : α) : Asks P (done a)
  | ask {q : Q} {k : A → Dialogue Q A α} (hq : P q) (hk : ∀ ans, Asks P (k ans)) :
      Asks P (ask q k)

/-- One program after the other asks what either asks. -/
theorem Asks.bind {P : Q → Prop} {p : Dialogue Q A α} {f : α → Dialogue Q A β} (h : Asks P p)
    (hf : ∀ a, Asks P (f a)) : Asks P (p >>= f) := by
  induction h with
  | done a => exact hf a
  | ask hq _ ih => exact .ask hq ih

/-- A program that can fail asks no more than the two parts. -/
theorem Asks.bind_except {P : Q → Prop} {p : ExceptT ε (Dialogue Q A) α}
    {f : α → ExceptT ε (Dialogue Q A) β} (h : Asks P p.run) (hf : ∀ a, Asks P (f a).run) :
    Asks P (p >>= f).run := by
  rw [ExceptT.run_bind]
  refine h.bind fun r => ?_
  cases r with
  | ok a => exact hf a
  | error e => exact .done _

/-- What the program becomes asks nothing else. -/
theorem Goes.asks {P : Q → Prop} {p p' : Dialogue Q A α} {t : List (Q × A)} (h : Goes p t p')
    (hp : Asks P p) : Asks P p' := by
  induction h with
  | refl p => exact hp
  | ask _ ih =>
    cases hp with
    | ask _ hk => exact ih (hk _)

/-- Run a program against a server: `serve s q e` answers `q` in state `s`, where `e` is
    what happens on the way. -/
def exec {η : Type} (serve : σ → Q → η → Option (σ × A)) :
    σ → Dialogue Q A α → List η → Option (σ × α)
  | s, done a, [] => some (s, a)
  | s, ask q k, e :: es =>
    match serve s q e with
    | some (s', ans) => exec serve s' (k ans) es
    | none => none
  | _, _, _ => none

/-- Run a program against a server that answers every question. -/
def play (serve : σ → Q → σ × A) : σ → Dialogue Q A α → σ × α
  | s, done a => (s, a)
  | s, ask q k => play serve (serve s q).1 (k (serve s q).2)

/-- One program after the other: the second starts with the state the first leaves. -/
theorem play_bind (serve : σ → Q → σ × A) (s : σ) (p : Dialogue Q A α)
    (f : α → Dialogue Q A β) :
    play serve s (p >>= f) = play serve (play serve s p).1 (f (play serve s p).2) := by
  induction p generalizing s with
  | done a => rfl
  | ask q k ih => exact ih _ _

end Dialogue
