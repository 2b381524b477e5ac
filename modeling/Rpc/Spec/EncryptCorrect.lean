import Rpc.ForStd.Typestate
import Rpc.Native.Encrypt

/-!
# The context of a cipher

`aes_encrypt` and `aes_decrypt` release the context they create on every path, use it
only in between, and stop at the first call that fails (`next`, `context_released`),
whatever OpenSSL answers.
-/

namespace Rpc.Aes

open Dialogue

/-! ## The protocol of the context -/

/-- The state of the context. -/
inductive Ctx where
  | fresh
  /-- `EVP_CIPHER_CTX_new` has returned null -/
  | refused
  | live
  /-- this call has failed -/
  | failed (q : Evp)
  /-- freed, after this call has failed -/
  | freed (q : Option Evp)
  deriving DecidableEq, Repr

/-- The call uses a context. -/
def Evp.isUse : Evp → Bool
  | .ctxNew | .ctxFree => false
  | _ => true

/-- A context is used and freed while it lives, and only freed after a failure. -/
def next : Ctx → Evp → Answer → Option Ctx
  | .fresh, .ctxNew, ans => some (if ans.ret = 0 then .refused else .live)
  | .live, .ctxFree, _ => some (.freed none)
  | .failed q, .ctxFree, _ => some (.freed (some q))
  | .live, q, ans => if q.isUse then some (if ans.ret = 1 then .live else .failed q) else none
  | _, _, _ => none

/-- The text of the exception for a call that failed. -/
def errorText : Direction → Evp → String
  | .encrypt, .init _ => "aes_encrypt: init failed"
  | .encrypt, .setIvLen _ => "aes_encrypt: set IV len failed"
  | .encrypt, .setKeyIv .. => "aes_encrypt: key/IV set failed"
  | .encrypt, .update .. => "aes_encrypt: update failed"
  | .encrypt, .final _ => "aes_encrypt: final failed"
  | .encrypt, .getTag _ => "aes_encrypt: get tag failed"
  | .decrypt, .init _ => "aes_decrypt: init failed"
  | .decrypt, .setIvLen _ => "aes_decrypt: set IV len failed"
  | .decrypt, .setKeyIv .. => "aes_decrypt: key/IV set failed"
  | .decrypt, .update .. => "aes_decrypt: update failed"
  | .decrypt, .setTag _ => "aes_decrypt: set tag failed"
  | .decrypt, .final _ => "aes_decrypt: authentication failed (wrong key or tampered data)"
  | _, _ => ""

/-- The result fits the state the context is left in. -/
def Fits (d : Direction) : Ctx → Except Fault Bytes → Prop
  | .fresh, r | .refused, r => ∃ fault, r = .error fault
  | .freed none, r => ∃ out, r = .ok out
  | .freed (some q), r => r = .error (.runtimeError (Bytes.ofString (errorText d q)))
  | .live, _ | .failed _, _ => False

/-- A call on a living context leaves it alive, or fails. -/
theorem next_use {q : Evp} (hq : q.isUse = true) (ans : Answer) :
    next .live q ans = some (if ans.ret = 1 then .live else .failed q) := by
  cases q with
  | ctxNew | ctxFree => cases hq
  | _ => rfl

/-- A throw ends the program. -/
theorem obeys_throw {d : Direction} {st : Ctx} {fault : Fault}
    (h : Fits d st (.error fault)) : Obeys next (Fits d) st (throw fault : Program Bytes).run :=
  h

/-- A return ends the program. -/
theorem obeys_pure {d : Direction} {st : Ctx} {out : Bytes} (h : Fits d st (.ok out)) :
    Obeys next (Fits d) st (pure out : Program Bytes).run :=
  h

/-- A check throws, or the program goes on in the same state. -/
theorem obeys_check {d : Direction} {st : Ctx} {cond : Prop} [Decidable cond] {what : String}
    {f : Unit → Program Bytes}
    (hthrow : cond → Fits d st (.error (.runtimeError (Bytes.ofString what))))
    (hf : ¬cond → Obeys next (Fits d) st (f ()).run) :
    Obeys next (Fits d) st (check cond what >>= f).run := by
  have hcheck : Obeys next (fun st' r => st' = st ∧ r = throwIf cond what) st
      (check cond what).run := ⟨rfl, rfl⟩
  apply hcheck.bind_except
  · intro st' u hok
    obtain ⟨rfl, hok⟩ := hok
    by_cases hcond : cond
    · rw [throwIf, if_pos hcond] at hok
      cases hok
    · exact hf hcond
  · intro st' fault herror
    obtain ⟨rfl, herror⟩ := herror
    by_cases hcond : cond
    · rw [throwIf, if_pos hcond] at herror
      obtain rfl := Except.error.inj herror
      exact hthrow hcond
    · rw [throwIf, if_neg hcond] at herror
      cases herror

/-- A call whose answer is not checked goes on in the state after it. -/
theorem obeys_request {d : Direction} {st : Ctx} {q : Evp} {f : Answer → Program Bytes}
    (h : ∀ ans, ∃ st', next st q ans = some st' ∧ Obeys next (Fits d) st' (f ans).run) :
    Obeys next (Fits d) st (request q >>= f).run :=
  h

/-- The state after a checked call, and its result: the context has been freed if the call
    has failed, and the exception names it. -/
def Called (d : Direction) (q : Evp) (st : Ctx) : Except Fault Answer → Prop
  | .ok _ => st = .live
  | .error fault =>
    st = .freed (some q) ∧ fault = .runtimeError (Bytes.ofString (errorText d q))

/-- A checked call: after a failure the context is freed before the throw. -/
theorem call_run (q : Evp) (what : String) : (call q what).run = .ask q fun ans =>
    if ans.ret = 1 then .done (.ok ans)
    else .ask .ctxFree fun _ => .done (.error (.runtimeError (Bytes.ofString what))) := by
  apply congrArg (Dialogue.ask q)
  funext ans
  show ExceptT.run (if ans.ret = 1 then (pure ans : Program Answer)
    else request .ctxFree >>= fun _ => throw (.runtimeError (Bytes.ofString what))) = _
  by_cases hret : ans.ret = 1
  · rw [if_pos hret, if_pos hret]
    rfl
  · rw [if_neg hret, if_neg hret]
    rfl

/-- A checked call keeps to the protocol. -/
theorem obeys_called (d : Direction) {q : Evp} (hq : q.isUse = true) :
    Obeys next (Called d q) .live (call q (errorText d q)).run := by
  rw [call_run]
  intro ans
  by_cases hret : ans.ret = 1
  · refine ⟨.live, by rw [next_use hq, if_pos hret], ?_⟩
    simp only [if_pos hret]
    rfl
  -- the only call after a failure is the one that frees
  · refine ⟨.failed q, by rw [next_use hq, if_neg hret], ?_⟩
    simp only [if_neg hret]
    intro free
    exact ⟨.freed (some q), rfl, rfl, rfl⟩

/-- A checked call goes on if it succeeds. -/
theorem obeys_call {d : Direction} {q : Evp} {what : String} {f : Answer → Program Bytes}
    (hq : q.isUse = true) (hwhat : errorText d q = what)
    (hf : ∀ ans, Obeys next (Fits d) .live (f ans).run) :
    Obeys next (Fits d) .live (call q what >>= f).run := by
  subst hwhat
  apply (obeys_called d hq).bind_except
  · intro st ans hlive
    obtain rfl : st = .live := hlive
    exact hf ans
  · intro st fault hfreed
    obtain ⟨rfl, rfl⟩ := hfreed
    exact obeys_throw rfl

/-- Before the context is created nothing has to be freed. -/
theorem obeys_guard {d : Direction} {cond : Prop} [Decidable cond] {what : String}
    {f : Unit → Program Bytes} (hf : Obeys next (Fits d) .fresh (f ()).run) :
    Obeys next (Fits d) .fresh (check cond what >>= f).run :=
  obeys_check (fun _ => ⟨_, rfl⟩) fun _ => hf

/-- The context is created, or the program gives up. -/
theorem obeys_new {d : Direction} {what : String} {f : Answer → Unit → Program Bytes}
    (hf : ∀ ctx, Obeys next (Fits d) .live (f ctx ()).run) :
    Obeys next (Fits d) .fresh
      (request .ctxNew >>= fun ctx => check (ctx.ret = 0) what >>= f ctx).run := by
  apply obeys_request
  intro ctx
  by_cases hnull : ctx.ret = 0
  · refine ⟨.refused, by rw [next, if_pos hnull], ?_⟩
    exact obeys_check (fun _ => ⟨_, rfl⟩) fun hnot => absurd hnull hnot
  · refine ⟨.live, by rw [next, if_neg hnull], ?_⟩
    exact obeys_check (fun hnull' => absurd hnull' hnull) fun _ => hf ctx

/-- `aes_encrypt` keeps to the protocol. -/
theorem obeys_encrypt (plaintext key iv : Bytes) :
    Obeys next (Fits .encrypt) .fresh (aesEncrypt plaintext key iv).run := by
  -- the two checks of lengths, and the context
  apply obeys_guard
  apply obeys_guard
  apply obeys_new
  intro ctx
  -- the six calls that are checked, and the release
  apply obeys_call rfl rfl
  intro _
  apply obeys_call rfl rfl
  intro _
  apply obeys_call rfl rfl
  intro _
  apply obeys_call rfl rfl
  intro first
  apply obeys_call rfl rfl
  intro last
  apply obeys_call rfl rfl
  intro got
  apply obeys_request
  intro free
  exact ⟨.freed none, rfl, obeys_pure ⟨_, rfl⟩⟩

/-- `aes_decrypt` keeps to the protocol. -/
theorem obeys_decrypt (ciphertext key iv : Bytes) :
    Obeys next (Fits .decrypt) .fresh (aesDecrypt ciphertext key iv).run := by
  -- three checks of lengths: the text has to have room for a tag
  apply obeys_guard
  apply obeys_guard
  apply obeys_guard
  apply obeys_new
  intro ctx
  -- the five calls that are checked
  apply obeys_call rfl rfl
  intro _
  apply obeys_call rfl rfl
  intro _
  apply obeys_call rfl rfl
  intro _
  apply obeys_call rfl rfl
  intro first
  apply obeys_call rfl rfl
  intro _
  -- the last call is looked at when the context has been freed
  apply obeys_request
  intro last
  by_cases hret : last.ret = 1
  · refine ⟨.live, by rw [next_use rfl, if_pos hret], obeys_request fun free => ?_⟩
    refine ⟨.freed none, rfl, obeys_check (fun hnot => absurd hret hnot) fun _ => ?_⟩
    exact obeys_pure ⟨_, rfl⟩
  · refine ⟨.failed _, by rw [next_use rfl, if_neg hret], obeys_request fun free => ?_⟩
    refine ⟨.freed (some _), rfl, obeys_check (fun _ => rfl) fun hnot => ?_⟩
    exact absurd hret hnot

/-- Both directions keep to the protocol. -/
theorem obeys_crypt (d : Direction) (data key iv : Bytes) :
    Obeys next (Fits d) .fresh (crypt d data key iv).run := by
  cases d with
  | encrypt => exact obeys_encrypt data key iv
  | decrypt => exact obeys_decrypt data key iv

/-! ## The calls of a run -/

/-- The calls a context has seen so far. -/
inductive Seen : List (Evp × Answer) → Ctx → Prop where
  | fresh : Seen [] .fresh
  | refused (ans : Answer) (hnull : ans.ret = 0) : Seen [(.ctxNew, ans)] .refused
  | live (ans : Answer) (calls : List (Evp × Answer)) (hctx : ans.ret ≠ 0)
      (hcalls : ∀ x ∈ calls, x.1.isUse = true ∧ x.2.ret = 1) :
      Seen ((.ctxNew, ans) :: calls) .live
  | failed (ans : Answer) (calls : List (Evp × Answer)) (q : Evp) (bad : Answer)
      (hctx : ans.ret ≠ 0) (hcalls : ∀ x ∈ calls, x.1.isUse = true ∧ x.2.ret = 1)
      (hq : q.isUse = true) (hbad : bad.ret ≠ 1) :
      Seen ((.ctxNew, ans) :: calls ++ [(q, bad)]) (.failed q)
  | freed {t : List (Evp × Answer)} (h : Seen t .live) (free : Answer) :
      Seen (t ++ [(.ctxFree, free)]) (.freed none)
  | freedFailed {t : List (Evp × Answer)} {q : Evp} (h : Seen t (.failed q)) (free : Answer) :
      Seen (t ++ [(.ctxFree, free)]) (.freed (some q))

/-- One more call that the protocol allows. -/
theorem Seen.next {t : List (Evp × Answer)} {st st' : Ctx} (h : Seen t st) {x : Evp × Answer}
    (hnext : Aes.next st x.1 x.2 = some st') : Seen (t ++ [x]) st' := by
  obtain ⟨q, ans⟩ := x
  cases h with
  | fresh =>
    cases q with
    | ctxNew =>
      obtain rfl := Option.some.inj hnext
      by_cases hnull : ans.ret = 0
      · simp only [hnull, if_true]
        exact .refused ans hnull
      · simp only [hnull, if_false]
        exact .live ans [] hnull (by simp)
    | _ => cases hnext
  | refused => cases q <;> cases hnext
  | live first calls hctx hcalls =>
    by_cases hq : q.isUse = true
    · simp only [next_use hq] at hnext
      obtain rfl := Option.some.inj hnext
      by_cases hret : ans.ret = 1
      · simp only [hret, if_true]
        refine .live first (calls ++ [(q, ans)]) hctx fun x hx => ?_
        -- the calls before have all succeeded, and so has this one
        obtain hx | hx := List.mem_append.mp hx
        · exact hcalls x hx
        · obtain rfl := List.mem_singleton.mp hx
          exact ⟨hq, hret⟩
      · simp only [hret, if_false]
        exact .failed first calls q ans hctx hcalls hq hret
    -- what uses no context creates or frees it
    · cases q with
      | ctxNew => cases hnext
      | ctxFree =>
        obtain rfl := Option.some.inj hnext
        exact .freed (.live first calls hctx hcalls) ans
      | _ => exact absurd rfl hq
  | failed first calls bad ans' hctx hcalls hbad hret =>
    cases q with
    | ctxFree =>
      obtain rfl := Option.some.inj hnext
      exact .freedFailed (.failed first calls bad ans' hctx hcalls hbad hret) ans
    | _ => cases hnext
  | freed => cases q <;> cases hnext
  | freedFailed => cases q <;> cases hnext

/-- The calls of a run are what its last state has seen. -/
theorem seen_of_run {t : List (Evp × Answer)} {st : Ctx}
    (h : Transition.run (fun st x => next st x.1 x.2) .fresh t = some st) : Seen t st := by
  have hseen := Transition.run_invariant (P := Seen) (fun _ _ _ _ hseen hnext => hseen.next hnext)
    [] t .fresh h
  exact hseen

/-- Whatever OpenSSL answers, `aes_encrypt` and `aes_decrypt` do one of four things.
    They throw before they create a context; they fail to create one; every call on the
    context succeeds, it is freed, and they return; or a call fails, the context is freed
    without another call, and they throw the exception for this call. -/
theorem context_released (d : Direction) (data key iv : Bytes) (t : List (Evp × Answer))
    (r : Except Fault Bytes) (h : Runs (crypt d data key iv).run t r) :
    (t = [] ∧ ∃ fault, r = .error fault) ∨
    (∃ ans, t = [(.ctxNew, ans)] ∧ ans.ret = 0 ∧ ∃ fault, r = .error fault) ∨
    ∃ ans calls free, ans.ret ≠ 0 ∧ (∀ x ∈ calls, x.1.isUse = true ∧ x.2.ret = 1) ∧
      ((t = (.ctxNew, ans) :: calls ++ [(.ctxFree, free)] ∧ ∃ out, r = .ok out) ∨
        ∃ q bad, q.isUse = true ∧ bad.ret ≠ 1 ∧
          t = (.ctxNew, ans) :: calls ++ [(q, bad), (.ctxFree, free)] ∧
          r = .error (.runtimeError (Bytes.ofString (errorText d q)))) := by
  -- the last state of the context tells both the calls and the result
  obtain ⟨st, hrun, hfits⟩ := (obeys_crypt d data key iv).runs h
  cases seen_of_run hrun with
  | fresh => exact .inl ⟨rfl, hfits⟩
  | refused ans hnull => exact .inr (.inl ⟨ans, rfl, hnull, hfits⟩)
  -- a program does not end with a context that lives
  | live => exact absurd hfits id
  | failed => exact absurd hfits id
  | freed hseen free =>
    cases hseen with
    | live ans calls hctx hcalls =>
      exact .inr (.inr ⟨ans, calls, free, hctx, hcalls, .inl ⟨rfl, hfits⟩⟩)
  | @freedFailed t q hseen free =>
    cases hseen with
    | failed ans calls q bad hctx hcalls hq hbad =>
      refine .inr (.inr ⟨ans, calls, free, hctx, hcalls, .inr ⟨q, bad, hq, hbad, ?_, hfits⟩⟩)
      rw [List.append_assoc]
      rfl

/-- A decryption in which the tag turns out to be wrong. -/
def tamperedCalls : List (Evp × Answer) :=
  [(.ctxNew, ⟨1, []⟩), (.init .decrypt, ⟨1, []⟩), (.setIvLen 12, ⟨1, []⟩),
    (.setKeyIv .decrypt (List.replicate 32 0) (List.replicate 12 0), ⟨1, []⟩),
    (.update .decrypt (List.replicate 16 0) 0, ⟨1, []⟩), (.setTag (List.replicate 16 0), ⟨1, []⟩),
    (.final .decrypt, ⟨0, []⟩), (.ctxFree, ⟨0, []⟩)]

/-- The context is freed after the call that failed, and by the last call. -/
theorem context_released_tampered :
    ∃ ans calls q bad free, tamperedCalls =
        (.ctxNew, ans) :: calls ++ [(q, bad), (.ctxFree, free)] ∧ bad.ret ≠ 1 ∧
      Bytes.ofString "aes_decrypt: authentication failed (wrong key or tampered data)" =
        Bytes.ofString (errorText .decrypt q) := by
  have hruns : Runs (crypt .decrypt (List.replicate 16 0) (List.replicate 32 0)
      (List.replicate 12 0)).run tamperedCalls (.error (.runtimeError (Bytes.ofString
        "aes_decrypt: authentication failed (wrong key or tampered data)"))) :=
    .ask (.ask (.ask (.ask (.ask (.ask (.ask (.ask (.refl _))))))))
  obtain ⟨hnil, -⟩ | ⟨ans, hone, -⟩ |
      ⟨ans, calls, free, -, -, ⟨-, out, hout⟩ | ⟨q, bad, -, hbad, hcalls, herror⟩⟩ :=
    context_released _ _ _ _ _ _ hruns
  -- the run has more than one call, and throws: the last case remains
  · cases hnil
  · cases hone
  · cases hout
  · exact ⟨ans, calls, q, bad, free, hcalls, hbad, Fault.runtimeError.inj (Except.error.inj herror)⟩

end Rpc.Aes
