import Rpc.Native.Session
import Rpc.Spec.CallCorrect
import Rpc.Spec.PromiseCorrect
import Rpc.Spec.WriteQueueCorrect

/-!
# Sequence numbers

`next_seq_id_` has 32 bits, so the call made `2 ^ 32` calls after another gets the same
number.  As long as the older one is done with by then (`SeqFree`), the numbers of
unsatisfied calls are different (`AnswerInv.seqId_inj`), and a number that `call()` takes
is not a key of `pending_`.

Nothing takes a call out of `pending_` when its answer does not come: after `2 ^ 32` calls
its number is used again, its promise is dropped, and its answer satisfies the newer call
(`seqId_reused`).
-/

namespace Rpc.Session

open Transition RpcClient

/-! ## Steps of a session -/

/-- The outcomes of a step. -/
inductive Steps (s : Session) : Act → Session → Prop where
  | client (a : RpcClient.Act) (client : RpcClient) (hbody : ∀ body, a ≠ .readBody body)
      (hstep : s.client.step a = some client) : Steps s (.client a) { s with client }
  | answer (c : Nat) (body : Bytes) (call : Call) (header : RpcHeader) (client : RpcClient)
      (hcall : s.client.calls[c]? = some call) (hreading : s.client.reading = .body header)
      (hseq : header.seqId = call.seqId) (hreached : s.reached c = true)
      (hnew : c ∉ s.answered) (hstep : s.client.step (.readBody body) = some client) :
      Steps s (.answer c body)
        { client, answers := s.answers ++ [{ call := c, header, body, taken := taken client }] }

/-- Every step is one of these. -/
theorem steps_of_step {s s' : Session} {a : Act} (h : s.step a = some s') : Steps s a s' := by
  cases a with
  | client a =>
    simp only [step] at h
    split at h
    · cases h
    · rename_i hbody
      obtain ⟨client, hstep, rfl⟩ := Option.map_eq_some_iff.mp h
      exact .client a client hbody hstep
  | answer c body =>
    simp only [step] at h
    split at h
    · rename_i call header hcall hreading
      split at h
      · rename_i hguard
        obtain ⟨client, hstep, rfl⟩ := Option.map_eq_some_iff.mp h
        exact .answer c body call header client hcall hreading hguard.1 hguard.2.1 hguard.2.2 hstep
      · cases h
    · cases h

/-- The client of a session is a client. -/
theorem client_reachable {ok : Session → Act → Prop} {s : Session}
    (h : Reaches step ok init s) : Reachable RpcClient.step RpcClient.init s.client := by
  apply h.project (f := Session.client)
  intro s a s' _ hs
  cases steps_of_step hs with
  | client a client hbody hstep => exact .inr ⟨a, trivial, hstep⟩
  | answer c body call header client hcall hreading hseq hreached hnew hstep =>
    exact .inr ⟨_, trivial, hstep⟩

/-! ## Calls that are not done with -/

/-- The promise of call `c` is not satisfied, and its answer has not come. -/
def Outstanding (s : Session) (c : Nat) : Prop :=
  c < s.client.calls.length ∧ c ∉ s.answered ∧ c ∉ s.client.completed

/-- When `call()` takes a number, the call that had it `2 ^ 32` calls before is done with. -/
def SeqFree (s : Session) : Act → Prop
  | .client (.call ..) => ∀ c, c + 2 ^ 32 = s.client.calls.length → ¬s.Outstanding c
  | _ => True

/-- What the client has done with answers so far, each for the call it answers. -/
structure AnswerInv (s : Session) : Prop where
  enqueued : ∀ c ∈ s.answered, ∃ call, s.client.calls[c]? = some call ∧ call.phase = .enqueued
  pending : ∀ n c, s.client.pending.lookup n = some c → c ∉ s.answered
  matched : ∀ h b r c, s.client.reading = .matched h b r (some c) →
    ∃ a ∈ s.answers, a.taken = some c ∧ a.header = h ∧ a.body = b
  frames : ∀ k ∈ s.client.completions, ∀ h b, k.origin = .frame h b →
    ∃ a ∈ s.answers, a.taken = some k.call ∧ a.header = h ∧ a.body = b
  rejected : ∀ k ∈ s.client.completions, k.origin = .rejected → s.client.reading = .ended
  age : ∀ c, s.Outstanding c → s.client.calls.length ≤ c + 2 ^ 32
  own : ∀ a ∈ s.answers, ∀ c, a.taken = some c → c = a.call
  dropped : s.client.dropped = []

/-- Two unsatisfied calls have different sequence numbers. -/
theorem AnswerInv.seqId_inj {s : Session} (hinv : AnswerInv s) (hcalls : CallInv s.client)
    {c c' : Nat} {call call' : Call} (hc : s.Outstanding c) (hc' : s.Outstanding c')
    (hcall : s.client.calls[c]? = some call) (hcall' : s.client.calls[c']? = some call')
    (heq : call.seqId = call'.seqId) : c = c' := by
  have hage := hinv.age c hc
  have hage' := hinv.age c' hc'
  have hlt := hc.1
  have hlt' := hc'.1
  rw [hcalls.seqId c call hcall, hcalls.seqId c' call' hcall'] at heq
  have hnat := congrArg UInt32.toNat heq
  rw [UInt32.toNat_ofNat', UInt32.toNat_ofNat'] at hnat
  -- less than `2 ^ 32` apart and equal modulo it
  omega

/-- What is in `pending_` is outstanding. -/
theorem AnswerInv.outstanding_of_pending {s : Session} (hinv : AnswerInv s)
    (hprom : PromiseInv s.client) {n : UInt32} {c : Nat}
    (h : s.client.pending.lookup n = some c) : s.Outstanding c := by
  obtain ⟨⟨call, hcall, -⟩, hcomp⟩ := hprom.pending n c h
  exact ⟨(List.getElem?_eq_some_iff.mp hcall).1, hinv.pending n c h, hcomp⟩

/-! ## Steps of the client -/

/-- A step of the client other than `call()`, that takes no answer in. -/
theorem AnswerInv.of_client {s : Session} (hinv : AnswerInv s) {client : RpcClient}
    (hphase : ∀ (c : Nat) (call : Call), s.client.calls[c]? = some call → call.phase = .enqueued →
      ∃ call', client.calls[c]? = some call' ∧ call'.phase = .enqueued)
    (hlen : client.calls.length = s.client.calls.length)
    (hpending : ∀ n c, client.pending.lookup n = some c →
      s.client.pending.lookup n = some c ∨ c ∉ s.answered)
    (hmatched : ∀ h b r c, client.reading = .matched h b r (some c) →
      s.client.reading = .matched h b r (some c))
    (hended : s.client.reading = .ended → client.reading = .ended)
    (hdropped : client.dropped = []) (new : List Completion)
    (hcomp : client.completions = s.client.completions ++ new)
    (hnew : ∀ k ∈ new, (k.origin = .rejected → client.reading = .ended) ∧
      ∀ h b, k.origin = .frame h b →
        ∃ a ∈ s.answers, a.taken = some k.call ∧ a.header = h ∧ a.body = b) :
    AnswerInv { s with client } := by
  constructor
  · intro c hc
    obtain ⟨call, hcall, henq⟩ := hinv.enqueued c hc
    exact hphase c call hcall henq
  · intro n c hc
    obtain hold | hfresh := hpending n c hc
    · exact hinv.pending n c hold
    · exact hfresh
  · intro h b r c hr
    exact hinv.matched h b r c (hmatched h b r c hr)
  · intro k hk h b ho
    rw [show client.completions = _ from hcomp] at hk
    obtain hk | hk := List.mem_append.mp hk
    · exact hinv.frames k hk h b ho
    · exact (hnew k hk).2 h b ho
  · intro k hk ho
    rw [show client.completions = _ from hcomp] at hk
    obtain hk | hk := List.mem_append.mp hk
    · exact hended (hinv.rejected k hk ho)
    · exact (hnew k hk).1 ho
  · rintro c ⟨hlt, hans, hcompleted⟩
    -- satisfied promises stay satisfied
    have hold : s.Outstanding c := by
      refine ⟨hlen ▸ hlt, hans, fun hmem => hcompleted ?_⟩
      exact RpcClient.mem_completed_append hcomp hmem
    show client.calls.length ≤ _
    rw [hlen]
    exact hinv.age c hold
  · exact hinv.own
  · exact hdropped

/-- An enqueued call stays so when another moves on. -/
theorem enqueued_setPhase {s : RpcClient} {c : Nat} {call : Call} {phase : CallPhase}
    (hcall : s.calls[c]? = some call) (hphase : call.phase ≠ .enqueued) {c' : Nat} {call' : Call}
    (hcall' : s.calls[c']? = some call') (henq : call'.phase = .enqueued) :
    (s.setPhase c call phase)[c']? = some call' := by
  have hne : c ≠ c' := by
    rintro rfl
    obtain rfl : call = call' := Option.some.inj (hcall.symm.trans hcall')
    exact hphase henq
  rw [RpcClient.setPhase, List.getElem?_set_ne hne]
  exact hcall'

/-- A call that is about to enter `pending_` is outstanding. -/
theorem AnswerInv.outstanding_of_allocated {s : Session} (hinv : AnswerInv s)
    (hprom : PromiseInv s.client) {c : Nat} {call : Call}
    (hcall : s.client.calls[c]? = some call) (hphase : call.phase = .allocated) :
    s.Outstanding c := by
  refine ⟨(List.getElem?_eq_some_iff.mp hcall).1, fun hans => ?_, fun hcomp => ?_⟩
  -- answered calls have enqueued their frames
  · obtain ⟨call', hcall', henq⟩ := hinv.enqueued c hans
    obtain rfl : call = call' := Option.some.inj (hcall.symm.trans hcall')
    rw [hphase] at henq
    cases henq
  -- completed calls have been registered
  · obtain ⟨k, hk, hkc⟩ := List.mem_map.mp hcomp
    obtain ⟨n, hreg, -⟩ := hprom.proper k hk
    exact hreg.ne_of_allocated hcall hphase hkc

/-- No entry of `pending_` is overwritten. -/
theorem AnswerInv.register {s : Session} (hinv : AnswerInv s) (hcalls : CallInv s.client)
    (hprom : PromiseInv s.client) {c : Nat} {call : Call}
    (hcall : s.client.calls[c]? = some call) (hphase : call.phase = .allocated) :
    s.client.pending.lookup call.seqId = none := by
  cases hlookup : s.client.pending.lookup call.seqId with
  | none => rfl
  | some c' =>
    obtain ⟨hreg, -⟩ := hprom.pending _ c' hlookup
    obtain ⟨call', hcall', hseq', -⟩ := id hreg
    -- two outstanding calls with one number
    have heq : c' = c := hinv.seqId_inj hcalls (hinv.outstanding_of_pending hprom hlookup)
      (hinv.outstanding_of_allocated hprom hcall hphase) hcall' hcall hseq'
    exact absurd heq (hreg.ne_of_allocated hcall hphase)

/-- `call()` takes a number that is not a key of `pending_`. -/
theorem AnswerInv.nextSeqId_free {s : Session} (hinv : AnswerInv s) (hcalls : CallInv s.client)
    (hprom : PromiseInv s.client)
    (hfree : ∀ c, c + 2 ^ 32 = s.client.calls.length → ¬s.Outstanding c) :
    s.client.pending.lookup s.client.nextSeqId = none := by
  cases hlookup : s.client.pending.lookup s.client.nextSeqId with
  | none => rfl
  | some c =>
    have hout := hinv.outstanding_of_pending hprom hlookup
    obtain ⟨⟨call, hcall, hseq, -⟩, -⟩ := hprom.pending _ c hlookup
    have hage := hinv.age c hout
    have hlt := hout.1
    -- a pending call with this number is `2 ^ 32` calls old
    rw [hcalls.seqId c call hcall, hcalls.next] at hseq
    have hnat := congrArg UInt32.toNat hseq
    rw [UInt32.toNat_ofNat', UInt32.toNat_ofNat'] at hnat
    exact absurd hout (hfree c (by omega))

/-- `call()` makes every other call one older. -/
theorem AnswerInv.call {s : Session} (hinv : AnswerInv s) {client : RpcClient} (new : Call)
    (hfree : ∀ c, c + 2 ^ 32 = s.client.calls.length → ¬s.Outstanding c)
    (hcalls : client.calls = s.client.calls ++ [new])
    (hpending : client.pending = s.client.pending) (hreading : client.reading = s.client.reading)
    (hcomp : client.completions = s.client.completions)
    (hdropped : client.dropped = s.client.dropped) : AnswerInv { s with client } := by
  constructor
  · intro c hc
    obtain ⟨call, hcall, henq⟩ := hinv.enqueued c hc
    refine ⟨call, ?_, henq⟩
    show client.calls[c]? = _
    rw [hcalls, List.getElem?_append_left (List.getElem?_eq_some_iff.mp hcall).1]
    exact hcall
  · show ∀ n c, client.pending.lookup n = some c → _
    rw [hpending]
    exact hinv.pending
  · show ∀ h b r c, client.reading = .matched h b r (some c) → _
    rw [hreading]
    exact hinv.matched
  · show ∀ k ∈ client.completions, _
    rw [hcomp]
    exact hinv.frames
  · show ∀ k ∈ client.completions, _ → client.reading = _
    rw [hcomp, hreading]
    exact hinv.rejected
  · rintro c ⟨hlt, hans, hcompleted⟩
    rw [show client.calls = _ from hcalls, List.length_append, List.length_singleton] at hlt ⊢
    -- only the call that is 2^32 older could become too old, and it is not outstanding
    by_cases hc : c < s.client.calls.length
    · have hold : s.Outstanding c := by
        refine ⟨hc, hans, fun hmem => hcompleted ?_⟩
        show c ∈ client.completions.map _
        rw [hcomp]
        exact hmem
      have hage := hinv.age c hold
      have hne : c + 2 ^ 32 ≠ s.client.calls.length := fun heq => hfree c heq hold
      omega
    · omega
  · exact hinv.own
  · show client.dropped = []
    rw [hdropped]
    exact hinv.dropped

/-- Every step of the client that meets the condition. -/
theorem AnswerInv.client {s : Session} (hinv : AnswerInv s) (hcalls : CallInv s.client)
    (hprom : PromiseInv s.client) {a : RpcClient.Act} {client : RpcClient}
    (hbody : ∀ body, a ≠ .readBody body) (hok : SeqFree s (.client a))
    (hstep : RpcClient.Steps s.client a client) : AnswerInv { s with client } := by
  -- a step that leaves everything alone but the write chain and the flags
  have hkeep : client.calls = s.client.calls → client.pending = s.client.pending →
      client.reading = s.client.reading → client.completions = s.client.completions →
      client.dropped = s.client.dropped → AnswerInv { s with client } := by
    intro hc hp hr hk hd
    refine hinv.of_client ?_ (by rw [hc]) ?_ ?_ ?_ (by rw [hd, hinv.dropped]) []
      (by rw [hk, List.append_nil]) nofun
    · rw [hc]
      exact fun c call hcall henq => ⟨call, hcall, henq⟩
    · rw [hp]
      exact fun n c h => .inl h
    · rw [hr]
      exact fun h b r c h => h
    · rw [hr]
      exact id
  cases hstep with
  | call service method params timeoutMs => exact hinv.call _ hok rfl rfl rfl rfl rfl
  | register c call hcall hphase =>
    have hnone := hinv.register hcalls hprom hcall hphase
    have hout := hinv.outstanding_of_allocated hprom hcall hphase
    refine hinv.of_client ?_ List.length_set ?_ (fun _ _ _ _ h => h) id ?_ []
      (List.append_nil _).symm nofun
    · intro c' call' hcall' henq
      exact ⟨call', enqueued_setPhase hcall (by rw [hphase]; decide) hcall' henq, henq⟩
    · intro n c' hc'
      -- the new entry is that of the call itself
      obtain ⟨-, rfl⟩ | ⟨-, hold⟩ := AList.lookup_insert_eq_some.mp hc'
      · exact .inr hout.2.1
      · exact .inl hold
    · show s.client.dropped ++ (s.client.pending.lookup call.seqId).toList = []
      rw [hnone, hinv.dropped]
      rfl
  | enqueue c call hcall hphase =>
    refine hinv.of_client ?_ List.length_set (fun _ _ h => .inl h) (fun _ _ _ _ h => h) id
      hinv.dropped [] (List.append_nil _).symm nofun
    intro c' call' hcall' henq
    exact ⟨call', enqueued_setPhase hcall (by rw [hphase]; decide) hcall' henq, henq⟩
  | connected hreading hio =>
    exact hinv.of_client (fun c call h henq => ⟨call, h, henq⟩) rfl (fun _ _ h => .inl h) nofun
      (fun h => by cases hreading.symm.trans h) hinv.dropped [] (List.append_nil _).symm nofun
  | headerRead hdrData header hreading =>
    exact hinv.of_client (fun c call h henq => ⟨call, h, henq⟩) rfl (fun _ _ h => .inl h) nofun
      (fun h => by cases hreading.symm.trans h) hinv.dropped [] (List.append_nil _).symm nofun
  | bodyRead header body => exact absurd rfl (hbody body)
  | readEnded a reason hio hread hreading =>
    refine hinv.of_client (fun c call h henq => ⟨call, h, henq⟩) rfl ?_ nofun (fun _ => rfl)
      hinv.dropped _ rfl ?_
    · intro n c hc
      -- `pending_` is empty
      cases hc
    · intro k hk
      obtain ⟨e, -, rfl⟩ := List.mem_map.mp hk
      exact ⟨fun _ => rfl, nofun⟩
  | setValue header body resp call hreading =>
    refine hinv.of_client (fun c call h henq => ⟨call, h, henq⟩) rfl (fun _ _ h => .inl h) nofun
      (fun h => by cases hreading.symm.trans h) hinv.dropped _ rfl ?_
    intro k hk
    obtain ⟨c, hc, rfl⟩ := List.mem_map.mp hk
    obtain rfl := Option.mem_toList.mp hc
    refine ⟨nofun, fun h b ho => ?_⟩
    cases ho
    exact hinv.matched header body resp c hreading
  | writeError item reason w hio hw =>
    refine hinv.of_client (fun c call h henq => ⟨call, h, henq⟩) rfl ?_ (fun _ _ _ _ h => h) id
      hinv.dropped _ rfl ?_
    · intro n c hc
      exact .inl (AList.lookup_erase_eq_some.mp hc).2
    · intro k hk
      obtain ⟨c, -, rfl⟩ := List.mem_map.mp hk
      exact ⟨nofun, nofun⟩
  | pop | startWrite | writeDone | stopIo | joinIo => exact hkeep rfl rfl rfl rfl rfl

/-! ## Answers -/

/-- The call an answer is for is outstanding until then. -/
theorem AnswerInv.outstanding_of_answer {s : Session} (hinv : AnswerInv s) {c : Nat} {call : Call}
    {header : RpcHeader} (hcall : s.client.calls[c]? = some call)
    (hreading : s.client.reading = .body header) (hreached : s.reached c = true)
    (hnew : c ∉ s.answered) : s.Outstanding c := by
  refine ⟨(List.getElem?_eq_some_iff.mp hcall).1, hnew, fun hcomp => ?_⟩
  obtain ⟨k, hk, rfl⟩ := List.mem_map.mp hcomp
  cases ho : k.origin with
  | frame h b =>
    -- satisfied by a frame, hence by its own answer
    obtain ⟨a, ha, htaken, -⟩ := hinv.frames k hk h b ho
    exact hnew (List.mem_map.mpr ⟨a, ha, (hinv.own a ha _ htaken).symm⟩)
  | writeFailed =>
    simp only [reached, Bool.and_eq_true, List.all_eq_true] at hreached
    have := hreached.2 k hk
    simp [ho] at this
  | rejected => cases hreading.symm.trans (hinv.rejected k hk ho)

/-- The call an answer is for has enqueued its request. -/
theorem enqueued_of_reached {s : Session} (hcalls : CallInv s.client)
    (hwrites : WritesInv s.client) {c : Nat} (hreached : s.reached c = true) :
    ∃ call, s.client.calls[c]? = some call ∧ call.phase = .enqueued := by
  simp only [reached, Bool.and_eq_true, List.any_eq_true, decide_eq_true_eq] at hreached
  obtain ⟨⟨item, hmem, rfl⟩, -⟩ := hreached
  have hpushed : item ∈ s.client.writes.pushed := hwrites.chain.prefix_started.subset hmem
  obtain ⟨call, hcall, henq, -⟩ := hcalls.pushed item hpushed
  exact ⟨call, hcall, henq⟩

/-- One more call is answered. -/
theorem mem_answered_append {s : Session} {a : Answer} {c : Nat} {client : RpcClient} :
    c ∈ answered { client, answers := s.answers ++ [a] } ↔ c ∈ s.answered ∨ c = a.call := by
  simp [answered]

/-- One more answer, to call `c`, that takes the promise of this call or none. -/
theorem AnswerInv.of_answer {s : Session} (hinv : AnswerInv s) {c : Nat} {header : RpcHeader}
    {body : Bytes} {client : RpcClient} (hcalls : client.calls = s.client.calls)
    (henq : ∃ call, s.client.calls[c]? = some call ∧ call.phase = .enqueued)
    (hpending : ∀ n c', client.pending.lookup n = some c' →
      s.client.pending.lookup n = some c' ∧ c' ≠ c)
    (hmatched : ∀ h b r c', client.reading = .matched h b r (some c') →
      taken client = some c' ∧ header = h ∧ body = b)
    (hrejected : ∀ k ∈ client.completions, k.origin = .rejected → client.reading = .ended)
    (new : List Completion) (hcomp : client.completions = s.client.completions ++ new)
    (hnew : ∀ k ∈ new, ∀ h b, k.origin ≠ .frame h b)
    (hown : ∀ c', taken client = some c' → c' = c) (hdropped : client.dropped = []) :
    AnswerInv { client, answers := s.answers ++
      [{ call := c, header, body, taken := taken client }] } := by
  have hlast : { call := c, header, body, taken := taken client } ∈ s.answers ++
      [{ call := c, header, body, taken := taken client }] :=
    List.mem_append_right _ (List.mem_singleton.mpr rfl)
  constructor
  · intro c' hc'
    show ∃ call, client.calls[c']? = some call ∧ call.phase = .enqueued
    rw [hcalls]
    obtain hold | rfl := mem_answered_append.mp hc'
    · exact hinv.enqueued c' hold
    · exact henq
  · -- the call that is answered now is no longer pending
    intro n c' hc' hans
    obtain ⟨hold, hne⟩ := hpending n c' hc'
    obtain hans | heq := mem_answered_append.mp hans
    · exact hinv.pending n c' hold hans
    · exact hne heq
  · -- what the loop has matched is this answer
    intro h b r c' hr
    exact ⟨_, hlast, hmatched h b r c' hr⟩
  · intro k hk h b ho
    rw [show client.completions = _ from hcomp] at hk
    obtain hk | hk := List.mem_append.mp hk
    · obtain ⟨a, ha, hrest⟩ := hinv.frames k hk h b ho
      exact ⟨a, List.mem_append_left _ ha, hrest⟩
    · exact absurd ho (hnew k hk h b)
  · exact hrejected
  · rintro c' ⟨hlt, hans, hcompleted⟩
    have hold : s.Outstanding c' := by
      refine ⟨hcalls ▸ hlt, fun h => hans (mem_answered_append.mpr (.inl h)), fun h => ?_⟩
      apply hcompleted
      exact RpcClient.mem_completed_append hcomp h
    show client.calls.length ≤ _
    rw [hcalls]
    exact hinv.age c' hold
  · intro a ha c' hc'
    obtain ha | ha := List.mem_append.mp ha
    · exact hinv.own a ha c' hc'
    · obtain rfl := List.mem_singleton.mp ha
      exact hown c' hc'
  · exact hdropped

/-- An answer takes the promise of the call it is for, if it takes one. -/
theorem AnswerInv.answer {s : Session} (hinv : AnswerInv s) (hcalls : CallInv s.client)
    (hprom : PromiseInv s.client) (hwrites : WritesInv s.client) {c : Nat} {body : Bytes}
    {call : Call} {header : RpcHeader} {client : RpcClient}
    (hcall : s.client.calls[c]? = some call) (hreading : s.client.reading = .body header)
    (hseq : header.seqId = call.seqId) (hreached : s.reached c = true) (hnew : c ∉ s.answered)
    (hstep : RpcClient.Steps s.client (.readBody body) client) :
    AnswerInv { client, answers := s.answers ++
      [{ call := c, header, body, taken := taken client }] } := by
  have hout := hinv.outstanding_of_answer hcall hreading hreached hnew
  have henq := enqueued_of_reached hcalls hwrites hreached
  cases hstep with
  | bodyRead header' body resp hreading' hio hlen hok =>
    obtain rfl : header = header' := by
      have := hreading.symm.trans hreading'
      simpa using this
    refine hinv.of_answer rfl henq ?_ ?_ ?_ [] (List.append_nil _).symm nofun ?_ hinv.dropped
    · intro n c' hc'
      obtain ⟨hne, hold⟩ := AList.lookup_erase_eq_some.mp hc'
      refine ⟨hold, ?_⟩
      -- the entry of this call has just been erased
      rintro rfl
      obtain ⟨⟨call', hcall', rfl, -⟩, -⟩ := hprom.pending n _ hold
      obtain rfl : call = call' := Option.some.inj (hcall.symm.trans hcall')
      exact hne hseq.symm
    · intro h b r c' hr
      obtain ⟨rfl, rfl, rfl, hlookup⟩ : header = h ∧ body = b ∧ resp = r ∧
          s.client.pending.lookup header.seqId = some c' := by simpa using hr
      exact ⟨hlookup, rfl, rfl⟩
    · intro k hk ho
      cases hreading.symm.trans (hinv.rejected k hk ho)
    · intro c' hc'
      -- both are outstanding and have the number of the response
      have hlookup : s.client.pending.lookup header.seqId = some c' := hc'
      obtain ⟨⟨call', hcall', hseq', -⟩, -⟩ := hprom.pending _ c' hlookup
      exact hinv.seqId_inj hcalls (hinv.outstanding_of_pending hprom hlookup) hout hcall' hcall
        (hseq'.trans hseq)
  | readEnded a reason hio hread hnm =>
    refine hinv.of_answer rfl henq ?_ nofun (fun _ _ _ => rfl) _ rfl ?_ nofun hinv.dropped
    · intro n c' hc'
      cases hc'
    · intro k hk h b ho
      obtain ⟨e, -, rfl⟩ := List.mem_map.mp hk
      cases ho

/-- At the beginning no call has been made. -/
theorem answerInv_init : AnswerInv init :=
  ⟨nofun, nofun, nofun, nofun, nofun, fun c hc => absurd hc.1 (Nat.not_lt_zero c), nofun, rfl⟩

/-- A run that meets the condition keeps answers and calls apart. -/
theorem answerInv_of_reaches {s : Session} (h : Reaches step SeqFree init s) : AnswerInv s := by
  apply h.invariant_with (I := fun s => Reachable RpcClient.step RpcClient.init s.client)
  · intro s hs
    exact client_reachable hs
  · exact answerInv_init
  · intro s a s' hreach hinv hok hs
    have hcalls := callInv_of_reachable hreach
    have hprom := promiseInv_of_reachable hreach
    cases steps_of_step hs with
    | client a client hbody hstep =>
      exact hinv.client hcalls hprom hbody hok (RpcClient.steps_of_step hstep)
    | answer c body call header client hcall hreading hseq hreached hnew hstep =>
      exact hinv.answer hcalls hprom (writesInv_of_reachable hreach) hcall hreading hseq hreached
        hnew (RpcClient.steps_of_step hstep)

/-- In a run in which the call made `2 ^ 32` calls before is done with whenever `call()`
    takes a number, that number is not a key of `pending_`, no promise is dropped by an
    overwrite, and every promise satisfied by a response is the one of the call whose
    request the response answers. -/
theorem seqId_never_reused (s : Session) (h : Reaches step SeqFree init s) :
    (∀ service method params timeoutMs,
      SeqFree s (.client (.call service method params timeoutMs)) →
      s.client.pending.lookup s.client.nextSeqId = none) ∧
    s.client.dropped = [] ∧
    (∀ a ∈ s.answers, ∀ c, a.taken = some c → c = a.call) ∧
    ∀ k ∈ s.client.completions, ∀ h b, k.origin = .frame h b →
      ∃ a ∈ s.answers, a.call = k.call ∧ a.header = h ∧ a.body = b := by
  have hreach := client_reachable h
  have hinv := answerInv_of_reaches h
  refine ⟨?_, hinv.dropped, hinv.own, ?_⟩
  · intro service method params timeoutMs hfree
    exact hinv.nextSeqId_free (callInv_of_reachable hreach) (promiseInv_of_reachable hreach) hfree
  · intro k hk header b ho
    -- the frame is an answer, which was taken by the call it answers
    obtain ⟨a, ha, htaken, hframe⟩ := hinv.frames k hk header b ho
    exact ⟨a, ha, (hinv.own a ha _ htaken).symm, hframe⟩

/-- Two calls, answered in the other order. -/
theorem seqId_never_reused_twoCalls :
    ∃ s : Session, Reaches step SeqFree init s ∧ s.answers.map (fun a => a.call) = [1, 0] ∧
      s.client.dropped = [] ∧ ∀ a ∈ s.answers, ∀ c, a.taken = some c → c = a.call := by
  let resp : RpcResponse := { errorCode := 0, errorMsg := [], result := [7] }
  let header (n : UInt32) : RpcHeader := (sendResponse (requestHeader n 0) resp).1
  let item (n : UInt32) (c : Nat) : WriteItem :=
    { frame := Call.frame ⟨[97], [98], [], 5000, n, .enqueued⟩, seqId := n, call := c }
  have hrun : ∃ s : Session,
      Reaches step (fun s _ => s.client.calls.length < 2 ^ 32) init s ∧
        s.answers.map (fun a => a.call) = [1, 0] := exists_reaches_of_run
    [.client .connected, .client (.call [97] [98] [] 5000), .client (.call [97] [98] [] 5000),
     .client (.register 0), .client (.register 1), .client (.enqueue 0), .client (.enqueue 1),
     .client (.pop (some 0)), .client (.startWrite (some 0) (item 1 0)),
     .client (.writeDone (item 1 0)), .client (.pop none),
     .client (.startWrite none (item 2 1)),
     .client (.readHeader (serializeHeader (header 2))), .answer 1 resp.serialize,
     .client .setValue, .client (.readHeader (serializeHeader (header 1))),
     .answer 0 resp.serialize, .client .setValue] (by decide)
  obtain ⟨s, hs, hanswers⟩ := hrun
  have hfree : Reaches step SeqFree init s := by
    refine hs.mono fun s a hlt => ?_
    unfold SeqFree
    split
    · intro c heq
      omega
    · trivial
  have hnever := seqId_never_reused s hfree
  exact ⟨s, hfree, hanswers, hnever.2.1, hnever.2.2.1⟩

/-! ## After `2 ^ 32` calls -/

/-- The client waits for a response, and nobody is writing. -/
structure Quiet (s : Session) : Prop where
  reading : s.client.reading = .header
  running : s.client.ioStopped = false
  queue : s.client.writes.queue = []
  writing : s.client.writes.writing = false
  threads : s.client.writes.threads = []
  inflight : s.client.writes.inflight = []

/-- The call a caller without arguments makes next. -/
def nextCall (s : Session) : Call :=
  { service := [], method := [], params := [], timeoutMs := 0, seqId := s.client.nextSeqId,
    phase := .enqueued }

/-- What this call enqueues. -/
def nextItem (s : Session) : WriteItem :=
  { frame := Call.frame { s.nextCall with phase := .registered }
    seqId := s.client.nextSeqId
    call := s.client.calls.length }

/-- The session after one more call, whose request has been written. -/
def afterCall (s : Session) : Session :=
  { s with client := { s.client with
      nextSeqId := s.client.nextSeqId + 1
      calls := s.client.calls ++ [s.nextCall]
      pending := s.client.pending.insert s.client.nextSeqId s.client.calls.length
      dropped := s.client.dropped ++ (s.client.pending.lookup s.client.nextSeqId).toList
      writes := { s.client.writes with
        finished := s.client.writes.finished ++ [s.nextItem]
        pushed := s.client.writes.pushed ++ [s.nextItem] } } }

/-- A quiet client can make the call and write its request. -/
theorem reachable_afterCall {s : Session} (h : Quiet s) : Reachable step s s.afterCall := by
  -- the caller is the writer: from `call()` to the end of its write
  have hrun : run step s
      [.client (.call [] [] [] 0), .client (.register s.client.calls.length),
       .client (.enqueue s.client.calls.length), .client (.pop (some s.client.calls.length)),
       .client (.startWrite (some s.client.calls.length) s.nextItem),
       .client (.writeDone s.nextItem), .client (.pop none)] = some s.afterCall := by
    obtain ⟨hreading, hrunning, hqueue, hwriting, hthreads, hinflight⟩ := h
    obtain ⟨⟨nextSeqId, pending, ⟨queue, writing, threads, inflight, finished, lost, pushed⟩,
      reading, ioStopped, joined, calls, completions, dropped, received, writeFailed⟩,
      answers⟩ := s
    simp only at hreading hrunning hqueue hwriting hthreads hinflight
    subst hreading hrunning hqueue hwriting hthreads hinflight
    simp [run, step, RpcClient.step, setPhase, WriteChain.push, WriteChain.pop, WriteChain.start,
      WriteChain.complete, afterCall, nextItem, nextCall]
  exact reachable_of_run _ hrun

/-- A response without a message and without a result. -/
def emptyResponse : RpcResponse := { errorCode := 0, errorMsg := [], result := [] }

/-- Its header, for the request with a sequence number. -/
def emptyHeader (n : UInt32) : RpcHeader := (sendResponse (requestHeader n 0) emptyResponse).1

/-- The session after such a response to call `c`, which has the number `n`. -/
def afterAnswer (s : Session) (c : Nat) (n : UInt32) : Session :=
  { client := { s.client with
      pending := s.client.pending.erase n
      received := s.client.received ++ [(emptyHeader n, emptyResponse.serialize)]
      completions := s.client.completions ++ (s.client.pending.lookup n).toList.map fun c =>
        { call := c, resp := emptyResponse
          origin := .frame (emptyHeader n) emptyResponse.serialize } }
    answers := s.answers ++ [{ call := c, header := emptyHeader n, body := emptyResponse.serialize
                               taken := s.client.pending.lookup n }] }

/-- A quiet client can receive such a response to a call whose request was written. -/
theorem reachable_afterAnswer {s : Session} (h : Quiet s) {c : Nat} {call : Call}
    (hcall : s.client.calls[c]? = some call) (hreached : s.reached c = true)
    (hnew : c ∉ s.answered) : Reachable step s (s.afterAnswer c call.seqId) := by
  have hdec : RpcResponse.deserialize emptyResponse.serialize = .ok emptyResponse := by decide
  have hlen : emptyResponse.serialize.length = (emptyHeader call.seqId).bodySize.toNat := rfl
  have hmagic : (emptyHeader call.seqId).magic = RpcHeader.MAGIC := rfl
  have hseq : (emptyHeader call.seqId).seqId = call.seqId := rfl
  have hrun : run step s
      [.client (.readHeader (serializeHeader (emptyHeader call.seqId))),
       .answer c emptyResponse.serialize, .client .setValue] =
      some (s.afterAnswer c call.seqId) := by
    -- only the read loop takes part
    obtain ⟨hreading, hrunning, -⟩ := h
    obtain ⟨⟨nextSeqId, pending, writes, reading, ioStopped, joined, calls, completions, dropped,
      received, writeFailed⟩, answers⟩ := s
    simp only at hreading hrunning hcall
    subst hreading hrunning
    simp only [reached, answered] at hreached hnew
    simp only [run, step, RpcClient.step, onReadHeader, onReadBody, onMatched, hcall, hmagic, hseq,
      hlen, hdec, reached, hreached, answered, hnew, taken, afterAnswer,
      deserializeHeader_serializeHeader, serializeHeader_length, ne_eq, not_true_eq_false,
      not_false_eq_true, if_true, if_false, and_self, Option.map_some]
    rfl
  exact reachable_of_run _ hrun

/-- `n + 1` calls have been made; the first waits for its answer, the others are done. -/
structure Waiting (n : Nat) (s : Session) : Prop where
  quiet : Quiet s
  length : s.client.calls.length = n + 1
  first : s.client.pending.lookup 1 = some 0
  written : ∃ item ∈ s.client.writes.finished, item.call = 0
  answered : ∀ c ∈ s.answered, c ≠ 0 ∧ c ≤ n
  sound : ∀ k ∈ s.client.completions, k.origin ≠ .writeFailed

/-- A call whose item is among the finished writes has reached the server. -/
theorem reached_of_mem {s : Session} {c : Nat} {item : WriteItem}
    (hmem : item ∈ s.client.writes.finished) (hcall : item.call = c)
    (hsound : ∀ k ∈ s.client.completions, k.origin ≠ .writeFailed) : s.reached c = true := by
  simp only [reached, Bool.and_eq_true, List.any_eq_true, List.all_eq_true, decide_eq_true_eq]
  refine ⟨⟨item, List.mem_append_left _ hmem, hcall⟩, fun k hk => ?_⟩
  simp [hsound k hk]

/-- After the call the client is quiet again. -/
theorem Quiet.afterCall {s : Session} (h : Quiet s) : Quiet s.afterCall :=
  ⟨h.reading, h.running, h.queue, h.writing, h.threads, h.inflight⟩

/-- After the response the client is quiet again. -/
theorem Quiet.afterAnswer {s : Session} (h : Quiet s) (c : Nat) (n : UInt32) :
    Quiet (s.afterAnswer c n) :=
  ⟨h.reading, h.running, h.queue, h.writing, h.threads, h.inflight⟩

/-- The request of the last call is at the server. -/
theorem reached_afterCall {s : Session}
    (hsound : ∀ k ∈ s.client.completions, k.origin ≠ .writeFailed) :
    s.afterCall.reached s.client.calls.length = true := by
  have hmem : s.nextItem ∈ s.afterCall.client.writes.finished :=
    List.mem_append_right _ (List.mem_singleton.mpr rfl)
  exact reached_of_mem hmem rfl hsound

/-- One more call is made and answered. -/
theorem Waiting.roundTrip {n : Nat} {s : Session} (h : Waiting n s)
    (hcalls : CallInv s.client) (hn : n + 1 < 2 ^ 32) :
    ∃ s', Reachable step s s' ∧ Waiting (n + 1) s' := by
  -- the number of the new call is not that of the first
  have hnext : s.client.nextSeqId ≠ 1 := by
    rw [hcalls.next, h.length]
    intro heq
    have hnat := congrArg UInt32.toNat heq
    rw [UInt32.toNat_ofNat'] at hnat
    have hone : (1 : UInt32).toNat = 1 := rfl
    omega
  have hlast : s.afterCall.client.calls[n + 1]? = some s.nextCall := by
    show (s.client.calls ++ [s.nextCall])[n + 1]? = _
    rw [← h.length, List.getElem?_concat_length]
  have hreached : s.afterCall.reached (n + 1) = true := by
    have := reached_afterCall h.sound
    rwa [h.length] at this
  have hnew : n + 1 ∉ s.afterCall.answered := by
    intro hmem
    have := (h.answered _ hmem).2
    omega
  refine ⟨s.afterCall.afterAnswer (n + 1) s.client.nextSeqId,
    (reachable_afterCall h.quiet).trans
      (reachable_afterAnswer h.quiet.afterCall hlast hreached hnew),
    h.quiet.afterCall.afterAnswer _ _, ?_, ?_, ?_, ?_, ?_⟩
  · show (s.client.calls ++ [s.nextCall]).length = _
    rw [List.length_append, List.length_singleton, h.length]
  -- the new entry is gone, and the first is still there
  · show ((s.client.pending.insert s.client.nextSeqId _).erase s.client.nextSeqId).lookup 1 = _
    rw [AList.lookup_erase_ne hnext.symm, AList.lookup_insert_ne hnext.symm]
    exact h.first
  · obtain ⟨item, hmem, hitem⟩ := h.written
    exact ⟨item, List.mem_append_left _ hmem, hitem⟩
  · intro c hc
    obtain hc | rfl := mem_answered_append.mp hc
    · have := h.answered c hc
      omega
    · exact ⟨Nat.succ_ne_zero n, Nat.le_refl _⟩
  · intro k hk
    obtain hk | hk := List.mem_append.mp hk
    · exact h.sound k hk
    · obtain ⟨c, -, rfl⟩ := List.mem_map.mp hk
      exact nofun

/-- The first call stays unanswered for as long as the others come and go. -/
theorem exists_waiting (n : Nat) (hn : n < 2 ^ 32) :
    ∃ s, Reachable step init s ∧ Waiting n s := by
  induction n with
  | zero =>
    have hconn : step init (.client .connected) =
        some { init with client := { RpcClient.init with reading := .header } } := rfl
    have hquiet : Quiet { init with client := { RpcClient.init with reading := .header } } :=
      ⟨rfl, rfl, rfl, rfl, rfl, rfl⟩
    -- the first call is made, and its request written
    refine ⟨_, (Reaches.refl.tail _ trivial hconn).trans (reachable_afterCall hquiet),
      hquiet.afterCall, rfl, rfl, ?_, nofun, nofun⟩
    exact ⟨_, List.mem_singleton.mpr rfl, rfl⟩
  | succ n ih =>
    obtain ⟨s, hs, hwaiting⟩ := ih (by omega)
    have hcalls := callInv_of_reachable (client_reachable hs)
    -- the others are answered one after another
    obtain ⟨s', hs', hwaiting'⟩ := hwaiting.roundTrip hcalls hn
    exact ⟨s', hs.trans hs', hwaiting'⟩

/-- One call is not answered and `2 ^ 32 - 1` are.  The next call takes the number that is
    still a key of `pending_`: the promise of the first call is dropped, and its answer
    satisfies the newer one. -/
theorem seqId_reused :
    (∃ s, Reachable step init s ∧ s.client.pending.lookup s.client.nextSeqId = some 0) ∧
    ∃ s, Reachable step init s ∧ 0 ∈ s.client.dropped ∧
      ∃ a ∈ s.answers, a.call = 0 ∧ a.taken = some (2 ^ 32) ∧
        ∃ k ∈ s.client.completions, k.call = 2 ^ 32 ∧ k.origin = .frame a.header a.body := by
  obtain ⟨s, hs, hwaiting⟩ := exists_waiting (2 ^ 32 - 1) (by omega)
  have hcalls := callInv_of_reachable (client_reachable hs)
  have hlen : s.client.calls.length = 2 ^ 32 := hwaiting.length
  have hnext : s.client.nextSeqId = 1 := by
    rw [hcalls.next, hlen]
    rfl
  have hlookup : s.client.pending.lookup s.client.nextSeqId = some 0 := by
    rw [hnext]
    exact hwaiting.first
  refine ⟨⟨s, hs, hlookup⟩, ?_⟩
  -- the number 1 goes to call `2 ^ 32`, and then the answer to call 0 comes
  obtain ⟨call, hcall⟩ : ∃ call, s.client.calls[0]? = some call :=
    ⟨_, List.getElem?_eq_getElem (by omega)⟩
  have hseq : call.seqId = 1 := hcalls.seqId 0 call hcall
  have hcall' : s.afterCall.client.calls[0]? = some call := by
    show (s.client.calls ++ [s.nextCall])[0]? = _
    rw [List.getElem?_append_left (by omega)]
    exact hcall
  obtain ⟨item, hmem, hitem⟩ := hwaiting.written
  have hreached : s.afterCall.reached 0 = true :=
    reached_of_mem (List.mem_append_left _ hmem) hitem hwaiting.sound
  have hnew : 0 ∉ s.afterCall.answered := fun h => (hwaiting.answered 0 h).1 rfl
  have htaken : s.afterCall.client.pending.lookup call.seqId = some (2 ^ 32) := by
    show (s.client.pending.insert s.client.nextSeqId s.client.calls.length).lookup _ = _
    rw [hseq, hnext, AList.lookup_insert, hlen]
  refine ⟨s.afterCall.afterAnswer 0 call.seqId,
    (hs.trans (reachable_afterCall hwaiting.quiet)).trans
      (reachable_afterAnswer hwaiting.quiet.afterCall hcall' hreached hnew), ?_, ?_⟩
  · show 0 ∈ s.client.dropped ++ (s.client.pending.lookup s.client.nextSeqId).toList
    rw [hlookup]
    simp
  -- the response goes to the call that is now registered under its number
  · refine ⟨_, List.mem_append_right _ (List.mem_singleton.mpr rfl), rfl, htaken, ?_⟩
    refine ⟨{ call := 2 ^ 32, resp := emptyResponse, origin := _ },
      List.mem_append_right _ (List.mem_map.mpr ⟨2 ^ 32, ?_, rfl⟩), rfl, rfl⟩
    rw [htaken]
    simp

end Rpc.Session
