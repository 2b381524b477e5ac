import Rpc.ForStd.AList
import Rpc.Spec.ClientSteps

/-!
# Promises are satisfied at most once

`PromiseInv` follows a promise from its registration in `pending_` to its
`set_value`: an entry of `pending_` belongs to a registered call that has not
been completed, the entry that the read handler has taken out and not yet
completed is in neither place, and each completion by a frame is by a decoded
frame with the call's own sequence number.  Nothing is assumed about the bytes
the server sends.
-/

namespace Rpc.RpcClient

open Transition

/-- The calls whose promise has been satisfied. -/
def completed (s : RpcClient) : List Nat := s.completions.map fun k => k.call

/-- Satisfied promises stay satisfied. -/
theorem mem_completed_append {s s' : RpcClient} {ks : List Completion} {c : Nat}
    (h : s'.completions = s.completions ++ ks) (hc : c ∈ s.completed) : c ∈ s'.completed := by
  unfold completed at hc ⊢
  rw [h, List.map_append]
  exact List.mem_append_left _ hc

/-- Call `c` has the sequence number `n` and has reached `pending_`. -/
def Registered (s : RpcClient) (n : UInt32) (c : Nat) : Prop :=
  ∃ call, s.calls[c]? = some call ∧ call.seqId = n ∧ call.phase ≠ .allocated

/-- A call has one sequence number. -/
theorem Registered.seqId_unique {s : RpcClient} {n m : UInt32} {c : Nat}
    (h : s.Registered n c) (h' : s.Registered m c) : n = m := by
  obtain ⟨call, hcall, rfl, _⟩ := h
  obtain ⟨call', hcall', rfl, _⟩ := h'
  rw [hcall] at hcall'
  obtain rfl := Option.some.inj hcall'
  rfl

/-- A call that has not reached `pending_` is not registered. -/
theorem Registered.ne_of_allocated {s : RpcClient} {n : UInt32} {c c' : Nat} {call : Call}
    (h : s.Registered n c') (hcall : s.calls[c]? = some call) (hphase : call.phase = .allocated) :
    c' ≠ c := by
  rintro rfl
  obtain ⟨call', hcall', _, hphase'⟩ := h
  rw [hcall] at hcall'
  obtain rfl := Option.some.inj hcall'
  exact hphase' hphase

/-- A call stays registered when another is made. -/
theorem Registered.append {s s' : RpcClient} {n : UInt32} {c : Nat} (new : Call)
    (hs' : s'.calls = s.calls ++ [new]) (h : s.Registered n c) : s'.Registered n c := by
  obtain ⟨call, hcall, hseq, hphase⟩ := h
  refine ⟨call, ?_, hseq, hphase⟩
  rw [hs', List.getElem?_append_left (List.getElem?_eq_some_iff.mp hcall).1]
  exact hcall

/-- A call stays registered when a call moves on. -/
theorem Registered.setPhase {s s' : RpcClient} {n : UInt32} {c c' : Nat} {call : Call}
    {phase : CallPhase} (hcall : s.calls[c']? = some call) (hnew : phase ≠ .allocated)
    (hs' : s'.calls = s.setPhase c' call phase) (h : s.Registered n c) : s'.Registered n c := by
  obtain ⟨call₀, hcall₀, hseq, hphase⟩ := h
  by_cases heq : c' = c
  · subst heq
    rw [hcall] at hcall₀
    obtain rfl := Option.some.inj hcall₀
    have hlt := (List.getElem?_eq_some_iff.mp hcall).1
    exact ⟨{ call with phase }, by simp [hs', RpcClient.setPhase, hlt], hseq, hnew⟩
  · exact ⟨call₀, by simp [hs', RpcClient.setPhase, heq, hcall₀], hseq, hphase⟩

/-- A completion is of a registered call, and if by a frame, then by a decoded
    one with the call's sequence number. -/
def Completion.Proper (s : RpcClient) (k : Completion) : Prop :=
  ∃ n, s.Registered n k.call ∧ ∀ h b, k.origin = .frame h b →
    h.seqId = n ∧ RpcResponse.deserialize b = .ok k.resp ∧ (h, b) ∈ s.received

/-- The invariant of the promises. -/
structure PromiseInv (s : RpcClient) : Prop where
  pending : ∀ n c, s.pending.lookup n = some c → s.Registered n c ∧ c ∉ s.completed
  frame : ∀ h b r call, s.reading = .matched h b r call →
    RpcResponse.deserialize b = .ok r ∧ (h, b) ∈ s.received
  matched : ∀ h b r c, s.reading = .matched h b r (some c) →
    s.Registered h.seqId c ∧ c ∉ s.completed ∧ ∀ n, s.pending.lookup n ≠ some c
  proper : ∀ k ∈ s.completions, Completion.Proper s k
  nodup : s.completed.Nodup

/-- At the beginning no call has been made. -/
theorem promiseInv_init : PromiseInv init :=
  ⟨by simp [init], by simp [init], by simp [init], by simp [init], by simp [init, completed]⟩

/-- The completions `ks` of calls not completed before, together with what they
    take out of `pending_` and of the read handler, keep the invariant. -/
theorem PromiseInv.complete {s : RpcClient} (hinv : PromiseInv s) (ks : List Completion)
    (pending : AList fun _ : UInt32 => Nat) (reading : Reading)
    (hnodup : (ks.map fun k => k.call).Nodup)
    (hks : ∀ k ∈ ks, Completion.Proper s k ∧ k.call ∉ s.completed)
    (hpending : ∀ n c, pending.lookup n = some c →
      s.pending.lookup n = some c ∧ ∀ k ∈ ks, k.call ≠ c)
    (hreading : ∀ h b r call, reading = .matched h b r call →
      s.reading = .matched h b r call ∧ ∀ c, call = some c → ∀ k ∈ ks, k.call ≠ c) :
    PromiseInv { s with completions := s.completions ++ ks, pending, reading } := by
  -- a call that was not completed, and is none of these, is not completed after them
  have hnew : ∀ c, c ∉ s.completed → (∀ k ∈ ks, k.call ≠ c) →
      c ∉ (s.completions ++ ks).map fun k => k.call := by
    intro c hold hks'
    rw [List.map_append, List.mem_append]
    rintro (h | h)
    · exact hold h
    · obtain ⟨k, hk, hkc⟩ := List.mem_map.mp h
      exact hks' k hk hkc
  constructor
  · intro n c hc
    obtain ⟨hold, hfresh⟩ := hpending n c hc
    obtain ⟨hreg, hcomp⟩ := hinv.pending n c hold
    exact ⟨hreg, hnew c hcomp hfresh⟩
  · intro h b r call hr
    exact hinv.frame h b r call (hreading h b r call hr).1
  · intro h b r c hr
    obtain ⟨hold, hfresh⟩ := hreading h b r (some c) hr
    obtain ⟨hreg, hcomp, hnp⟩ := hinv.matched h b r c hold
    exact ⟨hreg, hnew c hcomp (hfresh c rfl), fun n hn => hnp n (hpending n c hn).1⟩
  · intro k hk
    obtain hk | hk := List.mem_append.mp hk
    · exact hinv.proper k hk
    · exact (hks k hk).1
  · show ((s.completions ++ ks).map fun k => k.call).Nodup
    rw [List.map_append, List.nodup_append]
    refine ⟨hinv.nodup, hnodup, ?_⟩
    intro c hc c' hc' heq
    obtain ⟨k, hk, rfl⟩ := List.mem_map.mp hc'
    exact (hks k hk).2 (heq ▸ hc)

/-- `register` puts a call into `pending_` that no other place knows yet. -/
theorem PromiseInv.register {s : RpcClient} (hinv : PromiseInv s) {c : Nat} {call : Call}
    (hcall : s.calls[c]? = some call) (hphase : call.phase = .allocated) :
    PromiseInv { s with
      calls := s.setPhase c call .registered
      pending := s.pending.insert call.seqId c
      dropped := s.dropped ++ (s.pending.lookup call.seqId).toList } := by
  have hmono : ∀ n c', s.Registered n c' → RpcClient.Registered { s with
      calls := s.setPhase c call .registered
      pending := s.pending.insert call.seqId c
      dropped := s.dropped ++ (s.pending.lookup call.seqId).toList } n c' :=
    fun n c' h => h.setPhase hcall (by decide) rfl
  have hlt := (List.getElem?_eq_some_iff.mp hcall).1
  -- only registered calls are completed, and this one is not registered yet
  have hfresh : c ∉ s.completed := by
    intro hc
    obtain ⟨k, hk, hkc⟩ := List.mem_map.mp hc
    obtain ⟨n, hreg, _⟩ := hinv.proper k hk
    exact hreg.ne_of_allocated hcall hphase hkc
  constructor
  · intro n c' hc'
    obtain ⟨rfl, rfl⟩ | ⟨_, hold⟩ := AList.lookup_insert_eq_some.mp hc'
    · exact ⟨⟨{ call with phase := .registered }, by simp [RpcClient.setPhase, hlt], rfl,
        nofun⟩, hfresh⟩
    · exact ⟨hmono n c' (hinv.pending n c' hold).1, (hinv.pending n c' hold).2⟩
  · exact hinv.frame
  · intro h b r c' hr
    obtain ⟨hreg, hcomp, hnp⟩ := hinv.matched h b r c' hr
    refine ⟨hmono _ c' hreg, hcomp, ?_⟩
    intro n hn
    obtain ⟨_, heq⟩ | ⟨_, hold⟩ := AList.lookup_insert_eq_some.mp hn
    · exact hreg.ne_of_allocated hcall hphase heq
    · exact hnp n hold
  · intro k hk
    obtain ⟨n, hreg, hframe⟩ := hinv.proper k hk
    exact ⟨n, hmono n k.call hreg, hframe⟩
  · exact hinv.nodup

/-- A step that changes nothing but the list of calls, and keeps them registered. -/
theorem PromiseInv.calls {s : RpcClient} (hinv : PromiseInv s) (calls : List Call)
    (hmono : ∀ n c, s.Registered n c → RpcClient.Registered { s with calls } n c) :
    PromiseInv { s with calls } := by
  constructor
  · intro n c hc
    exact ⟨hmono n c (hinv.pending n c hc).1, (hinv.pending n c hc).2⟩
  · exact hinv.frame
  · intro h b r c hr
    obtain ⟨hreg, hrest⟩ := hinv.matched h b r c hr
    exact ⟨hmono _ c hreg, hrest⟩
  · intro k hk
    obtain ⟨n, hreg, hframe⟩ := hinv.proper k hk
    exact ⟨n, hmono n k.call hreg, hframe⟩
  · exact hinv.nodup

/-- A decoded frame takes the entry with its sequence number out of `pending_`. -/
theorem PromiseInv.bodyRead {s : RpcClient} (hinv : PromiseInv s) (header : RpcHeader)
    (body : Bytes) (resp : RpcResponse) (hok : RpcResponse.deserialize body = .ok resp) :
    PromiseInv { s with
      reading := .matched header body resp (s.pending.lookup header.seqId)
      pending := s.pending.erase header.seqId
      received := s.received ++ [(header, body)] } := by
  constructor
  · intro n c hc
    exact hinv.pending n c (AList.lookup_erase_eq_some.mp hc).2
  · intro h b r call hr
    cases hr
    exact ⟨hok, by simp⟩
  · intro h b r c hr
    obtain ⟨rfl, rfl, rfl, hlookup⟩ : header = h ∧ body = b ∧ resp = r ∧
        s.pending.lookup header.seqId = some c := by simpa using hr
    obtain ⟨hreg, hcomp⟩ := hinv.pending _ _ hlookup
    refine ⟨hreg, hcomp, ?_⟩
    intro n hn
    -- another entry of the same call would have the same key
    obtain ⟨hne, hold⟩ := AList.lookup_erase_eq_some.mp hn
    exact hne ((hinv.pending n c hold).1.seqId_unique hreg)
  · intro k hk
    obtain ⟨n, hreg, hframe⟩ := hinv.proper k hk
    refine ⟨n, hreg, fun h b ho => ?_⟩
    obtain ⟨hn, hdec, hmem⟩ := hframe h b ho
    exact ⟨hn, hdec, List.mem_append_left _ hmem⟩
  · exact hinv.nodup

/-- `reject_all_pending` completes each pending call once. -/
theorem PromiseInv.readEnded {s : RpcClient} (hinv : PromiseInv s) (reason : Bytes) :
    PromiseInv { s.rejectAllPending reason with reading := .ended } := by
  refine hinv.complete _ ∅ .ended ?_ ?_ (by simp) (by simp)
  · rw [List.map_map]
    -- one call under two keys would have two sequence numbers
    apply AList.nodup_values
    intro n m c hn hm
    exact (hinv.pending n c hn).1.seqId_unique (hinv.pending m c hm).1
  · intro k hk
    obtain ⟨e, he, rfl⟩ := List.mem_map.mp hk
    obtain ⟨hreg, hcomp⟩ := hinv.pending e.1 e.2 (AList.lookup_of_mem_entries he)
    exact ⟨⟨e.1, hreg, by simp⟩, hcomp⟩

/-- `set_value` completes the call the read handler has taken out. -/
theorem PromiseInv.setValue {s : RpcClient} (hinv : PromiseInv s) {header : RpcHeader}
    {body : Bytes} {resp : RpcResponse} {call : Option Nat}
    (hr : s.reading = .matched header body resp call) :
    PromiseInv (s.onMatched header body resp call) := by
  -- `frame` has kept what the handler decoded
  obtain ⟨hdec, hmem⟩ := hinv.frame header body resp call hr
  cases call with
  | none => exact hinv.complete [] s.pending .header (by simp) (by simp) (by simp) (by simp)
  | some c =>
    obtain ⟨hreg, hcomp, hnp⟩ := hinv.matched header body resp c hr
    refine hinv.complete [_] s.pending .header (by simp) ?_ ?_ (by simp)
    · intro k hk
      obtain rfl := List.mem_singleton.mp hk
      refine ⟨⟨header.seqId, hreg, fun h b ho => ?_⟩, hcomp⟩
      cases ho
      exact ⟨rfl, hdec, hmem⟩
    -- what the handler took out is no longer in `pending_`
    · intro n c' hc'
      refine ⟨hc', fun k hk => ?_⟩
      obtain rfl := List.mem_singleton.mp hk
      rintro rfl
      exact hnp n hc'

/-- A failed write completes the call under its sequence number, if any. -/
theorem PromiseInv.writeError {s : RpcClient} (hinv : PromiseInv s) (item : WriteItem)
    (reason : Bytes) : PromiseInv (s.onWriteError item reason) := by
  have hkeep : PromiseInv { s with
      completions := s.completions ++ (s.pending.lookup item.seqId).toList.map fun c =>
        { call := c, resp := closedResponse reason, origin := .writeFailed }
      pending := s.pending.erase item.seqId } := by
    cases hlookup : s.pending.lookup item.seqId with
    | none =>
      refine hinv.complete [] _ s.reading (by simp) (by simp) ?_ (by simp)
      intro n c hc
      exact ⟨(AList.lookup_erase_eq_some.mp hc).2, by simp⟩
    | some c =>
      obtain ⟨hreg, hcomp⟩ := hinv.pending _ c hlookup
      refine hinv.complete [_] _ s.reading (by simp) ?_ ?_ ?_
      · intro k hk
        obtain rfl := List.mem_singleton.mp hk
        exact ⟨⟨item.seqId, hreg, by simp⟩, hcomp⟩
      · intro n c' hc'
        obtain ⟨hne, hold⟩ := AList.lookup_erase_eq_some.mp hc'
        refine ⟨hold, fun k hk => ?_⟩
        obtain rfl := List.mem_singleton.mp hk
        rintro rfl
        -- another entry of the same call would have the same key
        exact hne ((hinv.pending n _ hold).1.seqId_unique hreg)
      · intro h b r call hr
        refine ⟨hr, fun c' hc' k hk => ?_⟩
        subst hc'
        obtain rfl := List.mem_singleton.mp hk
        rintro rfl
        -- what the read handler holds is not pending
        exact (hinv.matched h b r _ hr).2.2 item.seqId hlookup
  exact ⟨hkeep.pending, hkeep.frame, hkeep.matched, hkeep.proper, hkeep.nodup⟩

/-- Every step keeps the invariant. -/
theorem Steps.promiseInv {s s' : RpcClient} {a : Act} (h : Steps s a s') (hinv : PromiseInv s) :
    PromiseInv s' := by
  cases h with
  | call service method params timeoutMs =>
    have hkeep := hinv.calls _ fun n c hreg => hreg.append
      { service, method, params, timeoutMs, seqId := s.nextSeqId, phase := .allocated } rfl
    exact ⟨hkeep.pending, hkeep.frame, hkeep.matched, hkeep.proper, hkeep.nodup⟩
  | register c call hcall hphase => exact hinv.register hcall hphase
  | enqueue c call hcall hphase =>
    have hkeep := hinv.calls (s.setPhase c call .enqueued) fun n c hreg =>
      hreg.setPhase hcall (by decide) rfl
    exact ⟨hkeep.pending, hkeep.frame, hkeep.matched, hkeep.proper, hkeep.nodup⟩
  | connected hreading =>
    exact ⟨hinv.pending, by simp, by simp, hinv.proper, hinv.nodup⟩
  | headerRead hdrData header hreading =>
    exact ⟨hinv.pending, by simp, by simp, hinv.proper, hinv.nodup⟩
  | bodyRead header body resp hreading hio hlen hok => exact hinv.bodyRead header body resp hok
  | readEnded a reason => exact hinv.readEnded reason
  | setValue header body resp call hreading => exact hinv.setValue hreading
  | writeError item reason w hio hw =>
    have hkeep := hinv.writeError item reason
    exact ⟨hkeep.pending, hkeep.frame, hkeep.matched, hkeep.proper, hkeep.nodup⟩
  | pop | startWrite | writeDone | stopIo | joinIo =>
    exact ⟨hinv.pending, hinv.frame, hinv.matched, hinv.proper, hinv.nodup⟩

/-- Whatever the server sends and however the threads interleave, the invariant holds. -/
theorem promiseInv_of_reachable {s : RpcClient} (h : Reachable step init s) : PromiseInv s :=
  h.invariant promiseInv_init fun _ _ _ hinv _ hs => (steps_of_step hs).promiseInv hinv

/-- No promise is satisfied twice, no satisfied promise is pending, and a call is
    completed with a response of the server only by a decoded frame that carries
    the call's sequence number. -/
theorem promise_satisfied_once (s : RpcClient) (h : Reachable step init s) :
    (s.completions.map fun k => k.call).Nodup ∧
    (∀ n c, s.pending.lookup n = some c → ∀ k ∈ s.completions, k.call ≠ c) ∧
    ∀ k ∈ s.completions, ∀ header body, k.origin = .frame header body →
      ∃ call, s.calls[k.call]? = some call ∧ header.seqId = call.seqId ∧
        (header, body) ∈ s.received ∧ RpcResponse.deserialize body = .ok k.resp := by
  have hinv := promiseInv_of_reachable h
  refine ⟨hinv.nodup, ?_, ?_⟩
  · intro n c hc k hk heq
    exact (hinv.pending n c hc).2 (List.mem_map.mpr ⟨k, hk, heq⟩)
  · intro k hk header body ho
    obtain ⟨n, ⟨call, hcall, hseq, _⟩, hframe⟩ := hinv.proper k hk
    obtain ⟨hn, hdec, hmem⟩ := hframe header body ho
    exact ⟨call, hcall, hn.trans hseq.symm, hmem, hdec⟩

/-- Two calls answered out of order, the first frame sent twice. -/
theorem promise_satisfied_once_duplicate :
    ∃ s, Reachable step init s ∧ s.received.length = 3 ∧
      s.completions.map (fun k => k.call) = [1, 0] ∧
      (s.completions.map fun k => k.call).Nodup := by
  let resp : RpcResponse := { errorCode := 0, errorMsg := [], result := [7] }
  let header (n : UInt32) : RpcHeader := (sendResponse (requestHeader n 0) resp).1
  have hrun : ∃ s, Reachable step init s ∧ s.received.length = 3 ∧
      s.completions.map (fun k => k.call) = [1, 0] := exists_reachable_of_run
    [.connected, .call [97] [98] [] 5000, .call [97] [98] [] 5000, .register 1, .register 0,
     .enqueue 0, .enqueue 1, .readHeader (serializeHeader (header 2)), .readBody resp.serialize,
     .setValue, .readHeader (serializeHeader (header 2)), .readBody resp.serialize, .setValue,
     .readHeader (serializeHeader (header 1)), .readBody resp.serialize, .setValue] (by decide)
  obtain ⟨s, hs, hrec, hcalls⟩ := hrun
  exact ⟨s, hs, hrec, hcalls, (promise_satisfied_once s hs).1⟩

end Rpc.RpcClient
