import Rpc.Spec.ClientSteps
import Rpc.Spec.Framing

/-!
# The frames of the calls

Calls are numbered from 1 in the order of their `call` step, and each call pushes
its frame once (`CallInv`).  So as long as fewer than `2 ^ 32` calls are made, a
sequence number names one call, and a frame on the wire belongs to one call.
-/

namespace Rpc

open Transition

/-! ## Requests within the limits -/

/-- The names fit 16-bit lengths, the body a 32-bit length. -/
def RpcRequest.Small (r : RpcRequest) : Prop :=
  r.serviceName.length ≤ 65535 ∧ r.methodName.length ≤ 65535 ∧ r.serialize.length < 2 ^ 32

instance (r : RpcRequest) : Decidable r.Small := inferInstanceAs (Decidable (_ ∧ _ ∧ _))

/-- A small request decodes to itself. -/
theorem RpcRequest.Small.decodes {r : RpcRequest} (h : r.Small) :
    RpcRequest.deserialize r.serialize = .ok r := by
  obtain ⟨hservice, hmethod, hbody⟩ := h
  rw [RpcRequest.serialize_length] at hbody
  exact RpcRequest.exactParser.roundTrip r ⟨hservice, hmethod, by omega⟩

/-- The frame of a call, header and body. -/
def Call.wireFrame (call : Call) : Frame := (call.header, call.request.serialize)

/-- Its bytes are the frame that the call pushes. -/
theorem Call.wireFrame_encode (call : Call) : call.wireFrame.encode = call.frame := rfl

/-- The frame of a small request has the magic and the length of its body. -/
theorem Call.wireFrame_wellFormed {call : Call} (h : call.request.Small) :
    call.wireFrame.WellFormed :=
  ⟨rfl, UInt32.toNat_ofNat_of_lt' h.2.2⟩

namespace RpcClient

/-- Calls are numbered in order, and each pushes its own frame, once. -/
structure CallInv (s : RpcClient) : Prop where
  next : s.nextSeqId = UInt32.ofNat (s.calls.length + 1)
  seqId : ∀ (c : Nat) (call : Call), s.calls[c]? = some call → call.seqId = UInt32.ofNat (c + 1)
  pushed : ∀ item ∈ s.writes.pushed, ∃ call, s.calls[item.call]? = some call ∧
    call.phase = .enqueued ∧ item.frame = call.frame
  once : (s.writes.pushed.map WriteItem.call).Nodup

/-- Fewer than `2 ^ 32` calls have different sequence numbers. -/
theorem CallInv.seqId_inj {s : RpcClient} (hinv : CallInv s) (hlen : s.calls.length < 2 ^ 32)
    {c c' : Nat} {call call' : Call} (hcall : s.calls[c]? = some call)
    (hcall' : s.calls[c']? = some call') (heq : call.seqId = call'.seqId) : c = c' := by
  have hlt := (List.getElem?_eq_some_iff.mp hcall).1
  have hlt' := (List.getElem?_eq_some_iff.mp hcall').1
  rw [hinv.seqId c call hcall, hinv.seqId c' call' hcall'] at heq
  -- neither number has wrapped
  have hnat := congrArg UInt32.toNat heq
  rw [UInt32.toNat_ofNat_of_lt' (show c + 1 < 2 ^ 32 by omega),
    UInt32.toNat_ofNat_of_lt' (show c' + 1 < 2 ^ 32 by omega)] at hnat
  omega

/-- A call after one of them has moved on: only its phase can have changed. -/
theorem getElem?_setPhase {s : RpcClient} {c : Nat} {call : Call} {phase : CallPhase}
    (hcall : s.calls[c]? = some call) {c' : Nat} {call' : Call}
    (h : (s.setPhase c call phase)[c']? = some call') :
    (c' = c ∧ call' = { call with phase }) ∨ (c' ≠ c ∧ s.calls[c']? = some call') := by
  have hlt := (List.getElem?_eq_some_iff.mp hcall).1
  by_cases hc : c' = c
  · subst hc
    rw [RpcClient.setPhase, List.getElem?_set_self hlt] at h
    exact .inl ⟨rfl, (Option.some.inj h).symm⟩
  · rw [RpcClient.setPhase, List.getElem?_set_ne (Ne.symm hc)] at h
    exact .inr ⟨hc, h⟩

/-- A step that leaves the calls and the frames pushed alone. -/
theorem CallInv.of_eq {s s' : RpcClient} (hinv : CallInv s) (hnext : s'.nextSeqId = s.nextSeqId)
    (hcalls : s'.calls = s.calls) (hpushed : s'.writes.pushed = s.writes.pushed) : CallInv s' := by
  constructor
  · rw [hnext, hcalls]
    exact hinv.next
  · rw [hcalls]
    exact hinv.seqId
  · rw [hcalls, hpushed]
    exact hinv.pushed
  · rw [hpushed]
    exact hinv.once

/-- A call is made: it takes the next number, and has pushed nothing yet. -/
theorem CallInv.call {s s' : RpcClient} (hinv : CallInv s) {new : Call}
    (hseq : new.seqId = s.nextSeqId) (hnext : s'.nextSeqId = s.nextSeqId + 1)
    (hcalls : s'.calls = s.calls ++ [new]) (hwrites : s'.writes = s.writes) : CallInv s' := by
  constructor
  · rw [hnext, hinv.next, hcalls, List.length_append, List.length_singleton]
    exact (UInt32.ofNat_add (s.calls.length + 1) 1).symm
  · rw [hcalls]
    intro c call hcall
    -- an earlier call has kept its number
    by_cases hc : c < s.calls.length
    · rw [List.getElem?_append_left hc] at hcall
      exact hinv.seqId c call hcall
    · -- the call just made
      rw [List.getElem?_append_right (by omega)] at hcall
      have hc0 : c - s.calls.length = 0 := by
        have hlt := (List.getElem?_eq_some_iff.mp hcall).1
        rw [List.length_singleton] at hlt
        omega
      rw [hc0] at hcall
      obtain rfl : new = call := Option.some.inj hcall
      rw [hseq, hinv.next, show s.calls.length = c by omega]
  · rw [hcalls, hwrites]
    intro item hitem
    obtain ⟨call, hcall, hrest⟩ := hinv.pushed item hitem
    refine ⟨call, ?_, hrest⟩
    rw [List.getElem?_append_left (List.getElem?_eq_some_iff.mp hcall).1]
    exact hcall
  · rw [hwrites]
    exact hinv.once

/-- A call that moves on keeps its frame and its number. -/
theorem CallInv.setPhase {s s' : RpcClient} (hinv : CallInv s) {c : Nat} {call : Call}
    {phase : CallPhase} (hcall : s.calls[c]? = some call) (hphase : call.phase ≠ .enqueued)
    (hcalls : s'.calls = s.setPhase c call phase) :
    (∀ (c' : Nat) (call' : Call), s'.calls[c']? = some call' →
      call'.seqId = UInt32.ofNat (c' + 1)) ∧
    ∀ item ∈ s.writes.pushed, item.call ≠ c ∧ ∃ call', s'.calls[item.call]? = some call' ∧
      call'.phase = .enqueued ∧ item.frame = call'.frame := by
  constructor
  · rw [hcalls]
    intro c' call' hcall'
    obtain ⟨rfl, rfl⟩ | ⟨-, hold⟩ := getElem?_setPhase hcall hcall'
    · exact hinv.seqId c' call hcall
    · exact hinv.seqId c' call' hold
  · intro item hitem
    obtain ⟨call', hcall', hphase', hframe⟩ := hinv.pushed item hitem
    -- a call that has pushed its frame is enqueued already
    have hne : item.call ≠ c := by
      rintro rfl
      obtain rfl : call' = call := Option.some.inj (hcall'.symm.trans hcall)
      exact hphase hphase'
    refine ⟨hne, call', ?_, hphase', hframe⟩
    rw [hcalls, RpcClient.setPhase, List.getElem?_set_ne (Ne.symm hne)]
    exact hcall'

/-- A call enters its promise into `pending_`. -/
theorem CallInv.register {s s' : RpcClient} (hinv : CallInv s) {c : Nat} {call : Call}
    (hcall : s.calls[c]? = some call) (hphase : call.phase = .allocated)
    (hnext : s'.nextSeqId = s.nextSeqId) (hcalls : s'.calls = s.setPhase c call .registered)
    (hwrites : s'.writes = s.writes) : CallInv s' := by
  obtain ⟨hseq, hpushed⟩ := hinv.setPhase hcall (by rw [hphase]; decide) hcalls
  constructor
  · rw [hnext, hinv.next, hcalls, RpcClient.setPhase, List.length_set]
  · exact hseq
  · rw [hwrites]
    exact fun item hitem => (hpushed item hitem).2
  · rw [hwrites]
    exact hinv.once

/-- A call pushes its frame. -/
theorem CallInv.enqueue {s s' : RpcClient} (hinv : CallInv s) {c : Nat} {call : Call}
    (hcall : s.calls[c]? = some call) (hphase : call.phase = .registered)
    (hnext : s'.nextSeqId = s.nextSeqId) (hcalls : s'.calls = s.setPhase c call .enqueued)
    (hwrites : s'.writes.pushed =
      s.writes.pushed ++ [{ frame := call.frame, seqId := call.seqId, call := c }]) :
    CallInv s' := by
  obtain ⟨hseq, hpushed⟩ := hinv.setPhase hcall (by rw [hphase]; decide) hcalls
  have hlt := (List.getElem?_eq_some_iff.mp hcall).1
  constructor
  · rw [hnext, hinv.next, hcalls, RpcClient.setPhase, List.length_set]
  · exact hseq
  · rw [hwrites]
    intro item hitem
    -- a frame pushed before, or the one of this call
    obtain hitem | hitem := List.mem_append.mp hitem
    · exact (hpushed item hitem).2
    · obtain rfl := List.mem_singleton.mp hitem
      refine ⟨{ call with phase := .enqueued }, ?_, rfl, rfl⟩
      rw [hcalls, RpcClient.setPhase, List.getElem?_set_self hlt]
  · rw [hwrites, List.map_append]
    refine List.nodup_append_comm.mp (List.nodup_cons.mpr ⟨?_, hinv.once⟩)
    -- this call has not pushed before
    intro hmem
    obtain ⟨item, hitem, heq⟩ := List.mem_map.mp hmem
    exact (hpushed item hitem).1 heq

/-- Every step keeps the numbers and the frames; three of them are steps of a call. -/
theorem Steps.callInv {s s' : RpcClient} {a : Act} (h : Steps s a s') (hinv : CallInv s) :
    CallInv s' := by
  cases h with
  | call service method params timeoutMs => exact hinv.call rfl rfl rfl rfl
  | register c call hcall hphase => exact hinv.register hcall hphase rfl rfl rfl
  | enqueue c call hcall hphase => exact hinv.enqueue hcall hphase rfl rfl rfl
  -- the write queue moves frames on that were pushed before
  | pop t w hw => exact hinv.of_eq rfl rfl (WriteChain.pop_history hw).2.1
  | startWrite t item w hw => exact hinv.of_eq rfl rfl (WriteChain.start_history hw).2.1
  | writeDone item w hio hw => exact hinv.of_eq rfl rfl (WriteChain.complete_history hw).2.1
  | writeError item reason w hio hw =>
    exact hinv.of_eq rfl rfl (WriteChain.complete_history hw).2.1
  | _ => exact hinv.of_eq rfl rfl rfl

/-- In every state the calls are numbered in order and have pushed their own frames. -/
theorem callInv_of_reachable {s : RpcClient} (h : Reachable step init s) : CallInv s :=
  h.invariant ⟨rfl, nofun, nofun, List.nodup_nil⟩ fun _ _ _ hinv _ hs =>
    (steps_of_step hs).callInv hinv

end RpcClient

end Rpc
