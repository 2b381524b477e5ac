import Rpc.Spec.PromiseCorrect
import Rpc.Spec.WriteQueueCorrect

/-!
# Which calls are left behind

When the read loop has ended, nobody matches responses any more: what is still
in `pending_` can only be completed by the failure of its own write.  A call is
left behind for good when its frame is written successfully after the loop has
ended, or when `disconnect()` returns while its answer is awaited.  `StrandFree`
excludes just these two steps, and `no_stranded_call` shows that in the runs
without them every future is completed.
-/

namespace Rpc.RpcClient

open Transition

/-- No read is outstanding any more: the loop has ended or `disconnect()` has
    returned. -/
def ReadOver (s : RpcClient) : Prop := s.reading = .ended ∨ s.joined = true

instance (s : RpcClient) : Decidable s.ReadOver := inferInstanceAs (Decidable (_ ∨ _))

/-- The pending call `c` is still inside of `call()`, before its frame is
    enqueued, or its frame is still to be written. -/
def Carried (s : RpcClient) (n : UInt32) (c : Nat) : Prop :=
  (∃ call ∈ s.calls[c]?, call.phase = .registered) ∨
    ∃ item ∈ s.writes.outstanding, item.call = c ∧ item.seqId = n

instance (s : RpcClient) (n : UInt32) (c : Nat) : Decidable (s.Carried n c) :=
  inferInstanceAs (Decidable (_ ∨ _))

/-- The step does not leave a call behind: no frame is written after the end of
    the read loop with its request still pending, and when the io thread is
    joined no call is pending whose frame has been written. -/
def StrandFree (s : RpcClient) : Act → Prop
  | .writeDone item => s.ReadOver → s.pending.lookup item.seqId ≠ some item.call
  | .joinIo => ∀ e ∈ s.pending.entries, s.Carried e.1 e.2
  | _ => True

instance (s : RpcClient) : (a : Act) → Decidable (StrandFree s a)
  | .writeDone item =>
    inferInstanceAs (Decidable (s.ReadOver → s.pending.lookup item.seqId ≠ some item.call))
  | .joinIo => inferInstanceAs (Decidable (∀ e ∈ s.pending.entries, s.Carried e.1 e.2))
  | .call .. | .register _ | .enqueue _ | .connected | .readHeader _ | .readBody _
  | .readError _ | .setValue | .pop _ | .startWrite .. | .writeError .. | .stopIo => isTrue trivial

/-! ## Every registered call is somewhere -/

/-- The promise of call `c` is pending, held by the read handler, satisfied, or
    was overwritten. -/
def Accounted (s : RpcClient) (n : UInt32) (c : Nat) : Prop :=
  s.pending.lookup n = some c ∨ (∃ h b r, s.reading = .matched h b r (some c)) ∨
    c ∈ s.completed ∨ c ∈ s.dropped

/-- No registered call gets lost, and the io thread is gone once it is joined. -/
structure AccountInv (s : RpcClient) : Prop where
  joined : s.joined = true → s.ioStopped = true ∧ ∀ h b r c, s.reading ≠ .matched h b r c
  accounted : ∀ n c, s.Registered n c → s.Accounted n c

/-- At the beginning no call has been made. -/
theorem accountInv_init : AccountInv init := by
  constructor
  · intro h
    cases h
  · rintro n c ⟨call, hcall, _⟩
    simp [init] at hcall

/-- A call of `s'` that was not moved on was registered before. -/
theorem registered_of_setPhase {s s' : RpcClient} {n : UInt32} {c c' : Nat} {call : Call}
    {phase : CallPhase} (hs' : s'.calls = s.setPhase c' call phase) (hne : c ≠ c')
    (h : s'.Registered n c) : s.Registered n c := by
  obtain ⟨call₀, hcall₀, hrest⟩ := h
  rw [hs', RpcClient.setPhase, List.getElem?_set_ne (Ne.symm hne)] at hcall₀
  exact ⟨call₀, hcall₀, hrest⟩

/-- A call that is registered is in `pending_`, and the one it replaces is dropped. -/
theorem AccountInv.register {s : RpcClient} (hinv : AccountInv s) {c : Nat} {call : Call}
    (hcall : s.calls[c]? = some call) :
    AccountInv { s with
      calls := s.setPhase c call .registered
      pending := s.pending.insert call.seqId c
      dropped := s.dropped ++ (s.pending.lookup call.seqId).toList } := by
  constructor
  · exact hinv.joined
  · intro n c' hreg
    have hlt := (List.getElem?_eq_some_iff.mp hcall).1
    by_cases hc : c' = c
    · -- the call that is registered now
      subst hc
      obtain ⟨call', hcall', rfl, _⟩ := hreg
      obtain rfl : { call with phase := .registered } = call' := by
        simpa [RpcClient.setPhase, hlt] using hcall'
      exact .inl (AList.lookup_insert _)
    · obtain hp | hm | hdone | hdrop := hinv.accounted n c' (registered_of_setPhase rfl hc hreg)
      · by_cases hn : n = call.seqId
        · -- its entry is overwritten
          subst hn
          exact .inr (.inr (.inr (by simp [hp])))
        · exact .inl ((AList.lookup_insert_ne hn).trans hp)
      · exact .inr (.inl hm)
      · exact .inr (.inr (.inl hdone))
      · exact .inr (.inr (.inr (List.mem_append_left _ hdrop)))

/-- A read handler that holds no promise goes on to another read. -/
theorem AccountInv.setReading {s : RpcClient} (hinv : AccountInv s) (hio : s.ioStopped = false)
    (hreading : ∀ h b r c, s.reading ≠ .matched h b r c) (reading : Reading) :
    AccountInv { s with reading } := by
  constructor
  · intro hj
    exact absurd (hinv.joined hj).1 (by simp [hio])
  · intro n c hreg
    obtain hp | ⟨h, b, r, hm⟩ | hrest := hinv.accounted n c hreg
    · exact .inl hp
    · exact absurd hm (hreading h b r _)
    · exact .inr (.inr hrest)

/-- Every step accounts for each registered call. -/
theorem Steps.accountInv {s s' : RpcClient} {a : Act} (h : Steps s a s') (hinv : AccountInv s) :
    AccountInv s' := by
  cases h with
  | call service method params timeoutMs =>
    constructor
    · exact hinv.joined
    · rintro n c ⟨call, hcall, hseq, hphase⟩
      by_cases hc : c < s.calls.length
      · rw [List.getElem?_append_left hc] at hcall
        exact hinv.accounted n c ⟨call, hcall, hseq, hphase⟩
      · -- the new call is not registered yet
        rw [List.getElem?_append_right (Nat.not_lt.mp hc)] at hcall
        obtain rfl := List.mem_singleton.mp (List.mem_of_getElem? hcall)
        exact absurd rfl hphase
  | register c call hcall hphase => exact hinv.register hcall
  | enqueue c call hcall hphase =>
    constructor
    · exact hinv.joined
    · intro n c' hreg
      by_cases hc : c' = c
      · subst hc
        have hlt := (List.getElem?_eq_some_iff.mp hcall).1
        obtain ⟨call', hcall', rfl, _⟩ := hreg
        -- the call itself was registered already
        obtain rfl : { call with phase := .enqueued } = call' := by
          simpa [RpcClient.setPhase, hlt] using hcall'
        exact hinv.accounted call.seqId c' ⟨call, hcall, rfl, by simp [hphase]⟩
      · exact hinv.accounted n c' (registered_of_setPhase rfl hc hreg)
  | connected hreading hio => exact hinv.setReading hio (by simp [hreading]) .header
  | headerRead hdrData header hreading hio =>
    exact hinv.setReading hio (by simp [hreading]) (.body header)
  | bodyRead header body resp hreading hio hlen hok =>
    constructor
    · intro hj
      exact absurd (hinv.joined hj).1 (by simp [hio])
    · intro n c hreg
      obtain hp | ⟨h, b, r, hm⟩ | hrest := hinv.accounted n c hreg
      · by_cases hn : n = header.seqId
        · -- the handler takes this entry out
          subst hn
          exact .inr (.inl ⟨header, body, resp, by rw [hp]⟩)
        · exact .inl ((AList.lookup_erase_ne hn).trans hp)
      · rw [hreading] at hm
        cases hm
      · exact .inr (.inr hrest)
  | readEnded a reason hio hread hreading =>
    constructor
    · intro hj
      exact absurd (hinv.joined hj).1 (by simp [hio])
    · intro n c hreg
      obtain hp | ⟨h, b, r, hm⟩ | hdone | hdrop := hinv.accounted n c hreg
      · -- `reject_all_pending` walks over every entry
        have hentry := AList.mem_lookup_iff.mp (Option.mem_def.mpr hp)
        refine .inr (.inr (.inl ?_))
        simp only [completed, rejectAllPending, List.map_append, List.map_map, List.mem_append]
        exact .inr (List.mem_map.mpr ⟨_, hentry, rfl⟩)
      · exact absurd hm (hreading h b r _)
      · exact .inr (.inr (.inl (mem_completed_append rfl hdone)))
      · exact .inr (.inr (.inr hdrop))
  | setValue header body resp call hreading =>
    constructor
    · intro hj
      exact absurd hreading ((hinv.joined hj).2 header body resp call)
    · intro n c hreg
      obtain hp | ⟨h, b, r, hm⟩ | hdone | hdrop := hinv.accounted n c hreg
      · exact .inl hp
      · rw [hreading] at hm
        cases hm
        -- the promise that the handler held is the one it satisfies
        exact .inr (.inr (.inl (by simp [completed, onMatched])))
      · exact .inr (.inr (.inl (mem_completed_append rfl hdone)))
      · exact .inr (.inr (.inr hdrop))
  | writeError item reason w hio hw =>
    constructor
    · exact hinv.joined
    · intro n c hreg
      obtain hp | hm | hdone | hdrop := hinv.accounted n c hreg
      · by_cases hn : n = item.seqId
        · -- the failed write completes this entry
          subst hn
          exact .inr (.inr (.inl (by simp [completed, onWriteError, hp])))
        · exact .inl ((AList.lookup_erase_ne hn).trans hp)
      · exact .inr (.inl hm)
      · exact .inr (.inr (.inl (mem_completed_append rfl hdone)))
      · exact .inr (.inr (.inr hdrop))
  | joinIo hio hreading => exact ⟨fun _ => ⟨hio, hreading⟩, hinv.accounted⟩
  | stopIo => exact ⟨fun hj => ⟨rfl, (hinv.joined hj).2⟩, hinv.accounted⟩
  | pop | startWrite | writeDone => exact ⟨hinv.joined, hinv.accounted⟩

/-- In every state each registered call is accounted for. -/
theorem accountInv_of_reachable {s : RpcClient} (h : Reachable step init s) : AccountInv s :=
  h.invariant accountInv_init fun _ _ _ hinv _ hs => (steps_of_step hs).accountInv hinv

/-! ## After the end of the read loop -/

/-- After the end of the read loop, every pending call is still carried. -/
def CarriedInv (s : RpcClient) : Prop :=
  s.ReadOver → ∀ n c, s.pending.lookup n = some c → s.Carried n c

/-- A loop that goes on is not over. -/
theorem not_readOver {s s' : RpcClient} (hinv : AccountInv s) (hio : s.ioStopped = false)
    (hjoined : s'.joined = s.joined) (hreading : s'.reading ≠ .ended) : ¬s'.ReadOver := by
  rintro (hr | hj)
  · exact hreading hr
  · have := (hinv.joined (hjoined ▸ hj)).1
    rw [hio] at this
    cases this

/-- A step that keeps the calls, and only adds to the frames to be written, keeps
    what is carried. -/
theorem Carried.mono {s s' : RpcClient} {n : UInt32} {c : Nat} (h : s.Carried n c)
    (hcall : ∀ call, s.calls[c]? = some call → call.phase = .registered →
      s'.calls[c]? = some call)
    (hwrites : ∀ item ∈ s.writes.outstanding, item ∈ s'.writes.outstanding) :
    s'.Carried n c := by
  obtain ⟨call, hc, hphase⟩ | ⟨item, hmem, hitem⟩ := h
  · exact .inl ⟨call, hcall call hc hphase, hphase⟩
  · exact .inr ⟨item, hwrites item hmem, hitem⟩

/-- A registered call moves its carrier from `call()` to the write queue. -/
theorem CarriedInv.enqueue {s : RpcClient} (hinv : CarriedInv s) (hprom : PromiseInv s) {c : Nat}
    {call : Call} (hcall : s.calls[c]? = some call) :
    CarriedInv { s with
      calls := s.setPhase c call .enqueued
      writes := s.writes.push (some c)
        { frame := call.frame, seqId := call.seqId, call := c } } := by
  intro hover n c' hp
  by_cases hc : c' = c
  · subst hc
    obtain ⟨⟨call', hcall', hseq, _⟩, _⟩ := hprom.pending n c' hp
    rw [hcall] at hcall'
    obtain rfl := Option.some.inj hcall'
    refine .inr ⟨{ frame := call.frame, seqId := call.seqId, call := c' }, ?_, rfl, hseq⟩
    show _ ∈ (s.writes.push _ _).outstanding
    rw [WriteChain.outstanding_push]
    exact List.mem_append_right _ (List.mem_singleton.mpr rfl)
  · apply (hinv hover n c' hp).mono
    · intro call' hcall' _
      rw [RpcClient.setPhase, List.getElem?_set_ne (Ne.symm hc)]
      exact hcall'
    · intro item hitem
      show _ ∈ (s.writes.push _ _).outstanding
      rw [WriteChain.outstanding_push]
      exact List.mem_append_left _ hitem

/-- Every step that strands no call keeps the invariant. -/
theorem Steps.carriedInv {s s' : RpcClient} {a : Act} (h : Steps s a s') (hok : StrandFree s a)
    (hw : WritesInv s) (hprom : PromiseInv s) (hacc : AccountInv s) (hinv : CarriedInv s) :
    CarriedInv s' := by
  cases h with
  | call service method params timeoutMs =>
    intro hover n c hp
    apply (hinv hover n c hp).mono
    · intro call hcall _
      exact (List.getElem?_append_left (List.getElem?_eq_some_iff.mp hcall).1).trans hcall
    · exact fun item hitem => hitem
  | register c call hcall hphase =>
    have hlt := (List.getElem?_eq_some_iff.mp hcall).1
    intro hover n c' hp
    obtain ⟨rfl, rfl⟩ | ⟨_, hold⟩ := AList.lookup_insert_eq_some.mp hp
    · exact .inl ⟨{ call with phase := .registered }, by simp [RpcClient.setPhase, hlt], rfl⟩
    · -- an older entry belongs to another call
      have hne := (hprom.pending n c' hold).1.ne_of_allocated hcall hphase
      apply (hinv hover n c' hold).mono
      · intro call' hcall' _
        exact (List.getElem?_set_ne (Ne.symm hne)).trans hcall'
      · exact fun item hitem => hitem
  | enqueue c call hcall hphase => exact hinv.enqueue hprom hcall
  | connected hreading hio | headerRead hdrData header hreading hio
  | bodyRead header body resp hreading hio =>
    -- the loop reads on
    intro hover
    exact absurd hover (not_readOver hacc hio rfl (by simp))
  | readEnded a reason hio hread hreading =>
    -- everything pending has just been rejected
    intro hover n c hp
    exact absurd hp (by simp [rejectAllPending])
  | setValue header body resp call hreading =>
    rintro (hr | hj)
    · cases hr
    · exact absurd hreading ((hacc.joined hj).2 header body resp call)
  -- the frames to be written stay the same while a thread pops and starts one
  | pop t w hpop =>
    intro hover n c hp
    refine (hinv hover n c hp).mono (fun call hcall _ => hcall) ?_
    rw [hw.chain.outstanding_pop hw.whole hpop]
    exact fun item hitem => hitem
  | startWrite t item w hstart =>
    intro hover n c hp
    refine (hinv hover n c hp).mono (fun call hcall _ => hcall) ?_
    rw [hw.chain.outstanding_start hw.whole hstart]
    exact fun item hitem => hitem
  | writeDone item w hio hdone =>
    intro hover n c hp
    obtain hphase | ⟨item', hmem, hcall, hseq⟩ := hinv hover n c hp
    · exact .inl hphase
    · rw [hw.chain.outstanding_complete hw.whole hdone] at hmem
      obtain rfl | hmem := List.mem_cons.mp hmem
      · -- the frame just written is not that of a pending call
        subst hcall hseq
        exact absurd hp (hok hover)
      · exact .inr ⟨item', hmem, hcall, hseq⟩
  | writeError item reason w hio hdone =>
    intro hover n c hp
    obtain ⟨hne, hold⟩ := AList.lookup_erase_eq_some.mp hp
    obtain hphase | ⟨item', hmem, hcall, hseq⟩ := hinv hover n c hold
    · exact .inl hphase
    · rw [hw.chain.outstanding_complete hw.whole hdone] at hmem
      obtain rfl | hmem := List.mem_cons.mp hmem
      · exact absurd hseq.symm hne
      · exact .inr ⟨item', hmem, hcall, hseq⟩
  | stopIo => exact hinv
  | joinIo hio hreading =>
    intro _ n c hp
    exact hok ⟨n, c⟩ (AList.mem_lookup_iff.mp (Option.mem_def.mpr hp))

/-- In a run whose steps strand no call, every pending call is carried. -/
theorem carriedInv_of_reaches {s : RpcClient} (h : Reaches step StrandFree init s) :
    CarriedInv s := by
  apply h.invariant_with (I := fun s => WritesInv s ∧ PromiseInv s ∧ AccountInv s)
  · intro s hs
    exact ⟨writesInv_of_reachable hs.reachable, promiseInv_of_reachable hs.reachable,
      accountInv_of_reachable hs.reachable⟩
  · intro _ n c hp
    simp [init] at hp
  · intro s a s' hI hinv hok hs
    exact (steps_of_step hs).carriedInv hok hI.1 hI.2.1 hI.2.2 hinv

/-- In a run whose steps strand no call, once no read is outstanding and no write
    is queued or in flight: what is pending belongs to a `call()` that has not
    enqueued its frame yet, so that `pending_` is empty when there is none, and
    every future handed out is completed (or its promise was overwritten). -/
theorem no_stranded_call (s : RpcClient) (h : Reaches step StrandFree init s)
    (hover : s.ReadOver) (hidle : s.writes.outstanding = []) :
    (∀ n c, s.pending.lookup n = some c →
      ∃ call, s.calls[c]? = some call ∧ call.phase = .registered) ∧
    ((∀ call ∈ s.calls, call.phase ≠ .registered) → s.pending = ∅) ∧
    ∀ c call, s.calls[c]? = some call → call.phase = .enqueued →
      (∃ k ∈ s.completions, k.call = c) ∨ c ∈ s.dropped := by
  have hinside : ∀ n c, s.pending.lookup n = some c →
      ∃ call, s.calls[c]? = some call ∧ call.phase = .registered := by
    intro n c hp
    obtain hphase | ⟨item, hmem, _⟩ := carriedInv_of_reaches h hover n c hp
    · exact hphase
    · rw [hidle] at hmem
      cases hmem
  refine ⟨hinside, ?_, ?_⟩
  · intro hnone
    apply AList.eq_empty_of_lookup
    intro n c hp
    obtain ⟨call, hcall, hphase⟩ := hinside n c hp
    exact hnone call (List.mem_of_getElem? hcall) hphase
  · intro c call hcall hphase
    have hacc := accountInv_of_reachable h.reachable
    obtain hp | ⟨hd, b, r, hm⟩ | hdone | hdrop :=
      hacc.accounted call.seqId c ⟨call, hcall, rfl, by simp [hphase]⟩
    · -- it would still be inside of `call()`
      obtain ⟨call', hcall', hphase'⟩ := hinside _ c hp
      rw [hcall] at hcall'
      obtain rfl := Option.some.inj hcall'
      rw [hphase] at hphase'
      cases hphase'
    · -- a handler that holds a promise has not ended
      obtain hr | hj := hover
      · rw [hr] at hm
        cases hm
      · exact absurd hm ((hacc.joined hj).2 hd b r _)
    · exact .inl (List.mem_map.mp hdone)
    · exact .inr hdrop

/-- A call rejected by a read error, and one made afterwards whose write fails. -/
theorem no_stranded_call_lateFailure :
    ∃ s, Reaches step StrandFree init s ∧ s.calls.length = 2 ∧ s.pending = ∅ := by
  let item (c : Nat) (n : UInt32) : WriteItem :=
    { frame := Call.frame { service := [97], method := [98], params := [], timeoutMs := 5000,
                            seqId := n, phase := .enqueued },
      seqId := n, call := c }
  have hrun : ∃ s, Reaches step StrandFree init s ∧ s.ReadOver ∧ s.writes.outstanding = [] ∧
      s.calls.length = 2 ∧ ∀ call ∈ s.calls, call.phase ≠ .registered := exists_reaches_of_run
    [.connected, .call [97] [98] [] 5000, .register 0, .enqueue 0, .pop (some 0),
     .startWrite (some 0) (item 0 1), .writeDone (item 0 1), .pop none, .readError [],
     .call [97] [98] [] 5000, .register 1, .enqueue 1, .pop (some 1),
     .startWrite (some 1) (item 1 2), .writeError (item 1 2) [], .pop none] (by decide)
  obtain ⟨s, hs, hover, hidle, hcalls, hphases⟩ := hrun
  exact ⟨s, hs, hcalls, (no_stranded_call s hs hover hidle).2.1 hphases⟩

/-- A call made after the end of the read loop whose frame is still written, and a
    call awaiting its answer when `disconnect()` returns, stay pending with
    nothing left to complete them. -/
theorem stranded_calls :
    (∃ s, Reachable step init s ∧ s.reading = .ended ∧ s.writes.outstanding = [] ∧
      (∀ call ∈ s.calls, call.phase = .enqueued) ∧ s.pending ≠ ∅ ∧ s.completions = []) ∧
    ∃ s, Reachable step init s ∧ s.joined = true ∧ s.writes.outstanding = [] ∧
      (∀ call ∈ s.calls, call.phase = .enqueued) ∧ s.pending ≠ ∅ ∧ s.completions = [] := by
  let item : WriteItem :=
    { frame := Call.frame { service := [97], method := [98], params := [], timeoutMs := 5000,
                            seqId := 1, phase := .enqueued },
      seqId := 1, call := 0 }
  have hne : ∀ s : RpcClient, s.pending.entries ≠ [] → s.pending ≠ ∅ := by
    intro s h heq
    exact h (by rw [heq]; rfl)
  constructor
  · have hrun : ∃ s, Reachable step init s ∧ s.reading = .ended ∧ s.writes.outstanding = [] ∧
        (∀ call ∈ s.calls, call.phase = .enqueued) ∧ s.pending.entries ≠ [] ∧
        s.completions = [] := exists_reachable_of_run
      [.connected, .readError [], .call [97] [98] [] 5000, .register 0, .enqueue 0,
       .pop (some 0), .startWrite (some 0) item, .writeDone item, .pop none] (by decide)
    obtain ⟨s, hs, hr, hidle, hcalls, hpending, hcomp⟩ := hrun
    exact ⟨s, hs, hr, hidle, hcalls, hne s hpending, hcomp⟩
  · have hrun : ∃ s, Reachable step init s ∧ s.joined = true ∧ s.writes.outstanding = [] ∧
        (∀ call ∈ s.calls, call.phase = .enqueued) ∧ s.pending.entries ≠ [] ∧
        s.completions = [] := exists_reachable_of_run
      [.connected, .call [97] [98] [] 5000, .register 0, .enqueue 0, .pop (some 0),
       .startWrite (some 0) item, .writeDone item, .pop none, .stopIo, .joinIo] (by decide)
    obtain ⟨s, hs, hr, hidle, hcalls, hpending, hcomp⟩ := hrun
    exact ⟨s, hs, hr, hidle, hcalls, hne s hpending, hcomp⟩

end Rpc.RpcClient
