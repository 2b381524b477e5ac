import Rpc.Spec.CycleSteps

/-!
# Where an open connection is

`on_close_` is called at most once per connection.  `MapInv` says where a connection whose
`closed_` is not set is: in the map of the manager, or in what a `close_all()` has left to close.
It holds in every run that does not use up the ids.
-/

namespace Rpc.MessageCycle

open Transition

variable {s s' : MessageCycle}

/-! ## `on_close_` -/

/-- Replacing a connection leaves the others alone. -/
theorem peers_setPeer (s : MessageCycle) (k : Nat) (p : Peer) (j : Nat) :
    (s.setPeer k p).peers j = if j = k then p else s.peers j := by
  simp only [setPeer, Function.update_apply]

/-- What holds of the old connection and of every unchanged one holds of all. -/
theorem forall_setPeer {P : Nat → Peer → Prop} {k : Nat} {p : Peer} (h : ∀ j, P j (s.peers j))
    (hp : P k p) (j : Nat) : P j ((s.setPeer k p).peers j) := by
  rw [peers_setPeer]
  split
  · rename_i heq
    rw [heq]
    exact hp
  · exact h j

/-- A flag stays as it is when its connection is replaced by one with the same flag. -/
theorem closed_setPeer {k : Nat} {p : Peer} (h : p.conn.closed = (s.peers k).conn.closed)
    (j : Nat) :
    ((s.setPeer k p).peers j).conn.closed = (s.peers j).conn.closed :=
  forall_setPeer (P := fun j q => q.conn.closed = (s.peers j).conn.closed) (fun _ => rfl) h j

/-- `close()` sets `closed_`. -/
@[simp] theorem close_closed (p : Peer) : p.close.conn.closed = true := by
  unfold Peer.close
  split
  · assumption
  · rfl

/-- `close()` keeps the id. -/
@[simp] theorem close_connId (p : Peer) : p.close.connId = p.connId := by
  unfold Peer.close
  split <;> rfl

/-- `close()` does not call `on_close_`. -/
@[simp] theorem close_onCloseCalls (p : Peer) :
    p.close.conn.onCloseCalls = p.conn.onCloseCalls := by
  unfold Peer.close
  split <;> rfl

/-- `on_close_` has been called only if `closed_` is set, and once. -/
def Peer.CalledOnce (p : Peer) : Prop :=
  p.conn.onCloseCalls ≤ 1 ∧ (p.conn.closed = false → p.conn.onCloseCalls = 0)

/-- Steps that neither close the connection nor call `on_close_`. -/
theorem Peer.Keeps.calledOnce {p p' : Peer} (h : p.Keeps p') (hp : p.CalledOnce) :
    p'.CalledOnce := by
  unfold Peer.CalledOnce at hp ⊢
  rw [h.calls, h.closed]
  exact hp

/-- `close()` sets `closed_`, after which `on_close_` is not called. -/
theorem Peer.CalledOnce.close {p : Peer} (h : p.CalledOnce) : p.close.CalledOnce := by
  refine ⟨?_, fun hopen => ?_⟩
  · rw [close_onCloseCalls]
    exact h.1
  · rw [close_closed] at hopen
    cases hopen

/-- Every step keeps it: `on_close_` is called by the handler that sets `closed_`. -/
theorem Steps.calledOnce {a : Act} (h : Steps s a s') (hs : ∀ k, (s.peers k).CalledOnce) :
    ∀ k, (s'.peers k).CalledOnce := by
  cases h with
  | flags | accept | remove | closeAll | stopSnapshot => exact hs
  | keeps a k p io hkeeps => exact forall_setPeer (P := fun _ => _) hs (hkeeps.calledOnce (hs k))
  | message k p hidle hkeeps =>
    exact forall_setPeer (P := fun _ => _) hs (hkeeps.calledOnce (hs k))
  | closes a k p hidle hknown hopen hclosed hcalls =>
    refine forall_setPeer (P := fun _ => _) hs ⟨?_, fun hfalse => ?_⟩
    -- `closed_` was not set, so this is the first call
    · rw [hcalls, (hs k).2 hopen]
    · rw [hclosed] at hfalse
      cases hfalse
  | add k hio => exact forall_setPeer (P := fun _ => _) hs (hs k)
  | close k | closeNext k | stopClose k => exact forall_setPeer (P := fun _ => _) hs (hs k).close

/-- In every state `on_close_` has been called at most once for each connection. -/
theorem calledOnce_of_reachable {async : Bool} (h : Reachable step (init async) s) :
    ∀ k, (s.peers k).CalledOnce := by
  apply h.invariant (P := fun s => ∀ k, (s.peers k).CalledOnce)
  · intro k
    exact ⟨Nat.zero_le 1, fun _ => rfl⟩
  · intro s a s' hs _ hstep
    exact (steps_of_step hstep).calledOnce hs

/-! ## Where an open connection is -/

/-- The id that connection `k` gets. -/
def idOf (k : Nat) : UInt64 := UInt64.ofNat (k + 1)

/-- Connections below `2 ^ 64` have different ids. -/
theorem idOf_inj {j k : Nat} (hj : j < 2 ^ 64) (hk : k < 2 ^ 64) (h : idOf j = idOf k) : j = k := by
  have hnat := congrArg UInt64.toNat h
  unfold idOf at hnat
  rw [UInt64.toNat_ofNat', UInt64.toNat_ofNat'] at hnat
  omega

/-- No more ids are given out than there are. -/
def Bounded (s : MessageCycle) : Act → Prop
  | .accept => s.accepted < 2 ^ 64
  | _ => True

/-- The map, the ids, and where an open connection is. -/
structure MapInv (s : MessageCycle) : Prop where
  bound : s.accepted ≤ 2 ^ 64
  accepted : ∀ k, s.io = .accepted k → k + 1 = s.accepted
  next : s.nextId = idOf s.added
  ids : ∀ k, s.known k = true → (s.peers k).connId = idOf k
  listed : ∀ id k, s.conns.lookup id = some k → s.known k = true ∧ id = idOf k
  tracked : ∀ k, s.known k = true → (s.peers k).conn.closed = true ∨
    s.conns.lookup (idOf k) = some k ∨ k ∈ s.toClose ∨ k ∈ s.stop.rest
  closing : ∀ k, s.io = .closing k → s.known k = true ∧ (s.peers k).conn.closed = true

/-- A connection is known when it has been added. -/
theorem known_iff {k : Nat} : s.known k = true ↔ k < s.added := decide_eq_true_iff

/-- The known connections are given by their number. -/
theorem known_of_added (h : s'.added = s.added) (k : Nat) : s'.known k = s.known k := by
  unfold known
  rw [h]

/-- Unless the accept handler is between the construction and `add`, all connections accepted have
    been added. -/
theorem added_of_isCalm (h : s.io.isCalm = true) : s.added = s.accepted := by
  unfold added
  split
  · rename_i k hio
    rw [hio] at h
    cases h
  · rfl

/-- Then all of them are known. -/
theorem known_of_isCalm (h : s.io.isCalm = true) {k : Nat} (hk : k < s.accepted) :
    s.known k = true := by
  rw [known_iff, added_of_isCalm h]
  exact hk

/-- So it is when the io thread is idle. -/
theorem added_of_idle (h : s.io = .idle) : s.added = s.accepted := by
  unfold added
  rw [h]

/-- No more connections have been added than accepted. -/
theorem MapInv.added_le (h : MapInv s) : s.added ≤ s.accepted := by
  unfold added
  split
  · rename_i k hio
    have := h.accepted k hio
    omega
  · exact Nat.le_refl _

/-- The number of a known connection is one that has an id of its own. -/
theorem MapInv.known_lt (h : MapInv s) {k : Nat} (hk : s.known k = true) : k < 2 ^ 64 := by
  have hlt := known_iff.mp hk
  have hle := h.added_le
  have hbound := h.bound
  omega

/-- The number of connections added when the io thread goes on. -/
theorem added_of_io {io : Io} (hio : io = s.io ∨ (s.io.isCalm = true ∧ io.isCalm = true))
    (hs' : s'.io = io) (haccepted : s'.accepted = s.accepted) : s'.added = s.added := by
  obtain rfl | ⟨hcalm, hcalm'⟩ := hio
  · unfold added
    rw [hs', haccepted]
  · rw [added_of_isCalm hcalm, added_of_isCalm (hs' ▸ hcalm'), haccepted]

/-- A step that leaves the map and the ids alone, and closes what it takes off the lists. -/
theorem MapInv.of_eq (h : MapInv s) (hadded : s'.added = s.added)
    (haccepted : s'.accepted = s.accepted) (hnext : s'.nextId = s.nextId)
    (hconns : s'.conns = s.conns) (hids : ∀ k, (s'.peers k).connId = (s.peers k).connId)
    (hclosed : ∀ k, (s.peers k).conn.closed = true → (s'.peers k).conn.closed = true)
    (hlists : ∀ k, k ∈ s.toClose ∨ k ∈ s.stop.rest →
      (s'.peers k).conn.closed = true ∨ k ∈ s'.toClose ∨ k ∈ s'.stop.rest)
    (hio : ∀ k, s'.io = .accepted k → s.io = .accepted k)
    (hclosing : ∀ k, s'.io = .closing k →
      s.io = .closing k ∨ (s.known k = true ∧ (s'.peers k).conn.closed = true)) : MapInv s' := by
  have hknown := known_of_added hadded
  -- the clauses in the order of `MapInv`
  refine ⟨?_, ?_, ?_, ?_, ?_, ?_, ?_⟩
  · rw [haccepted]
    exact h.bound
  · intro k hk
    rw [haccepted]
    exact h.accepted k (hio k hk)
  · rw [hnext, hadded]
    exact h.next
  · intro k hk
    rw [hids k]
    exact h.ids k (hknown k ▸ hk)
  · intro id k hk
    rw [hconns] at hk
    rw [hknown]
    exact h.listed id k hk
  · intro k hk
    rw [hconns]
    -- closed before, in the map as before, or on one of the lists
    obtain hc | hl | hlist := h.tracked k (hknown k ▸ hk)
    · exact .inl (hclosed k hc)
    · exact .inr (.inl hl)
    · obtain hc | hlist := hlists k hlist
      · exact .inl hc
      · exact .inr (.inr hlist)
  · intro k hk
    rw [hknown]
    obtain hk | hk := hclosing k hk
    · obtain ⟨hkn, hc⟩ := h.closing k hk
      exact ⟨hkn, hclosed k hc⟩
    · exact hk

/-- A connection is constructed: it is not known yet. -/
theorem MapInv.accept (h : MapInv s) (hidle : s.io = .idle) (hbound : s.accepted < 2 ^ 64)
    (armed incoming : Bool) :
    MapInv { s with armed, incoming, accepted := s.accepted + 1, io := .accepted s.accepted } := by
  have hadded : s.added = s.accepted := added_of_idle hidle
  -- the new connection is the last one, and is not counted yet
  have hknown := known_of_added (show added { s with
    armed
    incoming
    accepted := s.accepted + 1
    io := .accepted s.accepted } = s.added from hadded.symm)
  refine ⟨?_, ?_, ?_, ?_, ?_, ?_, nofun⟩
  · show s.accepted + 1 ≤ 2 ^ 64
    omega
  · intro k hk
    obtain rfl := Io.accepted.inj hk
    rfl
  · exact h.next.trans (congrArg idOf hadded)
  · intro k hk
    exact h.ids k (hknown k ▸ hk)
  · intro id k hk
    rw [hknown]
    exact h.listed id k hk
  · intro k hk
    exact h.tracked k (hknown k ▸ hk)

/-- The connections known after `add`. -/
theorem MapInv.known_add (h : MapInv s) {k : Nat} (hio : s.io = .accepted k) (p : Peer)
    (id : UInt64) (conns : AList fun _ : UInt64 => Nat) (j : Nat) :
    known { s.setPeer k p with nextId := id, conns, io := .added k } j = true ↔
      j = k ∨ s.known j = true := by
  have hk := h.accepted k hio
  -- it is the next one that is added
  have hadded : s.added = k := by
    unfold added
    rw [hio]
  rw [known_iff, known_iff, hadded]
  show j < s.accepted ↔ _
  omega

/-- It is added: its id is new. -/
theorem MapInv.add (h : MapInv s) {k : Nat} (hio : s.io = .accepted k) :
    MapInv { s.setPeer k { s.peers k with connId := s.nextId } with
      nextId := s.nextId + 1, conns := s.conns.insert s.nextId k, io := .added k } := by
  have hk := h.accepted k hio
  have hadded : s.added = k := by
    unfold added
    rw [hio]
  -- so the id that it gets is its own
  have hnext : s.nextId = idOf k := hadded ▸ h.next
  have hknown := h.known_add hio { s.peers k with connId := s.nextId } (s.nextId + 1)
    (s.conns.insert s.nextId k)
  -- the connections known before have other ids
  have hne : ∀ j, s.known j = true → j ≠ k ∧ idOf j ≠ s.nextId := by
    intro j hj
    have hlt := known_iff.mp hj
    have hbound := h.bound
    refine ⟨by omega, fun heq => ?_⟩
    have := idOf_inj (by omega) (by omega) (heq.trans hnext)
    omega
  refine ⟨h.bound, nofun, ?_, ?_, ?_, ?_, nofun⟩
  -- the next id is that of the next connection
  · show s.nextId + 1 = idOf s.accepted
    rw [hnext, ← hk]
    exact (UInt64.ofNat_add (k + 1) 1).symm
  · intro j hj
    rw [show _ = _ from peers_setPeer s k _ j]
    obtain rfl | hj := (hknown j).mp hj
    · rw [if_pos rfl]
      exact hnext
    · rw [if_neg (hne j hj).1]
      exact h.ids j hj
  · intro id j hj
    -- a new entry of the map is that of the new connection
    rw [hknown]
    obtain ⟨rfl, rfl⟩ | ⟨-, hj⟩ := AList.lookup_insert_eq_some.mp hj
    · exact ⟨.inl rfl, hnext⟩
    · obtain ⟨hknown', hid⟩ := h.listed id j hj
      exact ⟨.inr hknown', hid⟩
  · intro j hj
    show ((s.setPeer k _).peers j).conn.closed = true ∨
      -- where connection `j` is: the new one is in the map, the others where they were
      (s.conns.insert s.nextId k).lookup (idOf j) = some j ∨ _
    rw [peers_setPeer]
    obtain rfl | hj := (hknown j).mp hj
    · rw [← hnext, AList.lookup_insert]
      exact .inr (.inl rfl)
    · rw [if_neg (hne j hj).1, AList.lookup_insert_ne (hne j hj).2]
      exact h.tracked j hj

/-- `on_close_` takes a closed connection out of the map, and no other. -/
theorem MapInv.remove (h : MapInv s) {k : Nat} (hio : s.io = .closing k) :
    MapInv { s with conns := s.conns.erase (s.peers k).connId, io := .idle } := by
  obtain ⟨hknown, hclosed⟩ := h.closing k hio
  have hadded : added { s with conns := s.conns.erase (s.peers k).connId, io := .idle } =
      s.added := by
    unfold added
    rw [hio]
  have hsame := known_of_added hadded
  refine ⟨h.bound, nofun, ?_, ?_, ?_, ?_, nofun⟩
  · rw [hadded]
    exact h.next
  · intro j hj
    exact h.ids j (hsame j ▸ hj)
  · intro id j hj
    rw [hsame]
    exact h.listed id j (AList.lookup_erase_eq_some.mp hj).2
  · intro j hj
    rw [hsame] at hj
    -- the connection that is removed has been closed
    by_cases hjk : j = k
    · rw [hjk]
      exact .inl hclosed
    · obtain hc | hl | hlist := h.tracked j hj
      · exact .inl hc
      · -- another connection has another id, so its entry stays
        refine .inr (.inl (AList.lookup_erase_eq_some.mpr ⟨fun heq => hjk ?_, hl⟩))
        rw [h.ids k hknown] at heq
        exact idOf_inj (h.known_lt hj) (h.known_lt hknown) heq
      · exact .inr (.inr hlist)

/-- `close_all()` finds every connection of the map. -/
theorem mem_snapshot {id : UInt64} {k : Nat} (h : s.conns.lookup id = some k) :
    k ∈ s.snapshot :=
  List.mem_map.mpr ⟨⟨id, k⟩, AList.mem_lookup_iff.mp h, rfl⟩

/-- What is in the snapshot is in the map. -/
theorem MapInv.of_mem_snapshot (h : MapInv s) {k : Nat} (hk : k ∈ s.snapshot) :
    s.known k = true := by
  obtain ⟨e, he, rfl⟩ := List.mem_map.mp hk
  exact (h.listed _ _ (AList.lookup_of_mem_entries he)).1

/-- A `close_all()` moves the map to its list. -/
theorem MapInv.empty (h : MapInv s) (toClose : List Nat) (stop : Stop)
    (hlists : ∀ k, k ∈ s.snapshot ∨ k ∈ s.toClose ∨ k ∈ s.stop.rest → k ∈ toClose ∨ k ∈ stop.rest) :
    MapInv { s with conns := ∅, toClose, stop } := by
  refine ⟨h.bound, h.accepted, h.next, h.ids, nofun, fun k hk => ?_, h.closing⟩
  -- what was in the map is on the list now
  obtain hc | hl | hlist := h.tracked k hk
  · exact .inl hc
  · exact .inr (.inr (hlists k (.inl (mem_snapshot hl))))
  · exact .inr (.inr (hlists k (.inr hlist)))

/-- A phase of the io thread that is not calm is one it was in before. -/
theorem io_of_not_isCalm {io io' : Io} (hio : io = s.io ∨ (s.io.isCalm = true ∧ io.isCalm = true))
    (h : io = io') (hcalm : io'.isCalm = false) : s.io = io' := by
  obtain rfl | ⟨-, hcalm'⟩ := hio
  · exact h
  · rw [h, hcalm] at hcalm'
    cases hcalm'

/-- One connection changes; it stays closed if it was, and what is taken off the lists is closed. -/
theorem MapInv.setPeer (h : MapInv s) (k : Nat) (p : Peer) (io : Io) (toClose : List Nat)
    (stop : Stop) (messages : List (Nat × Bool)) (hid : p.connId = (s.peers k).connId)
    (hclosed : (s.peers k).conn.closed = true → p.conn.closed = true)
    (hlists : ∀ j, j ∈ s.toClose ∨ j ∈ s.stop.rest →
      (j ∈ toClose ∨ j ∈ stop.rest) ∨ j = k ∧ p.conn.closed = true)
    (hio : (io = s.io ∨ (s.io.isCalm = true ∧ io.isCalm = true)) ∨
      io = .closing k ∧ s.io = .idle ∧ s.known k = true ∧ p.conn.closed = true) :
    MapInv { s.setPeer k p with io, toClose, stop, messages } := by
  have hpeers (j : Nat) : ({ s.setPeer k p with io, toClose, stop, messages } :
      MessageCycle).peers j = if j = k then p else s.peers j := peers_setPeer s k p j
  -- the clauses of `of_eq` in their order, for connection `k` and for the others
  refine h.of_eq ?_ rfl rfl rfl (fun j => ?_) (fun j hj => ?_) (fun j hj => ?_) (fun j hj => ?_)
    (fun j hj => ?_)
  · obtain hio | ⟨rfl, hidle, -⟩ := hio
    · exact added_of_io hio rfl rfl
    · rw [added_of_idle hidle]
      rfl
  · rw [hpeers]
    split
    · rename_i heq
      rw [heq]
      exact hid
    · rfl
  · rw [hpeers]
    split
    · rename_i heq
      rw [heq] at hj
      exact hclosed hj
    · exact hj
  · obtain hlist | ⟨rfl, hc⟩ := hlists j hj
    · exact .inr hlist
    · rw [hpeers, if_pos rfl]
      exact .inl hc
  · obtain hio | ⟨rfl, -⟩ := hio
    · exact io_of_not_isCalm hio hj rfl
    · cases hj
  · obtain hio | ⟨rfl, -, hknown, hc⟩ := hio
    · exact .inl (io_of_not_isCalm hio hj rfl)
    · obtain rfl := Io.closing.inj hj
      refine .inr ⟨hknown, ?_⟩
      rw [hpeers, if_pos rfl]
      exact hc

/-- Every step keeps the map, as long as there are ids. -/
theorem Steps.mapInv {a : Act} (hs : Steps s a s') (hok : Bounded s a) (h : MapInv s) :
    MapInv s' := by
  -- a second `close()` finds `closed_` set
  have hclosed (k : Nat) : (s.peers k).conn.closed = true → (s.peers k).close.conn.closed = true :=
    fun _ => close_closed _
  cases hs with
  | flags a running acceptorOpen armed incoming iosStopped io stop hio hrest hemptied =>
    refine h.of_eq (added_of_io hio rfl rfl) rfl rfl rfl (fun _ => rfl) (fun _ hc => hc) ?_
      (fun k hk => io_of_not_isCalm hio hk rfl) (fun k hk => .inl (io_of_not_isCalm hio hk rfl))
    intro k hk
    rw [← hrest] at hk
    exact .inr hk
  | keeps a k p io hkeeps hwaiting hio =>
    -- a step of the connection that leaves `closed_` alone
    exact h.setPeer k p io _ _ _ hkeeps.connId (fun hc => hkeeps.closed.trans hc)
      (fun _ hj => .inl hj) (.inl hio)
  | message k p hidle hkeeps =>
    refine h.setPeer k p _ _ _ _ hkeeps.connId (fun hc => hkeeps.closed.trans hc)
      (fun _ hj => .inl hj) (.inl (.inr ⟨?_, rfl⟩))
    rw [hidle]
    rfl
  | closes a k p hidle hknown hopen hclosed hcalls hid =>
    -- the read handler sets `closed_`, and the io thread is inside of `on_close_` next
    exact h.setPeer k p _ _ _ _ hid (fun _ => hclosed) (fun _ hj => .inl hj)
      (.inr ⟨rfl, hidle, hknown, hclosed⟩)
  | accept hidle => exact h.accept hidle hok false false
  | add k hio => exact h.add hio
  | remove k hio => exact h.remove hio
  | close k hknown =>
    exact h.setPeer k _ _ _ _ _ (close_connId _) (hclosed k) (fun _ hj => .inl hj)
      (.inl (.inl rfl))
  | closeAll =>
    -- the snapshot goes behind what is still to close
    refine h.empty _ _ fun k hk => ?_
    obtain hk | hk | hk := hk
    · exact .inl (List.mem_append_right _ hk)
    · exact .inl (List.mem_append_left _ hk)
    · exact .inr hk
  | closeNext k hmem =>
    -- what leaves the list of `close_all()` is closed
    refine h.setPeer k _ _ _ _ _ (close_connId _) (hclosed k) (fun j hj => ?_) (.inl (.inl rfl))
    by_cases hjk : j = k
    · exact .inr ⟨hjk, close_closed _⟩
    · obtain hj | hj := hj
      · exact .inl (.inl ((List.mem_erase_of_ne hjk).mpr hj))
      · exact .inl (.inr hj)
  | stopSnapshot hstop =>
    -- the same on the thread of `stop()`, whose list was empty
    refine h.empty _ _ fun k hk => ?_
    rw [hstop] at hk
    obtain hk | hk | hk := hk
    · exact .inr hk
    · exact .inl hk
    · cases hk
  | stopClose k rest hstop =>
    -- what leaves the list of `stop()` is closed
    refine h.setPeer k _ _ _ _ _ (close_connId _) (hclosed k) (fun j hj => ?_) (.inl (.inl rfl))
    rw [hstop] at hj
    obtain hj | hj := hj
    · exact .inl (.inl hj)
    · obtain rfl | hj := List.mem_cons.mp hj
      · exact .inr ⟨rfl, close_closed _⟩
      · exact .inl (.inr hj)

/-- At the beginning there is no connection. -/
theorem mapInv_init (async : Bool) : MapInv (init async) := by
  refine ⟨Nat.zero_le _, nofun, rfl, fun k hk => ?_, nofun, fun k hk => ?_, nofun⟩
  · exact absurd (known_iff.mp hk) (Nat.not_lt_zero k)
  · exact absurd (known_iff.mp hk) (Nat.not_lt_zero k)

/-- Every run that does not use up the ids keeps the map. -/
theorem mapInv_of_reaches {async : Bool} {ok : MessageCycle → Act → Prop}
    (hok : ∀ s a, ok s a → Bounded s a) (h : Reaches step ok (init async) s) : MapInv s := by
  apply h.invariant (P := MapInv) (mapInv_init async)
  intro s a s' hinv ha hs
  exact (steps_of_step hs).mapInv (hok s a ha) hinv

end Rpc.MessageCycle
