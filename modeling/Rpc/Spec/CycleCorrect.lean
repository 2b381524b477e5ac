import Rpc.Spec.CycleMap

/-!
# Which connections the manager tracks

Six places set `closed_`.  Those in the handlers then call `on_close_`, which takes the
connection out of the map but leaves its socket open, so that the read loop goes on after a
failed write; `close()` closes the socket and leaves the map alone.

`Orderly` excludes the steps that break the agreement of flag, map and read loop, and
`tracks_live` says that in runs without them they agree.  `StopOrderly` excludes a connection
that is added behind the back of `stop()`, and `stop_closes_all` says that `stop()` leaves no
other behind.
-/

namespace Rpc.MessageCycle

open Transition

variable {s s' : MessageCycle}

/-! ## Orderly runs -/

/-- Setting the flag of this connection does not come between the completion of a read and the
    call of `on_message_`. -/
def Peer.MayClose (p : Peer) : Prop := p.conn.closed = true ∨ p.bodyWaiting = false

instance (p : Peer) : Decidable p.MayClose := inferInstanceAs (Decidable (_ ∨ _))

/-- The steps that keep flag, map and read loop together:

    * there are ids left;
    * `close()` is not called from outside on an open connection that is in the map;
    * after `closed_` was set no read of a body completes with data any more;
    * when a failed write, a `close()` or a `close_all()` sets `closed_`, no message is waiting
      for its handler. -/
def Orderly (s : MessageCycle) : Act → Prop
  | .accept => s.accepted < 2 ^ 64
  | .close k => (s.peers k).MayClose ∧
    ((s.peers k).conn.closed = true ∨ s.conns.lookup (s.peers k).connId ≠ some k)
  | .readCompletes k (some _) => (s.peers k).readsBody = true → (s.peers k).conn.closed = false
  | .writeError k _ | .closeNext k => (s.peers k).MayClose
  | .stopClose => ∀ k ∈ s.stop.rest.head?, (s.peers k).MayClose
  | _ => True

instance (s : MessageCycle) (a : Act) : Decidable (Orderly s a) :=
  match a with
  | .accept => inferInstanceAs (Decidable (_ < _))
  | .close _ => inferInstanceAs (Decidable (_ ∧ _))
  | .readCompletes _ (some _) => inferInstanceAs (Decidable (_ → _))
  | .writeError .. | .closeNext _ => inferInstanceAs (Decidable (Peer.MayClose _))
  | .stopClose => inferInstanceAs (Decidable (∀ k ∈ s.stop.rest.head?, _))
  | .readCompletes _ none | .run | .connects | .acceptError | .add | .startRead | .rearm
  | .readHandler _ | .remove | .messageReturns | .messageThrows | .write .. | .writeDone ..
  | .socketClose _ | .closeAll | .stop | .stopAcceptor | .stopSnapshot | .stopIos | .stopReturn
  | .loopEnds => inferInstanceAs (Decidable True)

/-- An orderly run does not run out of ids. -/
theorem Orderly.bounded {a : Act} (h : Orderly s a) : Bounded s a := by
  cases a with
  | accept => exact h
  | _ => trivial

/-- A connection in the map is open, or about to be removed; one that a `close_all()` has taken
    is not in the map. -/
structure OpenInv (s : MessageCycle) : Prop where
  listed : ∀ k, s.conns.lookup (idOf k) = some k →
    (s.peers k).conn.closed = false ∨ s.io = .closing k
  taken : ∀ k, k ∈ s.toClose ∨ k ∈ s.stop.rest →
    s.known k = true ∧ s.conns.lookup (idOf k) ≠ some k
  fresh : ∀ k, s.known k = false → (s.peers k).conn.closed = false

/-- No message is waiting for its handler on a closed connection, and none was there when
    `on_message_` was called. -/
structure QuietInv (s : MessageCycle) : Prop where
  waiting : ∀ k, (s.peers k).conn.closed = true → (s.peers k).bodyWaiting = false
  messages : ∀ m ∈ s.messages, m.2 = false

/-- Closing what may be closed makes no message wait on a closed connection. -/
theorem Peer.MayClose.close {p : Peer} (h : p.MayClose)
    (hp : p.conn.closed = true → p.bodyWaiting = false) : p.close.bodyWaiting = false := by
  have hwait : p.bodyWaiting = false := by
    obtain hclosed | hwait := h
    · exact hp hclosed
    · exact hwait
  unfold Peer.close
  split
  · exact hwait
  · exact hwait

/-- An orderly step keeps messages away from closed connections. -/
theorem Steps.quietInv {a : Act} (hs : Steps s a s') (hok : Orderly s a) (h : QuietInv s) :
    QuietInv s' := by
  -- only one connection changes
  have hset {k : Nat} {p : Peer} (hp : p.conn.closed = true → p.bodyWaiting = false) (j : Nat) :
      ((s.setPeer k p).peers j).conn.closed = true →
        ((s.setPeer k p).peers j).bodyWaiting = false :=
    forall_setPeer (P := fun _ p => p.conn.closed = true → p.bodyWaiting = false) h.waiting hp j
  cases hs with
  | flags | accept | remove | closeAll | stopSnapshot => exact ⟨h.waiting, h.messages⟩
  | keeps a k p io hkeeps hwaiting =>
    refine ⟨hset fun hclosed => ?_, h.messages⟩
    rw [hkeeps.closed] at hclosed
    by_contra hwait
    -- it was waiting before, or has been read by this step
    obtain hold | ⟨hreads, data, rfl⟩ := hwaiting (by simpa using hwait)
    · rw [h.waiting k hclosed] at hold
      cases hold
    · rw [show (s.peers k).conn.closed = false from hok hreads] at hclosed
      cases hclosed
  -- the message called for was waiting, so its connection is open
  | message k p hidle hkeeps hbefore hafter =>
    refine ⟨hset fun _ => hafter, fun m hm => ?_⟩
    obtain hm | hm := List.mem_append.mp hm
    · exact h.messages m hm
    · obtain rfl := List.mem_singleton.mp hm
      show (s.peers k).conn.closed = false
      by_contra hclosed
      rw [h.waiting k (by simpa using hclosed)] at hbefore
      cases hbefore
  | closes a k p hidle hknown hopen hclosed hcalls hid hwaiting =>
    -- a message that waits after a failed write has been waiting before
    refine ⟨hset fun _ => ?_, h.messages⟩
    by_contra hwait
    obtain ⟨hold, data, rfl⟩ := hwaiting (by simpa using hwait)
    obtain hc | hw := (hok : (s.peers k).MayClose)
    · rw [hopen] at hc
      cases hc
    · rw [hw] at hold
      cases hold
  | add k hio => exact ⟨hset (h.waiting k), h.messages⟩
  | close k hknown => exact ⟨hset fun _ => Peer.MayClose.close hok.1 (h.waiting k), h.messages⟩
  | closeNext k hmem =>
    exact ⟨hset fun _ => Peer.MayClose.close hok (h.waiting k), h.messages⟩
  | stopClose k rest hstop =>
    have hmay : (s.peers k).MayClose := hok k (by rw [hstop]; rfl)
    exact ⟨hset fun _ => hmay.close (h.waiting k), h.messages⟩

/-- The io thread comes out of `on_close_` by `remove` only. -/
theorem io_of_closing {io : Io} {k : Nat}
    (hio : io = s.io ∨ (s.io.isCalm = true ∧ io.isCalm = true)) (h : s.io = .closing k) :
    io = .closing k := by
  obtain rfl | ⟨hcalm, -⟩ := hio
  · exact h
  · rw [h] at hcalm
    cases hcalm

/-- A step that leaves the map and the flags alone. -/
theorem OpenInv.of_eq (h : OpenInv s) (hadded : s'.added = s.added) (hconns : s'.conns = s.conns)
    (hclosed : ∀ k, (s'.peers k).conn.closed = (s.peers k).conn.closed)
    (hlists : ∀ k, k ∈ s'.toClose ∨ k ∈ s'.stop.rest → k ∈ s.toClose ∨ k ∈ s.stop.rest)
    (hio : ∀ k, s.io = .closing k → s'.io = .closing k) : OpenInv s' := by
  have hknown := known_of_added hadded
  refine ⟨fun k hk => ?_, fun k hk => ?_, fun k hk => ?_⟩
  · rw [hconns] at hk
    rw [hclosed]
    obtain hopen | hclosing := h.listed k hk
    · exact .inl hopen
    · exact .inr (hio k hclosing)
  · rw [hconns, hknown]
    exact h.taken k (hlists k hk)
  · rw [hknown] at hk
    rw [hclosed]
    exact h.fresh k hk

/-- A known connection is closed: it is not in the map, or its handler is in `on_close_`. -/
theorem OpenInv.closes (h : OpenInv s) {k : Nat} (hknown : s.known k = true) (p : Peer) (io : Io)
    (toClose : List Nat) (stop : Stop)
    (hadded : added { s.setPeer k p with io, toClose, stop } = s.added)
    (hmap : s.conns.lookup (idOf k) = some k → (s.peers k).conn.closed = false →
      p.conn.closed = false ∨ io = .closing k)
    (hlists : ∀ j, j ∈ toClose ∨ j ∈ stop.rest → j ∈ s.toClose ∨ j ∈ s.stop.rest)
    (hio : ∀ j, s.io = .closing j → io = .closing j) :
    OpenInv { s.setPeer k p with io, toClose, stop } := by
  have hsame := known_of_added hadded
  have hpeers (j : Nat) : ({ s.setPeer k p with io, toClose, stop } : MessageCycle).peers j =
      if j = k then p else s.peers j := peers_setPeer s k p j
  refine ⟨fun j hj => ?_, fun j hj => ?_, fun j hj => ?_⟩
  · rw [hpeers]
    obtain hopen | hclosing := h.listed j hj
    · split
      -- the connection that is closed; the others are as before
      · rename_i heq
        subst heq
        exact hmap hj hopen
      · exact .inl hopen
    · exact .inr (hio j hclosing)
  · rw [hsame]
    exact h.taken j (hlists j hj)
  · rw [hsame] at hj
    rw [hpeers]
    split
    · rename_i heq
      rw [heq, hknown] at hj
      cases hj
    · exact h.fresh j hj

/-- A connection is added under a new id. -/
theorem OpenInv.add (h : OpenInv s) (hmap : MapInv s) {k : Nat} (hio : s.io = .accepted k) :
    OpenInv { s.setPeer k { s.peers k with connId := s.nextId } with
      nextId := s.nextId + 1, conns := s.conns.insert s.nextId k, io := .added k } := by
  have hknown := hmap.known_add hio { s.peers k with connId := s.nextId } (s.nextId + 1)
    (s.conns.insert s.nextId k)
  have hnew : s.known k = false := by
    simp only [known, added, hio, Nat.lt_irrefl, decide_false]
  -- the flags are those of before
  have hclosed (j : Nat) : ((s.setPeer k { s.peers k with connId := s.nextId }).peers j).conn.closed
      = (s.peers j).conn.closed := by
    apply closed_setPeer
    rfl
  refine ⟨fun j hj => ?_, fun j hj => ?_, fun j hj => ?_⟩
  -- the new connection is open, and the io thread is not in `on_close_`
  · refine .inl ((hclosed j).trans ?_)
    obtain ⟨-, rfl⟩ | ⟨-, hj⟩ := AList.lookup_insert_eq_some.mp hj
    · exact h.fresh j hnew
    · obtain hopen | hclosing := h.listed j hj
      · exact hopen
      · rw [hio] at hclosing
        cases hclosing
  -- one that a `close_all()` has taken was added before
  · obtain ⟨hold, hne⟩ := h.taken j hj
    refine ⟨(hknown j).mpr (.inr hold), fun hlookup => ?_⟩
    obtain ⟨-, rfl⟩ | ⟨-, hlookup⟩ := AList.lookup_insert_eq_some.mp hlookup
    · rw [hnew] at hold
      cases hold
    · exact hne hlookup
  · refine (hclosed j).trans (h.fresh j ?_)
    cases hold : s.known j with
    | false => rfl
    | true =>
      rw [(hknown j).mpr (.inr hold)] at hj
      cases hj

/-- A connection is removed by its own callback. -/
theorem OpenInv.remove (h : OpenInv s) (hmap : MapInv s) {k : Nat} (hio : s.io = .closing k) :
    OpenInv { s with conns := s.conns.erase (s.peers k).connId, io := .idle } := by
  have hsame := known_of_added (show
    added { s with conns := s.conns.erase (s.peers k).connId, io := .idle } = s.added by
      unfold added
      rw [hio])
  refine ⟨fun j hj => ?_, fun j hj => ?_, fun j hj => ?_⟩
  -- the others in the map are open, as the io thread closes one at a time
  · obtain ⟨hne, hj⟩ := AList.lookup_erase_eq_some.mp hj
    obtain hopen | hclosing := h.listed j hj
    · exact .inl hopen
    · rw [hio] at hclosing
      obtain rfl := Io.closing.inj hclosing
      exact absurd (hmap.ids k (hmap.closing k hio).1).symm hne
  · rw [hsame]
    obtain ⟨hknown, hne⟩ := h.taken j hj
    exact ⟨hknown, fun hlookup => hne (AList.lookup_erase_eq_some.mp hlookup).2⟩
  · exact h.fresh j (hsame j ▸ hj)

/-- A `close_all()` empties the map. -/
theorem OpenInv.empty (h : OpenInv s) (hmap : MapInv s) (toClose : List Nat) (stop : Stop)
    (hlists : ∀ k, k ∈ toClose ∨ k ∈ stop.rest →
      k ∈ s.snapshot ∨ k ∈ s.toClose ∨ k ∈ s.stop.rest) :
    OpenInv { s with conns := ∅, toClose, stop } := by
  refine ⟨nofun, fun k hk => ⟨?_, nofun⟩, h.fresh⟩
  obtain hk | hk := hlists k hk
  · exact hmap.of_mem_snapshot hk
  · exact (h.taken k hk).1

/-- An orderly step keeps map and flags together. -/
theorem Steps.openInv {a : Act} (hs : Steps s a s') (hok : Orderly s a) (hmap : MapInv s)
    (h : OpenInv s) : OpenInv s' := by
  -- a connection that is on a list of a `close_all()` is not in the map
  have htaken {k : Nat} (hk : k ∈ s.toClose ∨ k ∈ s.stop.rest) {q : Prop}
      (hlookup : s.conns.lookup (idOf k) = some k) : q := absurd hlookup (h.taken k hk).2
  cases hs with
  | flags a running acceptorOpen armed incoming iosStopped io stop hio hrest hemptied =>
    refine h.of_eq (added_of_io hio rfl rfl) rfl (fun _ => rfl) (fun k hk => ?_)
      (fun k hk => io_of_closing hio hk)
    rw [← hrest]
    exact hk
  | keeps a k p io hkeeps hwaiting hio =>
    exact h.of_eq (added_of_io hio rfl rfl) rfl (closed_setPeer hkeeps.closed) (fun _ hj => hj)
      (fun j hj => io_of_closing hio hj)
  | message k p hidle hkeeps =>
    refine h.of_eq ?_ rfl (closed_setPeer hkeeps.closed) (fun _ hj => hj) (fun j hj => ?_)
    · rw [added_of_idle hidle]
      rfl
    · rw [hidle] at hj
      cases hj
  -- between the flag and `remove` the io thread is in `on_close_`
  | closes a k p hidle hknown =>
    refine h.closes hknown p _ _ _ ?_ (fun _ _ => .inr rfl) (fun _ hj => hj) (fun j hj => ?_)
    · rw [added_of_idle hidle]
      rfl
    · rw [hidle] at hj
      cases hj
  | accept hidle =>
    refine h.of_eq ?_ rfl (fun _ => rfl) (fun _ hk => hk) (fun k hk => ?_)
    · rw [added_of_idle hidle]
      rfl
    · rw [hidle] at hk
      cases hk
  | add k hio => exact h.add hmap hio
  | remove k hio => exact h.remove hmap hio
  | close k hknown =>
    refine h.closes hknown _ s.io _ _ rfl (fun hlookup hopen => ?_) (fun _ hj => hj)
      (fun _ hj => hj)
    -- an orderly `close()` finds its connection closed, or out of the map
    obtain ⟨-, hclosed | hne⟩ := hok
    · rw [hopen] at hclosed
      cases hclosed
    · rw [hmap.ids k hknown] at hne
      exact absurd hlookup hne
  | closeAll =>
    refine h.empty hmap _ _ fun k hk => ?_
    rw [List.mem_append] at hk
    tauto
  -- a `close_all()` has emptied the map before it closes
  | closeNext k hmem =>
    refine h.closes (h.taken k (.inl hmem)).1 _ s.io _ _ rfl
      (fun hlookup _ => htaken (.inl hmem) hlookup) (fun j hj => ?_) (fun _ hj => hj)
    obtain hj | hj := hj
    · exact .inl (List.mem_of_mem_erase hj)
    · exact .inr hj
  | stopSnapshot hstop =>
    refine h.empty hmap _ _ fun k hk => ?_
    obtain hk | hk := hk
    · exact .inr (.inl hk)
    · exact .inl hk
  | stopClose k rest hstop =>
    have hmem : k ∈ s.stop.rest := by
      rw [hstop]
      exact List.mem_cons_self
    refine h.closes (h.taken k (.inr hmem)).1 _ s.io _ _ rfl
      (fun hlookup _ => htaken (.inr hmem) hlookup) (fun j hj => ?_) (fun _ hj => hj)
    obtain hj | hj := hj
    · exact .inl hj
    · rw [hstop]
      exact .inr (List.mem_cons_of_mem k hj)

/-- At the beginning there are no connections. -/
theorem openInv_init (async : Bool) : OpenInv (init async) := by
  refine ⟨nofun, fun k hk => ?_, fun _ _ => rfl⟩
  obtain hk | hk := hk <;> cases hk

/-- Map and flags agree in every orderly run. -/
theorem openInv_of_reaches {async : Bool} (h : Reaches step Orderly (init async) s) :
    OpenInv s := by
  apply h.invariant_with (I := MapInv) (P := OpenInv)
  · intro s hs
    exact mapInv_of_reaches (fun _ _ => Orderly.bounded) hs
  · exact openInv_init async
  · intro s a s' hmap hopen ha hs
    exact (steps_of_step hs).openInv ha hmap hopen

/-- No message waits on a closed connection in an orderly run. -/
theorem quietInv_of_reaches {async : Bool} (h : Reaches step Orderly (init async) s) :
    QuietInv s := by
  apply h.invariant (P := QuietInv)
  · exact ⟨nofun, nofun⟩
  · intro s a s' hquiet ha hs
    exact (steps_of_step hs).quietInv ha hquiet

/-- The callbacks caused by the events so far have run, and no `close_all()` is under way. -/
def settled (s : MessageCycle) : Bool :=
  s.io.isCalm && s.toClose.isEmpty && s.stop.rest.isEmpty

/-- The parts of being settled. -/
theorem settled_iff :
    s.settled = true ↔ s.io.isCalm = true ∧ s.toClose = [] ∧ s.stop.rest = [] := by
  simp only [settled, Bool.and_eq_true, List.isEmpty_iff, and_assoc]

/-- Between events the map holds the open connections. -/
theorem OpenInv.mem_snapshot_iff (h : OpenInv s) (hmap : MapInv s) (hsettled : s.settled = true)
    {k : Nat} (hk : k < s.accepted) : k ∈ s.snapshot ↔ (s.peers k).conn.closed = false := by
  obtain ⟨hcalm, htoClose, hrest⟩ := settled_iff.mp hsettled
  have hknown : s.known k = true := known_of_isCalm hcalm hk
  constructor
  -- in the map: open, or the io thread is in `on_close_`, which it is not
  · intro hmem
    obtain ⟨e, he, rfl⟩ := List.mem_map.mp hmem
    have hlookup := AList.lookup_of_mem_entries he
    rw [(hmap.listed _ _ hlookup).2] at hlookup
    obtain hopen | hclosing := h.listed _ hlookup
    · exact hopen
    · rw [hclosing] at hcalm
      cases hcalm
  -- open: in the map, or on a list of a `close_all()`, which are empty
  · intro hopen
    obtain hclosed | hlookup | hlist | hlist := hmap.tracked k hknown
    · rw [hopen] at hclosed
      cases hclosed
    · exact mem_snapshot hlookup
    · rw [htoClose] at hlist
      cases hlist
    · rw [hrest] at hlist
      cases hlist

/-- `on_close_` is called at most once per connection, in every run.  In an orderly run the map
    holds, between events, the connections whose flag is not set, and `on_message_` is called
    for such connections only. -/
theorem tracks_live (async : Bool) :
    (∀ s, Reachable step (init async) s → ∀ k, (s.peers k).conn.onCloseCalls ≤ 1) ∧
      ∀ s, Reaches step Orderly (init async) s →
        (s.settled = true → ∀ k < s.accepted,
          (k ∈ s.snapshot ↔ (s.peers k).conn.closed = false)) ∧
        ∀ m ∈ s.messages, m.2 = false := by
  constructor
  · intro s hs k
    exact (calledOnce_of_reachable hs k).1
  · intro s hs
    have hmap : MapInv s := mapInv_of_reaches (fun _ _ => Orderly.bounded) hs
    refine ⟨fun hsettled k hk => ?_, (quietInv_of_reaches hs).messages⟩
    exact (openInv_of_reaches hs).mem_snapshot_iff hmap hsettled hk

/-- A header that announces a body of one byte. -/
def oneByteHeader : RpcHeader :=
  { magic := RpcHeader.MAGIC, version := RpcHeader.VERSION, msgType := 0, serializer := 0
    flags := 0, seqId := 1, bodySize := 1, checksum := 0 }

/-- A client connects and is accepted. -/
def acceptActs : List Act := [.connects, .accept, .add, .startRead, .rearm]

/-- Connection `k` receives a message, up to the handler that calls `on_message_`. -/
def receiveActs (k : Nat) : List Act :=
  [.readCompletes k (some (serializeHeader oneByteHeader)), .readHandler k,
   .readCompletes k (some [7])]

/-- Two clients connect; the first sends a message and goes, and its connection alone is removed. -/
theorem tracks_live_twoClients : ∃ s, Reaches step Orderly (init true) s ∧
    s.messages = [(0, false)] ∧ (∀ m ∈ s.messages, m.2 = false) ∧
    0 ∉ s.snapshot ∧ (s.peers 0).conn.closed = true ∧
    1 ∈ s.snapshot ∧ (s.peers 1).conn.closed = false := by
  have hrun : ∃ s, Reaches step Orderly (init true) s ∧ s.settled = true ∧ s.accepted = 2 ∧
      s.messages = [(0, false)] ∧ (s.peers 0).conn.closed = true ∧
      (s.peers 1).conn.closed = false := by
    apply exists_reaches_of_run (.run :: acceptActs ++ acceptActs ++ receiveActs 0 ++
      [.readHandler 0, .messageReturns, .readCompletes 0 none, .readHandler 0, .remove])
    decide
  obtain ⟨s, hs, hsettled, haccepted, hmessages, hclosed, hopen⟩ := hrun
  obtain ⟨htracks, hquiet⟩ := (tracks_live true).2 s hs
  refine ⟨s, hs, hmessages, hquiet, ?_, hclosed, ?_, hopen⟩
  · rw [htracks hsettled 0 (by omega), hclosed]
    exact nofun
  · rw [htracks hsettled 1 (by omega)]
    exact hopen

/-- After a `close()` the connection stays in the map, though its read has failed too; and a
    message that has been read when a write fails is delivered with the flag set. -/
theorem closed_but_tracked :
    (¬∀ s, Reachable step (init true) s → s.settled = true → ∀ k < s.accepted,
      (k ∈ s.snapshot ↔ (s.peers k).conn.closed = false)) ∧
    ¬∀ s, Reachable step (init true) s → ∀ m ∈ s.messages, m.2 = false := by
  constructor
  · intro h
    have hrun : ∃ s, Reachable step (init true) s ∧ s.settled = true ∧ s.accepted = 1 ∧
        0 ∈ s.snapshot ∧ (s.peers 0).conn.closed = true := by
      -- `close()` sets the flag, and the read that fails then finds it set
      apply exists_reachable_of_run (.run :: acceptActs ++
        [.close 0, .socketClose 0, .readCompletes 0 none, .readHandler 0])
      decide
    obtain ⟨s, hs, hsettled, haccepted, hmem, hclosed⟩ := hrun
    rw [h s hs hsettled 0 (by omega), hclosed] at hmem
    cases hmem
  · intro h
    have hrun : ∃ s, Reachable step (init true) s ∧ (0, true) ∈ s.messages := by
      -- the write fails between the read of the body and its handler
      apply exists_reachable_of_run (.run :: acceptActs ++ receiveActs 0 ++
        [.write 0 (.send (some 1) oneByteHeader [7]),
         .write 0 (.push (some 1) (Connection.frame oneByteHeader [7])),
         .write 0 (.pop (some 1)),
         .write 0 (.startWrite (some 1) (Connection.frame oneByteHeader [7])),
         .writeError 0 (Connection.frame oneByteHeader [7]), .remove, .readHandler 0])
      decide
    obtain ⟨s, hs, hmessages⟩ := hrun
    cases h s hs _ hmessages

/-! ## `stop()` -/

/-- No connection is added after the `close_all` of `stop()` has emptied the map, and there are
    ids left. -/
def StopOrderly (s : MessageCycle) : Act → Prop
  | .accept => s.accepted < 2 ^ 64
  | .add => s.stop.emptied = false
  | _ => True

instance (s : MessageCycle) (a : Act) : Decidable (StopOrderly s a) :=
  match a with
  | .accept => inferInstanceAs (Decidable (_ < _))
  | .add => inferInstanceAs (Decidable (_ = _))
  | .run | .connects | .acceptError | .startRead | .rearm | .readCompletes .. | .readHandler _
  | .remove | .messageReturns | .messageThrows | .write .. | .writeDone .. | .writeError ..
  | .close _ | .socketClose _ | .closeAll | .closeNext _ | .stop | .stopAcceptor | .stopSnapshot
  | .stopClose | .stopIos | .stopReturn | .loopEnds => inferInstanceAs (Decidable True)

/-- A run in which `stop()` finds every connection does not run out of ids. -/
theorem StopOrderly.bounded {a : Act} (h : StopOrderly s a) : Bounded s a := by
  cases a with
  | accept => exact h
  | _ => trivial

/-- What `stop()` has emptied stays empty. -/
theorem Steps.conns_eq_empty {a : Act} (hs : Steps s a s') (hok : StopOrderly s a)
    (h : s.stop.emptied = true → s.conns = ∅) : s'.stop.emptied = true → s'.conns = ∅ := by
  intro hemptied
  cases hs with
  | flags a running acceptorOpen armed incoming iosStopped io stop hio hrest hsame =>
    exact h (hsame.symm.trans hemptied)
  | keeps | message | closes | accept | close | closeNext => exact h hemptied
  -- the only step that puts something into the map
  | add k hio =>
    have hnot : s.stop.emptied = false := hok
    cases hnot.symm.trans hemptied
  | remove k hio =>
    show s.conns.erase _ = ∅
    rw [h hemptied]
    rfl
  | closeAll | stopSnapshot => rfl
  | stopClose k rest hstop =>
    apply h
    rw [hstop]
    rfl

/-- After the `close_all` of `stop()` the map is empty. -/
theorem conns_eq_empty_of_reaches {async : Bool} (h : Reaches step StopOrderly (init async) s) :
    s.stop.emptied = true → s.conns = ∅ := by
  apply h.invariant (P := fun s => s.stop.emptied = true → s.conns = ∅)
  · intro _
    rfl
  · intro s a s' hinv ha hs
    exact (steps_of_step hs).conns_eq_empty ha hinv

/-- The io thread is not inside of a handler. -/
def Io.atRest : Io → Bool
  | .notStarted | .idle | .ended => true
  | _ => false

/-- When `stop()` has returned and the io thread has finished its handler the map is empty and
    every connection is closed, unless one was added after the `close_all` of `stop()`. -/
theorem stop_closes_all {async : Bool} (h : Reaches step StopOrderly (init async) s)
    (hstop : s.stop = .returned) (hrest : s.io.atRest = true) (htoClose : s.toClose = []) :
    s.conns = ∅ ∧ ∀ k < s.accepted, (s.peers k).conn.closed = true := by
  have hmap : MapInv s := mapInv_of_reaches (fun _ _ => StopOrderly.bounded) h
  have hempty : s.conns = ∅ := by
    apply conns_eq_empty_of_reaches h
    rw [hstop]
    rfl
  -- a thread at rest is not between accepting a connection and adding it
  have hcalm : s.io.isCalm = true := by
    cases hio : s.io with
    | accepted k | closing k =>
      rw [hio] at hrest
      cases hrest
    | _ => rfl
  refine ⟨hempty, fun k hk => ?_⟩
  have hknown : s.known k = true := known_of_isCalm hcalm hk
  -- closed, in the map, or on a list that is empty by now
  obtain hclosed | hlookup | hlist | hlist := hmap.tracked k hknown
  · exact hclosed
  · rw [hempty] at hlookup
    cases hlookup
  · rw [htoClose] at hlist
    cases hlist
  · rw [hstop] at hlist
    cases hlist

/-- A connection is accepted before `stop()` and another in the middle of it. -/
theorem stop_closes_all_twoClients : ∃ s, Reaches step StopOrderly (init false) s ∧
    s.stop = .returned ∧ s.accepted = 2 ∧ s.conns = ∅ ∧
    ∀ k < s.accepted, (s.peers k).conn.closed = true := by
  have hrun : ∃ s, Reaches step StopOrderly (init false) s ∧ s.stop = .returned ∧
      s.io.atRest = true ∧ s.toClose = [] ∧ s.accepted = 2 := by
    apply exists_reaches_of_run (.run :: acceptActs ++ [.connects, .accept, .stop, .add,
      .stopAcceptor, .startRead, .stopSnapshot, .stopClose, .rearm, .stopClose, .stopIos,
      .stopReturn, .loopEnds])
    decide
  obtain ⟨s, hs, hstop, hrest, htoClose, haccepted⟩ := hrun
  exact ⟨s, hs, hstop, haccepted, stop_closes_all hs hstop hrest htoClose⟩

/-- A connection that is constructed when `close_all` takes its snapshot, and added after it, is
    left behind: in the map, and open. -/
theorem stop_leaves_open : ¬∀ s, Reachable step (init false) s → s.stop = .returned →
    s.io.atRest = true → s.toClose = [] →
    s.conns = ∅ ∧ ∀ k < s.accepted, (s.peers k).conn.closed = true := by
  intro h
  have hrun : ∃ s, Reachable step (init false) s ∧ s.stop = .returned ∧ s.io.atRest = true ∧
      s.toClose = [] ∧ s.accepted = 1 ∧ (s.peers 0).conn.closed = false := by
    apply exists_reachable_of_run [.run, .connects, .accept, .stop, .stopAcceptor, .stopSnapshot,
      .stopIos, .stopReturn, .add, .startRead, .rearm, .loopEnds]
    decide
  obtain ⟨s, hs, hstop, hrest, htoClose, haccepted, hopen⟩ := hrun
  have hclosed := (h s hs hstop hrest htoClose).2 0 (by omega)
  rw [hopen] at hclosed
  cases hclosed

end Rpc.MessageCycle
