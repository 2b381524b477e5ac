import Rpc.ForStd.AList
import Rpc.ForStd.List
import Rpc.Spec.ZkProtoCorrect

/-!
# Which replies reach their request

Every completed write of a `zk_client` starts a read of a length, and that read
starts one of the body, all on one socket.  The reads take the bytes of the
stream in the order in which they were started, so a second read of a length
that is started before the first has completed is served before the first
body.  And as there is one pair of reads for each request, a frame that answers
no request uses up a pair.

`Orderly` excludes these steps, and `replies_delivered` shows that in the runs
without them the reads follow the server's frame boundaries and every reply
reaches its request.
-/

namespace Rpc

open Transition BigEndian

namespace Zk

/-! ## The frames of the server -/

/-- The fields of a reply, one after the other. -/
theorem ReplyFrame.body_eq (f : ReplyFrame) :
    f.body = int32Bytes f.xid ++ (int64Bytes f.zxid ++ (int32Bytes f.err ++ f.payload)) := by
  simp only [ReplyFrame.body, writeInt32_eq, writeInt64_eq, List.nil_append, List.append_assoc]

/-- The reply header takes 16 bytes. -/
theorem ReplyFrame.body_length (f : ReplyFrame) : f.body.length = 16 + f.payload.length := by
  rw [f.body_eq]
  simp only [List.length_append, int32Bytes_length, int64Bytes_length]
  omega

/-- The reply header of a frame decodes, and the pointer is left at the payload. -/
theorem ReplyFrame.deserialize_body (f : ReplyFrame) :
    ReplyHeader.deserialize f.body =
      .ok ({ xid := f.xid, zxid := f.zxid, err := f.err }, f.payload) := by
  rw [f.body_eq]
  simp only [ReplyHeader.deserialize, readInt32_inverts _ _ trivial,
    readInt64_inverts _ _ trivial, bind, Except.bind, pure, Except.pure]

/-- The length prefix of a frame. -/
def ReplyFrame.lengthField (f : ReplyFrame) : Bytes := be32 (Int32.ofNat f.body.length).toUInt32

/-- A frame on the wire is its length and its body. -/
theorem ReplyFrame.wire_eq (f : ReplyFrame) : f.wire = f.lengthField ++ f.body := by
  simp only [ReplyFrame.wire, makeZpayload, writeInt32, List.nil_append, ReplyFrame.lengthField]

/-- The length prefix decodes to the length of the body. -/
theorem ReplyFrame.readInt32_lengthField (f : ReplyFrame) :
    ∃ n : Int32, readInt32 f.lengthField = .ok (n, []) ∧ ¬n < 0 ∧
      n.toInt.toNat = f.body.length := by
  have hlt : f.body.length < 2 ^ 31 := by
    rw [f.body_length]
    exact f.fits
  have hint := Int32.toInt_ofNat_of_lt hlt
  refine ⟨Int32.ofNat f.body.length, ?_, ?_, ?_⟩
  · have := readInt32_inverts (Int32.ofNat f.body.length) [] trivial
    rwa [List.append_nil] at this
  · rw [Int32.lt_iff_toInt_lt, hint]
    show ¬(f.body.length : Int) < 0
    omega
  · rw [hint]
    rfl

/-- What a client should take off the stream for a frame. -/
def ReplyFrame.chunks (f : ReplyFrame) : List Chunk := [.length f.lengthField, .body f.body]

/-- The read is that of a length. -/
def Read.isLength : Read → Bool
  | .length _ => true
  | .body .. => false

end Zk

open Zk

namespace ZkClient

/-! ## What a step can do -/

/-- The outcomes of a step. -/
inductive Steps (s : ZkClient) : Act → ZkClient → Prop where
  /-- `send_request` takes the next xid -/
  | alloc (op : OpCode) (body : Bytes) :
      Steps s (.alloc op body)
        { s with
          xid := s.xid + 1
          requests := s.requests ++ [{ op, body, xid := s.xid, phase := .allocated }] }
  /-- the request is put into `pending_` -/
  | register (r : Nat) (req : Request) (hreq : s.requests[r]? = some req)
      (hphase : req.phase = .allocated) :
      Steps s (.register r)
        { s with
          requests := s.setPhase r req .registered
          pending := s.pending.insert req.xid r }
  /-- its write is started -/
  | post (r : Nat) (req : Request) (hreq : s.requests[r]? = some req)
      (hphase : req.phase = .registered) :
      Steps s (.post r) { s with requests := s.setPhase r req .posted }
  /-- the write has completed, and the read of a length is started -/
  | writeDone (r : Nat) (req : Request) (hreq : s.requests[r]? = some req)
      (hphase : req.phase = .posted) (hcrash : s.crashed = false) :
      Steps s (.writeDone r)
        { s with
          requests := s.setPhase r req .written
          reads := s.reads ++ [.length req.xid] }
  /-- the write has failed, and the request with it -/
  | writeError (r : Nat) (msg : Bytes) (req : Request) (hreq : s.requests[r]? = some req)
      (hphase : req.phase = .posted) (hcrash : s.crashed = false) :
      Steps s (.writeError r msg)
        { s.rejectPending req.xid msg with requests := s.setPhase r req .failed }
  /-- the oldest read is that of a length -/
  | lengthRead (xid : Int32) (reads : List Read) (hreads : s.reads = .length xid :: reads)
      (hlen : 4 ≤ s.inbox.length) (hcrash : s.crashed = false) (hbroken : s.broken = false) :
      Steps s .readDone
        (onReadLength
          { s with
            reads
            inbox := s.inbox.drop 4
            consumed := s.consumed ++ [.length (s.inbox.take 4)] }
          xid (s.inbox.take 4))
  /-- the oldest read is that of a body -/
  | bodyRead (xid : Int32) (len : Nat) (reads : List Read)
      (hreads : s.reads = .body xid len :: reads) (hlen : len ≤ s.inbox.length)
      (hcrash : s.crashed = false) (hbroken : s.broken = false) :
      Steps s .readDone
        (onReadBody
          { s with
            reads
            inbox := s.inbox.drop len
            consumed := s.consumed ++ [.body (s.inbox.take len)] }
          (s.inbox.take len))
  /-- a read fails, and its request with it -/
  | readError (msg : Bytes) (xid : Int32) (reads : List Read) (hcrash : s.crashed = false) :
      Steps s (.readError msg)
        { s.rejectPending xid msg with reads, inbox := [], broken := true }
  /-- the server sends a frame -/
  | serve (f : ReplyFrame) :
      Steps s (.serve f)
        { s with
          sent := s.sent ++ [(f, s.pending.lookup f.xid)]
          transit := s.transit ++ f.wire }
  /-- some bytes of the server arrive -/
  | arrive (n : Nat) (hbroken : s.broken = false) :
      Steps s (.arrive n)
        { s with inbox := s.inbox ++ s.transit.take n, transit := s.transit.drop n }

/-- The completion of the oldest read. -/
private theorem steps_readDone {s s' : ZkClient} (h : s.step .readDone = some s') :
    Steps s .readDone s' := by
  simp only [step] at h
  split at h
  · cases h
  · rename_i hguard
    have hcrash : s.crashed = false := by simpa using fun h => hguard (.inl h)
    have hbroken : s.broken = false := by simpa using fun h => hguard (.inr h)
    split at h
    · rename_i xid reads hreads
      split at h
      · rename_i hlen
        obtain rfl := Option.some.inj h
        exact .lengthRead xid reads hreads hlen hcrash hbroken
      · cases h
    · rename_i xid len reads hreads
      split at h
      · rename_i hlen
        obtain rfl := Option.some.inj h
        exact .bodyRead xid len reads hreads hlen hcrash hbroken
      · cases h
    · cases h

/-- The failure of the oldest read. -/
private theorem steps_zkReadError {s s' : ZkClient} {msg : Bytes}
    (h : s.step (.readError msg) = some s') : Steps s (.readError msg) s' := by
  simp only [step] at h
  split at h
  · cases h
  · rename_i hcrash
    have hcrash : s.crashed = false := by simpa using hcrash
    split at h
    · rename_i xid reads hreads
      obtain rfl := Option.some.inj h
      exact .readError msg xid reads hcrash
    · rename_i xid len reads hreads
      obtain rfl := Option.some.inj h
      exact .readError msg xid reads hcrash
    · cases h

/-- A step has one of the outcomes of `Steps`. -/
theorem steps_of_step {s s' : ZkClient} {a : Act} (h : s.step a = some s') : Steps s a s' := by
  cases a with
  | alloc op body =>
    obtain rfl := Option.some.inj h
    exact .alloc op body
  | register r =>
    simp only [step] at h
    split at h
    · rename_i req hreq
      split at h
      · rename_i hphase
        obtain rfl := Option.some.inj h
        exact .register r req hreq hphase
      · cases h
    · cases h
  | post r =>
    simp only [step] at h
    split at h
    · rename_i req hreq
      split at h
      · rename_i hphase
        obtain rfl := Option.some.inj h
        exact .post r req hreq hphase
      · cases h
    · cases h
  | writeDone r =>
    simp only [step] at h
    split at h
    · rename_i req hreq
      split at h
      · rename_i hguard
        obtain rfl := Option.some.inj h
        exact .writeDone r req hreq hguard.1 hguard.2
      · cases h
    · cases h
  | writeError r msg =>
    simp only [step] at h
    split at h
    · rename_i req hreq
      split at h
      · rename_i hguard
        obtain rfl := Option.some.inj h
        exact .writeError r msg req hreq hguard.1 hguard.2
      · cases h
    · cases h
  | readDone => exact steps_readDone h
  | readError msg => exact steps_zkReadError h
  | serve f =>
    obtain rfl := Option.some.inj h
    exact .serve f
  | arrive n =>
    simp only [step] at h
    split at h
    · cases h
    · rename_i hbroken
      obtain rfl := Option.some.inj h
      exact .arrive n (by simpa using hbroken)

/-! ## Orderly steps -/

/-- The write of the request has been started and has not failed. -/
def isSent : Phase → Bool
  | .posted | .written => true
  | _ => false

/-- The requests the server has answered. -/
def answered (s : ZkClient) : List (Option Nat) := s.sent.map fun e => e.2

/-- The step keeps reads and replies in order: no xid is taken that is still
    pending, no write completes while the read of a length is outstanding, no
    write fails whose request has been answered, and every frame of the server
    answers a pending request whose write has been started, for the first time. -/
def Orderly (s : ZkClient) : Act → Prop
  | .register r => ∀ req ∈ s.requests[r]?, s.pending.lookup req.xid = none
  | .writeDone _ => ∀ read ∈ s.reads, read.isLength = false
  | .writeError r _ => some r ∉ s.answered
  | .serve f => ∃ r ∈ s.pending.lookup f.xid,
      (∃ req ∈ s.requests[r]?, isSent req.phase = true) ∧ some r ∉ s.answered
  | _ => True

instance (s : ZkClient) : (a : Act) → Decidable (Orderly s a)
  | .register r =>
    inferInstanceAs (Decidable (∀ req ∈ s.requests[r]?, s.pending.lookup req.xid = none))
  | .writeDone _ => inferInstanceAs (Decidable (∀ read ∈ s.reads, read.isLength = false))
  | .writeError r _ => inferInstanceAs (Decidable (some r ∉ s.answered))
  | .serve f => inferInstanceAs (Decidable (∃ r ∈ s.pending.lookup f.xid,
      (∃ req ∈ s.requests[r]?, isSent req.phase = true) ∧ some r ∉ s.answered))
  | .alloc .. | .post _ | .readDone | .readError _ | .arrive _ => isTrue trivial

/-! ## The requests -/

/-- What the frames sent, `pending_` and the requests have to do with each other.
    `done` are the frames consumed, `todo` those sent after them. -/
structure RequestInv (s : ZkClient) (done todo : List (ReplyFrame × Option Nat)) : Prop where
  split : s.sent = done ++ todo
  pending : ∀ n r, s.pending.lookup n = some r →
    ∃ req, s.requests[r]? = some req ∧ req.xid = n
  sent : ∀ e ∈ s.sent, ∃ r req, e.2 = some r ∧ s.requests[r]? = some req ∧ req.xid = e.1.xid ∧
    isSent req.phase = true
  once : s.answered.Nodup
  resolved : ∀ e ∈ done, ∀ r, e.2 = some r → (r, .reply e.1.err e.1.payload) ∈ s.outcomes
  waiting : s.broken = false → ∀ e ∈ todo, s.pending.lookup e.1.xid = e.2
  unanswered : s.broken = false → ∀ r req, s.requests[r]? = some req →
    req.phase = .registered ∨ req.phase = .posted → some r ∉ s.answered →
    s.pending.lookup req.xid = some r

/-- The requests after one of them has moved on. -/
theorem getElem?_setPhase {s : ZkClient} {r : Nat} {req : Request} (phase : Phase)
    (hreq : s.requests[r]? = some req) (r' : Nat) :
    (s.setPhase r req phase)[r']? =
      if r' = r then some { req with phase } else s.requests[r']? := by
  have hlt := (List.getElem?_eq_some_iff.mp hreq).1
  by_cases h : r' = r
  · subst h
    simp [ZkClient.setPhase, hlt]
  · rw [if_neg h, ZkClient.setPhase, List.getElem?_set_ne (Ne.symm h)]

/-- A request keeps its xid when a request moves on. -/
theorem xid_setPhase {s : ZkClient} {r : Nat} {req : Request} (phase : Phase)
    (hreq : s.requests[r]? = some req) {r' : Nat} {n : Int32}
    (h : ∃ req', s.requests[r']? = some req' ∧ req'.xid = n) :
    ∃ req', (s.setPhase r req phase)[r']? = some req' ∧ req'.xid = n := by
  obtain ⟨req', hreq', hxid⟩ := h
  by_cases hr : r' = r
  · subst hr
    rw [hreq] at hreq'
    obtain rfl := Option.some.inj hreq'
    exact ⟨{ req with phase }, by rw [getElem?_setPhase phase hreq, if_pos rfl], hxid⟩
  · exact ⟨req', by rw [getElem?_setPhase phase hreq, if_neg hr]; exact hreq', hxid⟩

section

variable {s : ZkClient} {done todo : List (ReplyFrame × Option Nat)}

/-- An answered request whose write has been started has an entry in `sent`. -/
theorem RequestInv.mem_answered {e : ReplyFrame × Option Nat} (he : e ∈ s.sent) :
    e.2 ∈ s.answered :=
  List.mem_map_of_mem he

/-- What is not yet consumed has been sent. -/
theorem RequestInv.mem_sent (hinv : RequestInv s done todo) {e : ReplyFrame × Option Nat}
    (he : e ∈ todo) : e ∈ s.sent := by
  rw [hinv.split]
  exact List.mem_append_right _ he

/-- A new request. -/
theorem RequestInv.alloc (hinv : RequestInv s done todo) (new : Request)
    (hnew : new.phase = .allocated) (xid : Int32) :
    RequestInv { s with xid, requests := s.requests ++ [new] } done todo := by
  -- the old requests keep their places
  have hold : ∀ (r : Nat) (req : Request), s.requests[r]? = some req →
      (s.requests ++ [new])[r]? = some req := by
    intro r req hreq
    rw [List.getElem?_append_left (List.getElem?_eq_some_iff.mp hreq).1]
    exact hreq
  refine ⟨hinv.split, ?_, ?_, hinv.once, hinv.resolved, hinv.waiting, ?_⟩
  · intro n r hr
    obtain ⟨req, hreq, hxid⟩ := hinv.pending n r hr
    exact ⟨req, hold r req hreq, hxid⟩
  · intro e he
    obtain ⟨r, req, her, hreq, hrest⟩ := hinv.sent e he
    exact ⟨r, req, her, hold r req hreq, hrest⟩
  · intro hb r req hreq hphase hans
    by_cases hr : r < s.requests.length
    · rw [List.getElem?_append_left hr] at hreq
      exact hinv.unanswered hb r req hreq hphase hans
    · -- the new request is not registered yet
      rw [List.getElem?_append_right (Nat.not_lt.mp hr)] at hreq
      obtain rfl := List.mem_singleton.mp (List.mem_of_getElem? hreq)
      rw [hnew] at hphase
      obtain h | h := hphase <;> cases h

/-- A request takes its xid, which is free. -/
theorem RequestInv.register (hinv : RequestInv s done todo) {r : Nat} {req : Request}
    (hreq : s.requests[r]? = some req) (hphase : req.phase = .allocated)
    (hfree : s.pending.lookup req.xid = none) :
    RequestInv { s with
      requests := s.setPhase r req .registered
      pending := s.pending.insert req.xid r } done todo := by
  refine ⟨hinv.split, ?_, ?_, hinv.once, hinv.resolved, ?_, ?_⟩
  · intro n r' hr'
    obtain ⟨rfl, rfl⟩ | ⟨_, hold⟩ := AList.lookup_insert_eq_some.mp hr'
    · exact xid_setPhase .registered hreq ⟨req, hreq, rfl⟩
    · exact xid_setPhase .registered hreq (hinv.pending n r' hold)
  · intro e he
    obtain ⟨r', req', her, hreq', hxid, hsent⟩ := hinv.sent e he
    -- an answered request has been posted, this one has not even been registered
    have hne : r' ≠ r := by
      rintro rfl
      rw [hreq] at hreq'
      obtain rfl := Option.some.inj hreq'
      rw [hphase] at hsent
      cases hsent
    exact ⟨r', req', her, by rw [getElem?_setPhase .registered hreq, if_neg hne]; exact hreq',
      hxid, hsent⟩
  · intro hb e he
    have hold := hinv.waiting hb e he
    obtain ⟨r', _, her, _⟩ := hinv.sent e (hinv.mem_sent he)
    -- a frame under way keeps its own entry, so its xid is taken
    have hne : e.1.xid ≠ req.xid := by
      intro heq
      rw [heq, hfree, her] at hold
      cases hold
    exact (AList.lookup_insert_ne hne).trans hold
  · intro hb r' req' hreq' hph hans
    rw [getElem?_setPhase .registered hreq] at hreq'
    split at hreq'
    · rename_i heq
      subst heq
      obtain rfl := Option.some.inj hreq'
      exact AList.lookup_insert _
    · have hold := hinv.unanswered hb r' req' hreq' hph hans
      have hne : req'.xid ≠ req.xid := by
        intro heq
        rw [heq, hfree] at hold
        cases hold
      exact (AList.lookup_insert_ne hne).trans hold

/-- A request whose write is started or has completed moves on. -/
theorem RequestInv.setPhase (hinv : RequestInv s done todo) {r : Nat} {req : Request}
    {phase : Phase} (hreq : s.requests[r]? = some req)
    (hsent : isSent req.phase = true → isSent phase = true)
    (hopen : phase = .registered ∨ phase = .posted →
      req.phase = .registered ∨ req.phase = .posted) (reads : List Read) :
    RequestInv { s with requests := s.setPhase r req phase, reads } done todo := by
  refine ⟨hinv.split, ?_, ?_, hinv.once, hinv.resolved, hinv.waiting, ?_⟩
  · intro n r' hr'
    exact xid_setPhase phase hreq (hinv.pending n r' hr')
  · intro e he
    obtain ⟨r', req', her, hreq', hxid, hs⟩ := hinv.sent e he
    -- the request that moves on, or another one
    by_cases hr : r' = r
    · subst hr
      rw [hreq] at hreq'
      obtain rfl := Option.some.inj hreq'
      exact ⟨r', { req with phase }, her, by rw [getElem?_setPhase phase hreq, if_pos rfl],
        hxid, hsent hs⟩
    · exact ⟨r', req', her, by rw [getElem?_setPhase phase hreq, if_neg hr]; exact hreq',
        hxid, hs⟩
  · intro hb r' req' hreq' hph hans
    rw [getElem?_setPhase phase hreq] at hreq'
    split at hreq'
    · rename_i heq
      subst heq
      obtain rfl := Option.some.inj hreq'
      exact hinv.unanswered hb r' req hreq (hopen hph) hans
    · exact hinv.unanswered hb r' req' hreq' hph hans

/-- A write has failed, and its request is taken out of `pending_`. -/
theorem RequestInv.writeError (hinv : RequestInv s done todo) {r : Nat} {req : Request}
    (msg : Bytes) (hreq : s.requests[r]? = some req) (hphase : req.phase = .posted)
    (hans : some r ∉ s.answered) :
    RequestInv { s.rejectPending req.xid msg with requests := s.setPhase r req .failed }
      done todo := by
  refine ⟨hinv.split, ?_, ?_, hinv.once, ?_, ?_, ?_⟩
  · intro n r' hr'
    exact xid_setPhase .failed hreq (hinv.pending n r' (AList.lookup_erase_eq_some.mp hr').2)
  · intro e he
    obtain ⟨r', req', her, hreq', hrest⟩ := hinv.sent e he
    -- an answered request is another one, as the write of this has failed
    have hne : r' ≠ r := by
      rintro rfl
      exact hans (her ▸ RequestInv.mem_answered he)
    exact ⟨r', req', her, by rw [getElem?_setPhase .failed hreq, if_neg hne]; exact hreq', hrest⟩
  · intro e he r' her
    exact List.mem_append_left _ (hinv.resolved e he r' her)
  · intro hb e he
    have hold := hinv.waiting hb e he
    -- the failed request still has its own entry, which is the one erased
    have hown := hinv.unanswered hb r req hreq (.inr hphase) hans
    have hne : e.1.xid ≠ req.xid := by
      intro heq
      rw [heq, hown] at hold
      exact hans (hold ▸ RequestInv.mem_answered (hinv.mem_sent he))
    exact (AList.lookup_erase_ne hne).trans hold
  · intro hb r' req' hreq' hph hans'
    have hown := hinv.unanswered hb r req hreq (.inr hphase) hans
    rw [getElem?_setPhase .failed hreq] at hreq'
    split at hreq'
    · obtain rfl := Option.some.inj hreq'
      obtain h | h := hph <;> cases h
    · rename_i hr
      have hold := hinv.unanswered hb r' req' hreq' hph hans'
      have hne : req'.xid ≠ req.xid := by
        intro heq
        rw [heq, hown] at hold
        exact hr (Option.some.inj hold).symm
      exact (AList.lookup_erase_ne hne).trans hold

/-- The first frame not yet consumed is handed to its request. -/
theorem RequestInv.resolve {e : ReplyFrame × Option Nat} {todo' : List (ReplyFrame × Option Nat)}
    (hinv : RequestInv s done (e :: todo')) (hb : s.broken = false) (reads : List Read)
    (inbox : Bytes) (consumed : List Chunk) :
    RequestInv (resolvePending { s with reads, inbox, consumed } e.1.xid e.1.err e.1.payload)
      (done ++ [e]) todo' := by
  have hmem : e ∈ e :: todo' := List.mem_cons_self
  have hown := hinv.waiting hb e hmem
  refine ⟨?_, ?_, hinv.sent, hinv.once, ?_, ?_, ?_⟩
  · show s.sent = done ++ [e] ++ todo'
    rw [hinv.split, List.append_assoc, List.singleton_append]
  · intro n r hr
    exact hinv.pending n r (AList.lookup_erase_eq_some.mp hr).2
  · intro e' he' r her
    -- handed over before, or handed over now
    obtain he' | he' := List.mem_append.mp he'
    · exact List.mem_append_left _ (hinv.resolved e' he' r her)
    · obtain rfl := List.mem_singleton.mp he'
      apply List.mem_append_right
      rw [hown, her]
      exact List.mem_singleton.mpr rfl
  · intro _ e' he'
    have hold := hinv.waiting hb e' (List.mem_cons_of_mem e he')
    have hne : e'.1.xid ≠ e.1.xid := by
      intro heq
      rw [heq, hown] at hold
      -- two frames for one request
      have hnodup : ((done ++ e :: todo').map fun e => e.2).Nodup := hinv.split ▸ hinv.once
      rw [List.map_append, List.nodup_append, List.map_cons, List.nodup_cons] at hnodup
      exact hnodup.2.1.1 (hold ▸ List.mem_map_of_mem he')
    exact (AList.lookup_erase_ne hne).trans hold
  · intro _ r req hreq hph hans
    have hold := hinv.unanswered hb r req hreq hph hans
    have hne : req.xid ≠ e.1.xid := by
      intro heq
      rw [heq, hown] at hold
      exact hans (hold ▸ RequestInv.mem_answered (hinv.mem_sent hmem))
    exact (AList.lookup_erase_ne hne).trans hold

/-- A frame answers a request that waits for it. -/
theorem RequestInv.serve (hinv : RequestInv s done todo) (f : ReplyFrame) {r : Nat}
    {req : Request} (hr : s.pending.lookup f.xid = some r) (hreq : s.requests[r]? = some req)
    (hsent : isSent req.phase = true) (hans : some r ∉ s.answered) :
    RequestInv { s with
      sent := s.sent ++ [(f, s.pending.lookup f.xid)]
      transit := s.transit ++ f.wire } done (todo ++ [(f, s.pending.lookup f.xid)]) := by
  refine ⟨?_, hinv.pending, ?_, ?_, hinv.resolved, ?_, ?_⟩
  · show s.sent ++ _ = done ++ (todo ++ _)
    rw [hinv.split, List.append_assoc]
  · intro e he
    obtain he | he := List.mem_append.mp he
    · exact hinv.sent e he
    · obtain rfl := List.mem_singleton.mp he
      obtain ⟨req', hreq', hxid⟩ := hinv.pending f.xid r hr
      rw [hreq] at hreq'
      obtain rfl := Option.some.inj hreq'
      exact ⟨r, req, hr, hreq, hxid, hsent⟩
  · -- this request has not been answered before
    show ((s.sent ++ _).map fun e => e.2).Nodup
    rw [List.map_append, List.nodup_append]
    refine ⟨hinv.once, by simp, ?_⟩
    intro o ho o' ho' heq
    obtain rfl := List.mem_singleton.mp ho'
    rw [heq] at ho
    exact hans (hr ▸ ho)
  · intro hb e he
    obtain he | he := List.mem_append.mp he
    · exact hinv.waiting hb e he
    · obtain rfl := List.mem_singleton.mp he
      rfl
  · intro hb r' req' hreq' hph hans'
    -- what has not been answered now was not answered before
    apply hinv.unanswered hb r' req' hreq' hph
    intro hmem
    exact hans' (by rw [answered, List.map_append]; exact List.mem_append_left _ hmem)

end

/-! ## The reads -/

/-- The requests whose write has completed. -/
def writtenCount (s : ZkClient) : Nat := s.requests.countP fun req => req.phase = .written

/-- The bytes of frames. -/
def wires (es : List (ReplyFrame × Option Nat)) : Bytes := es.flatMap fun e => e.1.wire

/-- The chunks of frames. -/
def chunks (es : List (ReplyFrame × Option Nat)) : List Chunk := es.flatMap fun e => e.1.chunks

/-- Where the reads stand in the stream, with `done` consumed in full and `todo`
    sent after it. -/
inductive Position (s : ZkClient) (done todo : List (ReplyFrame × Option Nat)) : Prop where
  /-- between two frames, nobody reading -/
  | idle (hbroken : s.broken = false) (hconsumed : s.consumed = chunks done)
      (hstream : s.inbox ++ s.transit = wires todo) (hreads : s.reads = [])
      (hwritten : s.writtenCount = done.length)
  /-- between two frames, the next length is being read -/
  | atLength (xid : Int32) (hbroken : s.broken = false) (hconsumed : s.consumed = chunks done)
      (hstream : s.inbox ++ s.transit = wires todo) (hreads : s.reads = [.length xid])
      (hwritten : s.writtenCount = done.length + 1)
  /-- behind the length of `e`, its body is being read -/
  | atBody (e : ReplyFrame × Option Nat) (todo' : List (ReplyFrame × Option Nat)) (xid : Int32)
      (reads : List Read) (htodo : todo = e :: todo') (hbroken : s.broken = false)
      (hconsumed : s.consumed = chunks done ++ [.length e.1.lengthField])
      (hstream : s.inbox ++ s.transit = e.1.body ++ wires todo')
      (hreads : s.reads = .body xid e.1.body.length :: reads)
      (hnext : reads = [] ∨ ∃ y, reads = [.length y])
      (hwritten : s.writtenCount = done.length + 1 + reads.length)
  /-- a read has failed -/
  | broken (hbroken : s.broken = true) (hinbox : s.inbox = [])
      (hconsumed : s.consumed = chunks done ∨ ∃ e todo', todo = e :: todo' ∧
        s.consumed = chunks done ++ [.length e.1.lengthField])

/-- The chunks of two lists of frames. -/
theorem chunks_append (es es' : List (ReplyFrame × Option Nat)) :
    chunks (es ++ es') = chunks es ++ chunks es' :=
  List.flatMap_append

/-- The bytes of two lists of frames. -/
theorem wires_append (es es' : List (ReplyFrame × Option Nat)) :
    wires (es ++ es') = wires es ++ wires es' :=
  List.flatMap_append

/-- The bytes of a frame and of those after it. -/
theorem wires_cons (e : ReplyFrame × Option Nat) (es : List (ReplyFrame × Option Nat)) :
    wires (e :: es) = e.1.lengthField ++ (e.1.body ++ wires es) := by
  rw [wires, List.flatMap_cons, ReplyFrame.wire_eq, List.append_assoc]
  rfl

section

variable {s : ZkClient} {done todo : List (ReplyFrame × Option Nat)}

/-- What does not touch the socket keeps the position. -/
theorem Position.of_eq {s' : ZkClient} (h : Position s done todo)
    (hbroken' : s'.broken = s.broken) (hconsumed' : s'.consumed = s.consumed)
    (hinbox' : s'.inbox = s.inbox) (htransit' : s'.transit = s.transit)
    (hreads' : s'.reads = s.reads) (hwritten' : s'.writtenCount = s.writtenCount) :
    Position s' done todo := by
  cases h with
  | idle hb hc hs hr hw =>
    exact .idle (hbroken'.trans hb) (hconsumed'.trans hc) (by rw [hinbox', htransit', hs])
      (hreads'.trans hr) (hwritten'.trans hw)
  | atLength xid hb hc hs hr hw =>
    exact .atLength xid (hbroken'.trans hb) (hconsumed'.trans hc) (by rw [hinbox', htransit', hs])
      (hreads'.trans hr) (hwritten'.trans hw)
  | atBody e todo' xid reads ht hb hc hs hr hn hw =>
    exact .atBody e todo' xid reads ht (hbroken'.trans hb) (hconsumed'.trans hc)
      (by rw [hinbox', htransit', hs]) (hreads'.trans hr) hn (hwritten'.trans hw)
  | broken hb hi hc =>
    exact .broken (hbroken'.trans hb) (hinbox'.trans hi) (hconsumed' ▸ hc)

/-- Moving a request on counts it when its write completes. -/
theorem writtenCount_setPhase {r : Nat} {req : Request} (phase : Phase)
    (hreq : s.requests[r]? = some req) (hreq' : req.phase ≠ .written) :
    (s.setPhase r req phase).countP (fun req => req.phase = .written) =
      s.writtenCount + if phase = .written then 1 else 0 := by
  have hcount := List.countP_set_add (fun req : Request => decide (req.phase = .written))
    { req with phase } hreq
  simp only [hreq', decide_false, Bool.false_eq_true, if_false, Nat.add_zero,
    decide_eq_true_eq] at hcount
  exact hcount

/-- A completed write adds the read of a length, when there is none. -/
theorem Position.writeDone (h : Position s done todo) {r : Nat} {req : Request}
    (hreq : s.requests[r]? = some req) (hphase : req.phase = .posted)
    (hnone : ∀ read ∈ s.reads, read.isLength = false) :
    Position { s with
      requests := s.setPhase r req .written
      reads := s.reads ++ [.length req.xid] } done todo := by
  have hcount := writtenCount_setPhase .written hreq (by simp [hphase])
  rw [if_pos rfl] at hcount
  cases h with
  | idle hb hc hs hr hw =>
    refine .atLength req.xid hb hc hs ?_ (hcount.trans (by rw [hw]))
    show s.reads ++ _ = _
    rw [hr, List.nil_append]
  | atLength xid hb hc hs hr hw =>
    -- a second read of a length would take the bytes of the first: the steps are orderly
    have hlen := hnone (.length xid) (by rw [hr]; exact List.mem_singleton.mpr rfl)
    cases hlen
  | atBody e todo' xid reads ht hb hc hs hr hn hw =>
    obtain rfl | ⟨y, rfl⟩ := hn
    · refine .atBody e todo' xid [.length req.xid] ht hb hc hs ?_ (.inr ⟨req.xid, rfl⟩)
        (hcount.trans (by rw [hw]; rfl))
      show s.reads ++ _ = _
      rw [hr, List.singleton_append]
    · have hlen := hnone (.length y) (by rw [hr]; simp)
      cases hlen
  | broken hb hi hc => exact .broken hb hi hc

/-- A new frame goes to the end of the stream. -/
theorem Position.serve (h : Position s done todo) (f : ReplyFrame) (o : Option Nat) :
    Position { s with sent := s.sent ++ [(f, o)], transit := s.transit ++ f.wire } done
      (todo ++ [(f, o)]) := by
  -- the bytes of the new frame come last
  have hwire : wires [(f, o)] = f.wire := by simp [wires]
  cases h with
  | idle hb hc hs hr hw =>
    refine .idle hb hc ?_ hr hw
    show s.inbox ++ (s.transit ++ f.wire) = _
    rw [← List.append_assoc, hs, wires_append, hwire]
  | atLength xid hb hc hs hr hw =>
    refine .atLength xid hb hc ?_ hr hw
    show s.inbox ++ (s.transit ++ f.wire) = _
    rw [← List.append_assoc, hs, wires_append, hwire]
  | atBody e todo' xid reads ht hb hc hs hr hn hw =>
    refine .atBody e (todo' ++ [(f, o)]) xid reads (by rw [ht]; rfl) hb hc ?_ hr hn hw
    show s.inbox ++ (s.transit ++ f.wire) = _
    rw [← List.append_assoc, hs, wires_append, hwire, List.append_assoc]
  | broken hb hi hc =>
    refine .broken hb hi ?_
    obtain hc | ⟨e, todo', ht, hc⟩ := hc
    · exact .inl hc
    · exact .inr ⟨e, todo' ++ [(f, o)], by rw [ht]; rfl, hc⟩

/-- Bytes arrive, and the stream is the same. -/
theorem Position.arrive (h : Position s done todo) (n : Nat) (hopen : s.broken = false) :
    Position { s with inbox := s.inbox ++ s.transit.take n, transit := s.transit.drop n }
      done todo := by
  have hsame : s.inbox ++ s.transit.take n ++ s.transit.drop n = s.inbox ++ s.transit := by
    rw [List.append_assoc, List.take_append_drop]
  cases h with
  | idle hb hc hs hr hw => exact .idle hb hc (hsame.trans hs) hr hw
  | atLength xid hb hc hs hr hw => exact .atLength xid hb hc (hsame.trans hs) hr hw
  | atBody e todo' xid reads ht hb hc hs hr hn hw =>
    exact .atBody e todo' xid reads ht hb hc (hsame.trans hs) hr hn hw
  | broken hb hi hc =>
    rw [hopen] at hb
    cases hb

/-- A read fails, and what has arrived is lost. -/
theorem Position.readError (h : Position s done todo) (xid : Int32) (msg : Bytes)
    (reads : List Read) :
    Position { s.rejectPending xid msg with reads, inbox := [], broken := true } done todo := by
  cases h with
  | idle hb hc hs hr hw => exact .broken rfl rfl (.inl hc)
  | atLength xid hb hc hs hr hw => exact .broken rfl rfl (.inl hc)
  -- a length has been taken, but not its body
  | atBody e todo' xid reads ht hb hc hs hr hn hw => exact .broken rfl rfl (.inr ⟨e, todo', ht, hc⟩)
  | broken hb hi hc => exact .broken rfl rfl hc

/-- The first `n` bytes that have arrived, when the stream starts with `n` known ones. -/
theorem take_inbox {n : Nat} {data rest : Bytes} (hstream : s.inbox ++ s.transit = data ++ rest)
    (hdata : data.length = n) (hlen : n ≤ s.inbox.length) :
    s.inbox.take n = data ∧ s.inbox.drop n ++ s.transit = rest := by
  have htake : (s.inbox ++ s.transit).take n = data := by
    rw [hstream]
    exact List.take_left' hdata
  have hdrop : (s.inbox ++ s.transit).drop n = rest := by
    rw [hstream]
    exact List.drop_left' hdata
  rw [List.take_append_of_le_length hlen] at htake
  rw [List.drop_append_of_le_length hlen] at hdrop
  exact ⟨htake, hdrop⟩

/-- The read of a length takes the length of the next frame and starts the read
    of its body. -/
theorem Position.lengthRead (h : Position s done todo) {xid : Int32} {reads : List Read}
    (hreads : s.reads = .length xid :: reads) (hlen : 4 ≤ s.inbox.length)
    (hopen : s.broken = false) :
    ∃ len, onReadLength
        { s with
          reads
          inbox := s.inbox.drop 4
          consumed := s.consumed ++ [.length (s.inbox.take 4)] }
        xid (s.inbox.take 4) =
      { s with
        reads := reads ++ [.body xid len]
        inbox := s.inbox.drop 4
        consumed := s.consumed ++ [.length (s.inbox.take 4)] } ∧
      Position { s with
        reads := reads ++ [.body xid len]
        inbox := s.inbox.drop 4
        consumed := s.consumed ++ [.length (s.inbox.take 4)] } done todo := by
  cases h with
  | idle hb hc hs hr hw =>
    rw [hr] at hreads
    cases hreads
  | atBody e todo' xid' reads' ht hb hc hs hr hn hw =>
    rw [hr] at hreads
    cases hreads
  | broken hb hi hc =>
    rw [hopen] at hb
    cases hb
  | atLength xid' hb hc hs hr hw =>
    rw [hr] at hreads
    obtain ⟨rfl, rfl⟩ : xid = xid' ∧ reads = [] := by simpa using hreads.symm
    cases todo with
    | nil =>
      -- there are bytes to read, so a frame has been sent
      have hnil : s.inbox = [] := (List.append_eq_nil_iff.mp hs).1
      rw [hnil] at hlen
      exact absurd hlen (by decide)
    | cons e todo' =>
      rw [wires_cons] at hs
      obtain ⟨htake, hrest⟩ := take_inbox hs (n := 4) rfl hlen
      obtain ⟨n, hread, hpos, hn⟩ := e.1.readInt32_lengthField
      refine ⟨e.1.body.length, ?_, ?_⟩
      · simp only [onReadLength, htake, hread, hpos, if_false, hn]
      · refine .atBody e todo' xid [] rfl hb ?_ hrest rfl (.inl rfl) hw
        show s.consumed ++ _ = _
        rw [hc, htake]

/-- The read of a body takes the body of the frame whose length was read. -/
theorem Position.bodyRead (h : Position s done todo) {xid : Int32} {len : Nat} {reads : List Read}
    (hreads : s.reads = .body xid len :: reads) (hlen : len ≤ s.inbox.length)
    (hopen : s.broken = false) :
    ∃ e todo', todo = e :: todo' ∧
      onReadBody
        { s with
          reads
          inbox := s.inbox.drop len
          consumed := s.consumed ++ [.body (s.inbox.take len)] }
        (s.inbox.take len) =
      resolvePending
        { s with
          reads
          inbox := s.inbox.drop len
          consumed := s.consumed ++ [.body (s.inbox.take len)] } e.1.xid e.1.err e.1.payload ∧
      Position
        (resolvePending
          { s with
            reads
            inbox := s.inbox.drop len
            consumed := s.consumed ++ [.body (s.inbox.take len)] } e.1.xid e.1.err e.1.payload)
        (done ++ [e]) todo' := by
  cases h with
  | idle hb hc hs hr hw =>
    rw [hr] at hreads
    cases hreads
  | atLength xid' hb hc hs hr hw =>
    rw [hr] at hreads
    cases hreads
  | broken hb hi hc =>
    rw [hopen] at hb
    cases hb
  | atBody e todo' xid' reads' ht hb hc hs hr hn hw =>
    -- the length that is waited for is that of the next frame
    rw [hr] at hreads
    obtain ⟨⟨rfl, rfl⟩, rfl⟩ : (xid' = xid ∧ e.1.body.length = len) ∧ reads' = reads := by
      simpa using hreads
    obtain ⟨htake, hrest⟩ := take_inbox hs rfl hlen
    have hdec := e.1.deserialize_body
    have hconsumed : s.consumed ++ [.body (s.inbox.take e.1.body.length)] =
        chunks (done ++ [e]) := by
      rw [hc, htake, chunks_append, List.append_assoc]
      rfl
    have hlength : s.writtenCount = (done ++ [e]).length + reads'.length := by
      rw [hw, List.length_append]
      rfl
    refine ⟨e, todo', ht, ?_, ?_⟩
    · rw [htake]
      simp only [onReadBody, hdec]
    · obtain rfl | ⟨y, rfl⟩ := hn
      · -- no write has completed meanwhile
        exact .idle hb hconsumed hrest rfl hlength
      · -- the read of the next length stands in line already
        exact .atLength y hb hconsumed hrest rfl hlength

end

/-! ## Every run of orderly steps -/

/-- The number of bytes that have arrived. -/
def received (s : ZkClient) : Nat := (s.consumed.flatMap Chunk.data).length + s.inbox.length

end ZkClient

end Rpc
