import Rpc.Native.Shutdown
import Rpc.Spec.ServerProgress
import Rpc.Spec.TasksCorrect

/-!
# What the server program can do

`ServerMain.Steps` lists the outcomes of `ServerMain.step`.  Its server makes steps of its
own only (`server_reachable`), and when its thread has ended these are steps of the workers
and of the pool (`worker_of_permits`).  `MainInv` says what is over at which stage.
-/

/-! ## Steps of the workers -/

namespace Rpc.Connection

/-- The steps that a worker takes inside of `send`. -/
def ofWorker : Act → Bool
  | .send t _ _ | .push t _ | .pop t | .startWrite t _ => t.isSome
  | _ => false

/-- The frames handed to `send`. -/
def handedOver (c : Connection) : List Bytes := c.sending.map Prod.snd ++ c.writes.pushed

/-- A worker inside of `send` leaves alone what belongs to the io thread, and hands nothing
    over to a connection that is closed. -/
theorem Steps.of_worker {c c' : Connection} {a : Act} (h : Steps c a c')
    (hworker : ofWorker a = true) :
    c'.closed = c.closed ∧ (Server.outsideSend c none = true → Server.outsideSend c' none = true) ∧
      (c.closed = true → c'.handedOver.Perm c.handedOver) := by
  simp only [Server.outsideSend, Bool.and_eq_true, List.all_eq_true, decide_eq_true_eq]
  cases h with
  | sendClosed t header body hclosed => exact ⟨rfl, id, fun _ => .refl _⟩
  -- a frame is handed over on an open connection only
  | send t header body hclosed =>
    refine ⟨rfl, fun hout => ⟨?_, hout.2⟩, fun hclosed' => ?_⟩
    · intro p hp
      obtain rfl | hp := List.mem_cons.mp hp
      · exact Option.isSome_iff_ne_none.mp hworker
      · exact hout.1 p hp
    · rw [hclosed] at hclosed'
      cases hclosed'
  | push t data hmem =>
    have ht : t ≠ none := Option.isSome_iff_ne_none.mp hworker
    refine ⟨rfl, fun hout => ⟨?_, ?_⟩, fun _ => ?_⟩
    · intro p hp
      exact hout.1 p (List.mem_of_mem_erase hp)
    · intro p hp
      obtain heq | hp := WriteChain.mem_threads_push hp
      · rw [heq]
        exact ht
      · exact hout.2 p hp
    · -- the frame goes from the call to the queue
      have hperm : (c.sending.map Prod.snd).Perm
          (data :: (c.sending.erase (t, data)).map Prod.snd) :=
        (List.perm_cons_erase hmem).map Prod.snd
      show ((c.sending.erase (t, data)).map Prod.snd ++ (c.writes.pushed ++ [data])).Perm _
      rw [← List.append_assoc]
      exact (List.perm_append_singleton _ _).trans (hperm.symm.append_right c.writes.pushed)
  | pop t w hw =>
    have ht : t ≠ none := Option.isSome_iff_ne_none.mp hworker
    refine ⟨rfl, fun hout => ⟨hout.1, fun p hp => ?_⟩, fun _ => ?_⟩
    · obtain heq | hp := WriteChain.mem_threads_pop hw hp
      · rw [heq]
        exact ht
      · exact hout.2 p hp
    · rw [handedOver, (WriteChain.pop_history hw).2.1]
      exact .refl _
  | startWrite t data w hw =>
    refine ⟨rfl, fun hout => ⟨hout.1, fun p hp => ?_⟩, fun _ => ?_⟩
    · exact hout.2 p (WriteChain.mem_threads_start hw hp)
    · rw [handedOver, (WriteChain.start_history hw).2.1]
      exact .refl _
  | readEnded b hread => obtain ⟨d, rfl⟩ | rfl := hread <;> cases hworker
  | _ => cases hworker

end Rpc.Connection

namespace Rpc.Server

/-- The steps of the workers and of the pool. -/
def ofWorker : Act → Bool
  | .conn _ a => Connection.ofWorker a
  | .enter _ | .leave _ => false
  | _ => true

/-- What a worker does to the server: the io thread is left alone, and so is a connection
    unless it is sent to. -/
theorem Steps.of_worker {s s' : Server} {a : Act} (h : Steps s a s') (hworker : ofWorker a = true)
    (hthread : ∀ inv ∈ s.invocations, inv.thread ≠ none) :
    s'.inMessage = s.inMessage ∧ s'.loopDead = s.loopDead ∧ s'.entered = s.entered ∧
      ∀ k, s'.conns k = s.conns k ∨
        ∃ b, Connection.ofWorker b = true ∧ Connection.Steps (s.conns k) b (s'.conns k) := by
  -- a step that replaces connection `j`
  have hset : ∀ (j : Nat) (b : Connection.Act) (c : Connection), Connection.ofWorker b = true →
      (s.conns j).step b = some c → ∀ k, Function.update s.conns j c k = s.conns k ∨
        ∃ b, Connection.ofWorker b = true ∧
          Connection.Steps (s.conns k) b (Function.update s.conns j c k) := by
    intro j b c hb hc k
    by_cases hk : k = j
    · subst hk
      rw [Function.update_self]
      exact .inr ⟨b, hb, Connection.steps_of_step hc⟩
    · exact .inl (Function.update_of_ne hk c s.conns)
  cases h with
  | conn j b c hown hidle hc =>
    -- a worker reads nothing
    have hcalls : callsOnMessage b = false := by
      cases b <;> first | rfl | cases hworker
    refine ⟨?_, rfl, rfl, hset j b c hworker hc⟩
    simp only [hcalls]
    rfl
  | submit | refuse | inline | leave => cases hworker
  | escapeInline n inv fault c hn hp hnone =>
    exact absurd hnone (hthread inv (List.mem_of_getElem? hn))
  | send n inv services resp c hn hp hc =>
    have hsome := Option.isSome_iff_ne_none.mpr (hthread inv (List.mem_of_getElem? hn))
    exact ⟨rfl, rfl, rfl, hset _ (.send inv.thread _ _) c hsome hc⟩
  | _ => exact ⟨rfl, rfl, rfl, fun _ => .inl rfl⟩

/-- `close()` sets the flag of its connection. -/
theorem step_close {s server : Server} {k : Nat} (h : s.step (.conn k .close) = some server) :
    server = s.setConn k { s.conns k with closed := true } :=
  (Option.some.inj h).symm

/-- The connections after it. -/
theorem conns_close (s : Server) (k j : Nat) :
    (s.setConn k { s.conns k with closed := true }).conns j =
      if j = k then { s.conns k with closed := true } else s.conns j :=
  Function.update_apply _ _ _ _

end Rpc.Server

namespace Rpc.ServerMain

open Transition Server

/-! ## Steps -/

/-- The outcomes of a step. -/
inductive Steps (s : ServerMain) : Act → ServerMain → Prop where
  /-- the threads of the server go on -/
  | server (a : Server.Act) (server : Server) (hpermits : s.permits a = true)
      (hstep : s.server.step a = some server) :
      Steps s (.server a)
        { s with
          server
          accepted := if accepts a then s.accepted + 1 else s.accepted
          dangling :=
            if s.destroyed.isSome then s.dangling ++ memberCalls s.server a else s.dangling }
  /-- `stop()` begins with the connections there are -/
  | signal (hstage : s.stage = .waiting) :
      Steps s .signal { s with stage := .stopping (List.range s.accepted) }
  /-- its `close_all()` closes the next of them -/
  | closeStopping (k : Nat) (ks : List Nat) (server : Server)
      (hstage : s.stage = .stopping (k :: ks))
      (hstep : s.server.step (.conn k .close) = some server) :
      Steps s .close { s with server, stage := .stopping ks }
  /-- so does that of `~RpcServer` -/
  | closeDestroying (k : Nat) (ks : List Nat) (server : Server)
      (hstage : s.stage = .destroying (k :: ks))
      (hstep : s.server.step (.conn k .close) = some server) :
      Steps s .close { s with server, stage := .destroying ks }
  /-- `stop()` ends with the event loop -/
  | iosStop (hstage : s.stage = .stopping []) : Steps s .iosStop { s with stage := .joining }
  /-- the event loop returns, and `server_thread` with it -/
  | threadEnd (hstopped : s.loopStopped = true) (hrunning : s.threadEnded = false)
      (hidle : s.loopIdle = true) : Steps s .threadEnd { s with threadEnded := true }
  /-- `main` has joined `server_thread`, and destroys the server -/
  | join (hstage : s.stage = .joining) (hended : s.threadEnded = true) :
      Steps s .join { s with stage := .destroying (List.range s.accepted) }
  /-- `~RpcServer` has returned -/
  | destroy (hstage : s.stage = .destroying []) :
      Steps s .destroy { s with stage := .unwinding, destroyed := some s.server }
  /-- `~ThreadPool` has joined the workers -/
  | finish (server : Server) (hstage : s.stage = .unwinding)
      (hstep : s.server.step (.pool .join) = some server) :
      Steps s .finish { s with server, stage := .returned }

/-- A step has one of the outcomes of `Steps`, and an exception has not left the event loop. -/
theorem steps_of_step {s s' : ServerMain} {a : Act} (h : s.step a = some s') :
    s.server.loopDead = false ∧ Steps s a s' := by
  simp only [step] at h
  split at h
  · cases h
  · rename_i halive
    refine ⟨by simpa using halive, ?_⟩
    cases a with
    | server a =>
      simp only at h
      split at h
      · rename_i hpermits
        obtain ⟨server, hstep, rfl⟩ := Option.map_eq_some_iff.mp h
        exact .server a server hpermits hstep
      · cases h
    | signal =>
      simp only at h
      split at h
      · rename_i hstage
        obtain rfl := Option.some.inj h
        exact .signal hstage
      · cases h
    | close =>
      simp only at h
      split at h
      · rename_i k ks hstage
        obtain ⟨server, hstep, rfl⟩ := Option.map_eq_some_iff.mp h
        exact .closeStopping k ks server hstage hstep
      · rename_i k ks hstage
        obtain ⟨server, hstep, rfl⟩ := Option.map_eq_some_iff.mp h
        exact .closeDestroying k ks server hstage hstep
      · cases h
    | iosStop =>
      simp only at h
      split at h
      · rename_i hstage
        obtain rfl := Option.some.inj h
        exact .iosStop hstage
      · cases h
    | threadEnd =>
      simp only at h
      split at h
      · rename_i hguard
        obtain rfl := Option.some.inj h
        exact .threadEnd hguard.1 hguard.2.1 hguard.2.2
      · cases h
    | join =>
      simp only at h
      split at h
      · rename_i hguard
        obtain rfl := Option.some.inj h
        exact .join hguard.1 hguard.2
      · cases h
    | destroy =>
      simp only at h
      split at h
      · rename_i hstage
        obtain rfl := Option.some.inj h
        exact .destroy hstage
      · cases h
    | finish =>
      simp only at h
      split at h
      · rename_i hstage
        obtain ⟨server, hstep, rfl⟩ := Option.map_eq_some_iff.mp h
        exact .finish server hstage hstep
      · cases h

variable {services : ServiceManager} {threads : UInt64 × UInt32} {s : ServerMain}

/-- The server makes steps of its own only. -/
theorem Steps.server_step {s' : ServerMain} {a : Act} (h : Steps s a s') :
    s'.server = s.server ∨ ∃ b, s.server.step b = some s'.server := by
  cases h with
  | server b server hpermits hstep => exact .inr ⟨b, hstep⟩
  | closeStopping k ks server hstage hstep => exact .inr ⟨_, hstep⟩
  | closeDestroying k ks server hstage hstep => exact .inr ⟨_, hstep⟩
  | finish server hstage hstep => exact .inr ⟨_, hstep⟩
  | _ => exact .inl rfl

/-- The server of the program is in a state of a run of its own. -/
theorem server_reachable (h : Reachable step (init services threads) s) :
    Reachable Server.step (.init services (some threads)) s.server := by
  apply h.project ServerMain.server
  intro s a s' _ hs
  obtain heq | ⟨b, hb⟩ := (steps_of_step hs).2.server_step
  · exact .inl heq
  · exact .inr ⟨b, trivial, hb⟩

/-! ## What is over at which stage -/

/-- `server_thread` has been joined. -/
def Stage.isJoined : Stage → Bool
  | .destroying _ | .unwinding | .returned => true
  | _ => false

/-- The server is destroyed. -/
def Stage.isDown : Stage → Bool
  | .unwinding | .returned => true
  | _ => false

/-- The connections that `close_all()` has left to close. -/
def Stage.toClose : Stage → List Nat
  | .stopping ks | .destroying ks => ks
  | _ => []

/-- Nobody drains the pool, and it is destroyed after the server. -/
structure PoolInv (stage : Stage) (pool : ThreadPool Job) : Prop where
  drainers : pool.drainers = []
  stop : pool.stop = true → stage.isDown = true
  destructor : pool.destructor ≠ .notStarted → stage.isDown = true
  joined : pool.destructor = .joined ↔ stage = .returned

/-- What the stage of `main` says about the threads, the pool and the connections. -/
structure MainInv (s : ServerMain) : Prop where
  alive : s.server.loopDead = false
  threw : s.server.threw = []
  admitted : ∀ id, (id, true) ∉ s.server.entered
  pool : ∃ pool, s.server.pool = some pool ∧ PoolInv s.stage pool
  untouched : Untouched s.accepted s.server
  stopped : s.threadEnded = true → s.loopStopped = true
  ended : s.threadEnded = true → s.server.inMessage = none ∧
    ∀ k, outsideSend (s.server.conns k) none = true
  joined : s.stage.isJoined = true → s.threadEnded = true
  destroyed : s.destroyed.isSome = s.stage.isDown
  toClose : ∀ k ∈ s.stage.toClose, k < s.accepted
  closed : s.stage.isJoined = true → ∀ k < s.accepted,
    k ∈ s.stage.toClose ∨ (s.server.conns k).closed = true

/-- The server is destroyed after `server_thread` has been joined. -/
theorem Stage.isJoined_of_isDown {stage : Stage} (h : stage.isDown = true) :
    stage.isJoined = true := by
  cases stage <;> first | rfl | cases h

/-- By then there is nothing left to close. -/
theorem Stage.toClose_of_isDown {stage : Stage} (h : stage.isDown = true) :
    stage.toClose = [] := by
  cases stage <;> first | rfl | cases h

/-- The invariant holds when `main` waits for its signal. -/
theorem mainInv_init (services : ServiceManager) (threads : UInt64 × UInt32) :
    MainInv (init services threads) where
  alive := rfl
  threw := rfl
  admitted := by simp [init, Server.init]
  pool := ⟨_, rfl, rfl, by simp [ThreadPool.init], by simp [ThreadPool.init],
    by simp [ThreadPool.init, init]⟩
  untouched _ _ := rfl
  stopped := by simp [init]
  ended := by simp [init]
  joined := by simp [init, Stage.isJoined]
  destroyed := rfl
  toClose := by simp [init, Stage.toClose]
  closed := by simp [init, Stage.isJoined]

/-- Once `server_thread` has ended, only the workers and the pool make steps. -/
theorem worker_of_permits {a : Server.Act} (hinv : MainInv s) (h : s.permits a = true)
    (hended : s.threadEnded = true) : Server.ofWorker a = true := by
  have hstopped := hinv.stopped hended
  cases a with
  | conn k b => cases b <;> simp_all [permits, Server.ofWorker, Connection.ofWorker]
  | enter k => simp [permits, hended] at h
  | leave k => simp [permits, hended] at h
  | _ => rfl

/-- Before the server is destroyed the pool is left alone. -/
theorem PoolInv.move {stage stage' : Stage} {pool : ThreadPool Job} (hinv : PoolInv stage pool)
    (hdown : stage.isDown = false) (hreturned : stage' ≠ .returned) : PoolInv stage' pool := by
  refine ⟨hinv.drainers, fun hstop => ?_, fun hdes => ?_, ?_⟩
  · cases hdown.symm.trans (hinv.stop hstop)
  · cases hdown.symm.trans (hinv.destructor hdes)
  · refine iff_of_false (fun hdes => ?_) hreturned
    rw [hinv.joined.mp hdes] at hdown
    cases hdown

/-- A worker accepts no connection. -/
theorem accepts_of_worker {a : Server.Act} (h : Server.ofWorker a = true) : accepts a = false := by
  cases a with
  | conn j b => cases b <;> first | rfl | cases h
  | _ => rfl

/-- The pool's part of the invariant, for the steps that the program permits. -/
theorem PoolInv.step {stage : Stage} {pool pool' : ThreadPool Job} {b : ThreadPool.Act Job}
    (hinv : PoolInv stage pool) (h : ThreadPool.Steps pool b pool')
    (hdrain : b ≠ .drain) (hjoin : b ≠ .join)
    (hdown : b = .setStop ∨ b = .notifyAll → stage = .unwinding) : PoolInv stage pool' := by
  -- nobody waits in `drain()`
  have hnotify : ∀ wakes drainers, ThreadPool.notifyDrainer pool.drainers wakes = some drainers →
      drainers = [] := by
    intro wakes drainers hd
    obtain heq | ⟨d, drainer, hget, -⟩ := ThreadPool.notifyDrainer_cases hd
    · rw [heq, hinv.drainers]
    · simp [hinv.drainers] at hget
  cases h with
  | notifyDrain i wakes drainers hi hd =>
    exact ⟨hnotify _ _ hd, hinv.stop, hinv.destructor, hinv.joined⟩
  | wakeDrainer d drainers hd =>
    exact ⟨hnotify _ _ hd, hinv.stop, hinv.destructor, hinv.joined⟩
  | drain => exact absurd rfl hdrain
  | drainReturn d drainer hd => simp [hinv.drainers] at hd
  | drainStay d drainer hd => simp [hinv.drainers] at hd
  | drainSleep d drainer hd => simp [hinv.drainers] at hd
  | setStop hdes =>
    have hstage := hdown (.inl rfl)
    exact ⟨hinv.drainers, by simp [hstage, Stage.isDown], by simp [hstage, Stage.isDown],
      by simp [hstage]⟩
  | notifyAll hdes =>
    have hstage := hdown (.inr rfl)
    exact ⟨hinv.drainers, by simp [hstage, Stage.isDown], by simp [hstage, Stage.isDown],
      by simp [hstage]⟩
  | join => exact absurd rfl hjoin
  | _ => exact ⟨hinv.drainers, hinv.stop, hinv.destructor, hinv.joined⟩

/-- A step of the server keeps the pool as the stage has it. -/
theorem MainInv.pool_step {a : Server.Act} {server : Server} (hinv : MainInv s)
    (hpermits : s.permits a = true) (h : Server.Steps s.server a server) :
    ∃ pool, server.pool = some pool ∧ PoolInv s.stage pool := by
  obtain ⟨pool, hpool, hpinv⟩ := hinv.pool
  -- the pool of the step is this one
  have hstep : ∀ (p p' : ThreadPool Job) (b : ThreadPool.Act Job), s.server.pool = some p →
      ThreadPool.Steps p b p' → b ≠ .drain → b ≠ .join →
      (b = .setStop ∨ b = .notifyAll → s.stage = .unwinding) → PoolInv s.stage p' := by
    intro p p' b hp hb hdrain hjoin hdown
    obtain rfl : pool = p := Option.some.inj (hpool.symm.trans hp)
    exact hpinv.step hb hdrain hjoin hdown
  cases h with
  | submit k job p p' hcur hnew hp henq hfree =>
    have henqueue := ThreadPool.step_enqueue henq hfree
    exact ⟨p', rfl, hstep p p' _ hp (ThreadPool.steps_of_step henqueue) (by simp) (by simp)
      (by simp)⟩
  | pool b p p' hown hp hb =>
    refine ⟨p', rfl, hstep p p' b hp (ThreadPool.steps_of_step hb) ?_ ?_ ?_⟩
    · rintro rfl
      cases hpermits
    · rintro rfl
      cases hpermits
    · rintro (rfl | rfl)
      · exact of_decide_eq_true hpermits
      · exact of_decide_eq_true hpermits
  | activate i p p' task hp hw hb =>
    exact ⟨p', rfl, hstep p p' _ hp (ThreadPool.steps_of_step hb) (by simp) (by simp) (by simp)⟩
  | finish i p p' hp hb =>
    exact ⟨p', rfl, hstep p p' _ hp (ThreadPool.steps_of_step hb) (by simp) (by simp) (by simp)⟩
  | _ => exact ⟨pool, hpool, hpinv⟩

/-- With a pool, no invocation runs on the io thread. -/
theorem MainInv.thread (hinv : MainInv s) (hinvoke : InvokeInv s.server) :
    ∀ inv ∈ s.server.invocations, inv.thread ≠ none := by
  intro inv hmem hnone
  obtain ⟨pool, hpool, -⟩ := hinv.pool
  rw [(hinvoke.thread inv hmem).mp hnone] at hpool
  cases hpool

/-- No exception leaves the event loop: `enqueue()` never finds the pool stopped. -/
theorem MainInv.alive_step {a : Server.Act} {server : Server} (hinv : MainInv s)
    (hinvoke : InvokeInv s.server) (hpermits : s.permits a = true)
    (h : Server.Steps s.server a server) :
    server.loopDead = false ∧ server.threw = [] ∧ ∀ id, (id, true) ∉ server.entered := by
  -- a message accepted is not one refused
  have hentered : ∀ (job : Job) (id : Nat × Nat),
      (id, true) ∉ s.server.entered ++ [(job.id, false)] := by
    intro job id hid
    obtain hid | hid := List.mem_append.mp hid
    · exact hinv.admitted id hid
    · cases List.mem_singleton.mp hid
  cases h with
  | refuse k job pool c hcur hnew hpool hstop =>
    -- the pool is stopped when `server_thread` has long ended
    obtain ⟨p, hp, hpinv⟩ := hinv.pool
    obtain rfl : p = pool := Option.some.inj (hp.symm.trans hpool)
    have hended := hinv.joined (Stage.isJoined_of_isDown (hpinv.stop hstop))
    simp [permits, hended] at hpermits
  | escapeInline n inv fault c hn hp hnone =>
    exact absurd hnone (hinv.thread hinvoke inv (List.mem_of_getElem? hn))
  | submit k job pool pool' => exact ⟨hinv.alive, hinv.threw, hentered job⟩
  | inline k job => exact ⟨hinv.alive, hinv.threw, hentered job⟩
  | _ => exact ⟨hinv.alive, hinv.threw, hinv.admitted⟩

/-- Only the connections accepted are used. -/
theorem MainInv.untouched_step {a : Server.Act} {server : Server} (hinv : MainInv s)
    (hjobs : JobInv s.server) (hpermits : s.permits a = true)
    (h : Server.Steps s.server a server) :
    Untouched (if accepts a then s.accepted + 1 else s.accepted) server := by
  by_cases haccepts : accepts a = true
  · rw [if_pos haccepts]
    -- the next number is that of the connection accepted
    have hroom : Untouched (s.accepted + 1) s.server := fun k hk => hinv.untouched k (by omega)
    refine h.untouched hjobs hroom fun k b heq => .inr ?_
    subst heq
    cases b with
    | startRead =>
      simp only [permits, Bool.and_eq_true, beq_iff_eq] at hpermits
      omega
    | _ => cases haccepts
  · rw [if_neg haccepts]
    refine h.untouched hjobs hinv.untouched fun k b heq => ?_
    subst heq
    by_cases hk : k < s.accepted
    · exact .inr hk
    -- a connection that has not been accepted makes no step
    have hinit := hinv.untouched k (by omega)
    cases h with
    | conn _ _ c hown hidle hc =>
      rw [hinit] at hc
      cases b with
      | startRead => exact absurd rfl haccepts
      | close => cases hpermits
      | push | pop | startWrite => exact .inl rfl
      | send | messageHandled | messageThrew => cases hown
      | _ => cases hc
    | services _ _ ha => obtain ⟨_, heq⟩ | ⟨_, heq⟩ := ha <;> cases heq

/-- A step of the server, permitted at this stage. -/
theorem MainInv.server_step {a : Server.Act} {server : Server}
    {dangling : List (Member × Job)} (hinv : MainInv s)
    (hjobs : JobInv s.server) (hinvoke : InvokeInv s.server) (hpermits : s.permits a = true)
    (h : Server.Steps s.server a server) :
    MainInv { s with
      server
      accepted := if accepts a then s.accepted + 1 else s.accepted
      dangling } := by
  have hworker := worker_of_permits (a := a) hinv hpermits
  have hthread := hinv.thread hinvoke
  refine
    { alive := (hinv.alive_step hinvoke hpermits h).1
      threw := (hinv.alive_step hinvoke hpermits h).2.1
      admitted := (hinv.alive_step hinvoke hpermits h).2.2
      pool := hinv.pool_step hpermits h
      untouched := hinv.untouched_step hjobs hpermits h
      stopped := hinv.stopped
      ended := fun hended => ?_
      joined := hinv.joined
      destroyed := hinv.destroyed
      toClose := fun k hk => ?_
      closed := fun hjoined k hk => ?_ }
  -- once the thread has ended the workers leave it so
  · obtain ⟨hin, -, -, hconns⟩ := h.of_worker (hworker hended) hthread
    obtain ⟨hnone, hout⟩ := hinv.ended hended
    refine ⟨hin.trans hnone, fun k => ?_⟩
    obtain heq | ⟨b, hb, hstep⟩ := hconns k
    · show outsideSend (server.conns k) none = true
      rw [heq]
      exact hout k
    · exact (hstep.of_worker hb).2.1 (hout k)
  · have hlt := hinv.toClose k hk
    show k < if accepts a then s.accepted + 1 else s.accepted
    split <;> omega
  · -- only a worker's step is left, and it accepts nothing
    have hended := hinv.joined hjoined
    obtain ⟨-, -, -, hconns⟩ := h.of_worker (hworker hended) hthread
    rw [accepts_of_worker (hworker hended)] at hk
    obtain hleft | hclosed := hinv.closed hjoined k hk
    · exact .inl hleft
    · right
      obtain heq | ⟨b, hb, hstep⟩ := hconns k
      · show (server.conns k).closed = true
        rw [heq]
        exact hclosed
      · exact (hstep.of_worker hb).1.trans hclosed

/-- `close_all()` closes the next connection. -/
theorem MainInv.close_step {k : Nat} {stage : Stage} {server : Server} (hinv : MainInv s)
    (hclose : s.stage.toClose = k :: stage.toClose) (hjoined : stage.isJoined = s.stage.isJoined)
    (hdown : s.stage.isDown = false) (hdown' : stage.isDown = false)
    (hstopped : loopStopped { s with stage } = s.loopStopped)
    (h : s.server.step (.conn k .close) = some server) :
    MainInv { s with server, stage } := by
  obtain rfl := Server.step_close h
  have hk : k < s.accepted := hinv.toClose k (by rw [hclose]; exact List.mem_cons_self)
  have hreturned : stage ≠ .returned := by
    rintro rfl
    cases hdown'
  obtain ⟨pool, hpool, hpinv⟩ := hinv.pool
  refine
    { alive := hinv.alive
      threw := hinv.threw
      admitted := hinv.admitted
      pool := ⟨pool, hpool, hpinv.move hdown hreturned⟩
      untouched := hinv.untouched.update hk rfl
      stopped := fun hended => hstopped.trans (hinv.stopped hended)
      ended := fun hended => ?_
      joined := fun h => hinv.joined (hjoined.symm.trans h)
      destroyed := hinv.destroyed.trans (hdown.trans hdown'.symm)
      toClose := fun j hj => ?_
      closed := fun h j hj => ?_ }
  · obtain ⟨hnone, hout⟩ := hinv.ended hended
    refine ⟨hnone, fun j => ?_⟩
    show outsideSend ((s.server.setConn k _).conns j) none = true
    rw [conns_close]
    split
    · exact hout k
    · exact hout j
  · exact hinv.toClose j (by rw [hclose]; exact List.mem_cons_of_mem k hj)
  · show j ∈ stage.toClose ∨ ((s.server.setConn k _).conns j).closed = true
    rw [conns_close]
    -- this connection is closed now, and the others are as before
    by_cases heq : j = k
    · rw [if_pos heq]
      exact .inr rfl
    · rw [if_neg heq]
      obtain hleft | hclosed := hinv.closed (hjoined.symm.trans h) j hj
      · rw [hclose] at hleft
        exact .inl ((List.mem_cons.mp hleft).resolve_left heq)
      · exact .inr hclosed

/-- `main` goes on to another stage before the server is destroyed. -/
theorem MainInv.move (hinv : MainInv s) {stage : Stage} (hdown : s.stage.isDown = false)
    (hdown' : stage.isDown = false)
    (hstopped : s.threadEnded = true → loopStopped { s with stage } = true)
    (hjoined : stage.isJoined = true → s.threadEnded = true)
    (htoClose : ∀ k ∈ stage.toClose, k < s.accepted)
    (hall : stage.isJoined = true → ∀ k < s.accepted, k ∈ stage.toClose) :
    MainInv { s with stage } := by
  obtain ⟨pool, hpool, hpinv⟩ := hinv.pool
  have hreturned : stage ≠ .returned := by
    rintro rfl
    cases hdown'
  exact
    { alive := hinv.alive
      threw := hinv.threw
      admitted := hinv.admitted
      pool := ⟨pool, hpool, hpinv.move hdown hreturned⟩
      untouched := hinv.untouched
      stopped := hstopped
      ended := hinv.ended
      joined := hjoined
      destroyed := hinv.destroyed.trans (hdown.trans hdown'.symm)
      toClose := htoClose
      closed := fun h k hk => .inl (hall h k hk) }

/-- All connections are closed once the server is destroyed. -/
theorem MainInv.all_closed (hinv : MainInv s) (hjoined : s.stage.isJoined = true)
    (hnone : s.stage.toClose = []) : ∀ k < s.accepted, (s.server.conns k).closed = true := by
  intro k hk
  obtain hleft | hclosed := hinv.closed hjoined k hk
  · rw [hnone] at hleft
    cases hleft
  · exact hclosed

/-- Every step keeps the invariant. -/
theorem Steps.mainInv {s' : ServerMain} {a : Act} (h : Steps s a s') (hinv : MainInv s)
    (hjobs : JobInv s.server) (hinvoke : InvokeInv s.server) : MainInv s' := by
  cases h with
  | server a server hpermits hstep =>
    exact hinv.server_step hjobs hinvoke hpermits (Server.steps_of_step hstep)
  | signal hs =>
    -- `server_thread` has not ended before `ios_.stop()`
    have hrunning : s.threadEnded = true → False := by
      intro hended
      have hstopped := hinv.stopped hended
      rw [loopStopped, hs] at hstopped
      cases hstopped
    exact hinv.move (by rw [hs]; rfl) rfl (fun hended => (hrunning hended).elim)
      (by simp [Stage.isJoined]) (fun k hk => List.mem_range.mp hk) (by simp [Stage.isJoined])
  | closeStopping k ks server hs hstep =>
    exact hinv.close_step (by rw [hs]; rfl) (by rw [hs]; rfl) (by rw [hs]; rfl) rfl
      (by simp only [loopStopped, hs]) hstep
  | closeDestroying k ks server hs hstep =>
    exact hinv.close_step (by rw [hs]; rfl) (by rw [hs]; rfl) (by rw [hs]; rfl) rfl
      (by simp only [loopStopped, hs]) hstep
  | iosStop hs =>
    exact hinv.move (by rw [hs]; rfl) rfl (fun _ => rfl) (by simp [Stage.isJoined])
      (by simp [Stage.toClose]) (by simp [Stage.isJoined])
  -- a loop that ends is inside of no handler, and of no `send`
  | threadEnd hstopped hrunning hidle =>
    simp only [loopIdle, Bool.and_eq_true, List.all_eq_true, List.mem_range] at hidle
    obtain ⟨hio, hout⟩ := hidle
    simp only [ioIdle, Bool.and_eq_true, Option.isNone_iff_eq_none] at hio
    refine { hinv with
      stopped := fun _ => hstopped, ended := fun _ => ⟨hio.2, fun k => ?_⟩, joined := fun _ => rfl }
    by_cases hk : k < s.accepted
    · exact hout k hk
    · show outsideSend (s.server.conns k) none = true
      rw [hinv.untouched k (by omega)]
      rfl
  | join hs hended =>
    exact hinv.move (by rw [hs]; rfl) rfl (fun _ => rfl) (fun _ => hended)
      (fun k hk => List.mem_range.mp hk) (fun _ k hk => List.mem_range.mpr hk)
  -- everything has been closed when the destructor returns
  | destroy hs =>
    have hjoined : s.stage.isJoined = true := by rw [hs]; rfl
    have hclosed := hinv.all_closed hjoined (by rw [hs]; rfl)
    obtain ⟨pool, hpool, hpinv⟩ := hinv.pool
    exact { hinv with
      pool := ⟨pool, hpool, hpinv.move (by rw [hs]; rfl) (by simp)⟩
      stopped := fun _ => rfl
      joined := fun _ => hinv.joined hjoined
      destroyed := rfl
      toClose := by simp [Stage.toClose]
      closed := fun _ k hk => .inr (hclosed k hk) }
  | finish server hs hstep =>
    have hjoined : s.stage.isJoined = true := by rw [hs]; rfl
    have hclosed := hinv.all_closed hjoined (by rw [hs]; rfl)
    have hdestroyed : s.destroyed.isSome = true := by
      rw [hinv.destroyed, hs]
      rfl
    obtain ⟨pool, hpool, hpinv⟩ := hinv.pool
    -- the step is that of the pool which joins its workers
    cases Server.steps_of_step hstep with
    | services _ _ ha => obtain ⟨_, heq⟩ | ⟨_, heq⟩ := ha <;> cases heq
    | pool b p p' hown hp hb =>
      obtain rfl : pool = p := Option.some.inj (hpool.symm.trans hp)
      cases ThreadPool.steps_of_step hb with
      | join hdes hexit =>
        exact { hinv with
          pool := ⟨_, rfl, hpinv.drainers, fun _ => rfl, fun _ => rfl, by simp⟩
          stopped := fun _ => rfl
          joined := fun _ => hinv.joined hjoined
          destroyed := hdestroyed
          toClose := by simp [Stage.toClose]
          closed := fun _ k hk => .inr (hclosed k hk) }

/-- The invariant holds in every state of a run. -/
theorem mainInv_of_reachable (h : Reachable step (init services threads) s) : MainInv s := by
  apply h.invariant_with (I := fun s =>
    Reachable Server.step (.init services (some threads)) s.server)
  · exact fun s hs => server_reachable hs
  · exact mainInv_init services threads
  · intro s a s' hserver hinv _ hs
    exact (steps_of_step hs).2.mainInv hinv (jobInv_of_reachable hserver)
      (flowInv_of_reachable hserver).2

end Rpc.ServerMain
