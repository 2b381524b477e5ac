import Rpc.Spec.ServerCorrect
import Rpc.Spec.ShutdownSteps

/-!
# `main` returns

Once `g_running` is false, the steps that bring the program to its end (`advances`)
use up a load, and a program without such a step has returned: `main_returns`.  The
network and spurious wake-ups only delay this.  A handler that does not return is
not part of the model.
-/

namespace Rpc

open Transition

namespace ThreadPool

variable {τ : Type}

/-- The steps that the destructor has to take, and those of the workers it wakes. -/
def destructorLoad (s : ThreadPool τ) : Nat :=
  match s.destructor with
  | .notStarted => s.workers.length + 2
  | .stopSet => s.workers.length + 1
  | .notified | .joined => 0

/-- No worker is lost when one is woken. -/
theorem notifyWorker_length {workers workers' : List (Worker τ)} {wakes : Option Nat}
    (h : notifyWorker workers wakes = some workers') : workers'.length = workers.length := by
  obtain ⟨-, rfl⟩ | ⟨i, hi, rfl⟩ := notifyWorker_cases h
  · rfl
  · exact List.length_set

/-- The pool's own steps are none of the destructor's. -/
theorem destructorLoad_own {s s' : ThreadPool τ} {a : Act τ}
    (ha : own a = true ∨ ∃ job, a = .enqueue job) (h : s.step a = some s') :
    s'.destructorLoad = s.destructorLoad := by
  have hsame : s'.destructor = s.destructor ∧ s'.workers.length = s.workers.length := by
    -- they change one worker at most, and not the destructor
    cases steps_of_step h with
    | notifyOne id wakes workers hid hw => exact ⟨rfl, notifyWorker_length hw⟩
    | pop | exit | sleep | activate | finish | deactivate | count | settle | notifyDrain =>
      exact ⟨rfl, List.length_set⟩
    | accept | reject | drainSleep => exact ⟨rfl, rfl⟩
    | _ => obtain hown | ⟨job, hjob⟩ := ha <;> simp [own] at *
  rw [destructorLoad, destructorLoad, hsame.1, hsame.2]

/-- Waking a worker costs it one step. -/
theorem load_notifyAll (c : Nat) (s : ThreadPool τ) :
    load c { s with
      destructor := .notified
      workers := s.workers.map fun w => if w.isBlocked then .checking else w } ≤
      s.load c + s.workers.length := by
  have hworkers : ∀ workers : List (Worker τ),
      ((workers.map fun w => if w.isBlocked then .checking else w).map (Worker.load c)).sum ≤
        (workers.map (Worker.load c)).sum + workers.length := by
    intro workers
    -- one blocked worker after another goes to its check
    induction workers with
    | nil => simp
    | cons w workers ih =>
      have hw : Worker.load c (if w.isBlocked then .checking else w) ≤ w.load c + 1 := by
        cases w <;> simp [Worker.isBlocked, Worker.load]
      simp only [List.map_cons, List.sum_cons, List.length_cons]
      omega
  have hle := hworkers s.workers
  simp only [load]
  omega

/-- Nothing keeps the destructor from joining workers that have exited. -/
theorem step_join {s : ThreadPool τ} (hdes : s.destructor = .notified)
    (hexited : ∀ w ∈ s.workers, w = .exited) :
    s.step .join = some { s with destructor := .joined } := by
  refine if_pos ⟨hdes, List.all_eq_true.mpr fun w hmem => ?_⟩
  rw [hexited w hmem]

end ThreadPool

namespace Server

/-- The driven steps are none of the destructor's. -/
theorem Steps.destructorLoad {s s' : Server} {a : Act} (h : Steps s a s')
    (hdriven : driven a = true) :
    s'.pool.map ThreadPool.destructorLoad = s.pool.map ThreadPool.destructorLoad := by
  have hpoolStep : ∀ (b : ThreadPool.Act Job) (pool pool' : ThreadPool Job), s.pool = some pool →
      pool.step b = some pool' → ThreadPool.own b = true ∨ (∃ job, b = .enqueue job) →
      s'.pool = some pool' → s'.pool.map ThreadPool.destructorLoad =
        s.pool.map ThreadPool.destructorLoad := by
    intro b pool pool' hpool hb hown hpool'
    rw [hpool, hpool']
    exact congrArg some (ThreadPool.destructorLoad_own hown hb)
  -- only these steps change the pool
  cases h with
  | submit k job pool pool' hcur hnew hpool henq hfree =>
    have henqueue := ThreadPool.step_enqueue henq hfree
    exact hpoolStep _ pool pool' hpool henqueue (.inr ⟨job, rfl⟩) rfl
  | pool b pool pool' hown hpool hb =>
    have hb' : ThreadPool.own b = true := by
      cases b <;> first | rfl | cases hdriven
    exact hpoolStep b pool pool' hpool hb (.inl hb') rfl
  | activate i pool pool' task hpool hw hb => exact hpoolStep _ pool pool' hpool hb (.inl rfl) rfl
  | finish i pool pool' hpool hb => exact hpoolStep _ pool pool' hpool hb (.inl rfl) rfl
  | _ => rfl

/-- A thread with a frame of its own, or in the write path, is inside of `send`. -/
theorem inside_of_mem {c : Connection} {t : ThreadId}
    (h : (∃ data, (t, data) ∈ c.sending) ∨ ∃ stage, (t, stage) ∈ c.writes.threads) :
    outsideSend c t = false := by
  rw [← Bool.not_eq_true]
  simp only [outsideSend, Bool.and_eq_true, List.all_eq_true, decide_eq_true_eq]
  rintro ⟨hsending, hthreads⟩
  obtain ⟨data, hmem⟩ | ⟨stage, hmem⟩ := h
  · exact hsending _ hmem rfl
  · exact hthreads _ hmem rfl

/-- Closing a connection takes no step away. -/
theorem load_close (s : Server) {N k : Nat} (hk : k < N) :
    load N (s.setConn k { s.conns k with closed := true }) = load N s := by
  -- neither the read loop nor the threads inside of `send` look at `closed`
  have hclosed : ∀ c : Connection, c.reading = (s.conns k).reading →
      c.delivered = (s.conns k).delivered → connLoad c = connLoad (s.conns k) →
      load N (s.setConn k c) = load N s := by
    intro c hreading hdel hload
    have hsum := sum_connLoad_update s.conns hk c
    have hsame := @readLoop_update s.conns k c hreading hdel
    have hio : ioLoad (s.setConn k c) = s.ioLoad :=
      ioLoad_congr rfl (fun j => current_congr (hsame j).1 (hsame j).2) rfl
    simp only [load, setConn] at hio ⊢
    omega
  exact hclosed _ rfl rfl rfl

end Server

namespace ServerMain

open Server

/-- The steps that bring the program to its end: those of `main`, and those that the other
    threads take by themselves. -/
def advances : Act → Bool
  | .server (.pool .setStop) | .server (.pool .notifyAll) => true
  | .server a => Server.driven a
  | _ => true

/-- The steps that `main` has to take, with so many connections. -/
def Stage.load (N : Nat) : Stage → Nat
  | .waiting => 2 * N + 6
  | .stopping ks => ks.length + N + 5
  | .joining => N + 4
  | .destroying ks => ks.length + 2
  | .unwinding => 1
  | .returned => 0

/-- A bound on the steps to come that bring the program to its end. -/
def load (s : ServerMain) : Nat :=
  s.stage.load s.accepted + (if s.threadEnded then 0 else 1) +
    Server.load s.accepted s.server + (s.server.pool.map ThreadPool.destructorLoad).getD 0

variable {services : ServiceManager} {threads : UInt64 × UInt32} {s : ServerMain}

/-! ## The load -/

/-- What the threads of the server do by themselves counts. -/
theorem advances_of_driven {a : Server.Act} (h : Server.driven a = true) :
    advances (.server a) = true := by
  cases a with
  | pool b => cases b <;> first | rfl | exact h
  | _ => exact h

/-- A step that counts accepts no connection. -/
theorem accepts_of_advances {a : Server.Act} (h : advances (.server a) = true) :
    accepts a = false := by
  cases a with
  | conn k b => cases b <;> first | rfl | cases h
  | _ => rfl

/-- The destructor's own steps. -/
theorem load_destructor {pool pool' : ThreadPool Job} {b : ThreadPool.Act Job}
    (hb : b = .setStop ∨ b = .notifyAll) (h : pool.step b = some pool') :
    poolLoad pool' + pool'.destructorLoad < poolLoad pool + pool.destructorLoad := by
  cases ThreadPool.steps_of_step h with
  | setStop hdes hfree =>
    have hsame : poolLoad { pool with stop := true, destructor := .stopSet } = poolLoad pool := rfl
    simp only [hsame, ThreadPool.destructorLoad, hdes]
    omega
  | notifyAll hdes =>
    have hle := ThreadPool.load_notifyAll 6 pool
    rw [poolLoad_eq, poolLoad_eq]
    simp only [ThreadPool.destructorLoad, hdes]
    omega
  | _ => simp at hb

/-- A step of the server lowers its load, or that of the destructor. -/
theorem load_server_lt {a : Server.Act} {server : Server} (hinv : MainInv s)
    (hreach : Reachable Server.step (.init services (some threads)) s.server)
    (hadv : advances (.server a) = true) (h : s.server.step a = some server) :
    Server.load s.accepted server + (server.pool.map ThreadPool.destructorLoad).getD 0 <
      Server.load s.accepted s.server +
        (s.server.pool.map ThreadPool.destructorLoad).getD 0 := by
  have hsteps := Server.steps_of_step h
  by_cases hdriven : Server.driven a = true
  -- a driven step lowers the load of the server, and leaves that of the destructor
  · have hlt := hsteps.load_lt hdriven (jobInv_of_reachable hreach)
      (flowInv_of_reachable hreach).1 hinv.untouched
    have hdes := hsteps.destructorLoad hdriven
    rw [hdes]
    omega
  -- the others are steps of the destructor
  have hdown : a = .pool .setStop ∨ a = .pool .notifyAll := by
    cases a with
    | pool b =>
      cases b with
      | setStop => exact .inl rfl
      | notifyAll => exact .inr rfl
      | _ => exact absurd hadv hdriven
    | _ => exact absurd hadv hdriven
  cases hsteps with
  | pool b pool pool' hown hpool hb =>
    have hlt := load_destructor (by simpa using hdown) hb
    have hio : ioLoad { s.server with pool := some pool' } = s.server.ioLoad := rfl
    simp only [Server.load, hio, hpool, Option.map_some, Option.getD_some]
    omega
  | services a services ha =>
    obtain ⟨service, rfl⟩ | ⟨name, rfl⟩ := ha <;> simp at hdown
  | _ => simp at hdown

/-- `close_all()` closes a connection. -/
theorem load_close {k : Nat} {server : Server} (hk : k < s.accepted)
    (h : s.server.step (.conn k .close) = some server) :
    Server.load s.accepted server = Server.load s.accepted s.server ∧
      server.pool = s.server.pool := by
  obtain rfl := Server.step_close h
  exact ⟨Server.load_close s.server hk, rfl⟩

/-- Every step that brings the program to its end lowers the load. -/
theorem Steps.load_lt {s' : ServerMain} {a : Act} (h : Steps s a s') (hinv : MainInv s)
    (hreach : Reachable Server.step (.init services (some threads)) s.server)
    (hadv : advances a = true) : s'.load < s.load := by
  cases h with
  | server a server hpermits hstep =>
    have hlt := load_server_lt hinv hreach hadv hstep
    simp only [load, accepts_of_advances hadv, Bool.false_eq_true, if_false]
    omega
  | signal hstage =>
    -- the stage pays for the `close()` of each connection
    simp only [load, hstage, Stage.load, List.length_range]
    omega
  | closeStopping k ks server hstage hstep =>
    obtain ⟨hload, hpool⟩ := load_close (hinv.toClose k (by simp [hstage, Stage.toClose])) hstep
    simp only [load, hstage, Stage.load, hload, hpool, List.length_cons]
    omega
  | closeDestroying k ks server hstage hstep =>
    obtain ⟨hload, hpool⟩ := load_close (hinv.toClose k (by simp [hstage, Stage.toClose])) hstep
    simp only [load, hstage, Stage.load, hload, hpool, List.length_cons]
    omega
  | iosStop hstage =>
    simp only [load, hstage, Stage.load, List.length_nil]
    omega
  | threadEnd hstopped hrunning hidle =>
    simp only [load, hrunning, Bool.false_eq_true, if_true, if_false]
    omega
  | join hstage hended =>
    simp only [load, hstage, Stage.load, List.length_range]
    omega
  | destroy hstage =>
    simp only [load, hstage, Stage.load, List.length_nil]
    omega
  | finish server hstage hstep =>
    cases Server.steps_of_step hstep with
    | services _ _ ha => obtain ⟨_, heq⟩ | ⟨_, heq⟩ := ha <;> cases heq
    | pool b pool pool' hown hpool hb =>
      cases ThreadPool.steps_of_step hb with
      | join hdes hexit =>
        -- `join()` is the last step
        have hio : ioLoad { s.server with pool := some { pool with destructor := .joined } } =
          s.server.ioLoad := rfl
        have hpool' : poolLoad { pool with destructor := .joined } = poolLoad pool := rfl
        simp only [load, Server.load, hstage, Stage.load, hio, hpool, hpool', Option.map_some,
          Option.getD_some, ThreadPool.destructorLoad]
        omega

/-! ## Programs without such a step -/

/-- Steps that a thread of the server can take by itself are permitted. -/
theorem permits_of_driven {a : Server.Act} {server : Server} (hinv : MainInv s)
    (hflow : FlowInv s.server) (hdriven : Server.driven a = true)
    (h : s.server.step a = some server) : s.permits a = true := by
  -- nothing is left of `server_thread` when it has ended
  have hended : ∀ k job, s.server.current k = some job → s.threadEnded = false := by
    intro k job hcur
    by_contra hended
    have hnone := (hinv.ended (by simpa using hended)).1
    rw [hflow.inMessage k job hcur] at hnone
    cases hnone
  have hthread : ∀ (k : Nat) (t : ThreadId), outsideSend (s.server.conns k) t = false →
      (t.isSome || !s.threadEnded) = true := by
    intro k t hinside
    cases t with
    | some i => rfl
    | none =>
      cases hend : s.threadEnded with
      | false => rfl
      | true => cases ((hinv.ended hend).2 k).symm.trans hinside
  cases Server.steps_of_step h with
  | conn k b c hown hidle hc =>
    cases Connection.steps_of_step hc with
    | push t data hmem => exact hthread k t (inside_of_mem (.inl ⟨_, hmem⟩))
    | pop t w hw => exact hthread k t (inside_of_mem (.inr ⟨_, WriteChain.mem_threads_of_pop hw⟩))
    | startWrite t data w hw =>
      exact hthread k t (inside_of_mem (.inr ⟨_, WriteChain.mem_threads_of_start hw⟩))
    | readEnded b hread => obtain ⟨d, rfl⟩ | rfl := hread <;> cases hdriven
    | _ => cases hdriven
  | submit k job p p' hcur => simp [permits, hended k job hcur]
  | refuse k job p c hcur => simp [permits, hended k job hcur]
  | inline k job hcur => simp [permits, hended k job hcur]
  | leave k job c hcur => simp [permits, hended k job hcur]
  | pool b p p' hown hp hb =>
    obtain ⟨pool, hpool, hpinv⟩ := hinv.pool
    obtain rfl : pool = p := Option.some.inj (hpool.symm.trans hp)
    cases ThreadPool.steps_of_step hb with
    | drainSleep d drainer hd => simp [hpinv.drainers] at hd
    | setStop | notifyAll | join | drain | drainReturn | drainStay | wakeDrainer => cases hdriven
    | _ => rfl
  | services _ _ ha => obtain ⟨_, rfl⟩ | ⟨_, rfl⟩ := ha <;> cases hdriven
  | _ => rfl

/-- No step is left that brings the program further to its end. -/
def Stuck (s : ServerMain) : Prop := ∀ a, advances a = true → s.step a = none

/-- What a program that is stuck does not do, with the guard of `step` passed. -/
theorem Stuck.server (hstuck : Stuck s) (hinv : MainInv s) {a : Server.Act}
    (hadv : advances (.server a) = true) (hpermits : s.permits a = true) :
    s.server.step a = none := by
  have hnone := hstuck _ hadv
  simp only [step, hinv.alive, Bool.false_eq_true, if_false, hpermits, if_true] at hnone
  exact Option.map_eq_none_iff.mp hnone

/-- The server of a program that is stuck is settled. -/
theorem Stuck.settled (hstuck : Stuck s) (hinv : MainInv s) (hflow : FlowInv s.server) :
    Settled s.server := by
  intro a hdriven
  by_contra hsome
  obtain ⟨server, hstep⟩ := Option.ne_none_iff_exists'.mp hsome
  have hpermits := permits_of_driven hinv hflow hdriven hstep
  exact hsome (hstuck.server hinv (advances_of_driven hdriven) hpermits)

/-- `server_thread` is outside of the handlers. -/
theorem Stuck.loopIdle (hstuck : Stuck s) (hinv : MainInv s)
    (hreach : Reachable Server.step (.init services (some threads)) s.server) :
    s.loopIdle = true := by
  have hsettled := hstuck.settled hinv (flowInv_of_reachable hreach).1
  have hnone := hsettled.inMessage hreach hinv.admitted hinv.threw
  simp only [ServerMain.loopIdle, ioIdle, hinv.alive, hnone, Bool.not_false, Option.isNone_none,
    Bool.true_and, List.all_eq_true]
  exact fun k _ => hsettled.outsideSend k none

/-- `~ThreadPool` has joined the workers. -/
theorem Stuck.unwinding (hstuck : Stuck s) (hinv : MainInv s)
    (hreach : Reachable Server.step (.init services (some threads)) s.server)
    (hstage : s.stage = .unwinding) : False := by
  obtain ⟨hflow, hinvoke⟩ := flowInv_of_reachable hreach
  have hsettled := hstuck.settled hinv hflow
  obtain ⟨pool, hpool, hpinv⟩ := hinv.pool
  -- no worker has a step of its own, so all of them wait or have exited
  have hrests : pool.Rests := hsettled.rests hpool fun inv hmem =>
    hsettled.invocations hflow hinvoke (jobInv_of_reachable hreach) hmem
  obtain ⟨n, hw, hpoolReach⟩ := pool_reachable hreach pool hpool
  cases hdes : pool.destructor with
  | notStarted =>
    have hnone := hstuck.server hinv (a := .pool .setStop) rfl (by simp [permits, hstage])
    simp [Server.step, hpool, poolAct, ThreadPool.step, hdes, hrests.unlocked] at hnone
  | stopSet =>
    have hnone := hstuck.server hinv (a := .pool .notifyAll) rfl (by simp [permits, hstage])
    simp [Server.step, hpool, poolAct, ThreadPool.step, hdes] at hnone
  | notified =>
    -- whoever is neither awake nor blocked has exited
    have hexited : ∀ w ∈ pool.workers, w = .exited := by
      intro w hmem
      have hasleep := hrests.asleep w hmem
      have hblocked := (ThreadPool.downInv_of_reachable hpoolReach).woken (.inl hdes)
      cases w with
      | exited => rfl
      | blocked => exact absurd hmem hblocked
      | _ => cases hasleep
    have hnone := hstuck .finish rfl
    simp [step, hinv.alive, hstage, Server.step, hpool, poolAct,
      ThreadPool.step_join hdes hexited] at hnone
  | joined =>
    -- after `join()` the program has returned
    rw [hpinv.joined.mp hdes] at hstage
    cases hstage

/-- Once `g_running` is false, a program that is stuck has returned. -/
theorem Stuck.returned (hstuck : Stuck s) (h : Reachable step (init services threads) s)
    (hsignal : s.stage ≠ .waiting) : s.stage = .returned := by
  have hinv := mainInv_of_reachable h
  have hreach := server_reachable h
  cases hstage : s.stage with
  | waiting => exact absurd hstage hsignal
  | stopping ks =>
    cases ks with
    | nil =>
      have hnone := hstuck .iosStop rfl
      simp [step, hinv.alive, hstage] at hnone
    | cons k ks =>
      have hnone := hstuck .close rfl
      simp only [step, hinv.alive, hstage, Bool.false_eq_true, if_false,
        Option.map_eq_none_iff] at hnone
      cases hnone
  | joining =>
    -- the event loop is left, or it has been
    cases hended : s.threadEnded with
    | false =>
      have hnone := hstuck .threadEnd rfl
      simp [step, hinv.alive, loopStopped, hstage, hended, hstuck.loopIdle hinv hreach] at hnone
    | true =>
      have hnone := hstuck .join rfl
      simp [step, hinv.alive, hstage, hended] at hnone
  | destroying ks =>
    cases ks with
    | nil =>
      have hnone := hstuck .destroy rfl
      simp [step, hinv.alive, hstage] at hnone
    | cons k ks =>
      have hnone := hstuck .close rfl
      simp only [step, hinv.alive, hstage, Bool.false_eq_true, if_false,
        Option.map_eq_none_iff] at hnone
      cases hnone
  | unwinding => exact (hstuck.unwinding hinv hreach hstage).elim
  | returned => rfl

/-- `g_running` does not become true again. -/
theorem Steps.signalled {s' : ServerMain} {a : Act} (h : Steps s a s')
    (hsignal : s.stage ≠ .waiting) : s'.stage ≠ .waiting := by
  cases h with
  | server => exact hsignal
  | threadEnd => exact hsignal
  | _ => simp

/-- Once `g_running` is false, `main` returns.  However the network and the workers have left
    the program, the steps that bring it to its end cannot go on for ever, and the program
    that has none of them left has returned. -/
theorem main_returns (services : ServiceManager) (threads : UInt64 × UInt32) (s : ServerMain)
    (h : Reachable step (init services threads) s) (hsignal : s.stage ≠ .waiting) :
    ∃ bound, ∀ acts t, (∀ a ∈ acts, advances a = true) → run step s acts = some t →
      acts.length ≤ bound ∧ (Stuck t → t.stage = .returned) := by
  refine ⟨s.load, fun acts t hacts hrun => ⟨?_, fun hstuck => ?_⟩⟩
  -- the load bounds the steps
  · apply length_le_of_run (G := fun a => advances a = true)
      (P := fun s => Reachable step (init services threads) s) ?_ acts hacts h hrun
    intro s a s' hs hadv hstep
    exact ⟨hs.tail a trivial hstep, (steps_of_step hstep).2.load_lt (mainInv_of_reachable hs)
      (server_reachable hs) hadv⟩
  -- a signal is not taken back
  · have hreaches := reachable_of_run acts hrun
    have hsignal' : t.stage ≠ .waiting :=
      hreaches.invariant hsignal fun _ _ _ hne _ hs => (steps_of_step hs).2.signalled hne
    exact hstuck.returned (h.trans hreaches) hsignal'

/-- A message has been read when `g_running` becomes false. -/
theorem main_returns_unentered :
    ∃ s : ServerMain, Reachable step (init (sampleServices (.returned [])) (1, 1)) s ∧
      s.server.inMessage = some 0 ∧ ∃ bound, ∀ acts t, (∀ a ∈ acts, advances a = true) →
        run step s acts = some t → acts.length ≤ bound ∧ (Stuck t → t.stage = .returned) := by
  obtain ⟨s, hs, hin, hsignal⟩ : ∃ s : ServerMain,
      Reachable step (init (sampleServices (.returned [])) (1, 1)) s ∧
        s.server.inMessage = some 0 ∧ s.stage ≠ .waiting := exists_reachable_of_run
    [.server (.conn 0 .startRead), .server (.conn 0 (.readHeader (serializeHeader sampleHeader))),
     .server (.conn 0 (.readBody sampleRequest.serialize)), .signal] (by decide)
  exact ⟨s, hs, hin, main_returns _ _ s hs hsignal⟩

end ServerMain

end Rpc
