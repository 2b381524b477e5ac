import Rpc.Native.Server

/-!
# What a step of the server can do

`Server.Steps` lists the outcomes of `Server.step` with their guards, and
`Server.steps_of_step` says that there are no others.  An invocation that an
exception leaves is two cases: on a worker the exception ends in the future of
the task, on the io thread it leaves the read handler.
-/

namespace Rpc.Server

/-- The outcomes of a step. -/
inductive Steps (s : Server) : Act → Server → Prop where
  /-- connection `k` makes a step of its own -/
  | conn (k : Nat) (a : Connection.Act) (c : Connection) (hown : ownAct a = true)
      (hidle : startsHandler a = true → s.ioIdle = true) (hc : (s.conns k).step a = some c) :
      Steps s (.conn k a)
        { s.setConn k c with inMessage := if callsOnMessage a then some k else s.inMessage }
  /-- `on_message` gives the message to the pool -/
  | submit (k : Nat) (job : Job) (pool pool' : ThreadPool Job) (hcur : s.current k = some job)
      (hnew : job.id ∉ s.entered.map Prod.fst) (hpool : s.pool = some pool)
      (henq : pool.enqueue job = .ok pool') (hfree : pool.locked = false) :
      Steps s (.enter k) { s with pool := some pool', entered := s.entered ++ [(job.id, false)] }
  /-- the pool is stopped, and the exception of `enqueue` leaves the read handler -/
  | refuse (k : Nat) (job : Job) (pool : ThreadPool Job) (c : Connection)
      (hcur : s.current k = some job) (hnew : job.id ∉ s.entered.map Prod.fst)
      (hpool : s.pool = some pool) (hstop : pool.stop = true)
      (hc : (s.conns job.conn).step .messageThrew = some c) (hfree : pool.locked = false) :
      Steps s (.enter k) { s.throwOut job c with entered := s.entered ++ [(job.id, true)] }
  /-- without a pool the message is processed on the io thread -/
  | inline (k : Nat) (job : Job) (hcur : s.current k = some job)
      (hnew : job.id ∉ s.entered.map Prod.fst) (hpool : s.pool = none) :
      Steps s (.enter k)
        { s with
          invocations := s.invocations ++ [{ thread := none, job, progress := .processing }]
          entered := s.entered ++ [(job.id, false)] }
  /-- `on_message` returns, and the connection reads on -/
  | leave (k : Nat) (job : Job) (c : Connection) (hcur : s.current k = some job)
      (hhandled : s.handled job = true) (hc : (s.conns k).step .messageHandled = some c) :
      Steps s (.leave k) { s.setConn k c with inMessage := none, left := s.left ++ [job.id] }
  /-- the pool makes a step that starts and ends no task -/
  | pool (a : ThreadPool.Act Job) (pool pool' : ThreadPool Job) (hown : poolAct a = true)
      (hpool : s.pool = some pool) (hstep : pool.step a = some pool') :
      Steps s (.pool a) { s with pool := some pool' }
  /-- worker `i` begins with the task it has popped -/
  | activate (i : Nat) (pool pool' : ThreadPool Job) (task : Task Job)
      (hpool : s.pool = some pool) (hw : pool.workers[i]? = some (.popped task))
      (hstep : pool.step (.activate i) = some pool') :
      Steps s (.activate i)
        { s with
          pool := some pool'
          invocations := s.invocations ++
            [{ thread := some i, job := task.job, progress := .processing }] }
  /-- the task of worker `i` has come to its end -/
  | finish (i : Nat) (pool pool' : ThreadPool Job) (hpool : s.pool = some pool)
      (hstep : pool.step (.finish i) = some pool') :
      Steps s (.finish i) { s with pool := some pool' }
  /-- there is a response -/
  | respond (n : Nat) (inv : Invocation) (resp : RpcResponse)
      (hinv : s.invocations[n]? = some inv) (hprog : inv.progress = .processing)
      (hresp : processRequest s.services inv.job.header inv.job.body = .ok resp) :
      Steps s (.process n)
        { s with invocations := s.setProgress n inv (.responding s.services resp) }
  /-- an exception leaves the task of a worker -/
  | escapeTask (n : Nat) (inv : Invocation) (fault : Fault)
      (hinv : s.invocations[n]? = some inv) (hprog : inv.progress = .processing)
      (hthread : inv.thread ≠ none)
      (hfault : processRequest s.services inv.job.header inv.job.body = .error fault) :
      Steps s (.process n) { s with invocations := s.setProgress n inv (.escaped s.services) }
  /-- an exception leaves the read handler on the io thread -/
  | escapeInline (n : Nat) (inv : Invocation) (fault : Fault) (c : Connection)
      (hinv : s.invocations[n]? = some inv) (hprog : inv.progress = .processing)
      (hthread : inv.thread = none)
      (hfault : processRequest s.services inv.job.header inv.job.body = .error fault)
      (hc : (s.conns inv.job.conn).step .messageThrew = some c) :
      Steps s (.process n)
        (throwOut { s with invocations := s.setProgress n inv (.escaped s.services) } inv.job c)
  /-- the response is handed to the connection -/
  | send (n : Nat) (inv : Invocation) (services : ServiceManager) (resp : RpcResponse)
      (c : Connection) (hinv : s.invocations[n]? = some inv)
      (hprog : inv.progress = .responding services resp)
      (hc : (s.conns inv.job.conn).step (.send inv.thread (sendResponse inv.job.header resp).1
        (sendResponse inv.job.header resp).2) = some c) :
      Steps s (.send n)
        { s.setConn inv.job.conn c with
          invocations := s.setProgress n inv (.sending services resp)
          sends := s.sends ++
            [{ id := inv.job.id, conn := inv.job.conn,
               header := (sendResponse inv.job.header resp).1,
               body := (sendResponse inv.job.header resp).2 }] }
  /-- `send` has returned -/
  | done (n : Nat) (inv : Invocation) (services : ServiceManager) (resp : RpcResponse)
      (hinv : s.invocations[n]? = some inv) (hprog : inv.progress = .sending services resp)
      (hout : outsideSend (s.conns inv.job.conn) inv.thread = true) :
      Steps s (.done n)
        { s with invocations := s.setProgress n inv (.returned services resp) }
  /-- a service is registered or unregistered -/
  | services (a : Act) (services : ServiceManager)
      (ha : (∃ service, a = .register service) ∨ ∃ name, a = .unregister name) :
      Steps s a { s with services }

/-- `on_message` submits, is refused, or starts on the io thread. -/
private theorem steps_enter {s s' : Server} {k : Nat} (h : s.step (.enter k) = some s') :
    Steps s (.enter k) s' := by
  simp only [step] at h
  split at h
  · rename_i job hcur
    split at h
    · rename_i hguard
      simp only [onMessage] at h
      split at h
      · rename_i pool hpool
        split at h
        · cases h
        · rename_i hfree
          have hfree : pool.locked = false := by simpa using hfree
          split at h
          · rename_i pool' henq
            obtain rfl := Option.some.inj h
            exact .submit k job pool pool' hcur hguard.2 hpool henq hfree
          · rename_i fault henq
            obtain ⟨c, hc, rfl⟩ := Option.map_eq_some_iff.mp h
            -- only a stopped pool refuses
            have hstop : pool.stop = true := by
              by_contra hstop
              simp only [ThreadPool.enqueue, hstop] at henq
              cases henq
            exact .refuse k job pool c hcur hguard.2 hpool hstop hc hfree
      -- there is no pool
      · rename_i hpool
        obtain rfl := Option.some.inj h
        exact .inline k job hcur hguard.2 hpool
    · cases h
  · cases h

/-- `process_request` returns or an exception leaves it. -/
private theorem steps_process {s s' : Server} {n : Nat} (h : s.step (.process n) = some s') :
    Steps s (.process n) s' := by
  simp only [step] at h
  split at h
  · rename_i inv hinv
    split at h
    · rename_i hprog
      split at h
      · rename_i resp hresp
        obtain rfl := Option.some.inj h
        exact .respond n inv resp hinv hprog hresp
      · rename_i fault hfault
        split at h
        -- on a worker the future keeps the exception
        · rename_i i hthread
          obtain rfl := Option.some.inj h
          exact .escapeTask n inv fault hinv hprog (hthread ▸ Option.some_ne_none i) hfault
        -- on the io thread it closes the connection
        · rename_i hthread
          obtain ⟨c, hc, rfl⟩ := Option.map_eq_some_iff.mp h
          exact .escapeInline n inv fault c hinv hprog hthread hfault hc
    · cases h
  · cases h

/-- A step has one of the outcomes of `Steps`. -/
theorem steps_of_step {s s' : Server} {a : Act} (h : s.step a = some s') : Steps s a s' := by
  cases a with
  | conn k a =>
    simp only [step] at h
    split at h
    · rename_i hguard
      obtain ⟨c, hc, rfl⟩ := Option.map_eq_some_iff.mp h
      exact .conn k a c hguard.1 hguard.2 hc
    · cases h
  | enter k => exact steps_enter h
  | leave k =>
    simp only [step] at h
    split at h
    · rename_i job hcur
      split at h
      · rename_i hguard
        obtain ⟨c, hc, rfl⟩ := Option.map_eq_some_iff.mp h
        exact .leave k job c hcur hguard.2 hc
      · cases h
    · cases h
  | pool a =>
    simp only [step] at h
    split at h
    · rename_i pool hpool
      split at h
      · rename_i hown
        obtain ⟨pool', hstep, rfl⟩ := Option.map_eq_some_iff.mp h
        exact .pool a pool pool' hown hpool hstep
      · cases h
    · cases h
  | activate i =>
    simp only [step] at h
    split at h
    · rename_i pool hpool
      split at h
      · rename_i task hw
        obtain ⟨pool', hstep, rfl⟩ := Option.map_eq_some_iff.mp h
        exact .activate i pool pool' task hpool hw hstep
      · cases h
    · cases h
  | finish i =>
    simp only [step] at h
    split at h
    · rename_i pool hpool
      split at h
      · obtain ⟨pool', hstep, rfl⟩ := Option.map_eq_some_iff.mp h
        exact .finish i pool pool' hpool hstep
      · cases h
    · cases h
  | process n => exact steps_process h
  | send n =>
    simp only [step] at h
    split at h
    · rename_i inv hinv
      split at h
      · rename_i services resp hprog
        obtain ⟨c, hc, rfl⟩ := Option.map_eq_some_iff.mp h
        exact .send n inv services resp c hinv hprog hc
      · cases h
    · cases h
  | done n =>
    simp only [step] at h
    split at h
    · rename_i inv hinv
      split at h
      · rename_i services resp hprog
        split at h
        · rename_i hout
          obtain rfl := Option.some.inj h
          exact .done n inv services resp hinv hprog hout
        · cases h
      · cases h
    · cases h
  | register service =>
    obtain rfl := Option.some.inj h
    exact .services _ _ (.inl ⟨service, rfl⟩)
  | unregister name =>
    obtain rfl := Option.some.inj h
    exact .services _ _ (.inr ⟨name, rfl⟩)

end Rpc.Server
