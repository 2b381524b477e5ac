import Mathlib.Data.List.Infix
import Rpc.ForStd.Dialogue
import Rpc.Native.ZkClient

/-!
# Service registry

Model of `registry/service_registry.{h,cpp}` and of the results of `zk_client.hpp`.

An operation of the registry sends a request and polls the `io_context` until the
future of the request is ready.  It is a program that asks (`Dialogue`): the
questions are the requests, the answers say how each promise was satisfied.  What
happens between the two is an `Exchange`, which `sendRequest` plays through the
client.  The log output is left out.

The `io_context` is assumed to keep running between two operations, as one does that
has a work guard.  A plain one stops when it runs out of handlers, and is not restarted:
there the polling loop need not end (`WaitLoop`), and nothing is said here about it.
-/

namespace Rpc.Zk

/-! ## `zk_client::result` -/

/-- `result<T>`. -/
structure Result (α : Type) where
  ok : Option α
  err : Bytes
  deriving DecidableEq, Repr

namespace Result

variable {α : Type}

/-- `result<T>::make_ok`. -/
def makeOk (val : α) : Result α := { ok := some val, err := [] }

/-- `result<T>::make_error`. -/
def makeError (msg : Bytes) : Result α := { ok := none, err := msg }

/-- `result<T>::is_ok`. -/
def isOk (r : Result α) : Bool := r.ok.isSome

/-- `result<T>::is_err`. -/
def isErr (r : Result α) : Bool := !r.isOk

end Result

/-- `result<void>`. -/
structure ResultVoid where
  err : Bytes
  hasErr : Bool
  deriving DecidableEq, Repr

namespace ResultVoid

/-- `result<void>::make_ok`. -/
def makeOk : ResultVoid := { err := [], hasErr := false }

/-- The text is stored and `has_err_` keeps its default. -/
def makeError (msg : Bytes) : ResultVoid := { makeOk with err := msg }

/-- `result<void>::is_ok`. -/
def isOk (r : ResultVoid) : Bool := !r.hasErr

/-- `result<void>::is_err`. -/
def isErr (r : ResultVoid) : Bool := r.hasErr

end ResultVoid

/-- The callbacks of `send_request<Response>`: what the promise is satisfied with.  A
    response that cannot be read makes `resolve` throw. -/
def Outcome.result {α : Type} (deserialize : Bytes → Except Fault (α × Bytes)) :
    Outcome → Except Fault (Result α)
  | .reply err data =>
    if err ≠ 0 then .ok (.makeError (zkErrorStr err))
    else do
      let (val, _) ← deserialize data
      return .makeOk val
  | .rejected msg => .ok (.makeError msg)

/-- The callbacks of `send_request_void`. -/
def Outcome.resultVoid : Outcome → ResultVoid
  | .reply err _ => if err ≠ 0 then .makeError (zkErrorStr err) else .makeOk
  | .rejected msg => .makeError msg

/-! ## Exchanges -/

/-- What happens to a request after its write was posted. -/
inductive Exchange where
  | writeFailed (msg : Bytes)
  /-- the read of the length fails -/
  | lengthFailed (msg : Bytes)
  /-- the length has been read, and the read of the body fails -/
  | bodyFailed (frame : ReplyFrame) (msg : Bytes)
  /-- the reply to the request is read -/
  | replied (zxid : Int64) (err : Int32) (payload : Bytes) (fits : 16 + payload.length < 2 ^ 31)
  deriving Repr

/-- No reply is received. -/
def Exchange.isFailure : Exchange → Bool
  | .replied .. => false
  | _ => true

/-- The steps of the client and the server. -/
def Exchange.acts (r : Nat) (xid : Int32) : Exchange → List ZkClient.Act
  | .writeFailed msg => [.writeError r msg]
  | .lengthFailed msg => [.writeDone r, .readError msg]
  | .bodyFailed frame msg => [.writeDone r, .serve frame, .arrive 4, .readDone, .readError msg]
  | .replied zxid err payload fits =>
    let frame : ReplyFrame := { xid, zxid, err, payload, fits }
    [.writeDone r, .serve frame, .arrive frame.wire.length, .readDone, .readDone]

/-- `send_request` and the loop that waits for its future: the client after the exchange,
    and how the promise was satisfied. -/
def sendRequest (client : ZkClient) (op : Operation) (ex : Exchange) :
    Option (ZkClient × Outcome) :=
  let r := client.requests.length
  match Transition.run ZkClient.step client
      ([.alloc op.opCode op.serializeBody, .register r, .post r] ++ ex.acts r client.xid) with
  | some client' => (client'.outcomes.lookup r).map fun outcome => (client', outcome)
  | none => none

/-- How the handshake ends. -/
inductive Handshake where
  | resolveFailed (msg : Bytes)
  | connectFailed (msg : Bytes)
  | writeFailed (msg : Bytes)
  | lengthFailed (msg : Bytes)
  /-- the length is negative, and the construction of the body throws -/
  | lengthNegative
  | bodyFailed (msg : Bytes)
  /-- the reply is read -/
  | replied (body : Bytes)
  deriving DecidableEq, Repr

/-- The members of `zk_client` that the handshake writes. -/
structure ZkSession where
  sessionId : Int64
  passwd : Bytes
  timeoutMs : Int32
  connected : Bool
  deriving DecidableEq, Repr

/-- `zk_client::connect` and the handlers it starts: the value of the future. -/
def ZkSession.connect (s : ZkSession) (timeoutMs : Int32) :
    Handshake → ZkSession × Except Fault ResultVoid
  | .resolveFailed msg | .connectFailed msg | .writeFailed msg | .lengthFailed msg
  | .bodyFailed msg => ({ s with timeoutMs }, .ok (.makeError msg))
  | .lengthNegative => ({ s with timeoutMs }, .error .otherException)
  | .replied body =>
    match ConnectResponse.deserialize body with
    | .ok (resp, _) =>
      ({ sessionId := resp.sessionId, passwd := resp.passwd, timeoutMs := resp.timeoutMs,
         connected := true }, .ok .makeOk)
    | .error fault => ({ s with timeoutMs }, .error fault)

/-- The socket after the handshake: `async_connect` begins with a new one, and after a
    failed read nothing arrives any more. -/
def Handshake.socket (client : ZkClient) : Handshake → ZkClient
  | .resolveFailed _ => client
  | .connectFailed _ | .lengthFailed _ | .lengthNegative | .bodyFailed _ =>
    { client with inbox := [], transit := [], broken := true }
  | .writeFailed _ | .replied _ => { client with inbox := [], transit := [], broken := false }

end Rpc.Zk

namespace Rpc

open Zk

/-- A service as `get_service` returns it. -/
structure ServiceInstance where
  name : Bytes
  address : Bytes
  ctime : Int64
  mtime : Int64
  version : Int32
  dataLength : Int32
  deriving DecidableEq, Repr

/-- The registry with its client. -/
structure ServiceRegistry where
  client : ZkClient
  session : ZkSession
  connected : Bool

namespace ServiceRegistry

/-- A registry that has not been connected. -/
def init : ServiceRegistry :=
  { client := { ZkClient.init with broken := true }
    session := { sessionId := 0, passwd := List.replicate 16 0, timeoutMs := 4000,
                 connected := false }
    connected := false }

/-- `ServiceRegistry::connect`. -/
def connect (s : ServiceRegistry) (timeoutMs : Int32) (hs : Handshake) :
    ServiceRegistry × Except Fault Bool :=
  let (session, result) := s.session.connect timeoutMs hs
  let s := { s with client := hs.socket s.client, session }
  match result with
  | .ok result => ({ s with connected := result.isOk }, .ok result.isOk)
  | .error fault => (s, .error fault)

/-- The programs of the registry. -/
abbrev Program := ExceptT Fault (Dialogue Operation Outcome)

/-- Send a request and wait for its future. -/
def request {α : Type} (op : Operation) (deserialize : Bytes → Except Fault (α × Bytes)) :
    Program (Result α) :=
  ExceptT.mk (do return (← Dialogue.query op).result deserialize)

/-- The same for a request without a response body. -/
def requestVoid (op : Operation) : Program ResultVoid :=
  ExceptT.mk (do return .ok (← Dialogue.query op).resultVoid)

/-- The last component of a path: what stands after the last `/`. -/
def lastComponent (path : Bytes) : Bytes := (path.reverse.takeWhile (· ≠ 47)).reverse

/-- `services_path + "/" + name`. -/
def childPath (servicesPath name : Bytes) : Bytes := servicesPath ++ 47 :: name

/-- `ServiceRegistry::get_children`. -/
def getChildren (connected : Bool) (path : Bytes) : Program (List Bytes) :=
  if !connected then return []
  else do
    let result ← request (.getChildren path false) GetChildrenResponse.deserialize
    match result.ok with
    | some resp => return resp.children
    | none => return []

/-- `ServiceRegistry::get_node_data`. -/
def getNodeData (connected : Bool) (path : Bytes) : Program Bytes :=
  if !connected then return []
  else do
    let result ← request (.getData path false) GetDataResponse.deserialize
    match result.ok with
    | some resp => return resp.data
    | none => return []

/-- `ServiceRegistry::get_service`. -/
def getService (connected : Bool) (nodePath : Bytes) : Program ServiceInstance :=
  let si : ServiceInstance :=
    { name := lastComponent nodePath, address := [], ctime := 0, mtime := 0, version := 0,
      dataLength := 0 }
  if !connected then return si
  else do
    let result ← request (.getData nodePath false) GetDataResponse.deserialize
    match result.ok with
    | some resp =>
      return { si with
        address := resp.data
        ctime := resp.stat.ctime
        mtime := resp.stat.mtime
        version := resp.stat.version
        dataLength := resp.stat.dataLength }
    -- the error is logged, and the instance returned as it is
    | none => return si

/-- The loop of `list_services`. -/
def getServices (connected : Bool) (servicesPath : Bytes) :
    List Bytes → Program (List ServiceInstance)
  | [] => return []
  | name :: names => do
    let si ← getService connected (childPath servicesPath name)
    let services ← getServices connected servicesPath names
    return si :: services

/-- `ServiceRegistry::list_services`. -/
def listServices (connected : Bool) (servicesPath : Bytes) : Program (List ServiceInstance) := do
  let children ← getChildren connected servicesPath
  getServices connected servicesPath children

/-- `ServiceRegistry::node_exists`. -/
def nodeExists (connected : Bool) (path : Bytes) : Program Bool :=
  if !connected then return false
  else do
    let result ← request (.exists path false) ExistsResponse.deserialize
    return result.isOk

/-- `ServiceRegistry::register_service`: an ephemeral node. -/
def registerService (connected : Bool) (servicesPath nodeName address : Bytes) : Program Bool :=
  if !connected then return false
  else do
    let result ← request (.create (childPath servicesPath nodeName) address aclOpenUnsafe 1)
      CreateResponse.deserialize
    if result.isErr then return false
    else return true

/-- `ServiceRegistry::unregister_service`. -/
def unregisterService (connected : Bool) (nodePath : Bytes) : Program Bool :=
  if !connected then return false
  else do
    let result ← requestVoid (.remove nodePath (-1))
    if result.isErr then return false
    else return true

/-- `ServiceRegistry::create_persistent_node`: that the node exists already is recognised
    by the text of the error. -/
def createPersistentNode (connected : Bool) (path : Bytes) : Program Bool :=
  if !connected then return false
  else do
    let result ← request (.create path [] aclOpenUnsafe 0) CreateResponse.deserialize
    if result.isErr ∧ ¬Bytes.ofString "node exists" <:+: result.err then return false
    else return true

/-! ## Runs of a registry -/

/-- The operations that report success. -/
inductive Op where
  | nodeExists (path : Bytes)
  | registerService (servicesPath nodeName address : Bytes)
  | unregisterService (nodePath : Bytes)
  | createPersistentNode (path : Bytes)
  deriving DecidableEq, Repr

/-- What an operation of a registry runs. -/
def Op.program (connected : Bool) : Op → Program Bool
  | .nodeExists path => ServiceRegistry.nodeExists connected path
  | .registerService servicesPath nodeName address =>
    ServiceRegistry.registerService connected servicesPath nodeName address
  | .unregisterService nodePath => ServiceRegistry.unregisterService connected nodePath
  | .createPersistentNode path => ServiceRegistry.createPersistentNode connected path

/-- Run a program; `exs` is what happens to its requests. -/
def exec {α : Type} (s : ServiceRegistry) (p : Program α) (exs : List Exchange) :
    Option (ServiceRegistry × Except Fault α) :=
  (Dialogue.exec sendRequest s.client p.run exs).map fun (client, ret) => ({ s with client }, ret)

/-- The operations of a registry. -/
inductive Act where
  | connect (timeoutMs : Int32) (hs : Handshake)
  | op (op : Op) (exs : List Exchange)
  | getChildren (path : Bytes) (exs : List Exchange)
  | getNodeData (path : Bytes) (exs : List Exchange)
  | getService (nodePath : Bytes) (exs : List Exchange)
  | listServices (servicesPath : Bytes) (exs : List Exchange)
  deriving Repr

/-- One operation. -/
def step (s : ServiceRegistry) : Act → Option ServiceRegistry
  | .connect timeoutMs hs => some (s.connect timeoutMs hs).1
  | .op op exs => (s.exec (op.program s.connected) exs).map Prod.fst
  | .getChildren path exs =>
    (s.exec (ServiceRegistry.getChildren s.connected path) exs).map Prod.fst
  | .getNodeData path exs =>
    (s.exec (ServiceRegistry.getNodeData s.connected path) exs).map Prod.fst
  | .getService nodePath exs =>
    (s.exec (ServiceRegistry.getService s.connected nodePath) exs).map Prod.fst
  | .listServices servicesPath exs =>
    (s.exec (ServiceRegistry.listServices s.connected servicesPath) exs).map Prod.fst

end ServiceRegistry

end Rpc
