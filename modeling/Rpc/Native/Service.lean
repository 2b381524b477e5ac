import Mathlib.Data.List.AList
import Mathlib.Data.List.Infix
import Rpc.Native.Protocol

/-!
# Services and request processing

Model of `core/error_code.h`, `service/service_manager.cpp` and the pure part
of `core/rpc_service.cpp`: looking a service up, dispatching a request to its
handler, and turning the outcome into a response frame.

A handler is foreign code: on each invocation it returns a string, throws a
`std::runtime_error` or throws something else (`HandleOutcome`).  Exceptions
carry the text given to their constructor; `e.what()` is a C string, so the
text that reaches the response ends before its first NUL (`Bytes.cStr`).
-/

namespace Rpc

/-- The framework's error codes. -/
inductive ErrorCode where
  | ok | serviceNotFound | methodNotFound | timeout | serializeError | deserializeError
  | compressError | decompressError | encryptError | decryptError
  | connectionClosed | connectionRefused | internalError
  deriving DecidableEq, Repr

/-- `static_cast<int32_t>(ec)`. -/
def ErrorCode.toInt32 : ErrorCode → Int32
  | .ok => 0
  | .serviceNotFound => -1
  | .methodNotFound => -2
  | .timeout => -3
  | .serializeError => -4
  | .deserializeError => -5
  | .compressError => -6
  | .decompressError => -7
  | .encryptError => -8
  | .decryptError => -9
  | .connectionClosed => -10
  | .connectionRefused => -11
  | .internalError => -99

/-- What one invocation of `Service::handle` does. -/
inductive HandleOutcome where
  | returned (result : Bytes)
  | runtimeError (what : Bytes)
  | otherException
  deriving DecidableEq, Repr

/-- The outcome, as that of a computation that can throw. -/
def HandleOutcome.toExcept : HandleOutcome → Except Fault Bytes
  | .returned result => .ok result
  | .runtimeError what => .error (.runtimeError what)
  | .otherException => .error .otherException

/-- A registered service: its name, its methods, and what its handler does on
    each method and parameter string. -/
structure Service where
  name : Bytes
  methods : List Bytes
  handle : Bytes → Bytes → HandleOutcome

/-- `ServiceManager::services_`. -/
abbrev ServiceManager := AList (fun _ : Bytes => Service)

namespace ServiceManager

/-- `ServiceManager::register_service`; `none` is a null pointer. -/
def registerService (mgr : ServiceManager) : Option Service → ServiceManager
  | none => mgr
  | some service => mgr.insert service.name service

/-- `ServiceManager::unregister_service`. -/
def unregisterService (mgr : ServiceManager) (name : Bytes) : ServiceManager := mgr.erase name

/-- `ServiceManager::get_service`. -/
def getService (mgr : ServiceManager) (name : Bytes) : Option Service := mgr.lookup name

/-- `ServiceManager::dispatch`. -/
def dispatch (mgr : ServiceManager) (serviceName methodName params : Bytes) :
    Except Fault Bytes :=
  match mgr.getService serviceName with
  | none => .error (.runtimeError (Bytes.ofString "service not found: " ++ serviceName))
  | some svc =>
    if methodName ∉ svc.methods then
      .error (.runtimeError (Bytes.ofString "method not found: " ++ serviceName ++
        Bytes.ofString "." ++ methodName))
    else (svc.handle methodName params).toExcept

end ServiceManager

/-! ## `RpcServer::process_request` -/

/-- The error code recovered from an exception text by substring search. -/
def errorCodeOfText (err : Bytes) : ErrorCode :=
  if Bytes.ofString "service not found" <:+: err then .serviceNotFound
  else if Bytes.ofString "method not found" <:+: err then .methodNotFound
  else .internalError

/-- The second half of `process_request`: dispatch a decoded request. Only
    `std::runtime_error` is caught. -/
def dispatchRequest (mgr : ServiceManager) (req : RpcRequest) : Except Fault RpcResponse :=
  match mgr.dispatch req.serviceName req.methodName req.params with
  | .ok result => .ok { errorCode := 0, errorMsg := [], result }
  | .error (.runtimeError what) =>
    let err := what.cStr
    .ok { errorCode := (errorCodeOfText err).toInt32, errorMsg := err, result := [] }
  | .error fault => .error fault

/-- `RpcServer::process_request`. -/
def processRequest (mgr : ServiceManager) (header : RpcHeader) (body : Bytes) :
    Except Fault RpcResponse :=
  if header.msgType ≠ MsgType.request.toUInt8 then
    .ok { errorCode := ErrorCode.internalError.toInt32,
          errorMsg := Bytes.ofString "unexpected message type", result := [] }
  else
    match RpcRequest.deserialize body with
    | .error (.runtimeError what) =>
      .ok { errorCode := ErrorCode.deserializeError.toInt32,
            errorMsg := Bytes.ofString "deserialize failed: " ++ what.cStr, result := [] }
    -- `deserialize` throws nothing but `std::runtime_error`
    | .error fault => .error fault
    | .ok req => dispatchRequest mgr req

/-- The frame `RpcServer::send_response` hands to `Connection::send`. -/
def sendResponse (reqHeader : RpcHeader) (resp : RpcResponse) : RpcHeader × Bytes :=
  let respBody := resp.serialize
  let respHeader : RpcHeader :=
    { magic := RpcHeader.MAGIC
      version := RpcHeader.VERSION
      msgType := if resp.errorCode = 0 then MsgType.response.toUInt8
        else MsgType.rpcError.toUInt8
      serializer := reqHeader.serializer
      flags := flagNone
      seqId := reqHeader.seqId
      bodySize := UInt32.ofNat respBody.length
      checksum := 0 }
  (respHeader, respBody)

end Rpc
