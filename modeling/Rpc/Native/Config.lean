import Rpc.ForStd.Json
import Rpc.Native.Protocol

/-!
# Configuration

Model of `load_config/load_config.{h,cpp}`: the sections with their defaults, and how they are
read from a JSON file.  The JSON library is a parameter: `parse` is `json::parse`, and `lax`
says whether `get` takes a boolean for a number.  The file is its contents, or `none` when it
does not exist.
-/

namespace Rpc

/-- `ServerConfig`. -/
structure ServerConfig where
  host : String := "0.0.0.0"
  port : UInt16 := 8080
  threadPoolSize : Int32 := 8
  maxConnections : Int32 := 10000
  socketTimeoutMs : Int32 := 5000
  deriving DecidableEq, Repr

/-- `ZkConfig`. -/
structure ZkConfig where
  host : String := "127.0.0.1"
  port : UInt16 := 2181
  sessionTimeoutMs : Int32 := 4000
  rootPath : String := "/rpc"
  servicesPath : String := "/rpc/services"
  deriving DecidableEq, Repr

/-- `LogConfig`. -/
structure LogConfig where
  dir : String := "logs"
  file : String := "rpc.log"
  level : String := "info"
  maxFileSizeMb : Int32 := 10
  maxFiles : Int32 := 5
  deriving DecidableEq, Repr

/-- `SerializerConfig`. -/
structure SerializerConfig where
  type : String := "protobuf"
  deriving DecidableEq, Repr

/-- `CompressConfig`. -/
structure CompressConfig where
  enable : Bool := true
  threshold : Int32 := 256
  level : Int32 := 3
  deriving DecidableEq, Repr

/-- `EncryptConfig`. -/
structure EncryptConfig where
  enable : Bool := false
  publicKeyPath : String := ""
  privateKeyPath : String := ""
  deriving DecidableEq, Repr

/-- `BalancerConfig`. -/
structure BalancerConfig where
  strategy : String := "round_robin"
  deriving DecidableEq, Repr

/-- `Config`: every field has its default. -/
structure Config where
  server : ServerConfig := {}
  zk : ZkConfig := {}
  log : LogConfig := {}
  serializer : SerializerConfig := {}
  compress : CompressConfig := {}
  encrypt : EncryptConfig := {}
  balancer : BalancerConfig := {}
  deriving DecidableEq, Repr

variable (lax : Bool)

/-- `parse_server`. -/
def parseServer (j : Json) : Except JsonError ServerConfig := do
  let c : ServerConfig := {}
  let host ← j.value lax "host" c.host
  let port ← j.value lax "port" c.port
  let threadPoolSize ← j.value lax "thread_pool_size" c.threadPoolSize
  let maxConnections ← j.value lax "max_connections" c.maxConnections
  let socketTimeoutMs ← j.value lax "socket_timeout_ms" c.socketTimeoutMs
  return { host, port, threadPoolSize, maxConnections, socketTimeoutMs }

/-- `parse_zk`. -/
def parseZk (j : Json) : Except JsonError ZkConfig := do
  let c : ZkConfig := {}
  let host ← j.value lax "host" c.host
  let port ← j.value lax "port" c.port
  let sessionTimeoutMs ← j.value lax "session_timeout_ms" c.sessionTimeoutMs
  let rootPath ← j.value lax "root_path" c.rootPath
  let servicesPath ← j.value lax "services_path" c.servicesPath
  return { host, port, sessionTimeoutMs, rootPath, servicesPath }

/-- `parse_log`. -/
def parseLog (j : Json) : Except JsonError LogConfig := do
  let c : LogConfig := {}
  let dir ← j.value lax "dir" c.dir
  let file ← j.value lax "file" c.file
  let level ← j.value lax "level" c.level
  let maxFileSizeMb ← j.value lax "max_file_size_mb" c.maxFileSizeMb
  let maxFiles ← j.value lax "max_files" c.maxFiles
  return { dir, file, level, maxFileSizeMb, maxFiles }

/-- `parse_serializer`. -/
def parseSerializer (j : Json) : Except JsonError SerializerConfig := do
  let c : SerializerConfig := {}
  let type ← j.value lax "type" c.type
  return { type }

/-- `parse_compress`. -/
def parseCompress (j : Json) : Except JsonError CompressConfig := do
  let c : CompressConfig := {}
  let enable ← j.value lax "enable" c.enable
  let threshold ← j.value lax "threshold" c.threshold
  let level ← j.value lax "level" c.level
  return { enable, threshold, level }

/-- `parse_encrypt`. -/
def parseEncrypt (j : Json) : Except JsonError EncryptConfig := do
  let c : EncryptConfig := {}
  let enable ← j.value lax "enable" c.enable
  let publicKeyPath ← j.value lax "public_key_path" c.publicKeyPath
  let privateKeyPath ← j.value lax "private_key_path" c.privateKeyPath
  return { enable, publicKeyPath, privateKeyPath }

/-- `parse_balancer`. -/
def parseBalancer (j : Json) : Except JsonError BalancerConfig := do
  let c : BalancerConfig := {}
  let strategy ← j.value lax "strategy" c.strategy
  return { strategy }

/-- `if (j.contains(key)) current = parse(j[key]);`. -/
def parseSection {α : Type} (j : Json) (key : String) (parse : Json → Except JsonError α)
    (current : α) : Except JsonError α :=
  match j.find key with
  | some s => parse s
  | none => .ok current

/-- The sections of a document, in the order they are read. -/
def parseConfig (j : Json) : Except JsonError Config := do
  let cfg : Config := {}
  let server ← parseSection j "server" (parseServer lax) cfg.server
  let zk ← parseSection j "zk" (parseZk lax) cfg.zk
  let log ← parseSection j "log" (parseLog lax) cfg.log
  let serializer ← parseSection j "serializer" (parseSerializer lax) cfg.serializer
  let compress ← parseSection j "compress" (parseCompress lax) cfg.compress
  let encrypt ← parseSection j "encrypt" (parseEncrypt lax) cfg.encrypt
  let balancer ← parseSection j "balancer" (parseBalancer lax) cfg.balancer
  return { server, zk, log, serializer, compress, encrypt, balancer }

/-- `load_config`. -/
def loadConfig (parse : Bytes → Except JsonError Json) (file : Option Bytes) :
    Except JsonError Config :=
  match file with
  | none => .ok {}
  | some text =>
    match parse text with
    | .ok j => parseConfig lax j
    -- nothing has been assigned yet, and only `json::parse` throws parse errors
    | .error .parseError => .ok {}
    | .error e => .error e

end Rpc
