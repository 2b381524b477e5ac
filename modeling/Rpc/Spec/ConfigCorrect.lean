import Rpc.Native.Config

/-!
# What a configuration file says

A file is read faithfully when every field of every section is (`loadConfig_faithful_iff`).
A field that is missing has its default, but one of the wrong type does not: `value` throws a
type error, which `load_config` does not catch.  A number that does not fit is not replaced
by the default either, but converted (`port_altered`); only the numbers that the conversion
makes the default of do no harm.
-/

namespace Rpc

open Except Json

/-! ## Sections -/

/-- A section: how it is read, and its fields. -/
class ConfigSection (σ : Type) where
  parse : Bool → Json → Except JsonError σ
  initial : σ
  /-- a property of the key, the default and the value of each field -/
  Each : ({α : Type} → [JsonType α] → String → α → α → Prop) → σ → Prop
  each_initial : Each (fun _ default a => a = default) initial
  parse_error : ∀ lax s, s.isObject = false → parse lax s = .error .typeError
  /-- each field is read on its own -/
  returns_parse : ∀ lax s, s.isObject = true →
    ((parse lax s).Returns (Each fun key default a => Faithful (s.find key) default a) ↔
      Each (fun key default _ => FieldOk lax (s.find key) default) initial)

namespace ConfigSection

variable {σ : Type} [ConfigSection σ]

/-- Every field has what the document says in the section, or its default. -/
def FaithfulTo (s : Option Json) (c : σ) : Prop :=
  Each (fun key default a => Faithful (s.bind fun s => s.find key) default a) c

/-- A section that is present is an object, and every field of it that is present says
    something of its type, or a number of which the conversion makes the default. -/
def SectionOk (σ : Type) [ConfigSection σ] (lax : Bool) (s : Option Json) : Prop :=
  ∀ s' ∈ s, s'.isObject = true ∧
    Each (fun key default _ => FieldOk lax (s'.find key) default) (initial : σ)

/-- When a section is read faithfully. -/
theorem returns_section {lax : Bool} {j : Json} {key : String} :
    (parseSection j key (parse lax) (initial : σ)).Returns (FaithfulTo (j.find key)) ↔
      SectionOk σ lax (j.find key) := by
  unfold parseSection SectionOk
  cases hs : j.find key with
  | none =>
    -- every field keeps its default
    rw [returns_ok]
    exact ⟨fun _ => nofun, fun _ => each_initial⟩
  | some s =>
    simp only [Option.mem_def, Option.some.injEq, forall_eq']
    cases hobj : s.isObject with
    | true =>
      simp only [true_and]
      exact returns_parse lax s hobj
    | false =>
      -- `value` throws on the first field, also when the document has none of the fields
      rw [parse_error lax s hobj]
      simp [not_returns_error]

end ConfigSection

open ConfigSection

/-- The section `server`. -/
instance instConfigSectionServer : ConfigSection ServerConfig where
  parse := parseServer
  initial := {}
  Each P c :=
    let d : ServerConfig := {}
    P "host" d.host c.host ∧
    P "port" d.port c.port ∧
    P "thread_pool_size" d.threadPoolSize c.threadPoolSize ∧
    P "max_connections" d.maxConnections c.maxConnections ∧
    P "socket_timeout_ms" d.socketTimeoutMs c.socketTimeoutMs
  each_initial := by simp
  parse_error lax s hs := by
    rw [parseServer, value_error hs]
    rfl
  returns_parse lax s hs := by
    simp only [parseServer, returns_bind, returns_pure, returns_and_const, returns_const_and,
      returns_value hs]

/-- The section `zk`. -/
instance instConfigSectionZk : ConfigSection ZkConfig where
  parse := parseZk
  initial := {}
  Each P c :=
    let d : ZkConfig := {}
    P "host" d.host c.host ∧
    P "port" d.port c.port ∧
    P "session_timeout_ms" d.sessionTimeoutMs c.sessionTimeoutMs ∧
    P "root_path" d.rootPath c.rootPath ∧
    P "services_path" d.servicesPath c.servicesPath
  each_initial := by simp
  parse_error lax s hs := by
    rw [parseZk, value_error hs]
    rfl
  returns_parse lax s hs := by
    simp only [parseZk, returns_bind, returns_pure, returns_and_const, returns_const_and,
      returns_value hs]

/-- The section `log`. -/
instance instConfigSectionLog : ConfigSection LogConfig where
  parse := parseLog
  initial := {}
  Each P c :=
    let d : LogConfig := {}
    P "dir" d.dir c.dir ∧
    P "file" d.file c.file ∧
    P "level" d.level c.level ∧
    P "max_file_size_mb" d.maxFileSizeMb c.maxFileSizeMb ∧
    P "max_files" d.maxFiles c.maxFiles
  each_initial := by simp
  parse_error lax s hs := by
    rw [parseLog, value_error hs]
    rfl
  returns_parse lax s hs := by
    simp only [parseLog, returns_bind, returns_pure, returns_and_const, returns_const_and,
      returns_value hs]

/-- The section `serializer`. -/
instance instConfigSectionSerializer : ConfigSection SerializerConfig where
  parse := parseSerializer
  initial := {}
  Each P c :=
    let d : SerializerConfig := {}
    P "type" d.type c.type
  each_initial := rfl
  parse_error lax s hs := by
    rw [parseSerializer, value_error hs]
    rfl
  returns_parse lax s hs := by
    simp only [parseSerializer, returns_bind, returns_pure, returns_value hs]

/-- The section `compress`. -/
instance instConfigSectionCompress : ConfigSection CompressConfig where
  parse := parseCompress
  initial := {}
  Each P c :=
    let d : CompressConfig := {}
    P "enable" d.enable c.enable ∧
    P "threshold" d.threshold c.threshold ∧
    P "level" d.level c.level
  each_initial := by simp
  parse_error lax s hs := by
    rw [parseCompress, value_error hs]
    rfl
  returns_parse lax s hs := by
    simp only [parseCompress, returns_bind, returns_pure, returns_and_const, returns_const_and,
      returns_value hs]

/-- The section `encrypt`. -/
instance instConfigSectionEncrypt : ConfigSection EncryptConfig where
  parse := parseEncrypt
  initial := {}
  Each P c :=
    let d : EncryptConfig := {}
    P "enable" d.enable c.enable ∧
    P "public_key_path" d.publicKeyPath c.publicKeyPath ∧
    P "private_key_path" d.privateKeyPath c.privateKeyPath
  each_initial := by simp
  parse_error lax s hs := by
    rw [parseEncrypt, value_error hs]
    rfl
  returns_parse lax s hs := by
    simp only [parseEncrypt, returns_bind, returns_pure, returns_and_const, returns_const_and,
      returns_value hs]

/-- The section `balancer`. -/
instance instConfigSectionBalancer : ConfigSection BalancerConfig where
  parse := parseBalancer
  initial := {}
  Each P c :=
    let d : BalancerConfig := {}
    P "strategy" d.strategy c.strategy
  each_initial := rfl
  parse_error lax s hs := by
    rw [parseBalancer, value_error hs]
    rfl
  returns_parse lax s hs := by
    simp only [parseBalancer, returns_bind, returns_pure, returns_value hs]

/-! ## The file -/

namespace Config

/-- The configuration is what the document says, with defaults for the rest. -/
def FaithfulTo (j : Json) (cfg : Config) : Prop :=
  ConfigSection.FaithfulTo (j.find "server") cfg.server ∧
  ConfigSection.FaithfulTo (j.find "zk") cfg.zk ∧
  ConfigSection.FaithfulTo (j.find "log") cfg.log ∧
  ConfigSection.FaithfulTo (j.find "serializer") cfg.serializer ∧
  ConfigSection.FaithfulTo (j.find "compress") cfg.compress ∧
  ConfigSection.FaithfulTo (j.find "encrypt") cfg.encrypt ∧
  ConfigSection.FaithfulTo (j.find "balancer") cfg.balancer

/-- Every section can be read faithfully. -/
def DocumentOk (lax : Bool) (j : Json) : Prop :=
  SectionOk ServerConfig lax (j.find "server") ∧
  SectionOk ZkConfig lax (j.find "zk") ∧
  SectionOk LogConfig lax (j.find "log") ∧
  SectionOk SerializerConfig lax (j.find "serializer") ∧
  SectionOk CompressConfig lax (j.find "compress") ∧
  SectionOk EncryptConfig lax (j.find "encrypt") ∧
  SectionOk BalancerConfig lax (j.find "balancer")

end Config

/-- The sections are read faithfully together when each of them is. -/
theorem returns_parseConfig {lax : Bool} {j : Json} :
    (parseConfig lax j).Returns (Config.FaithfulTo j) ↔ Config.DocumentOk lax j := by
  -- each section is read with its own reader, under its own key
  have hserver : (parseSection j "server" (parseServer lax) {}).Returns _ ↔ _ := returns_section
  have hzk : (parseSection j "zk" (parseZk lax) {}).Returns _ ↔ _ := returns_section
  have hlog : (parseSection j "log" (parseLog lax) {}).Returns _ ↔ _ := returns_section
  have hserializer : (parseSection j "serializer" (parseSerializer lax) {}).Returns _ ↔ _ :=
    returns_section
  have hcompress : (parseSection j "compress" (parseCompress lax) {}).Returns _ ↔ _ :=
    returns_section
  have hencrypt : (parseSection j "encrypt" (parseEncrypt lax) {}).Returns _ ↔ _ :=
    returns_section
  have hbalancer : (parseSection j "balancer" (parseBalancer lax) {}).Returns _ ↔ _ :=
    returns_section
  simp only [parseConfig, returns_bind, returns_pure, Config.FaithfulTo, returns_and_const,
    returns_const_and, hserver, hzk, hlog, hserializer, hcompress, hencrypt, hbalancer,
    Config.DocumentOk]

/-- For every well-formed text: `load_config` returns a configuration that is what the document
    says, with defaults for the rest, if and only if `json::parse` gives a document and every
    section of it can be read faithfully. -/
theorem loadConfig_faithful_iff (parse : Bytes → Except JsonError Json) (lax : Bool) (text : Bytes)
    (hwf : parse text ≠ .error .parseError) :
    (∃ cfg, loadConfig lax parse (some text) = .ok cfg ∧
      ∀ j, parse text = .ok j → cfg.FaithfulTo j) ↔
    ∃ j, parse text = .ok j ∧ Config.DocumentOk lax j := by
  cases hparse : parse text with
  | error e =>
    -- a number that no double can hold: the exception is not a parse error
    have hload : loadConfig lax parse (some text) = .error e := by
      cases e with
      | parseError => exact absurd hparse hwf
      | _ => simp only [loadConfig, hparse]
    simp [hload]
  | ok j =>
    -- no exception is caught for a document: what its sections give is returned
    have hload : loadConfig lax parse (some text) = parseConfig lax j := by
      simp only [loadConfig, hparse]
    have hiff := @returns_parseConfig lax j
    rw [hload]
    simpa [Except.Returns] using hiff

/-- A document with one field, the port of the server. -/
def portDocument (port : Json) : Json := .object [("server", .object [("port", port)])]

/-- The texts of three such documents. -/
def portTexts : List (Bytes × Json) :=
  [(Bytes.ofString "\x7b\"server\": \x7b\"port\": 9000\x7d\x7d", .numberUnsigned 9000),
   (Bytes.ofString "\x7b\"server\": \x7b\"port\": 70000\x7d\x7d", .numberUnsigned 70000),
   (Bytes.ofString "\x7b\"server\": \x7b\"port\": \"9000\"\x7d\x7d", .string "9000")]

/-- `json::parse` on these texts. -/
def portParse (text : Bytes) : Except JsonError Json :=
  match portTexts.lookup text with
  | some port => .ok (portDocument port)
  | none => .error .parseError

/-- Such a document is read faithfully when its port is. -/
theorem documentOk_port {lax : Bool} {port : Json} (h : FieldOk lax (some port) (8080 : UInt16)) :
    Config.DocumentOk lax (portDocument port) := by
  -- the other fields of the section are missing
  have hserver : SectionOk ServerConfig lax ((portDocument port).find "server") := by
    intro s hs
    obtain rfl := Option.some.inj hs
    exact ⟨rfl, nofun, h, nofun, nofun, nofun⟩
  exact ⟨hserver, nofun, nofun, nofun, nofun, nofun, nofun⟩

/-- A port in range is read. -/
theorem loadConfig_faithful_port :
    ∃ cfg, loadConfig true portParse
        (some (Bytes.ofString "\x7b\"server\": \x7b\"port\": 9000\x7d\x7d")) = .ok cfg ∧
      cfg.FaithfulTo (portDocument (.numberUnsigned 9000)) := by
  have hparse : portParse (Bytes.ofString "\x7b\"server\": \x7b\"port\": 9000\x7d\x7d") =
      .ok (portDocument (.numberUnsigned 9000)) := rfl
  -- the number is in range, so that it is the port
  have hport : FieldOk true (some (.numberUnsigned 9000)) (8080 : UInt16) := by
    intro v hv
    obtain rfl := Option.some.inj hv
    exact .inl ⟨9000, rfl⟩
  have hiff := loadConfig_faithful_iff portParse true _ (by rw [hparse]; exact nofun)
  obtain ⟨cfg, hload, hfaithful⟩ := hiff.mpr ⟨_, hparse, documentOk_port hport⟩
  exact ⟨cfg, hload, hfaithful _ hparse⟩

/-- A port that is out of range is stored modulo 65536, and one that is a string makes
    `load_config` throw. -/
theorem port_altered :
    ∃ big quoted j j', portParse big = .ok j ∧ portParse quoted = .ok j' ∧
      loadConfig true portParse (some big) = .ok { server := { port := 4464 } } ∧
      ¬Config.FaithfulTo j { server := { port := 4464 } } ∧
      loadConfig true portParse (some quoted) = .error .typeError := by
  refine ⟨Bytes.ofString "\x7b\"server\": \x7b\"port\": 70000\x7d\x7d",
    Bytes.ofString "\x7b\"server\": \x7b\"port\": \"9000\"\x7d\x7d",
    portDocument (.numberUnsigned 70000), portDocument (.string "9000"), rfl, rfl, rfl, ?_, rfl⟩
  rintro ⟨⟨-, hport, -⟩, -⟩
  obtain hsays | ⟨-, hdefault⟩ := hport
  -- the document says 70000, which is not 4464
  · exact absurd ((denotesInteger_iff rfl (4464 : UInt16)).mp hsays) (by decide)
  -- and 4464 is not the default
  · exact absurd hdefault (by decide)

end Rpc
