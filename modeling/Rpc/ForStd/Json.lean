import Rpc.ForStd.MachineInt

/-!
# JSON values

The values of a JSON library for C++, and its lookups with a default: `value` takes the member
of an object, or the default when there is none, and converts it to the type of the default.
The conversion throws when the type of the member is another one, but a number of any kind is
converted to any integer type.

* `Denotes v a`: the document says `a`.
* `Coincides v a`: the conversion makes `a` of a number that is not in the type.
* `Faithful v default a`: `a` is what the document says in the type, and the default when it
  says nothing there.
* `returns_value`: the lookups that return a faithful value.
-/

/-! ## Computations that can throw -/

/-- The computation returns a value with the property. -/
def Except.Returns {ε α : Type} (x : Except ε α) (P : α → Prop) : Prop := ∃ a, x = .ok a ∧ P a

namespace Except

variable {ε α β : Type}

/-- A computation that has returned a value. -/
theorem returns_ok {a : α} {P : α → Prop} : (ok a : Except ε α).Returns P ↔ P a := by
  constructor
  · rintro ⟨b, hb, h⟩
    obtain rfl := ok.inj hb
    exact h
  · exact fun h => ⟨a, rfl, h⟩

/-- A computation that only returns a value. -/
theorem returns_pure {a : α} {P : α → Prop} : (pure a : Except ε α).Returns P ↔ P a := returns_ok

/-- A computation that has thrown returns nothing. -/
theorem not_returns_error {e : ε} {P : α → Prop} : ¬(error e : Except ε α).Returns P := by
  rintro ⟨b, hb, -⟩
  cases hb

/-- What does not depend on the value holds of any value. -/
theorem returns_and_const {x : Except ε α} {P : α → Prop} {q : Prop} :
    x.Returns (fun a => P a ∧ q) ↔ x.Returns P ∧ q := by
  constructor
  · rintro ⟨a, hx, hP, hq⟩
    exact ⟨⟨a, hx, hP⟩, hq⟩
  · rintro ⟨⟨a, hx, hP⟩, hq⟩
    exact ⟨a, hx, hP, hq⟩

/-- What does not depend on the value holds of any value. -/
theorem returns_const_and {x : Except ε α} {P : α → Prop} {q : Prop} :
    x.Returns (fun a => q ∧ P a) ↔ q ∧ x.Returns P := by
  constructor
  · rintro ⟨a, hx, hq, hP⟩
    exact ⟨hq, a, hx, hP⟩
  · rintro ⟨hq, a, hx, hP⟩
    exact ⟨a, hx, hq, hP⟩

/-- One computation after the other. -/
theorem returns_bind {x : Except ε α} {f : α → Except ε β} {P : β → Prop} :
    (x >>= f).Returns P ↔ x.Returns fun a => (f a).Returns P := by
  cases x with
  | error e =>
    constructor
    · exact fun h => absurd h not_returns_error
    · exact fun h => absurd h not_returns_error
  | ok a =>
    rw [returns_ok]
    rfl

end Except

/-! ## Values -/

/-- The exceptions of the library. -/
inductive JsonError where
  | parseError
  | typeError
  | outOfRange
  /-- the conversion of a double out of range (undefined behaviour, no exception) -/
  | undefined
  deriving DecidableEq, Repr

/-- A value.  A double is given by its value; the parser makes no others. -/
inductive Json where
  | null
  | boolean (b : Bool)
  | numberUnsigned (n : UInt64)
  | numberInteger (n : Int64)
  | numberFloat (x : Rat)
  | string (s : String)
  | array (elems : List Json)
  | object (members : List (String × Json))

namespace Json

/-- The member of an object. -/
def find : Json → String → Option Json
  | .object members, key => members.lookup key
  | _, _ => none

/-! ## Conversions -/

/-- A double without its fraction. -/
def trunc (x : Rat) : Int := x.num.tdiv x.den

/-- `get` for an integer type: numbers are converted by `static_cast`.  Whether a boolean is
    a number depends on the library (`lax`). -/
def getInteger {α : Type} [MachineInt α] (lax : Bool) : Json → Except JsonError α
  | .numberUnsigned n => .ok (MachineInt.ofInt n.toNat)
  | .numberInteger n => .ok (MachineInt.ofInt n.toInt)
  | .numberFloat x =>
    if MachineInt.InRange α (trunc x) then .ok (MachineInt.ofInt (trunc x))
    else .error .undefined
  | .boolean b => if lax then .ok (MachineInt.ofInt b.toInt) else .error .typeError
  | _ => .error .typeError

/-- `get` for strings. -/
def getString : Json → Except JsonError String
  | .string s => .ok s
  | _ => .error .typeError

/-- `get` for booleans. -/
def getBoolean : Json → Except JsonError Bool
  | .boolean b => .ok b
  | _ => .error .typeError

end Json

/-- The types a value can be converted to. -/
class JsonGet (α : Type) where
  get : Bool → Json → Except JsonError α

instance instJsonGetString : JsonGet String := ⟨fun _ => Json.getString⟩

instance instJsonGetBool : JsonGet Bool := ⟨fun _ => Json.getBoolean⟩

instance instJsonGetUInt16 : JsonGet UInt16 := ⟨Json.getInteger⟩

instance instJsonGetInt32 : JsonGet Int32 := ⟨Json.getInteger⟩

namespace Json

variable {α : Type}

/-- `value`: a member of an object, or the default. -/
def value [JsonGet α] (lax : Bool) (j : Json) (key : String) (default : α) :
    Except JsonError α :=
  match j with
  | .object members =>
    match members.lookup key with
    | some v => JsonGet.get lax v
    | none => .ok default
  | _ => .error .typeError

/-! ## What a document says -/

/-- The number a document says. -/
def number? : Json → Option Rat
  | .numberUnsigned n => some (Rat.ofInt n.toNat)
  | .numberInteger n => some (Rat.ofInt n.toInt)
  | .numberFloat x => some x
  | _ => none

/-- The document says the integer `a`. -/
def DenotesInteger [MachineInt α] (v : Json) (a : α) : Prop :=
  v.number? = some (Rat.ofInt (MachineInt.toInt a))

/-- `static_cast` makes `a` of the number. -/
def CastTo [MachineInt α] (lax : Bool) : Json → α → Prop
  | .numberUnsigned n, a => (MachineInt.size α : Int) ∣ n.toNat - MachineInt.toInt a
  | .numberInteger n, a => (MachineInt.size α : Int) ∣ n.toInt - MachineInt.toInt a
  | .numberFloat x, a => trunc x = MachineInt.toInt a
  | .boolean b, a => lax = true ∧ (MachineInt.size α : Int) ∣ b.toInt - MachineInt.toInt a
  | _, _ => False

end Json

/-- What a document says, in a type. -/
class JsonType (α : Type) extends JsonGet α where
  Denotes : Json → α → Prop
  /-- the conversion makes this of a number that is not in the type -/
  Coincides : Bool → Json → α → Prop
  returns_get : ∀ lax v d,
    (get lax v).Returns (fun a => Denotes v a ∨ (¬∃ b, Denotes v b) ∧ a = d) ↔
      (∃ a, Denotes v a) ∨ Coincides lax v d

namespace Json

variable {α : Type}

/-- An integer that is converted is the one that was meant, or happens to be `d`. -/
theorem ofInt_faithful_iff [MachineInt α] (n : Int) (d : α) :
    (n = MachineInt.toInt (MachineInt.ofInt n : α) ∨
      (¬∃ b : α, n = MachineInt.toInt b) ∧ MachineInt.ofInt n = d) ↔
    (∃ a : α, n = MachineInt.toInt a) ∨ (MachineInt.size α : Int) ∣ n - MachineInt.toInt d := by
  rw [MachineInt.ofInt_eq_iff]
  -- the number is one of the type, or none of it is meant
  by_cases h : ∃ b : α, n = MachineInt.toInt b
  · obtain ⟨b, rfl⟩ := h
    simp [MachineInt.ofInt_toInt]
  · have hn : n ≠ MachineInt.toInt (MachineInt.ofInt n : α) := fun hn => h ⟨_, hn⟩
    simp [h, hn]

/-- A whole number has no fraction. -/
theorem trunc_ofInt (n : Int) : trunc (Rat.ofInt n) = n := Int.tdiv_one n

/-- A whole number says one integer. -/
theorem denotesInteger_iff [MachineInt α] {v : Json} {n : Int}
    (h : v.number? = some (Rat.ofInt n)) (a : α) : v.DenotesInteger a ↔ n = MachineInt.toInt a := by
  unfold DenotesInteger
  rw [h, Option.some.injEq]
  exact ⟨congrArg Rat.num, congrArg Rat.ofInt⟩

/-- A double is converted faithfully when it is an integer of the type, or has a fraction and
    is cut to the default. -/
theorem returns_getInteger_float [MachineInt α] (lax : Bool) (x : Rat) (d : α) :
    (getInteger lax (.numberFloat x)).Returns (fun a : α => (numberFloat x).DenotesInteger a ∨
      (¬∃ b : α, (numberFloat x).DenotesInteger b) ∧ a = d) ↔
    (∃ a : α, (numberFloat x).DenotesInteger a) ∨ (numberFloat x).CastTo lax d := by
  have htrunc (a : α) (ha : (numberFloat x).DenotesInteger a) : trunc x = MachineInt.toInt a := by
    rw [Option.some.inj ha, trunc_ofInt]
  by_cases hrange : MachineInt.InRange α (trunc x)
  · have hint := MachineInt.toInt_ofInt hrange
    rw [getInteger, if_pos hrange, Except.returns_ok]
    by_cases h : ∃ b : α, (numberFloat x).DenotesInteger b
    · obtain ⟨b, hb⟩ := h
      -- the double is `b`, and so is what it is converted to
      have hcast : (numberFloat x).DenotesInteger (MachineInt.ofInt (trunc x) : α) := by
        rwa [htrunc b hb, MachineInt.ofInt_toInt]
      exact ⟨fun _ => .inl ⟨b, hb⟩, fun _ => .inl hcast⟩
    · have hcast : ¬(numberFloat x).DenotesInteger (MachineInt.ofInt (trunc x) : α) :=
        fun hcast => h ⟨_, hcast⟩
      simp only [h, hcast, false_or, not_false_eq_true, true_and, CastTo]
      constructor
      · rintro rfl
        exact hint.symm
      · intro heq
        rw [heq, MachineInt.ofInt_toInt]
  · -- the cast is undefined, and no value of the type is meant
    rw [getInteger, if_neg hrange]
    constructor
    · exact fun h => absurd h Except.not_returns_error
    · rintro (⟨a, ha⟩ | hcast)
      · exact absurd (htrunc a ha ▸ MachineInt.inRange_toInt a) hrange
      · exact absurd (hcast ▸ MachineInt.inRange_toInt d) hrange

/-- Integers are converted faithfully when the document says one of the type, or one that
    happens to be the default. -/
theorem returns_getInteger [MachineInt α] (lax : Bool) (v : Json) (d : α) :
    (getInteger lax v).Returns
      (fun a : α => v.DenotesInteger a ∨ (¬∃ b : α, v.DenotesInteger b) ∧ a = d) ↔
    (∃ a : α, v.DenotesInteger a) ∨ v.CastTo lax d := by
  cases v with
  | numberUnsigned n =>
    have h (a : α) : (numberUnsigned n).DenotesInteger a ↔ (n.toNat : Int) = MachineInt.toInt a :=
      denotesInteger_iff rfl a
    simp only [getInteger, Except.returns_ok, h, CastTo]
    exact ofInt_faithful_iff _ d
  | numberInteger n =>
    have h (a : α) : (numberInteger n).DenotesInteger a ↔ n.toInt = MachineInt.toInt a :=
      denotesInteger_iff rfl a
    simp only [getInteger, Except.returns_ok, h, CastTo]
    exact ofInt_faithful_iff _ d
  | numberFloat x => exact returns_getInteger_float lax x d
  | boolean b =>
    cases lax with
    | false => simp [getInteger, DenotesInteger, number?, CastTo, Except.not_returns_error]
    | true =>
      simp [getInteger, DenotesInteger, number?, CastTo, Except.returns_ok,
        MachineInt.ofInt_eq_iff]
  | null => simp [getInteger, DenotesInteger, number?, CastTo, Except.not_returns_error]
  | string s => simp [getInteger, DenotesInteger, number?, CastTo, Except.not_returns_error]
  | array elems => simp [getInteger, DenotesInteger, number?, CastTo, Except.not_returns_error]
  | object members => simp [getInteger, DenotesInteger, number?, CastTo, Except.not_returns_error]

end Json

instance instJsonTypeString : JsonType String where
  Denotes v s := v = .string s
  Coincides _ _ _ := False
  returns_get _ v d := by
    cases v <;> simp [JsonGet.get, Json.getString, Except.returns_ok, Except.not_returns_error]

instance instJsonTypeBool : JsonType Bool where
  Denotes v b := v = .boolean b
  Coincides _ _ _ := False
  returns_get _ v d := by
    cases v <;> simp [JsonGet.get, Json.getBoolean, Except.returns_ok, Except.not_returns_error]

instance instJsonTypeUInt16 : JsonType UInt16 where
  Denotes := Json.DenotesInteger
  Coincides := Json.CastTo
  returns_get := Json.returns_getInteger

instance instJsonTypeInt32 : JsonType Int32 where
  Denotes := Json.DenotesInteger
  Coincides := Json.CastTo
  returns_get := Json.returns_getInteger

namespace Json

variable {α : Type} [JsonType α]

/-- `a` is what the document says in a field, or the default when there is no field, or none
    that says anything of the type. -/
def Faithful (v : Option Json) (default a : α) : Prop :=
  match v with
  | some v => JsonType.Denotes v a ∨ (¬∃ b : α, JsonType.Denotes v b) ∧ a = default
  | none => a = default

/-- The field is converted faithfully: it says something of the type, or is a number of which
    the conversion makes the default. -/
def FieldOk (lax : Bool) (v : Option Json) (default : α) : Prop :=
  ∀ v' ∈ v, (∃ a : α, JsonType.Denotes v' a) ∨ JsonType.Coincides lax v' default

/-- The value is an object. -/
def isObject : Json → Bool
  | .object _ => true
  | _ => false

/-- A lookup in an object returns a faithful value exactly when the field is converted faithfully.
    -/
theorem returns_value {lax : Bool} {j : Json} {key : String} {default : α}
    (hj : j.isObject = true) :
    (value lax j key default).Returns (Faithful (j.find key) default) ↔
      FieldOk lax (j.find key) default := by
  cases j with
  | object members =>
    simp only [value, find, FieldOk]
    cases hv : members.lookup key with
    | none => simp [Faithful, Except.returns_ok]
    | some v =>
      simp only [Option.mem_def, Option.some.injEq, forall_eq']
      exact JsonType.returns_get lax v default
  | _ => cases hj

/-- A lookup in anything but an object throws. -/
theorem value_error {lax : Bool} {j : Json} (hj : j.isObject = false) (key : String)
    (default : α) : value lax j key default = .error .typeError := by
  cases j with
  | object members => cases hj
  | _ => rfl

end Json
