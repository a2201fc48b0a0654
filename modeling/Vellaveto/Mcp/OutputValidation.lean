/-
  STRUCTURED OUTPUT against its declared schema (`vellaveto-mcp/src/output_validation.rs`).

  PROGRAM.  A tool declares an `outputSchema`; what it returns is walked along the schema, and every
  violation is listed with its path.  Four keywords are checked where they stand, but
  `additionalProperties: false` only INSIDE the branch for `properties`: a schema without `properties` lets
  every member pass.  A whole number that is written as a float counts as an integer if it is less than
  2^63 in size, so that -2^63 itself does not.

  SPEC.  `Conforms`: at every place of the value that the schema reaches (`Reaches`), the keywords there
  hold in the sense of JSON Schema (`Keywords`); a member `_meta` is never additional.

  CORRECTNESS.  `validateValueInner_eq_nil_iff`, by induction over the nesting of the schema: no violation is
  listed exactly if every place holds in the OPEN sense and no place is that float.
  `output_validation_exact_iff`: the verdict is the one of JSON Schema unless the value conforms in the open
  sense and either a stray member or such a float, but not both, is reached.
-/
import Mathlib.Algebra.Order.Ring.Unbundled.Rat
import Mathlib.Data.List.AList
import Mathlib.Tactic.Tauto
import Vellaveto.Mcp.Extractor

namespace Vellaveto.OutputValidation

open Vellaveto.Lib Vellaveto.Extractor

/-! ## The program -/

/-- `SchemaEntry`. -/
inductive SchemaEntry where
  | valid (schema : Json)
  | rejected (reason : String)

/-- `ValidationResult`. -/
inductive ValidationResult where
  | valid
  | noSchema
  | invalid (violations : List String)
deriving DecidableEq, Repr

/-- `OutputSchemaRegistry`. -/
structure OutputSchemaRegistry where
  schemas : AList fun _ : String => SchemaEntry

def maxSchemaEntries : Nat := 1000
def maxSchemaSize : Nat := 64 * 1024
def maxValidationDepth : Nat := 32

/-- `validate_declared_schema`; the text of a JSON value is always written. -/
def validateDeclaredSchema (ext : Externals) (schema : Json) : Except String Unit :=
  let size := (ext.jsonText schema).utf8ByteSize
  if schema.asObject.isNone then .error "outputSchema must be a JSON object"
  else if maxSchemaSize < size then
    .error s!"outputSchema exceeds size limit ({size} > {maxSchemaSize} bytes)"
  else .ok ()

/-- `OutputSchemaRegistry::register`. -/
def OutputSchemaRegistry.register (ext : Externals) (reg : OutputSchemaRegistry) (toolName : String)
    (schema : Json) : OutputSchemaRegistry :=
  let name := normalizeMethod ext toolName
  if maxSchemaEntries ≤ reg.schemas.keys.length ∧ name ∉ reg.schemas then reg
  else
    match validateDeclaredSchema ext schema with
    | .ok () => ⟨reg.schemas.insert name (.valid schema)⟩
    | .error reason => ⟨reg.schemas.insert name (.rejected reason)⟩

/-- `display_path`. -/
def displayPath (path : String) : String := if path.isEmpty then "$" else path

/-- `is_integer_value`.  An integer is compared as the float next to it, which is 2^63 from 2^63 - 512 on. -/
def isIntegerValue : JsonNumber → Bool
  | .float q => q.den = 1 && decide (-2 ^ 63 < q) && decide (q < 2 ^ 63)
  | .posInt n => n < 2 ^ 63 - 512
  | .negInt n => -(2 ^ 63 - 512) < n

/-- `json_type_name`. -/
def jsonTypeName : Json → String
  | .null => "null"
  | .bool _ => "boolean"
  | .number (.float q) => if isIntegerValue (.float q) then "integer" else "number"
  | .number _ => "integer"
  | .string _ => "string"
  | .array _ => "array"
  | .object _ => "object"

/-- Does the value have the expected type? -/
def typeMatches (expected : String) (value : Json) : Bool :=
  jsonTypeName value == expected ||
    match value with
    | .number n => expected == "integer" && isIntegerValue n || expected == "number"
    | _ => false

/-- The violation of a type. -/
def typeViolation (value schema : Json) (path : String) : Option String :=
  ((schema.get "type").bind Json.asStr).bind fun expected =>
    let shown := displayPath path
    let actual := jsonTypeName value
    if typeMatches expected value then none
    else some s!"{shown}: expected type \"{expected}\", got \"{actual}\""

/-- The required properties that are missing. -/
def requiredViolations (members : List (String × Json)) (schema : Json) (path : String) : List String :=
  let shown := displayPath path
  (((schema.get "required").bind Json.asArray).getD []).filterMap fun req =>
    req.asStr.bind fun name =>
      if (members.lookup name).isSome then none
      else some s!"{shown}: missing required property \"{name}\""

section Walk

variable (inner : Json → Json → String → List String)

/-- The declared properties, and then the members that are not declared. -/
def propertyViolations (members : List (String × Json)) (schema : Json) (path : String) : List String :=
  let shown := displayPath path
  match (schema.get "properties").bind Json.asObject with
  | none => []
  | some props =>
    (props.flatMap fun p =>
      match members.lookup p.1 with
      | some val => inner val p.2 (if path.isEmpty then p.1 else path ++ "." ++ p.1)
      | none => []) ++
    if schema.get "additionalProperties" = some (.bool false) then
      (members.map Prod.fst).filterMap fun key =>
        if (props.lookup key).isNone && key != "_meta" then
          some s!"{shown}: unexpected property \"{key}\" (additionalProperties: false)"
        else none
    else []

/-- The items of an array. -/
def itemViolations (items : List Json) (schema : Json) (path : String) : List String :=
  match schema.get "items" with
  | none => []
  | some itemsSchema =>
    items.zipIdx.flatMap fun e =>
      let i := e.2
      inner e.1 itemsSchema s!"{path}[{i}]"

end Walk

/-- `validate_value_inner`, with what is left of the depth limit. -/
def validateValueInner : Nat → Json → Json → String → List String
  | 0, _, _, path =>
    let shown := displayPath path
    [s!"{shown}: schema validation depth limit ({maxValidationDepth}) exceeded"]
  | left + 1, value, schema, path =>
    match typeViolation value schema path with
    | some violation => [violation]
    | none =>
      match value with
      | .object members =>
        requiredViolations members schema path ++
          propertyViolations (validateValueInner left) members schema path
      | .array items => itemViolations (validateValueInner left) items schema path
      | _ => []

/-- `validate_value`. -/
def validateValue (value schema : Json) (path : String) : List String :=
  validateValueInner maxValidationDepth value schema path

/-- `OutputSchemaRegistry::validate`. -/
def OutputSchemaRegistry.validate (ext : Externals) (reg : OutputSchemaRegistry) (toolName : String)
    (structuredContent : Json) : ValidationResult :=
  match reg.schemas.lookup (normalizeMethod ext toolName) with
  | some (.valid schema) =>
    match validateValue structuredContent schema "" with
    | [] => .valid
    | violations => .invalid violations
  | some (.rejected reason) => .invalid [s!"Declared outputSchema rejected: {reason}"]
  | none => .noSchema

/-! ## JSON Schema -/

/-- A value has the type of that name: an integer is any number without a fraction. -/
inductive HasType : String → Json → Prop where
  | null : HasType "null" .null
  | boolean (b : Bool) : HasType "boolean" (.bool b)
  | string (s : String) : HasType "string" (.string s)
  | array (items : List Json) : HasType "array" (.array items)
  | object (members : List (String × Json)) : HasType "object" (.object members)
  | number (n : JsonNumber) : HasType "number" (.number n)
  | posInt (n : Nat) : HasType "integer" (.number (.posInt n))
  | negInt (n : Int) : HasType "integer" (.number (.negInt n))
  | whole (q : Rat) (h : q.den = 1) : HasType "integer" (.number (.float q))

def typeNames : List String := ["null", "boolean", "integer", "number", "string", "array", "object"]

/-- An object of the five keywords whose sub-schemas satisfy `inner`. -/
structure IsSchema (inner : Json → Prop) (schema : Json) : Prop where
  object : ∃ members, schema = .object members ∧ ∀ m ∈ members,
    m.1 ∈ ["type", "required", "properties", "additionalProperties", "items"]
  type : ∀ t, schema.get "type" = some t → ∃ name ∈ typeNames, t = .string name
  required : ∀ r, schema.get "required" = some r → ∃ names : List String, r = .array (names.map .string)
  properties : ∀ p, schema.get "properties" = some p → ∃ props, p = .object props ∧ ∀ e ∈ props, inner e.2
  additional : ∀ a, schema.get "additionalProperties" = some a → a = .bool false
  items : ∀ sub, schema.get "items" = some sub → inner sub

/-- A schema of these keywords, nested to at most a depth. -/
def BuiltSchema : Nat → Json → Prop
  | 0 => IsSchema fun _ => False
  | depth + 1 => IsSchema (BuiltSchema depth)

/-- Integers in the signed 64-bit range, however they are written. -/
def InI64 : JsonNumber → Prop
  | .posInt n => n < 2 ^ 63
  | .negInt n => -2 ^ 63 ≤ n
  | .float q => q.den = 1 ∧ -2 ^ 63 ≤ q ∧ q < 2 ^ 63

/-- All numbers of a value are such integers. -/
inductive IntegersOnly : Json → Prop where
  | null : IntegersOnly .null
  | bool (b : Bool) : IntegersOnly (.bool b)
  | string (s : String) : IntegersOnly (.string s)
  | number (n : JsonNumber) (h : InI64 n) : IntegersOnly (.number n)
  | array (items : List Json) (h : ∀ x ∈ items, IntegersOnly x) : IntegersOnly (.array items)
  | object (members : List (String × Json)) (h : ∀ m ∈ members, IntegersOnly m.2) :
    IntegersOnly (.object members)

/-- The places that a schema reaches in a value, each with its own sub-schema. -/
inductive Reaches : Json → Json → Json → Json → Prop where
  | here (schema value : Json) : Reaches schema value schema value
  | property {schema sub val s v : Json} {props members : List (String × Json)} {key : String}
      (hprops : schema.get "properties" = some (.object props)) (hkey : (key, sub) ∈ props)
      (hval : members.lookup key = some val) (h : Reaches sub val s v) : Reaches schema (.object members) s v
  | item {schema sub x s v : Json} {items : List Json} (hitems : schema.get "items" = some sub)
      (hx : x ∈ items) (h : Reaches sub x s v) : Reaches schema (.array items) s v

/-- The names of the declared properties. -/
def declared (schema : Json) : List String :=
  (((schema.get "properties").bind Json.asObject).getD []).map Prod.fst

/-- What the keywords of a schema say of the value itself. -/
structure Keywords (schema value : Json) : Prop where
  type : ∀ name, schema.get "type" = some (.string name) → HasType name value
  required : ∀ names, schema.get "required" = some (.array names) → ∀ name, .string name ∈ names →
    ∀ members, value = .object members → name ∈ members.map Prod.fst
  additional : schema.get "additionalProperties" = some (.bool false) → ∀ members, value = .object members →
    ∀ key ∈ members.map Prod.fst, key ∈ declared schema ∨ key = "_meta"

/-- **JSON Schema**: the keywords hold at every place that is reached. -/
def Conforms (schema value : Json) : Prop := ∀ s v, Reaches schema value s v → Keywords s v

/-! ### What is left out -/

/-- The keywords in the open sense: where no properties are declared, none is additional. -/
structure OpenKeywords (schema value : Json) : Prop where
  type : ∀ name, schema.get "type" = some (.string name) → HasType name value
  required : ∀ names, schema.get "required" = some (.array names) → ∀ name, .string name ∈ names →
    ∀ members, value = .object members → name ∈ members.map Prod.fst
  additional : schema.get "additionalProperties" = some (.bool false) → schema.get "properties" ≠ none →
    ∀ members, value = .object members → ∀ key ∈ members.map Prod.fst, key ∈ declared schema ∨ key = "_meta"

def ConformsOpen (schema value : Json) : Prop := ∀ s v, Reaches schema value s v → OpenKeywords s v

/-- A member that is additional where no properties are declared. -/
def Stray (schema value : Json) : Prop :=
  schema.get "additionalProperties" = some (.bool false) ∧ schema.get "properties" = none ∧
    ∃ members, value = .object members ∧ ∃ key ∈ members.map Prod.fst, key ≠ "_meta"

/-- An integer that is the float -2^63. -/
def LeastFloat (schema value : Json) : Prop :=
  schema.get "type" = some (.string "integer") ∧ value = .number (.float (-2 ^ 63))

/-- Somewhere in the value. -/
def Somewhere (P : Json → Json → Prop) (schema value : Json) : Prop := ∃ s v, Reaches schema value s v ∧ P s v

section Places

variable {schema value : Json}

/-- **A property of every place**: of the value itself, and of every place in a declared member or an item. -/
theorem forall_reaches_iff {P : Json → Json → Prop} :
    (∀ s v, Reaches schema value s v → P s v) ↔ P schema value ∧
      (∀ props members, schema.get "properties" = some (.object props) → value = .object members →
        ∀ e ∈ props, ∀ val, members.lookup e.1 = some val → ∀ s v, Reaches e.2 val s v → P s v) ∧
      (∀ sub items, schema.get "items" = some sub → value = .array items →
        ∀ x ∈ items, ∀ s v, Reaches sub x s v → P s v) := by
  constructor
  · intro h
    refine ⟨h _ _ (.here schema value), ?_, ?_⟩
    · rintro props members hprops rfl e he val hval s v hreach
      exact h s v (.property hprops he hval hreach)
    · rintro sub items hitems rfl x hx s v hreach
      exact h s v (.item hitems hx hreach)
  · rintro ⟨hhere, hprops, hitems⟩ s v hreach
    cases hreach with
    | here => exact hhere
    | property hp hkey hval h => exact hprops _ _ hp rfl _ hkey _ hval s v h
    | item hi hx h => exact hitems _ _ hi rfl _ hx s v h

/-- The keywords hold exactly if they hold in the open sense and no member is stray. -/
theorem keywords_iff : Keywords schema value ↔ OpenKeywords schema value ∧ ¬ Stray schema value := by
  constructor
  · intro h
    refine ⟨⟨h.type, h.required, fun ha _ => h.additional ha⟩, ?_⟩
    rintro ⟨ha, hnone, members, hvalue, key, hkey, hmeta⟩
    rcases h.additional ha members hvalue key hkey with hdeclared | heq
    · rw [declared, hnone] at hdeclared
      cases hdeclared
    · exact hmeta heq
  · rintro ⟨h, hstray⟩
    refine ⟨h.type, h.required, fun ha members hvalue key hkey => ?_⟩
    by_cases hnone : schema.get "properties" = none
    · right
      by_contra hmeta
      exact hstray ⟨ha, hnone, members, hvalue, key, hkey, hmeta⟩
    · exact h.additional ha hnone members hvalue key hkey

theorem conforms_iff_open :
    Conforms schema value ↔ ConformsOpen schema value ∧ ¬ Somewhere Stray schema value := by
  unfold Conforms ConformsOpen Somewhere
  simp only [keywords_iff]
  constructor
  · intro h
    refine ⟨fun s v hreach => (h s v hreach).1, ?_⟩
    rintro ⟨s, v, hreach, hstray⟩
    exact (h s v hreach).2 hstray
  · rintro ⟨hopen, hnone⟩ s v hreach
    exact ⟨hopen s v hreach, fun hstray => hnone ⟨s, v, hreach, hstray⟩⟩

end Places

/-! ## Correctness -/

section Local

variable {schema value : Json}

theorem mem_keys_iff {members : List (String × Json)} {key : String} :
    (members.lookup key).isSome = true ↔ key ∈ members.map Prod.fst := by
  rw [List.lookup_isSome_iff, List.mem_map]
  constructor
  · rintro ⟨m, hm, heq⟩
    exact ⟨m, hm, (beq_iff_eq.mp heq).symm⟩
  · rintro ⟨m, hm, rfl⟩
    exact ⟨m, hm, beq_self_eq_true _⟩

/-- The name of a type that is no number. -/
theorem hasType_iff_of_not_number (hvalue : ∀ n, value ≠ .number n) (name : String) :
    HasType name value ↔ jsonTypeName value = name := by
  constructor
  · intro h
    cases h with
    | number n => exact absurd rfl (hvalue n)
    | posInt n => exact absurd rfl (hvalue _)
    | negInt n => exact absurd rfl (hvalue _)
    | whole q h => exact absurd rfl (hvalue _)
    | _ => rfl
  · rintro rfl
    cases value with
    | null => exact .null
    | bool b => exact .boolean b
    | number n => exact absurd rfl (hvalue n)
    | string s => exact .string s
    | array items => exact .array items
    | object members => exact .object members

theorem hasType_number_iff {n : JsonNumber} (hn : InI64 n) (name : String) :
    HasType name (.number n) ↔ name = "integer" ∨ name = "number" := by
  constructor
  · intro h
    cases h with
    | number n => exact .inr rfl
    | posInt n => exact .inl rfl
    | negInt n => exact .inl rfl
    | whole q h => exact .inl rfl
  · rintro (rfl | rfl)
    · cases n with
      | posInt n => exact .posInt n
      | negInt n => exact .negInt n
      | float q => exact .whole q hn.1
    · exact .number n

/-- **Types**: of the integers of the range, the float -2^63 alone is not taken for one. -/
theorem typeMatches_iff {name : String} (hvalue : IntegersOnly value) :
    typeMatches name value = true ↔
      HasType name value ∧ ¬ (name = "integer" ∧ value = .number (.float (-2 ^ 63))) := by
  cases hvalue with
  | number n hn =>
    rw [hasType_number_iff hn]
    by_cases hleast : n = .float (-2 ^ 63)
    · subst hleast
      have hname : jsonTypeName (.number (.float (-2 ^ 63))) = "number" := by decide +kernel
      have hwhole : isIntegerValue (.float (-2 ^ 63)) = false := by decide +kernel
      simp only [typeMatches, hname, hwhole, Bool.and_false, Bool.false_or, Bool.or_eq_true, beq_iff_eq,
        and_true]
      constructor
      · rintro (rfl | rfl)
        · exact ⟨.inr rfl, by decide⟩
        · exact ⟨.inr rfl, by decide⟩
      · rintro ⟨h, hnot⟩
        exact .inr (h.resolve_left hnot)
    · have hname : jsonTypeName (.number n) = "integer" := by
        cases n with
        | posInt n => rfl
        | negInt n => rfl
        | float q =>
          obtain ⟨hwhole, hlow, hhigh⟩ := hn
          have hne : q ≠ -2 ^ 63 := fun heq => hleast (by rw [heq])
          have hlt : -2 ^ 63 < q := lt_of_le_of_ne hlow (Ne.symm hne)
          simp [jsonTypeName, isIntegerValue, hwhole, hlt, hhigh]
      have hother : Json.number n ≠ .number (.float (-2 ^ 63)) := fun heq =>
        hleast (Json.number.inj heq)
      simp only [typeMatches, hname, Bool.or_eq_true, beq_iff_eq, Bool.and_eq_true, hother, and_false,
        not_false_eq_true, and_true]
      constructor
      · rintro (rfl | ⟨rfl, -⟩ | rfl)
        · exact .inl rfl
        · exact .inl rfl
        · exact .inr rfl
      · rintro (rfl | rfl)
        · exact .inl rfl
        · exact .inr (.inr rfl)
  | null => simp [typeMatches, hasType_iff_of_not_number]
  | bool b => simp [typeMatches, hasType_iff_of_not_number]
  | string s => simp [typeMatches, hasType_iff_of_not_number]
  | array items h => simp [typeMatches, hasType_iff_of_not_number]
  | object members h => simp [typeMatches, hasType_iff_of_not_number]

theorem typeViolation_eq_none_iff (hvalue : IntegersOnly value) (path : String) :
    typeViolation value schema path = none ↔
      (∀ name, schema.get "type" = some (.string name) → HasType name value) ∧ ¬ LeastFloat schema value := by
  unfold typeViolation LeastFloat
  rw [Option.bind_eq_none_iff]
  have hname : ∀ name, (schema.get "type").bind Json.asStr = some name ↔
      schema.get "type" = some (.string name) := by
    intro name
    rw [Option.bind_eq_some_iff]
    simp only [Json.asStr_eq_some, exists_eq_right]
  constructor
  · intro h
    have hmatch : ∀ name, schema.get "type" = some (.string name) → typeMatches name value = true := by
      intro name htype
      have hnone := h name ((hname name).mpr htype)
      simp only [ite_eq_left_iff, reduceCtorEq, imp_false, Bool.not_eq_true, Bool.not_eq_false] at hnone
      exact hnone
    refine ⟨fun name htype => ((typeMatches_iff hvalue).mp (hmatch name htype)).1, ?_⟩
    rintro ⟨htype, hleast⟩
    exact ((typeMatches_iff hvalue).mp (hmatch _ htype)).2 ⟨rfl, hleast⟩
  · rintro ⟨htypes, hleast⟩ name htype
    rw [hname] at htype
    refine if_pos ((typeMatches_iff hvalue).mpr ⟨htypes name htype, ?_⟩)
    rintro ⟨rfl, hvalue'⟩
    exact hleast ⟨htype, hvalue'⟩

theorem requiredViolations_eq_nil_iff (members : List (String × Json)) (path : String) :
    requiredViolations members schema path = [] ↔
      ∀ names, schema.get "required" = some (.array names) → ∀ name, .string name ∈ names →
        name ∈ members.map Prod.fst := by
  unfold requiredViolations
  simp only [List.filterMap_eq_nil_iff, Option.bind_eq_none_iff, Json.asStr_eq_some, ← mem_keys_iff,
    ite_eq_left_iff, reduceCtorEq, imp_false, not_not]
  constructor
  · intro h names hnames name hmem
    refine h _ ?_ name rfl
    rw [hnames]
    exact hmem
  · rintro h req hmem name rfl
    cases hreq : schema.get "required" with
    | none =>
      rw [hreq] at hmem
      cases hmem
    | some r =>
      rw [hreq, Option.bind_some] at hmem
      cases r with
      | array names => exact h names hreq name hmem
      | _ => cases hmem

/-- The path of a member. -/
def memberPath (path key : String) : String := if path.isEmpty then key else path ++ "." ++ key

theorem propertyViolations_eq_nil_iff {inner : Json → Json → String → List String}
    {members : List (String × Json)} (hprops : ∀ p, schema.get "properties" = some p → ∃ props, p = .object props)
    (path : String) :
    propertyViolations inner members schema path = [] ↔
      (∀ props, schema.get "properties" = some (.object props) → ∀ e ∈ props, ∀ val,
        members.lookup e.1 = some val → inner val e.2 (memberPath path e.1) = []) ∧
      (schema.get "additionalProperties" = some (.bool false) → schema.get "properties" ≠ none →
        ∀ key ∈ members.map Prod.fst, key ∈ declared schema ∨ key = "_meta") := by
  unfold propertyViolations declared
  cases hp : schema.get "properties" with
  | none =>
    simp
  | some p =>
    obtain ⟨props, rfl⟩ := hprops p hp
    have hasObject : (Json.object props).asObject = some props := rfl
    simp only [Option.bind_some, hasObject, List.append_eq_nil_iff, List.flatMap_eq_nil_iff, Option.getD_some,
      Option.some.injEq, Json.object.injEq, forall_eq', ne_eq, reduceCtorEq, not_false_eq_true, forall_const]
    refine and_congr (forall₂_congr fun e he => ?_) ?_
    · cases members.lookup e.1 with
      | none => simp
      | some val =>
        simp only [Option.some.injEq, forall_eq']
        rfl
    · by_cases ha : schema.get "additionalProperties" = some (.bool false)
      · simp only [ha, if_true, List.filterMap_eq_nil_iff, forall_const]
        refine forall₂_congr fun key _ => ?_
        rw [← mem_keys_iff]
        cases props.lookup key with
        | none => simp
        | some sub => simp
      · simp [ha]

theorem itemViolations_eq_nil_iff {inner : Json → Json → String → List String} {items : List Json}
    (path : String) :
    itemViolations inner items schema path = [] ↔
      ∀ sub, schema.get "items" = some sub → ∀ e ∈ items.zipIdx,
        inner e.1 sub (path ++ "[" ++ toString e.2 ++ "]") = [] := by
  unfold itemViolations
  cases schema.get "items" with
  | none => simp
  | some sub =>
    simp only [List.flatMap_eq_nil_iff, Option.some.injEq, forall_eq']
    rfl

theorem mem_of_lookup {members : List (String × Json)} {key : String} {val : Json}
    (h : members.lookup key = some val) : (key, val) ∈ members := by
  obtain ⟨front, behind, rfl, -⟩ := List.lookup_eq_some_iff.mp h
  exact List.mem_append_right front List.mem_cons_self

end Local

/-- What the walk makes sure of at a place. -/
def Passes (schema value : Json) : Prop := OpenKeywords schema value ∧ ¬ LeastFloat schema value

/-- **One level.**  If the walk is exact for the sub-schemas, it is exact for the schema. -/
theorem validateValueInner_succ {inner : Json → Prop} {left : Nat}
    (ih : ∀ sub, inner sub → ∀ value path, IntegersOnly value →
      (validateValueInner left value sub path = [] ↔ ∀ s v, Reaches sub value s v → Passes s v))
    {schema value : Json} (hschema : IsSchema inner schema) (hvalue : IntegersOnly value) (path : String) :
    validateValueInner (left + 1) value schema path = [] ↔
      ∀ s v, Reaches schema value s v → Passes s v := by
  have htype := @typeViolation_eq_none_iff schema value hvalue path
  rw [forall_reaches_iff]
  unfold validateValueInner
  cases hviolation : typeViolation value schema path with
  | some violation =>
    -- a wrong type ends the walk, and is none of the types that pass
    refine iff_of_false (List.cons_ne_nil _ _) ?_
    rintro ⟨hpasses, -⟩
    rw [htype.mpr ⟨hpasses.1.type, hpasses.2⟩] at hviolation
    cases hviolation
  | none =>
    obtain ⟨htypes, hleast⟩ := htype.mp hviolation
    cases value with
    | object members =>
      have hmembers : ∀ e ∈ members, IntegersOnly e.2 := by
        cases hvalue with
        | object _ h => exact h
      have hprops : ∀ p, schema.get "properties" = some p → ∃ props, p = .object props := fun p hp =>
        (hschema.properties p hp).imp fun props h => h.1
      simp only
      rw [List.append_eq_nil_iff, requiredViolations_eq_nil_iff, propertyViolations_eq_nil_iff hprops]
      -- the declared members by the induction hypothesis
      have hwalk : ∀ props, schema.get "properties" = some (.object props) → ∀ e ∈ props, ∀ val,
          members.lookup e.1 = some val →
          (validateValueInner left val e.2 (memberPath path e.1) = [] ↔
            ∀ s v, Reaches e.2 val s v → Passes s v) := by
        intro props hp e he val hval
        obtain ⟨props', heq, hinner⟩ := hschema.properties _ hp
        obtain rfl := Json.object.inj heq
        exact ih e.2 (hinner e he) val _ (hmembers _ (mem_of_lookup hval))
      constructor
      · rintro ⟨hrequired, hdeclared, hadditional⟩
        refine ⟨⟨⟨htypes, ?_, ?_⟩, hleast⟩, ?_, ?_⟩
        · rintro names hnames name hmem members' heq
          obtain rfl := Json.object.inj heq
          exact hrequired names hnames name hmem
        · rintro ha hp members' heq
          obtain rfl := Json.object.inj heq
          exact hadditional ha hp
        · rintro props members' hp heq e he val hval
          obtain rfl := Json.object.inj heq
          exact (hwalk props hp e he val hval).mp (hdeclared props hp e he val hval)
        · rintro sub items - heq
          cases heq
      · rintro ⟨hpasses, hdeclared, -⟩
        refine ⟨fun names hnames name hmem => ?_, fun props hp e he val hval => ?_, fun ha hp => ?_⟩
        · exact hpasses.1.required names hnames name hmem members rfl
        · exact (hwalk props hp e he val hval).mpr (hdeclared props members hp rfl e he val hval)
        · exact hpasses.1.additional ha hp members rfl
    | array items =>
      have hitems : ∀ x ∈ items, IntegersOnly x := by
        cases hvalue with
        | array _ h => exact h
      simp only
      rw [itemViolations_eq_nil_iff]
      have hopen : Passes schema (.array items) := by
        refine ⟨⟨htypes, fun _ _ _ _ members heq => ?_, fun _ _ members heq => ?_⟩, hleast⟩
        · cases heq
        · cases heq
      constructor
      · intro hwalk
        refine ⟨hopen, fun props members _ heq => ?_, fun sub items' hsub heq x hx => ?_⟩
        · cases heq
        · obtain rfl := Json.array.inj heq
          obtain ⟨i, hi⟩ := List.mem_iff_getElem?.mp hx
          have hmem : (x, i) ∈ items.zipIdx := List.mk_mem_zipIdx_iff_getElem?.mpr hi
          exact (ih sub (hschema.items sub hsub) x _ (hitems x hx)).mp (hwalk sub hsub (x, i) hmem)
      · rintro ⟨-, -, hreached⟩ sub hsub e he
        have hx : e.1 ∈ items := List.fst_mem_of_mem_zipIdx he
        exact (ih sub (hschema.items sub hsub) e.1 _ (hitems e.1 hx)).mpr (hreached sub items hsub rfl e.1 hx)
    | _ =>
      refine iff_of_true rfl ⟨⟨⟨htypes, fun _ _ _ _ members heq => ?_, fun _ _ members heq => ?_⟩, hleast⟩,
        fun props members _ heq => ?_, fun sub items _ heq => ?_⟩
      · cases heq
      · cases heq
      · cases heq
      · cases heq

/-- **The walk** lists nothing exactly if every place passes. -/
theorem validateValueInner_eq_nil_iff {depth left : Nat} (hleft : depth < left) {schema value : Json}
    (hschema : BuiltSchema depth schema) (hvalue : IntegersOnly value) (path : String) :
    validateValueInner left value schema path = [] ↔ ∀ s v, Reaches schema value s v → Passes s v := by
  induction depth generalizing left schema value path with
  | zero =>
    obtain ⟨left, rfl⟩ := Nat.exists_eq_succ_of_ne_zero (Nat.ne_of_gt hleft)
    exact validateValueInner_succ (fun sub hsub => hsub.elim) hschema hvalue path
  | succ depth ih =>
    obtain ⟨left, rfl⟩ := Nat.exists_eq_succ_of_ne_zero (Nat.ne_of_gt (Nat.zero_lt_of_lt hleft))
    refine validateValueInner_succ (fun sub hsub value path hvalue => ?_) hschema hvalue path
    exact ih (Nat.lt_of_succ_lt_succ hleft) hsub hvalue path

theorem validate_eq_valid_iff {ext : Externals} {reg : OutputSchemaRegistry} {toolName : String}
    {schema : Json} (hentry : reg.schemas.lookup (normalizeMethod ext toolName) = some (.valid schema))
    (value : Json) :
    reg.validate ext toolName value = .valid ↔ validateValueInner maxValidationDepth value schema "" = [] := by
  unfold OutputSchemaRegistry.validate validateValue
  rw [hentry]
  simp only
  cases validateValueInner maxValidationDepth value schema "" with
  | nil => exact iff_of_true rfl rfl
  | cons violation violations => exact iff_of_false (by simp) (List.cons_ne_nil _ _)

/-- **When the verdict is the one of JSON Schema**: unless the value conforms in the open sense, and either a
    stray member or the float -2^63 is reached, but not both. -/
theorem output_validation_exact_iff (ext : Externals) (reg : OutputSchemaRegistry) (toolName : String)
    (schema value : Json) (hentry : reg.schemas.lookup (normalizeMethod ext toolName) = some (.valid schema))
    (hschema : BuiltSchema (maxValidationDepth - 1) schema) (hvalue : IntegersOnly value) :
    (reg.validate ext toolName value = .valid ↔ Conforms schema value) ↔
      ¬ (ConformsOpen schema value ∧
        ¬ (Somewhere Stray schema value ↔ Somewhere LeastFloat schema value)) := by
  have hvalid : reg.validate ext toolName value = .valid ↔
      ConformsOpen schema value ∧ ¬ Somewhere LeastFloat schema value := by
    rw [validate_eq_valid_iff hentry, validateValueInner_eq_nil_iff (by decide) hschema hvalue]
    constructor
    · intro h
      refine ⟨fun s v hreach => (h s v hreach).1, ?_⟩
      rintro ⟨s, v, hreach, hleast⟩
      exact (h s v hreach).2 hleast
    · rintro ⟨hopen, hnone⟩ s v hreach
      exact ⟨hopen s v hreach, fun hleast => hnone ⟨s, v, hreach, hleast⟩⟩
  rw [hvalid, conforms_iff_open]
  tauto

/-- An object without members. -/
def closedSchema : Json :=
  .object [("additionalProperties", .bool false), ("type", .string "object")]

theorem builtSchema_closed : BuiltSchema (maxValidationDepth - 1) closedSchema where
  object := ⟨_, rfl, by decide⟩
  type := by
    rintro t ⟨⟩
    exact ⟨"object", by decide, rfl⟩
  required := by rintro r ⟨⟩
  properties := by rintro p ⟨⟩
  additional := by
    rintro a ⟨⟩
    rfl
  items := by rintro sub ⟨⟩

/-- The registry after the schema was declared. -/
def closedRegistry : OutputSchemaRegistry :=
  OutputSchemaRegistry.register plainExternals ⟨∅⟩ "list_files" closedSchema

theorem lookup_closedRegistry :
    closedRegistry.schemas.lookup (normalizeMethod plainExternals "List_Files") =
      some (.valid closedSchema) := by
  have hname : normalizeMethod plainExternals "List_Files" = normalizeMethod plainExternals "list_files" := by
    decide +kernel
  have hdeclared : validateDeclaredSchema plainExternals closedSchema = .ok () := by decide +kernel
  have hroom : ¬ (maxSchemaEntries ≤ (∅ : AList fun _ : String => SchemaEntry).keys.length ∧
      normalizeMethod plainExternals "list_files" ∉ (∅ : AList fun _ : String => SchemaEntry)) := by
    rintro ⟨hfull, -⟩
    exact absurd hfull (by decide)
  rw [hname, closedRegistry, OutputSchemaRegistry.register]
  simp only
  rw [if_neg hroom, hdeclared, AList.lookup_insert]

theorem output_validation_exact_iff_empty :
    (closedRegistry.validate plainExternals "List_Files" (.object []) = .valid ↔
        Conforms closedSchema (.object [])) ↔
      ¬ (ConformsOpen closedSchema (.object []) ∧
        ¬ (Somewhere Stray closedSchema (.object []) ↔ Somewhere LeastFloat closedSchema (.object []))) :=
  output_validation_exact_iff plainExternals closedRegistry "List_Files" closedSchema (.object [])
    lookup_closedRegistry builtSchema_closed (.object [] fun _ hm => absurd hm List.not_mem_nil)

/-- **An object with a member passes** where none is allowed, because the schema declares no properties at
    all. -/
theorem stray_member_passes :
    BuiltSchema (maxValidationDepth - 1) closedSchema ∧
      closedRegistry.validate plainExternals "List_Files" (.object [("x", .number (.posInt 1))]) = .valid ∧
      ¬ Conforms closedSchema (.object [("x", .number (.posInt 1))]) := by
  refine ⟨builtSchema_closed, (validate_eq_valid_iff lookup_closedRegistry _).mpr (by decide +kernel), ?_⟩
  intro hconforms
  have hkeywords := hconforms _ _ (.here closedSchema (.object [("x", .number (.posInt 1))]))
  rcases hkeywords.additional rfl _ rfl "x" (by decide) with hdeclared | hmeta
  · exact absurd hdeclared (by decide)
  · exact absurd hmeta (by decide)

end Vellaveto.OutputValidation
