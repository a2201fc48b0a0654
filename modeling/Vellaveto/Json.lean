/-
  JSON VALUES as the gateway sees them (`serde_json::Value`).

  Every request parameter and every policy condition reaches the engine as a `serde_json::Value`.
  The workspace builds `serde_json` without `preserve_order`, so an object is a `BTreeMap`: its
  members are listed in key order and two objects are equal exactly when the listed members are.
  `Json` keeps that list.  Nothing below needs the keys to be sorted or distinct, so the theorems
  about `Json` hold for every member list and in particular for the ones a `BTreeMap` can produce.

  A number is one of `serde_json`'s three representations.  A float is kept as the rational it
  denotes (`serde_json` admits finite floats only), which makes equality the source's `==`.
-/
import Mathlib.Algebra.Ring.Nat
import Mathlib.Data.Rat.Defs

namespace Vellaveto

/-- `u64::MAX`. -/
def u64Max : Nat := 2 ^ 64 - 1

/-- `serde_json::Number`: an unsigned, a negative or a floating-point number. -/
inductive JsonNumber where
  | posInt (n : Nat)
  | negInt (n : Int)
  | float (q : Rat)
deriving DecidableEq, Repr

/-- `serde_json::Value`. -/
inductive Json where
  | null
  | bool (b : Bool)
  | number (n : JsonNumber)
  | string (s : String)
  | array (items : List Json)
  | object (members : List (String × Json))
deriving Repr

namespace Json

/-! ## Equality

  The derive handler does not cover nested inductives, so equality is decided by hand: one
  function for values and one for each kind of child list. -/

mutual

/-- Equality of values. -/
def decEq : (a b : Json) → Decidable (a = b)
  | .null, .null => .isTrue rfl
  | .bool x, .bool y => decidable_of_iff (x = y) (by simp)
  | .number x, .number y => decidable_of_iff (x = y) (by simp)
  | .string x, .string y => decidable_of_iff (x = y) (by simp)
  | .array xs, .array ys => @decidable_of_iff _ (xs = ys) (by simp) (decEqItems xs ys)
  | .object xs, .object ys => @decidable_of_iff _ (xs = ys) (by simp) (decEqMembers xs ys)
  | .null, .bool _ | .null, .number _ | .null, .string _ | .null, .array _ | .null, .object _ =>
    .isFalse (by simp)
  | .bool _, .null | .bool _, .number _ | .bool _, .string _ | .bool _, .array _
  | .bool _, .object _ => .isFalse (by simp)
  | .number _, .null | .number _, .bool _ | .number _, .string _ | .number _, .array _
  | .number _, .object _ => .isFalse (by simp)
  | .string _, .null | .string _, .bool _ | .string _, .number _ | .string _, .array _
  | .string _, .object _ => .isFalse (by simp)
  | .array _, .null | .array _, .bool _ | .array _, .number _ | .array _, .string _
  | .array _, .object _ => .isFalse (by simp)
  | .object _, .null | .object _, .bool _ | .object _, .number _ | .object _, .string _
  | .object _, .array _ => .isFalse (by simp)

/-- Equality of array items. -/
def decEqItems : (xs ys : List Json) → Decidable (xs = ys)
  | [], [] => .isTrue rfl
  | [], _ :: _ => .isFalse (by simp)
  | _ :: _, [] => .isFalse (by simp)
  | x :: xs, y :: ys =>
    match decEq x y, decEqItems xs ys with
    | .isTrue h, .isTrue ht => .isTrue (by rw [h, ht])
    | .isFalse h, _ => .isFalse (by simp [h])
    | _, .isFalse ht => .isFalse (by simp [ht])

/-- Equality of object members. -/
def decEqMembers : (xs ys : List (String × Json)) → Decidable (xs = ys)
  | [], [] => .isTrue rfl
  | [], _ :: _ => .isFalse (by simp)
  | _ :: _, [] => .isFalse (by simp)
  | (k, x) :: xs, (l, y) :: ys =>
    if hk : k = l then
      match decEq x y, decEqMembers xs ys with
      | .isTrue h, .isTrue ht => .isTrue (by rw [hk, h, ht])
      | .isFalse h, _ => .isFalse (by simp [h])
      | _, .isFalse ht => .isFalse (by simp [ht])
    else .isFalse (by simp [hk])

end

instance : DecidableEq Json := decEq

/-! ## Accessors -/

/-- `Value::as_str`. -/
def asStr : Json → Option String
  | .string s => some s
  | _ => none

/-- `Value::as_bool`. -/
def asBool : Json → Option Bool
  | .bool b => some b
  | _ => none

/-- `Value::as_u64`. -/
def asU64 : Json → Option UInt64
  | .number (.posInt n) => if n ≤ u64Max then some (UInt64.ofNat n) else none
  | _ => none

/-- `Value::as_array`. -/
def asArray : Json → Option (List Json)
  | .array xs => some xs
  | _ => none

/-- `Value::as_object`. -/
def asObject : Json → Option (List (String × Json))
  | .object ms => some ms
  | _ => none

/-- `Value::get` with a string key: a member of an object, nothing on any other value. -/
def get (v : Json) (key : String) : Option Json :=
  match v with
  | .object ms => ms.lookup key
  | _ => none

/-- `Value::get` with an index: an item of an array, nothing on any other value. -/
def getIdx (v : Json) (i : Nat) : Option Json :=
  match v with
  | .array xs => xs[i]?
  | _ => none

theorem asStr_eq_some {v : Json} {s : String} : v.asStr = some s ↔ v = .string s := by
  cases v <;> simp [asStr]

@[simp] theorem asStr_string (s : String) : (Json.string s).asStr = some s := rfl

/-! ## Induction -/

/-- **Induction over a value**: an array from its items, an object from the values of its members. -/
theorem inductionOn {P : Json → Prop} (v : Json) (null : P .null) (bool : ∀ b, P (.bool b))
    (number : ∀ n, P (.number n)) (string : ∀ s, P (.string s))
    (array : ∀ items, (∀ x ∈ items, P x) → P (.array items))
    (object : ∀ members, (∀ m ∈ members, P m.2) → P (.object members)) : P v := by
  refine @Json.rec P (fun items => ∀ x ∈ items, P x) (fun members => ∀ m ∈ members, P m.2)
    (fun m => P m.2) null bool number string array object ?_ ?_ ?_ ?_ ?_ v
  · intro x hx
    cases hx
  · intro head tail hhead htail
    exact List.forall_mem_cons.mpr ⟨hhead, htail⟩
  · intro m hm
    cases hm
  · intro head tail hhead htail
    exact List.forall_mem_cons.mpr ⟨hhead, htail⟩
  · intro key value hvalue
    exact hvalue

end Json

end Vellaveto
