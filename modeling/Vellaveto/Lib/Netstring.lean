/-
  NETSTRINGS: a text after its own length.

      format!("{}:{}", field.len(), field)

  The length is a decimal number of BYTES, and a colon ends it.  The field itself may hold digits and
  colons: how far it goes is known before it is read, so a sequence of netstrings can be cut up in one
  way only.

    1. `netstring_append_inj`   equal texts that start with a netstring have equal first fields and
                                equal rests: the crux;
    2. `join_netstring_inj`     two sequences of fields with the same encoding are the same sequence.
-/
import Mathlib.Data.String.Basic
import Mathlib.Tactic.Common
import Vellaveto.Lib.Slice

namespace Vellaveto.Lib

/-- `format!("{}:{}", field.len(), field)`. -/
def netstring (field : String) : String := toString field.utf8ByteSize ++ ":" ++ field

/-- What stands before the first separator is the same in equal texts. -/
theorem append_cons_inj_of_notMem {α : Type*} {sep : α} {a b rest rest' : List α} (ha : sep ∉ a)
    (hb : sep ∉ b) (h : a ++ sep :: rest = b ++ sep :: rest') : a = b ∧ rest = rest' := by
  induction a generalizing b with
  | nil =>
    cases b with
    | nil => exact ⟨rfl, (List.cons.inj h).2⟩
    | cons x b => exact absurd (List.cons.inj h).1 (fun hx => hb (hx ▸ List.mem_cons_self))
  | cons x a ih =>
    cases b with
    | nil => exact absurd (List.cons.inj h).1.symm (fun hx => ha (hx ▸ List.mem_cons_self))
    | cons y b =>
      obtain ⟨rfl, htail⟩ := List.cons.inj h
      obtain ⟨rfl, hrest⟩ := ih (fun hx => ha (List.mem_cons_of_mem x hx))
        (fun hx => hb (List.mem_cons_of_mem x hx)) htail
      exact ⟨rfl, hrest⟩

theorem colon_notMem_toDigits (n : Nat) : ':' ∉ Nat.toDigits 10 n := by
  intro h
  have hdigit := Nat.isDigit_of_mem_toDigits (by decide) (by decide) h
  exact absurd hdigit (by decide)

theorem toDigits_inj {m n : Nat} (h : Nat.toDigits 10 m = Nat.toDigits 10 n) : m = n := by
  have hread := congrArg (fun digits => Nat.ofDigitChars 10 digits 0) h
  simpa using hread

theorem toList_netstring (field : String) :
    (netstring field).toList =
      Nat.toDigits 10 field.utf8ByteSize ++ ':' :: field.toList := by
  simp [netstring]

/-- Two texts of the same number of bytes at the front of one text are the same. -/
theorem append_inj_of_utf8Len {u v rest rest' : List Char} (hlen : String.utf8Len u = String.utf8Len v)
    (h : u ++ rest = v ++ rest') : u = v ∧ rest = rest' := by
  have hu := bytePrefix_append u rest
  rw [h, hlen, bytePrefix_append] at hu
  obtain rfl : v = u := Option.some.inj hu
  exact ⟨rfl, List.append_cancel_left h⟩

/-- **One field off the front.** -/
theorem netstring_append_inj {a b : String} {rest rest' : List Char}
    (h : (netstring a).toList ++ rest = (netstring b).toList ++ rest') : a = b ∧ rest = rest' := by
  rw [toList_netstring, toList_netstring, List.append_assoc, List.append_assoc, List.cons_append,
    List.cons_append] at h
  obtain ⟨hdigits, hfields⟩ :=
    append_cons_inj_of_notMem (colon_notMem_toDigits _) (colon_notMem_toDigits _) h
  have hlen : String.utf8Len a.toList = String.utf8Len b.toList := by
    have hsize := toDigits_inj hdigits
    simpa using hsize
  obtain ⟨hfield, hrest⟩ := append_inj_of_utf8Len hlen hfields
  exact ⟨String.toList_injective hfield, hrest⟩

theorem toList_join_netstring (fields : List String) :
    (String.join (fields.map netstring)).toList =
      fields.flatMap fun field => (netstring field).toList := by
  simp [String.toList_join, List.flatMap_map]

/-- **One reading.**  Two sequences of fields with the same encoding are the same. -/
theorem join_netstring_inj {fields fields' : List String}
    (h : String.join (fields.map netstring) = String.join (fields'.map netstring)) :
    fields = fields' := by
  have hchars := congrArg String.toList h
  rw [toList_join_netstring, toList_join_netstring] at hchars
  clear h
  have hne : ∀ field, (netstring field).toList ≠ [] := fun field => by
    rw [toList_netstring]
    simp
  induction fields generalizing fields' with
  | nil =>
    cases fields' with
    | nil => rfl
    | cons b fields' =>
      exact absurd (List.append_eq_nil_iff.mp hchars.symm).1 (hne b)
  | cons a fields ih =>
    cases fields' with
    | nil => exact absurd (List.append_eq_nil_iff.mp hchars).1 (hne a)
    | cons b fields' =>
      rw [List.flatMap_cons, List.flatMap_cons] at hchars
      obtain ⟨rfl, hrest⟩ := netstring_append_inj hchars
      rw [ih hrest]

end Vellaveto.Lib
