/-
  JSON TEXTS: what `serde_json::to_string` writes.

  The compact text of a value has no blanks: `,` between items, `:` after a member's name, and in a
  string an escape for the quote, the backslash and the characters below the blank.  How a number is
  written is left open (`number`); `NumberLaws` says what is needed of it.

    1. `literal_append_inj`    a string at the front of a text ends where its unescaped quote stands;
    2. `jsonText_append_inj`   a value at the front of a text can be cut off in one way only, if what
                               follows does not go on like a number;
    3. `object_append_inj`     an object can be cut off whatever follows: its brace is closed;
    4. `members_inj`           the members of a struct tell the fields that are left out.
-/
import Mathlib.Data.String.Basic
import Mathlib.Tactic.Common
import Mathlib.Tactic.IntervalCases
import Vellaveto.Json
import Vellaveto.Lib.Hex
import Vellaveto.Lib.Netstring

namespace Vellaveto.Json

open Vellaveto.Lib

/-! ## Strings -/

/-- A character inside a string. -/
def escapeChar (c : Char) : List Char :=
  if c = '\"' then ['\\', '\"']
  else if c = '\\' then ['\\', '\\']
  else if c.toNat = 0x08 then ['\\', 'b']
  else if c.toNat = 0x09 then ['\\', 't']
  else if c.toNat = 0x0A then ['\\', 'n']
  else if c.toNat = 0x0C then ['\\', 'f']
  else if c.toNat = 0x0D then ['\\', 'r']
  else if c.toNat < 0x20 then ['\\', 'u', '0', '0', hexChar (c.toNat / 16), hexChar (c.toNat % 16)]
  else [c]

/-- The inside of a string. -/
def escaped (cs : List Char) : List Char := cs.flatMap escapeChar

/-- A string with its quotes. -/
def literal (s : String) : List Char := '\"' :: (escaped s.toList ++ ['\"'])

@[simp] theorem escaped_nil : escaped [] = [] := rfl

@[simp] theorem escaped_cons (c : Char) (cs : List Char) :
    escaped (c :: cs) = escapeChar c ++ escaped cs := rfl

/-- The value of a hexadecimal digit as `escapeChar` writes it. -/
def digitValue (d : Char) : Nat := if d.toNat < 58 then d.toNat - 48 else d.toNat - 87

/-- Reading one character of a string back. -/
def readChar : List Char → Option (Char × List Char)
  | '\\' :: 'u' :: _ :: _ :: hi :: lo :: rest =>
    some (Char.ofNat (16 * digitValue hi + digitValue lo), rest)
  | '\\' :: 'b' :: rest => some (Char.ofNat 0x08, rest)
  | '\\' :: 't' :: rest => some (Char.ofNat 0x09, rest)
  | '\\' :: 'n' :: rest => some (Char.ofNat 0x0A, rest)
  | '\\' :: 'f' :: rest => some (Char.ofNat 0x0C, rest)
  | '\\' :: 'r' :: rest => some (Char.ofNat 0x0D, rest)
  | '\\' :: c :: rest => some (c, rest)
  | c :: rest => some (c, rest)
  | [] => none

/-- A character that is written as it is. -/
theorem escapeChar_of_plain {c : Char} (hquote : c ≠ '\"') (hslash : c ≠ '\\') (hprint : 0x20 ≤ c.toNat) :
    escapeChar c = [c] := by
  rw [escapeChar, if_neg hquote, if_neg hslash, if_neg (by omega), if_neg (by omega), if_neg (by omega),
    if_neg (by omega), if_neg (by omega), if_neg (by omega)]

/-- What holds of the characters with an escape and of every other one holds of all. -/
theorem forall_escapes {P : Char → Prop} (hquote : P '\"') (hslash : P '\\')
    (hcontrol : ∀ n < 0x20, P (Char.ofNat n))
    (hplain : ∀ c, escapeChar c = [c] → c ≠ '\\' → c ≠ '\"' → P c) (c : Char) : P c := by
  by_cases h1 : c = '\"'
  · exact h1 ▸ hquote
  by_cases h2 : c = '\\'
  · exact h2 ▸ hslash
  by_cases h3 : c.toNat < 0x20
  · have hc := hcontrol c.toNat h3
    rwa [Char.ofNat_toNat] at hc
  · exact hplain c (escapeChar_of_plain h1 h2 (by omega)) h2 h1

theorem readChar_of_ne {c : Char} (h : c ≠ '\\') (rest : List Char) :
    readChar (c :: rest) = some (c, rest) := by
  unfold readChar
  split <;> simp_all

/-- **One character** is read back, and what follows it is untouched. -/
theorem readChar_escapeChar (c : Char) (rest : List Char) :
    readChar (escapeChar c ++ rest) = some (c, rest) := by
  induction c using forall_escapes with
  | hquote => rfl
  | hslash => rfl
  | hcontrol n hn => interval_cases n <;> rfl
  | hplain c hplain hslash hquote =>
    rw [hplain]
    exact readChar_of_ne hslash rest

theorem escapeChar_append_inj {c d : Char} {rest rest' : List Char}
    (h : escapeChar c ++ rest = escapeChar d ++ rest') : c = d ∧ rest = rest' := by
  have hread := readChar_escapeChar c rest
  rw [h, readChar_escapeChar] at hread
  simpa [eq_comm] using hread

/-- Inside a string a quote comes after a backslash. -/
theorem head_escapeChar (c : Char) : ∃ d ds, escapeChar c = d :: ds ∧ d ≠ '\"' := by
  induction c using forall_escapes with
  | hquote => exact ⟨_, _, rfl, by decide⟩
  | hslash => exact ⟨_, _, rfl, by decide⟩
  | hcontrol n hn => interval_cases n <;> exact ⟨_, _, rfl, by decide⟩
  | hplain c hplain hslash hquote => exact ⟨c, [], hplain, hquote⟩

/-- The first unescaped quote ends a string. -/
theorem escaped_append_inj {cs ds rest rest' : List Char}
    (h : escaped cs ++ '\"' :: rest = escaped ds ++ '\"' :: rest') : cs = ds ∧ rest = rest' := by
  induction cs generalizing ds with
  | nil =>
    cases ds with
    | nil => exact ⟨rfl, (List.cons.inj h).2⟩
    | cons d ds =>
      obtain ⟨e, es, he, hne⟩ := head_escapeChar d
      rw [escaped_cons, he] at h
      exact absurd (List.cons.inj h).1.symm hne
  | cons c cs ih =>
    cases ds with
    | nil =>
      obtain ⟨e, es, he, hne⟩ := head_escapeChar c
      rw [escaped_cons, he] at h
      exact absurd (List.cons.inj h).1 hne
    | cons d ds =>
      rw [escaped_cons, escaped_cons, List.append_assoc, List.append_assoc] at h
      obtain ⟨rfl, hrest⟩ := escapeChar_append_inj h
      obtain ⟨rfl, rfl⟩ := ih hrest
      exact ⟨rfl, rfl⟩

/-- **One string off the front.** -/
theorem literal_append_inj {s t : String} {rest rest' : List Char}
    (h : literal s ++ rest = literal t ++ rest') : s = t ∧ rest = rest' := by
  simp only [literal, List.cons_append, List.append_assoc, List.nil_append, List.cons.injEq,
    true_and] at h
  obtain ⟨hchars, hrest⟩ := escaped_append_inj h
  exact ⟨String.toList_injective hchars, hrest⟩

/-! ## Values -/

section Text

variable (number : JsonNumber → List Char)

mutual

/-- `serde_json::to_string`. -/
def jsonText : Json → List Char
  | .null => "null".toList
  | .bool true => "true".toList
  | .bool false => "false".toList
  | .number n => number n
  | .string s => literal s
  | .array [] => ['[', ']']
  | .array (x :: xs) => '[' :: (jsonText x ++ moreItems xs)
  | .object [] => ['\x7b', '\x7d']
  | .object ((k, v) :: ms) => '\x7b' :: (literal k ++ ':' :: (jsonText v ++ moreMembers ms))

/-- The items after the first one and the closing bracket. -/
def moreItems : List Json → List Char
  | [] => [']']
  | x :: xs => ',' :: (jsonText x ++ moreItems xs)

/-- The members after the first one and the closing brace. -/
def moreMembers : List (String × Json) → List Char
  | [] => ['\x7d']
  | (k, v) :: ms => ',' :: (literal k ++ ':' :: (jsonText v ++ moreMembers ms))

end

theorem jsonText_number (n : JsonNumber) : jsonText number (.number n) = number n := rfl

theorem jsonText_string (s : String) : jsonText number (.string s) = literal s := rfl

theorem jsonText_array_cons (x : Json) (xs : List Json) :
    jsonText number (.array (x :: xs)) = '[' :: (jsonText number x ++ moreItems number xs) := rfl

theorem jsonText_object_cons (k : String) (v : Json) (ms : List (String × Json)) :
    jsonText number (.object ((k, v) :: ms)) =
      '\x7b' :: (literal k ++ ':' :: (jsonText number v ++ moreMembers number ms)) := rfl

theorem moreItems_cons (x : Json) (xs : List Json) :
    moreItems number (x :: xs) = ',' :: (jsonText number x ++ moreItems number xs) := rfl

theorem moreMembers_cons (k : String) (v : Json) (ms : List (String × Json)) :
    moreMembers number ((k, v) :: ms) =
      ',' :: (literal k ++ ':' :: (jsonText number v ++ moreMembers number ms)) := rfl

/-- A character of a number. -/
def isNumberChar (c : Char) : Bool := c.isDigit || "+-.eE".toList.contains c

/-- What is needed of the texts of numbers: they are not empty, consist of the characters of numbers and
    are different for different numbers. -/
structure NumberLaws : Prop where
  ne_nil : ∀ n, number n ≠ []
  chars : ∀ n, ∀ c ∈ number n, isNumberChar c = true
  injective : Function.Injective number

/-- The text does not go on like a number. -/
def Stops (rest : List Char) : Prop := ∀ c ∈ rest.head?, isNumberChar c = false

/-- What a value is, as far as its first character tells. -/
inductive Kind where
  | null
  | bool (b : Bool)
  | number
  | string
  | array
  | object
deriving DecidableEq, Repr

def kind : Json → Kind
  | .null => .null
  | .bool b => .bool b
  | .number _ => .number
  | .string _ => .string
  | .array _ => .array
  | .object _ => .object

/-- The kind of the values that start with a character. -/
def kindOfFirst (c : Char) : Option Kind :=
  if isNumberChar c then some .number
  else if c = 'n' then some .null
  else if c = 't' then some (.bool true)
  else if c = 'f' then some (.bool false)
  else if c = '\"' then some .string
  else if c = '[' then some .array
  else if c = '\x7b' then some .object
  else none

variable {number}

theorem head_jsonText (laws : NumberLaws number) (v : Json) :
    ∃ c rest, jsonText number v = c :: rest ∧ kindOfFirst c = some v.kind := by
  match v with
  | .null => exact ⟨'n', _, rfl, rfl⟩
  | .bool true => exact ⟨'t', _, rfl, rfl⟩
  | .bool false => exact ⟨'f', _, rfl, rfl⟩
  | .number n =>
    obtain ⟨c, rest, hc⟩ := List.exists_cons_of_ne_nil (laws.ne_nil n)
    have hchar : isNumberChar c = true := laws.chars n c (hc ▸ List.mem_cons_self)
    exact ⟨c, rest, hc, by rw [kindOfFirst, if_pos hchar]; rfl⟩
  | .string s => exact ⟨'\"', _, rfl, rfl⟩
  | .array [] => exact ⟨'[', _, rfl, rfl⟩
  | .array (x :: xs) => exact ⟨'[', _, rfl, rfl⟩
  | .object [] => exact ⟨'\x7b', _, rfl, rfl⟩
  | .object ((k, v) :: ms) => exact ⟨'\x7b', _, rfl, rfl⟩

/-- Values at the front of one text are of the same kind. -/
theorem kind_eq (laws : NumberLaws number) {v w : Json} {rest rest' : List Char}
    (h : jsonText number v ++ rest = jsonText number w ++ rest') : v.kind = w.kind := by
  obtain ⟨c, cs, hc, hv⟩ := head_jsonText laws v
  obtain ⟨d, ds, hd, hw⟩ := head_jsonText laws w
  rw [hc, hd] at h
  obtain rfl : c = d := (List.cons.inj h).1
  exact Option.some.inj (hv.symm.trans hw)

theorem stops_cons {c : Char} (h : isNumberChar c = false) (rest : List Char) : Stops (c :: rest) := by
  intro d hd
  obtain rfl : c = d := Option.some.inj hd
  exact h

theorem stops_moreItems (xs : List Json) (rest : List Char) : Stops (moreItems number xs ++ rest) := by
  cases xs with
  | nil => exact stops_cons (by decide) _
  | cons x xs => exact stops_cons (by decide) _

theorem stops_moreMembers (ms : List (String × Json)) (rest : List Char) :
    Stops (moreMembers number ms ++ rest) := by
  match ms with
  | [] => exact stops_cons (by decide) _
  | (k, v) :: ms => exact stops_cons (by decide) _

theorem takeWhile_number (laws : NumberLaws number) (n : JsonNumber) {rest : List Char} (hrest : Stops rest) :
    (number n ++ rest).takeWhile isNumberChar = number n := by
  rw [List.takeWhile_append_of_pos (laws.chars n)]
  cases rest with
  | nil => simp
  | cons c rest =>
    have hc : isNumberChar c = false := hrest c rfl
    simp [hc]

/-- **One number off the front**, if the text does not go on like a number. -/
theorem number_append_inj (laws : NumberLaws number) {m n : JsonNumber} {rest rest' : List Char}
    (hrest : Stops rest) (hrest' : Stops rest') (h : number m ++ rest = number n ++ rest') :
    m = n ∧ rest = rest' := by
  have hfront := takeWhile_number laws m hrest
  rw [h, takeWhile_number laws n hrest'] at hfront
  obtain rfl : n = m := laws.injective hfront
  exact ⟨rfl, List.append_cancel_left h⟩

mutual

/-- **One value off the front**, if the text does not go on like a number. -/
theorem jsonText_append_inj (laws : NumberLaws number) (v w : Json) {rest rest' : List Char}
    (hrest : Stops rest) (hrest' : Stops rest')
    (h : jsonText number v ++ rest = jsonText number w ++ rest') : v = w ∧ rest = rest' := by
  have hkind := kind_eq laws h
  match v, w with
  | .null, .null => exact ⟨rfl, List.append_cancel_left h⟩
  | .bool b, .bool b' =>
    cases hkind
    exact ⟨rfl, List.append_cancel_left h⟩
  | .number m, .number n =>
    rw [jsonText_number, jsonText_number] at h
    obtain ⟨rfl, hrest⟩ := number_append_inj laws hrest hrest' h
    exact ⟨rfl, hrest⟩
  | .string s, .string t =>
    rw [jsonText_string, jsonText_string] at h
    obtain ⟨rfl, hrest⟩ := literal_append_inj h
    exact ⟨rfl, hrest⟩
  | .array xs, .array ys =>
    obtain ⟨rfl, hrest⟩ := array_append_inj laws xs ys h
    exact ⟨rfl, hrest⟩
  | .object ms, .object ns =>
    obtain ⟨rfl, hrest⟩ := object_append_inj laws ms ns h
    exact ⟨rfl, hrest⟩
termination_by (sizeOf v, 0)

/-- An array ends with its bracket, whatever follows. -/
theorem array_append_inj (laws : NumberLaws number) (xs ys : List Json) {rest rest' : List Char}
    (h : jsonText number (.array xs) ++ rest = jsonText number (.array ys) ++ rest') :
    xs = ys ∧ rest = rest' := by
  match xs, ys with
  | [], [] => exact ⟨rfl, List.append_cancel_left h⟩
  | [], y :: ys =>
    obtain ⟨c, cs, hc, hkind⟩ := head_jsonText laws y
    rw [jsonText_array_cons, hc] at h
    have hbracket : ']' = c := (List.cons.inj (List.cons.inj h).2).1
    rw [← hbracket] at hkind
    cases hkind
  | x :: xs, [] =>
    obtain ⟨c, cs, hc, hkind⟩ := head_jsonText laws x
    rw [jsonText_array_cons, hc] at h
    have hbracket : c = ']' := (List.cons.inj (List.cons.inj h).2).1
    rw [hbracket] at hkind
    cases hkind
  | x :: xs, y :: ys =>
    -- after the bracket the text is that of further items without the comma
    refine moreItems_append_inj laws (x :: xs) (y :: ys) ?_
    exact congrArg (',' :: ·) (List.cons.inj h).2
termination_by (sizeOf xs, 1)

theorem moreItems_append_inj (laws : NumberLaws number) (xs ys : List Json) {rest rest' : List Char}
    (h : moreItems number xs ++ rest = moreItems number ys ++ rest') : xs = ys ∧ rest = rest' := by
  match xs, ys with
  | [], [] => exact ⟨rfl, List.append_cancel_left h⟩
  | [], y :: ys => exact absurd (List.cons.inj h).1 (by decide)
  | x :: xs, [] => exact absurd (List.cons.inj h).1 (by decide)
  | x :: xs, y :: ys =>
    rw [moreItems_cons, moreItems_cons, List.cons_append, List.cons_append, List.append_assoc,
      List.append_assoc] at h
    obtain ⟨rfl, hmore⟩ := jsonText_append_inj laws x y (stops_moreItems xs rest)
      (stops_moreItems ys rest') (List.cons.inj h).2
    obtain ⟨rfl, hrest⟩ := moreItems_append_inj laws xs ys hmore
    exact ⟨rfl, hrest⟩
termination_by (sizeOf xs, 0)

/-- **One object off the front**: it ends with its brace, whatever follows. -/
theorem object_append_inj (laws : NumberLaws number) (ms ns : List (String × Json))
    {rest rest' : List Char}
    (h : jsonText number (.object ms) ++ rest = jsonText number (.object ns) ++ rest') :
    ms = ns ∧ rest = rest' := by
  match ms, ns with
  | [], [] => exact ⟨rfl, List.append_cancel_left h⟩
  | [], (l, w) :: ns => exact absurd (List.cons.inj (List.cons.inj h).2).1 (by decide)
  | (k, v) :: ms, [] => exact absurd (List.cons.inj (List.cons.inj h).2).1 (by decide)
  | (k, v) :: ms, (l, w) :: ns =>
    refine moreMembers_append_inj laws ((k, v) :: ms) ((l, w) :: ns) ?_
    exact congrArg (',' :: ·) (List.cons.inj h).2
termination_by (sizeOf ms, 1)

theorem moreMembers_append_inj (laws : NumberLaws number) (ms ns : List (String × Json))
    {rest rest' : List Char}
    (h : moreMembers number ms ++ rest = moreMembers number ns ++ rest') : ms = ns ∧ rest = rest' := by
  match ms, ns with
  | [], [] => exact ⟨rfl, List.append_cancel_left h⟩
  | [], (l, w) :: ns => exact absurd (List.cons.inj h).1 (by decide)
  | (k, v) :: ms, [] => exact absurd (List.cons.inj h).1 (by decide)
  | (k, v) :: ms, (l, w) :: ns =>
    rw [moreMembers_cons, moreMembers_cons, List.cons_append, List.cons_append, List.append_assoc,
      List.append_assoc, List.cons_append, List.cons_append, List.append_assoc, List.append_assoc] at h
    obtain ⟨rfl, hvalue⟩ := literal_append_inj (List.cons.inj h).2
    obtain ⟨rfl, hmore⟩ := jsonText_append_inj laws v w (stops_moreMembers ms rest)
      (stops_moreMembers ns rest') (List.cons.inj hvalue).2
    obtain ⟨rfl, hrest⟩ := moreMembers_append_inj laws ms ns hmore
    exact ⟨rfl, hrest⟩
termination_by (sizeOf ms, 0)

end

theorem getLast?_moreMembers (ms : List (String × Json)) :
    (moreMembers number ms).getLast? = some '\x7d' := by
  induction ms with
  | nil => rfl
  | cons m ms ih =>
    obtain ⟨key, v⟩ := m
    rw [moreMembers_cons, ← List.singleton_append, ← List.singleton_append (x := ':')]
    simp only [List.getLast?_append, ih, Option.some_or]

/-- An object ends with its brace. -/
theorem getLast?_object (ms : List (String × Json)) :
    (jsonText number (.object ms)).getLast? = some '\x7d' := by
  match ms with
  | [] => rfl
  | (key, v) :: ms =>
    rw [jsonText_object_cons, ← List.singleton_append, ← List.singleton_append (x := ':')]
    simp only [List.getLast?_append, getLast?_moreMembers, Option.some_or]

/-- Different values have different texts. -/
theorem jsonText_injective (laws : NumberLaws number) : Function.Injective (jsonText number) := by
  intro v w h
  have hnil : Stops [] := by simp [Stops]
  exact (jsonText_append_inj laws v w hnil hnil (congrArg (· ++ []) h)).1

end Text

/-! ## Plain numbers

  The texts of integers.  A fraction gets a text of its own that is not the decimal one; concrete inputs
  below hold none. -/

/-- An integer with its sign. -/
def signed (i : Int) : List Char := (if i < 0 then '-' else '+') :: Nat.toDigits 10 i.natAbs

def plainNumber : JsonNumber → List Char
  | .posInt n => Nat.toDigits 10 n
  | .negInt n => signed n
  | .float q => 'e' :: (signed q.num ++ '.' :: Nat.toDigits 10 q.den)

theorem isDigit_of_mem {n : Nat} {c : Char} (h : c ∈ Nat.toDigits 10 n) : c.isDigit = true :=
  Nat.isDigit_of_mem_toDigits (by decide) (by decide) h

theorem toDigits_ne_cons {n : Nat} {c : Char} (hc : c.isDigit = false) (cs : List Char) :
    Nat.toDigits 10 n ≠ c :: cs := by
  intro h
  have hdigit := isDigit_of_mem (n := n) (h ▸ List.mem_cons_self)
  rw [hc] at hdigit
  cases hdigit

theorem signed_injective : Function.Injective signed := by
  intro i j h
  obtain ⟨hsign, hdigits⟩ := List.cons.inj h
  have habs := toDigits_inj hdigits
  split at hsign <;> split at hsign
  · omega
  · exact absurd hsign (by decide)
  · exact absurd hsign (by decide)
  · omega

theorem dot_notMem_signed (i : Int) : '.' ∉ signed i := by
  intro h
  rcases List.mem_cons.mp h with h | h
  · split at h
    · exact absurd h (by decide)
    · exact absurd h (by decide)
  · exact absurd (isDigit_of_mem h) (by decide)

theorem plainNumber_injective : Function.Injective plainNumber := by
  have hsign : ∀ i, ∃ c cs, signed i = c :: cs ∧ c.isDigit = false ∧ c ≠ 'e' := by
    intro i
    refine ⟨_, _, rfl, ?_⟩
    split <;> decide
  intro m n h
  match m, n with
  | .posInt m, .posInt n => rw [toDigits_inj h]
  | .posInt m, .negInt n =>
    obtain ⟨c, cs, hn, hc, -⟩ := hsign n
    exact absurd (h.trans hn) (toDigits_ne_cons hc cs)
  | .posInt m, .float q => exact absurd h (toDigits_ne_cons (by decide) _)
  | .negInt m, .posInt n =>
    obtain ⟨c, cs, hm, hc, -⟩ := hsign m
    exact absurd (h.symm.trans hm) (toDigits_ne_cons hc cs)
  | .negInt m, .negInt n => rw [signed_injective h]
  | .negInt m, .float q =>
    obtain ⟨c, cs, hm, -, hc⟩ := hsign m
    exact absurd (List.cons.inj (hm.symm.trans h)).1 hc
  | .float p, .posInt n => exact absurd h.symm (toDigits_ne_cons (by decide) _)
  | .float p, .negInt n =>
    obtain ⟨c, cs, hn, -, hc⟩ := hsign n
    exact absurd (List.cons.inj (hn.symm.trans h.symm)).1 hc
  | .float p, .float q =>
    obtain ⟨hnum, hden⟩ := append_cons_inj_of_notMem (dot_notMem_signed p.num)
      (dot_notMem_signed q.num) (List.cons.inj h).2
    rw [Rat.ext (signed_injective hnum) (toDigits_inj hden)]

theorem plainNumber_laws : NumberLaws plainNumber where
  ne_nil n := by
    match n with
    | .posInt n => exact Nat.toDigits_ne_nil
    | .negInt n => exact List.cons_ne_nil _ _
    | .float q => exact List.cons_ne_nil _ _
  chars n c hc := by
    have hdigits : ∀ n, c ∈ Nat.toDigits 10 n → isNumberChar c = true := by
      intro n h
      rw [isNumberChar, isDigit_of_mem h, Bool.true_or]
    have hsigned : ∀ i, c ∈ signed i → isNumberChar c = true := by
      intro i h
      rcases List.mem_cons.mp h with rfl | h
      · split <;> decide
      · exact hdigits _ h
    match n with
    | .posInt n => exact hdigits n hc
    | .negInt n => exact hsigned n hc
    | .float q =>
      simp only [plainNumber, List.mem_cons, List.mem_append] at hc
      rcases hc with rfl | hnum | rfl | hden
      · decide
      · exact hsigned _ hnum
      · decide
      · exact hdigits _ hden
  injective := plainNumber_injective

/-! ## Records

  A struct is written as an object with a member for each field, in declaration order; a field under
  `skip_serializing_if` is left out when it has nothing to say. -/

/-- The members of a struct; a field without a value is left out. -/
def members (fields : List (String × Option Json)) : List (String × Json) :=
  fields.filterMap fun field => field.2.map fun v => (field.1, v)

theorem members_cons_none (key : String) (fields : List (String × Option Json)) :
    members ((key, none) :: fields) = members fields := rfl

theorem members_cons_some (key : String) (v : Json) (fields : List (String × Option Json)) :
    members ((key, some v) :: fields) = (key, v) :: members fields := rfl

theorem mem_members {fields : List (String × Option Json)} {m : String × Json} :
    m ∈ members fields ↔ (m.1, some m.2) ∈ fields := by
  obtain ⟨key, v⟩ := m
  simp [members]

/-- Members under a name that no field has. -/
theorem cons_ne_members {key : String} {v : Json} {ms : List (String × Json)}
    {fields : List (String × Option Json)} (hkey : key ∉ fields.map Prod.fst) :
    (key, v) :: ms ≠ members fields := by
  intro h
  have hmem : (key, v) ∈ members fields := h ▸ List.mem_cons_self
  exact hkey (List.mem_map_of_mem (mem_members.mp hmem))

/-- The members tell the fields, those that are left out too. -/
theorem members_inj {fields fields' : List (String × Option Json)}
    (hkeys : fields.map Prod.fst = fields'.map Prod.fst) (hnodup : (fields.map Prod.fst).Nodup)
    (h : members fields = members fields') : fields = fields' := by
  induction fields generalizing fields' with
  | nil => exact (List.map_eq_nil_iff.mp hkeys.symm).symm
  | cons field fields ih =>
    cases fields' with
    | nil => simp at hkeys
    | cons field' fields' =>
      obtain ⟨key, value⟩ := field
      obtain ⟨key', value'⟩ := field'
      obtain ⟨rfl, hrest⟩ : key = key' ∧ fields.map Prod.fst = fields'.map Prod.fst := by
        simpa using hkeys
      obtain ⟨hkey, htail⟩ := List.nodup_cons.mp hnodup
      have hkey' : key ∉ fields'.map Prod.fst := hrest ▸ hkey
      match value, value' with
      | none, none => rw [ih hrest htail h]
      | none, some v =>
        rw [members_cons_none, members_cons_some] at h
        exact absurd h.symm (cons_ne_members hkey)
      | some v, none =>
        rw [members_cons_none, members_cons_some] at h
        exact absurd h (cons_ne_members hkey')
      | some v, some w =>
        rw [members_cons_some, members_cons_some] at h
        obtain ⟨hvalue, hmore⟩ := List.cons.inj h
        obtain rfl : v = w := (Prod.mk.inj hvalue).2
        rw [ih hrest htail hmore]

end Vellaveto.Json
