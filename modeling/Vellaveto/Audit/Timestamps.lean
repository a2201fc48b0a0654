/-
  TIMESTAMPS: their texts, their order and the clamp (`timestamp_ordered_after` of
  `vellaveto-audit/src/verification.rs`, `log_entry` of `logger.rs`).

  PROGRAM.      `Utc::now().to_rfc3339()` writes a time with as many digits of the second as it needs: none,
                three, six or nine.  Two timestamps are compared as TEXTS, without their offset.  An entry that
                would go back gets the timestamp of the last one.

  SPEC.         A time is an instant, a number of nanoseconds; texts should be ordered as instants are, and the
                instants that are stored should be the running maximum of those that the clock shows.

  CORRECTNESS.
    1. `strLe_decimal`           numbers of one width are ordered as their texts, with what follows them;
    2. `strLe_fraction`          a fraction without its last zeros is ordered as the number of nanoseconds: where
                                 one text ends, the other goes on with a digit that is not zero;
    3. `strLe_chars_iff`         so are dates with times;
    4. `timestamps_monotone`     the clamp takes the maximum, over every run.
-/
import Vellaveto.Audit.CleanRun
import Vellaveto.Audit.Crash
import Vellaveto.Lib.Calendar

namespace Vellaveto.Audit

open Vellaveto.Lib

variable {H T : Type}

/-! ### Times -/

/-- A time in UTC, with a year that RFC 3339 can write. -/
structure DateTime where
  date : Date
  hour : Nat
  minute : Nat
  second : Nat
  nano : Nat
  year_lt : date.year < 10000
  hour_lt : hour < 24
  minute_lt : minute < 60
  second_lt : second < 60
  nano_lt : nano < 1000000000

/-- A number in `w` digits. -/
def decimal : Nat → Nat → List Char
  | 0, _ => []
  | w + 1, n => Nat.digitChar (n / 10 ^ w) :: decimal w (n % 10 ^ w)

/-- The fraction of a second: with 0, 3, 6 or 9 digits. -/
def fraction (nano : Nat) : List Char :=
  if nano = 0 then []
  else if nano % 1000000 = 0 then '.' :: decimal 3 (nano / 1000000)
  else if nano % 1000 = 0 then '.' :: decimal 6 (nano / 1000)
  else '.' :: decimal 9 nano

namespace DateTime

/-- Nanoseconds since the first day of the year 0. -/
def instant (t : DateTime) : Nat :=
  (((t.date.dayNumber * 24 + t.hour) * 60 + t.minute) * 60 + t.second) * 1000000000 + t.nano

/-- The text of a time, without its offset. -/
def chars (t : DateTime) : List Char :=
  decimal 4 t.date.year ++ '-' :: (decimal 2 t.date.month ++ '-' :: (decimal 2 t.date.day ++ 'T' ::
    (decimal 2 t.hour ++ ':' :: (decimal 2 t.minute ++ ':' :: (decimal 2 t.second ++ fraction t.nano)))))

def text (t : DateTime) : String := String.ofList t.chars

/-- `to_rfc3339` of a time in UTC. -/
def toRfc3339 (t : DateTime) : String := t.text ++ "+00:00"

end DateTime

/-! ### The order of texts -/

section Texts

variable {w m n : Nat} {x y : List Char}

@[simp] theorem strLe_nil (x : List Char) : strLe [] x = true := by
  cases x with
  | nil => rfl
  | cons c x => rfl

@[simp] theorem strLe_cons_nil (c : Char) (x : List Char) : strLe (c :: x) [] = false := rfl

@[simp] theorem strLe_cons_self (c : Char) (x y : List Char) : strLe (c :: x) (c :: y) = strLe x y :=
  if_pos rfl

/-- Digits are ordered as the numbers. -/
theorem strLe_digit (hm : m < 10) (hn : n < 10) :
    strLe (Nat.digitChar m :: x) (Nat.digitChar n :: y) = true ↔ m < n ∨ m = n ∧ strLe x y = true := by
  have horder : ∀ m < 10, ∀ n < 10, (Nat.digitChar m = Nat.digitChar n ↔ m = n) ∧
      ((Nat.digitChar m).toNat < (Nat.digitChar n).toNat ↔ m < n) := by decide
  obtain ⟨heq, hlt⟩ := horder m hm n hn
  show (if Nat.digitChar m = Nat.digitChar n then strLe x y else
    decide ((Nat.digitChar m).toNat < (Nat.digitChar n).toNat)) = true ↔ _
  split
  · rename_i hsame
    have hmn := heq.mp hsame
    simp [hmn]
  · rename_i hdiff
    have hmn := mt heq.mpr hdiff
    rw [decide_eq_true_eq, hlt]
    simp [hmn]

/-- Numbers are ordered by their quotients, then by their remainders. -/
theorem lt_iff_div_mod {b : Nat} (hb : 0 < b) :
    m < n ↔ m / b < n / b ∨ m / b = n / b ∧ m % b < n % b := by
  have hsplit := Nat.div_add_mod m b
  have hsplit' := Nat.div_add_mod n b
  have hmod := Nat.mod_lt m hb
  have hmod' := Nat.mod_lt n hb
  rcases lt_trichotomy (m / b) (n / b) with hlt | heq | hgt
  · have hmul : b * (m / b + 1) ≤ b * (n / b) := Nat.mul_le_mul_left b hlt
    rw [Nat.mul_add, Nat.mul_one] at hmul
    omega
  · rw [heq] at hsplit ⊢
    omega
  · have hmul : b * (n / b + 1) ≤ b * (m / b) := Nat.mul_le_mul_left b hgt
    rw [Nat.mul_add, Nat.mul_one] at hmul
    omega

theorem eq_iff_div_mod (b : Nat) : m = n ↔ m / b = n / b ∧ m % b = n % b := by
  refine ⟨fun h => by rw [h]; exact ⟨rfl, rfl⟩, fun ⟨hdiv, hmod⟩ => ?_⟩
  rw [← Nat.div_add_mod m b, ← Nat.div_add_mod n b, hdiv, hmod]

/-- **Numbers of one width** are ordered as their texts; if they are equal, what follows them decides. -/
theorem strLe_decimal (hm : m < 10 ^ w) (hn : n < 10 ^ w) :
    strLe (decimal w m ++ x) (decimal w n ++ y) = true ↔ m < n ∨ m = n ∧ strLe x y = true := by
  induction w generalizing m n with
  | zero =>
    have hm : m = 0 := by omega
    have hn : n = 0 := by omega
    subst hm hn
    simp [decimal]
  | succ w ih =>
    have hpos : 0 < 10 ^ w := Nat.pow_pos (by decide)
    have hpow : 10 ^ (w + 1) = 10 ^ w * 10 := Nat.pow_succ 10 w
    have hdigit : ∀ k, k < 10 ^ (w + 1) → k / 10 ^ w < 10 := by
      intro k hk
      rw [hpow] at hk
      exact Nat.div_lt_of_lt_mul hk
    show strLe (Nat.digitChar (m / 10 ^ w) :: (decimal w (m % 10 ^ w) ++ x))
      (Nat.digitChar (n / 10 ^ w) :: (decimal w (n % 10 ^ w) ++ y)) = true ↔ _
    rw [strLe_digit (hdigit m hm) (hdigit n hn), ih (Nat.mod_lt m hpos) (Nat.mod_lt n hpos)]
    rw [lt_iff_div_mod (m := m) (n := n) hpos, eq_iff_div_mod (m := m) (n := n) (10 ^ w)]
    tauto

/-- The digits of a number, cut in two. -/
theorem decimal_add (v w : Nat) (hn : n < 10 ^ (v + w)) :
    decimal (v + w) n = decimal v (n / 10 ^ w) ++ decimal w (n % 10 ^ w) := by
  induction v generalizing n with
  | zero =>
    rw [Nat.zero_add] at hn ⊢
    rw [Nat.mod_eq_of_lt hn]
    rfl
  | succ v ih =>
    have hpow : 10 ^ (v + w) = 10 ^ w * 10 ^ v := by rw [Nat.add_comm, Nat.pow_add]
    have hfirst : n / 10 ^ (v + w) = n / 10 ^ w / 10 ^ v := by rw [hpow, Nat.div_div_eq_div_mul]
    have hmiddle : n % 10 ^ (v + w) / 10 ^ w = n / 10 ^ w % 10 ^ v := by
      rw [hpow, Nat.mod_mul_right_div_self]
    have hlast : n % 10 ^ (v + w) % 10 ^ w = n % 10 ^ w :=
      Nat.mod_mod_of_dvd n (hpow ▸ Nat.dvd_mul_right _ _)
    have hrest := ih (Nat.mod_lt n (Nat.pow_pos (by decide) : 0 < 10 ^ (v + w)))
    rw [Nat.add_right_comm]
    show Nat.digitChar (n / 10 ^ (v + w)) :: decimal (v + w) (n % 10 ^ (v + w)) = _
    rw [hrest, hfirst, hmiddle, hlast]
    rfl

/-- A text that may end: it goes on with a number and what follows, unless that is all zero. -/
theorem strLe_ending (hm : m < 10 ^ (w + 1)) (hn : n < 10 ^ (w + 1)) {p q : Prop} [Decidable p]
    [Decidable q] :
    strLe (if p then [] else decimal (w + 1) m ++ x) (if q then [] else decimal (w + 1) n ++ y) = true ↔
      p ∨ ¬ q ∧ (m < n ∨ m = n ∧ strLe x y = true) := by
  by_cases hp : p
  · simp [hp]
  · by_cases hq : q
    · simp [hp, hq, decimal]
    · rw [if_neg hp, if_neg hq, strLe_decimal hm hn]
      simp [hp, hq]

/-- A fraction, three digits at a time. -/
theorem fraction_eq {nano : Nat} (h : nano < 1000000000) :
    fraction nano =
      if nano = 0 then []
      else '.' :: (decimal 3 (nano / 1000000) ++
        if nano % 1000000 = 0 then []
        else decimal 3 (nano / 1000 % 1000) ++
          if nano % 1000 = 0 then [] else decimal 3 (nano % 1000) ++ []) := by
  have hnine : decimal 9 nano = decimal 3 (nano / 1000000) ++ decimal 6 (nano % 1000000) :=
    decimal_add 3 6 h
  have hsix : ∀ k, k < 1000000 → decimal 6 k = decimal 3 (k / 1000) ++ decimal 3 (k % 1000) :=
    fun k hk => decimal_add 3 3 hk
  have hthousands : nano % 1000000 / 1000 = nano / 1000 % 1000 := by omega
  have hunits : nano % 1000000 % 1000 = nano % 1000 := by omega
  have hmillions : nano / 1000 / 1000 = nano / 1000000 := by omega
  unfold fraction
  split_ifs with hzero hmillion hthousand
  · rfl
  · rw [List.append_nil]
  · rw [hsix _ (by omega), hmillions, List.append_nil]
  · rw [hnine, hsix _ (by omega), hthousands, hunits, List.append_nil]

/-- **Fractions** are ordered as the numbers of nanoseconds. -/
theorem strLe_fraction {a b : Nat} (ha : a < 1000000000) (hb : b < 1000000000) :
    strLe (fraction a) (fraction b) = true ↔ a ≤ b := by
  have hlast : ∀ {x y : List Char}, x = [] → y = [] →
      (strLe (if a % 1000 = 0 then [] else decimal 3 (a % 1000) ++ x)
        (if b % 1000 = 0 then [] else decimal 3 (b % 1000) ++ y) = true ↔ a % 1000 ≤ b % 1000) := by
    rintro x y rfl rfl
    rw [strLe_ending (by omega) (by omega)]
    simp only [strLe_nil, and_true]
    omega
  have hmiddle : ∀ {x y : List Char}, (strLe x y = true ↔ a % 1000 ≤ b % 1000) →
      (strLe (if a % 1000000 = 0 then [] else decimal 3 (a / 1000 % 1000) ++ x)
        (if b % 1000000 = 0 then [] else decimal 3 (b / 1000 % 1000) ++ y) = true ↔
          a % 1000000 ≤ b % 1000000) := by
    intro x y hxy
    rw [strLe_ending (by omega) (by omega), hxy]
    omega
  rw [fraction_eq ha, fraction_eq hb]
  by_cases hazero : a = 0
  · simp [hazero]
  by_cases hbzero : b = 0
  · rw [if_neg hazero, if_pos hbzero, strLe_cons_nil]
    simp only [Bool.false_eq_true, false_iff]
    omega
  rw [if_neg hazero, if_neg hbzero, strLe_cons_self, strLe_decimal (by omega) (by omega),
    hmiddle (hlast rfl rfl)]
  omega

end Texts

/-! ### The order of timestamps -/

section Order

variable (a b : DateTime)

/-- The instants, field by field. -/
theorem instant_le_iff : a.instant ≤ b.instant ↔
    a.date.dayNumber < b.date.dayNumber ∨ a.date.dayNumber = b.date.dayNumber ∧
      (a.hour < b.hour ∨ a.hour = b.hour ∧
        (a.minute < b.minute ∨ a.minute = b.minute ∧
          (a.second < b.second ∨ a.second = b.second ∧ a.nano ≤ b.nano))) := by
  have hhour := a.hour_lt
  have hhour' := b.hour_lt
  have hminute := a.minute_lt
  have hminute' := b.minute_lt
  have hsecond := a.second_lt
  have hsecond' := b.second_lt
  have hnano := a.nano_lt
  have hnano' := b.nano_lt
  unfold DateTime.instant
  omega

theorem day_lt (d : Date) : d.day < 10 ^ 2 := by
  have hmax := daysInMonth_le d.year d.month
  have hle := d.day_le
  omega

/-- **Texts are ordered as instants.** -/
theorem strLe_chars_iff : strLe a.chars b.chars = true ↔ a.instant ≤ b.instant := by
  have hyear := a.year_lt
  have hyear' := b.year_lt
  have hmonth := a.date.month_le
  have hmonth' := b.date.month_le
  have hhour := a.hour_lt
  have hhour' := b.hour_lt
  have hminute := a.minute_lt
  have hminute' := b.minute_lt
  have hsecond := a.second_lt
  have hsecond' := b.second_lt
  rw [instant_le_iff, ← Date.before_iff, ← Date.same_iff, Date.Before]
  unfold DateTime.chars
  rw [strLe_decimal (by omega) (by omega), strLe_cons_self,
    strLe_decimal (by omega) (by omega), strLe_cons_self,
    strLe_decimal (day_lt _) (day_lt _), strLe_cons_self,
    strLe_decimal (by omega) (by omega), strLe_cons_self,
    strLe_decimal (by omega) (by omega), strLe_cons_self,
    strLe_decimal (by omega) (by omega), strLe_fraction a.nano_lt b.nano_lt]
  tauto

theorem stripUtcSuffix_offset (t : String) : stripUtcSuffix (t ++ "+00:00") = t.toList := by
  have hstrip : stripSuffix "+00:00".toList (t ++ "+00:00").toList = some t.toList := by
    rw [stripSuffix, String.toList_append,
      if_pos (List.isSuffixOf_iff_suffix.mpr (List.suffix_append _ _)), List.length_append,
      Nat.add_sub_cancel, List.take_left]
  rw [stripUtcSuffix, hstrip]

/-- **The verifier's order is that of the instants.** -/
theorem timestampOrderedAfter_iff :
    timestampOrderedAfter b.toRfc3339 (some a.toRfc3339) = true ↔ a.instant ≤ b.instant := by
  rw [timestampOrderedAfter, timestampsNondecreasing, DateTime.toRfc3339, DateTime.toRfc3339,
    isUtc_offset, stripUtcSuffix_offset, stripUtcSuffix_offset, DateTime.text, DateTime.text,
    String.toList_ofList, String.toList_ofList, ← strLe_chars_iff]
  rfl

end Order

/-! ### What a run stores -/

/-- The entries that some writes put into a log. -/
def entriesOf (ws : List (FileWrite H T)) : List AuditEntry :=
  ws.filterMap fun w =>
    match w with
    | .appendLine entry => some entry
    | _ => none

/-- A call while the clock shows `t`. -/
def LogCall.atTime (call : LogCall) (t : DateTime) : LogCall :=
  { call with io := { call.io with now := t.text } }

/-- The timestamps that the calls of a run store, each with the time that the clock showed. -/
def storedRun (env : Env H T) (cfg : Config) : AuditLogger H T → List (DateTime × LogCall) →
    List (DateTime × String)
  | _, [] => []
  | s, (t, call) :: rest =>
    (entriesOf (writesOf env cfg s (call.atTime t))).map (fun entry => (t, entry.timestamp)) ++
      storedRun env cfg (logEntry env cfg (call.atTime t).io (call.atTime t).req s).2 rest

/-- The greatest of the numbers so far. -/
def runningMax : Option Nat → List Nat → List Nat
  | _, [] => []
  | start, n :: ns =>
    let top := start.elim n (max n)
    top :: runningMax (some top) ns

/-- The check of the verifier along some timestamps. -/
def TimestampsPass : Option String → List String → Prop
  | _, [] => True
  | prev, t :: ts => timestampOrderedAfter t prev = true ∧ TimestampsPass (some t) ts

/-- What a call does to the last timestamp: it stays, or it is that of the entry that is stored. -/
def Stores (env : Env H T) (call : LogCall) (s s' : AuditLogger H T) (entries : List AuditEntry) : Prop :=
  (entries = [] ∧ s'.lastTimestamp = s.lastTimestamp) ∨
    ∃ base hash, base.lastTimestamp = s.lastTimestamp ∧
      entries = [hashedEntry env call.io call.req base hash] ∧
      s'.lastTimestamp = some (hashedEntry env call.io call.req base hash).timestamp

section Stores

variable {env : Env H T} {cfg : Config} {s : AuditLogger H T} {call : LogCall}

theorem entriesOf_leafWrites (fault : Option String) (tree : Option (MerkleTree H)) (hash : String) :
    entriesOf (leafWrites env fault tree hash) = [] := by
  unfold leafWrites
  split
  · rfl
  · split
    · rfl
    · split
      · rfl
      · rfl

theorem lastTimestamp_appendLeaf {fault : Option String} {hash : String} {t : AuditLogger H T}
    (h : s.appendLeaf env fault hash = .ok t) : t.lastTimestamp = s.lastTimestamp := by
  obtain ⟨tree, leaves, rfl⟩ := appendLeaf_eq_ok h
  rfl

theorem stores_appendEntry (env : Env H T) (cfg : Config) (s : AuditLogger H T) (call : LogCall) :
    Stores env call s (appendEntry env cfg call.io call.req s).2 (entriesOf (entryWrites env call s)) := by
  cases hout : appendEntry env cfg call.io call.req s with
  | mk r s' =>
    rw [entryWrites]
    obtain ⟨rfl, -, hnot⟩ | ⟨hash, hhash, happend, hrest⟩ := appendEntry_cases hout
    · refine .inl ⟨?_, rfl⟩
      cases hhash : computeEntryHash env.digests env.canonical (nextEntry env call.io call.req s') with
      | error e => rfl
      | ok hash =>
        dsimp only
        rw [if_pos (Option.isSome_iff_ne_none.mpr (hnot hash hhash))]
        rfl
    · refine .inr ⟨s, hash, rfl, ?_, ?_⟩
      · rw [hhash, happend]
        show hashedEntry env call.io call.req s hash :: entriesOf (leafWrites _ _ _ _) = _
        rw [entriesOf_leafWrites]
      · obtain ⟨e, -, rfl, -⟩ | ⟨t, ht, rfl, -⟩ := hrest
        · rfl
        · exact lastTimestamp_appendLeaf ht

theorem entriesOf_append (xs ys : List (FileWrite H T)) :
    entriesOf (xs ++ ys) = entriesOf xs ++ entriesOf ys := List.filterMap_append

theorem entriesOf_renameWrites (io : RotationIo) (s : AuditLogger H T) (name : String) :
    entriesOf (renameWrites io s name) = [] := by
  unfold renameWrites
  split
  · rfl
  · split
    · rfl
    · rfl

theorem lastTimestamp_renameAway (io : RotationIo) (name : String) :
    (s.renameAway cfg io name).lastTimestamp = s.lastTimestamp := by
  rw [AuditLogger.renameAway]
  cases s.merkleTree with
  | none => rfl
  | some tree => rfl

/-- **The step**: a call stores at most one entry, made in a state with the last timestamp. -/
theorem stores_logEntry (env : Env H T) (cfg : Config) (s : AuditLogger H T) (call : LogCall) :
    Stores env call s (logEntry env cfg call.io call.req s).2 (entriesOf (writesOf env cfg s call)) := by
  rw [logEntry, writesOf]
  cases hvalid : validateRequest env call.req with
  | error e => exact .inl ⟨rfl, rfl⟩
  | ok u =>
    rw [maybeRotate]
    cases hcheck : checkRotation env cfg call.io.rotation s.disk.log with
    | fail e => exact .inl ⟨rfl, rfl⟩
    | skip => exact stores_appendEntry env cfg s call
    | rotate entries tailHash =>
      -- a rotation that stops half-way stores nothing
      have hstop : Stores env call s (s.renameAway cfg call.io.rotation (s.rotatedName cfg call.io.rotation))
          [] := .inl ⟨rfl, lastTimestamp_renameAway _ _⟩
      simp only [performRotation, manifest_renameAway]
      cases call.io.rotation.rename with
      | some message => exact .inl ⟨rfl, rfl⟩
      | none =>
        dsimp only [Option.isSome_none]
        rw [if_neg Bool.false_ne_true, entriesOf_append, entriesOf_renameWrites, List.nil_append,
          manifestWrites]
        cases call.io.rotation.manifestRead with
        | some message => exact hstop
        | none =>
          cases hline : s.rotationLine env cfg call.io.rotation entries tailHash with
          | error e =>
            rw [AuditLogger.rotationLine, AuditLogger.rotatedName] at hline
            rw [hline]
            exact hstop
          | ok line =>
            rw [AuditLogger.rotationLine, AuditLogger.rotatedName] at hline
            rw [hline]
            cases call.io.rotation.manifestAppend with
            | some message => exact hstop
            | none =>
              have hstored := stores_appendEntry env cfg (s.rotated cfg call.io.rotation line).startFile call
              rw [Stores, lastTimestamp_rotated] at hstored
              exact hstored

end Stores

/-! ### The clamp -/

section Clamp

variable {env : Env H T} {cfg : Config} {s : AuditLogger H T}

/-- The later of the last time and the time that the clock shows. -/
def clamped (start : Option DateTime) (t : DateTime) : DateTime :=
  match start with
  | none => t
  | some last => if last.instant ≤ t.instant then t else last

theorem instant_clamped (start : Option DateTime) (t : DateTime) :
    (clamped start t).instant = (start.map DateTime.instant).elim t.instant (max t.instant) := by
  cases start with
  | none => rw [clamped, Option.map_none, Option.elim_none]
  | some last =>
    rw [clamped, Option.map_some, Option.elim_some]
    split
    · rename_i hle
      exact (max_eq_left hle).symm
    · rename_i hlt
      exact (max_eq_right (le_of_not_ge hlt)).symm

/-- The clamp takes the later of the two. -/
theorem timestamp_hashedEntry (call : LogCall) (t : DateTime) (hash : String) {start : Option DateTime}
    (hstart : s.lastTimestamp = start.map DateTime.toRfc3339) :
    (hashedEntry env (call.atTime t).io (call.atTime t).req s hash).timestamp =
      (clamped start t).toRfc3339 := by
  have hdraft : (draftEntry env (call.atTime t).io (call.atTime t).req s).timestamp = t.toRfc3339 := rfl
  unfold hashedEntry
  dsimp only
  rw [nextEntry, clampTimestamp, hstart, hdraft]
  cases start with
  | none =>
    have hfirst : timestampOrderedAfter t.toRfc3339 none = true := by
      rw [timestampOrderedAfter, timestampsNondecreasing, DateTime.toRfc3339, isUtc_offset]
      rfl
    rw [Option.map_none, if_pos hfirst, hdraft]
    rfl
  | some last =>
    rw [Option.map_some]
    by_cases hle : last.instant ≤ t.instant
    · rw [if_pos ((timestampOrderedAfter_iff last t).mpr hle), hdraft, clamped, if_pos hle]
    · rw [if_neg (mt (timestampOrderedAfter_iff last t).mp hle), clamped, if_neg hle, Option.getD_some]

theorem timestampOrdered_clamped (start : Option DateTime) (t : DateTime) :
    timestampOrderedAfter (clamped start t).toRfc3339 (start.map DateTime.toRfc3339) = true := by
  cases start with
  | none =>
    rw [Option.map_none, timestampOrderedAfter, timestampsNondecreasing, DateTime.toRfc3339, isUtc_offset]
    rfl
  | some last =>
    rw [Option.map_some, timestampOrderedAfter_iff, instant_clamped, Option.map_some, Option.elim_some]
    exact le_max_right t.instant last.instant

/-- The run lemma. -/
theorem storedRun_spec (env : Env H T) (cfg : Config) (calls : List (DateTime × LogCall))
    {s : AuditLogger H T} {start : Option DateTime}
    (hstart : s.lastTimestamp = start.map DateTime.toRfc3339) :
    ∃ times : List DateTime,
      (storedRun env cfg s calls).map Prod.snd = times.map DateTime.toRfc3339 ∧
      times.map DateTime.instant =
        runningMax (start.map DateTime.instant)
          ((storedRun env cfg s calls).map fun stored => stored.1.instant) ∧
      TimestampsPass (start.map DateTime.toRfc3339) (times.map DateTime.toRfc3339) := by
  induction calls generalizing s start with
  | nil => exact ⟨[], rfl, rfl, trivial⟩
  | cons c calls ih =>
    obtain ⟨t, call⟩ := c
    rcases stores_logEntry env cfg s (call.atTime t) with ⟨hnone, hlast⟩ | ⟨base, hash, hbase, hone, hlast⟩
    · rw [storedRun, hnone]
      exact ih (hlast.trans hstart)
    · have htime : (hashedEntry env (call.atTime t).io (call.atTime t).req base hash).timestamp =
          (clamped start t).toRfc3339 := timestamp_hashedEntry call t hash (hbase.trans hstart)
      rw [htime] at hlast
      obtain ⟨times, htexts, hmax, hpass⟩ := @ih _ (some (clamped start t)) hlast
      refine ⟨clamped start t :: times, ?_, ?_, timestampOrdered_clamped start t, hpass⟩
      · rw [storedRun, hone, List.map_singleton, List.singleton_append, List.map_cons, List.map_cons,
          htexts, htime]
      · rw [List.map_cons, hmax, Option.map_some, storedRun, hone, List.map_singleton,
          List.singleton_append, List.map_cons, runningMax, instant_clamped]

end Clamp

theorem TimestampsPass.start {prev : Option String} {ts : List String} (h : TimestampsPass prev ts) :
    TimestampsPass none ts := by
  cases ts with
  | nil => trivial
  | cons t ts =>
    refine ⟨?_, h.2⟩
    have hutc := h.1
    simp only [timestampOrderedAfter, timestampGuard, Bool.and_eq_true] at hutc
    simp [timestampOrderedAfter, timestampGuard, timestampsNondecreasing, hutc.1]

/-- What follows in the run can be a file of its own. -/
theorem TimestampsPass.behind {prev : Option String} {xs ys : List String}
    (h : TimestampsPass prev (xs ++ ys)) : TimestampsPass none ys := by
  induction xs generalizing prev with
  | nil => exact h.start
  | cons x xs ih => exact ih h.2

theorem TimestampsPass.front {prev : Option String} {xs ys : List String}
    (h : TimestampsPass prev (xs ++ ys)) : TimestampsPass prev xs := by
  induction xs generalizing prev with
  | nil => trivial
  | cons x xs ih => exact ⟨h.1, ih h.2⟩

/-- **Timestamps are monotone for the verifier.**  The order of the texts is that of the instants.  In every run
    of calls, from any state whose last timestamp is that of a time, the stored timestamps are texts of
    times whose instants are the running maximum of what the clock showed; and those of every file pass
    the check of the verifier. -/
theorem timestamps_monotone (env : Env H T) (cfg : Config) (s : AuditLogger H T) (start : Option DateTime)
    (hstart : s.lastTimestamp = start.map DateTime.toRfc3339) (calls : List (DateTime × LogCall)) :
    (∀ a b : DateTime,
      timestampOrderedAfter b.toRfc3339 (some a.toRfc3339) = true ↔ a.instant ≤ b.instant) ∧
    ∃ times : List DateTime,
      (storedRun env cfg s calls).map Prod.snd = times.map DateTime.toRfc3339 ∧
      times.map DateTime.instant =
        runningMax (start.map DateTime.instant)
          ((storedRun env cfg s calls).map fun stored => stored.1.instant) ∧
      ∀ file, file <:+: (storedRun env cfg s calls).map Prod.snd → TimestampsPass none file := by
  obtain ⟨times, htexts, hmax, hpass⟩ := storedRun_spec env cfg calls hstart
  refine ⟨timestampOrderedAfter_iff, times, htexts, hmax, ?_⟩
  rintro file ⟨front, behind, hsplit⟩
  rw [← htexts, ← hsplit, List.append_assoc] at hpass
  exact hpass.behind.front

/-- A time in the first minute of 2026. -/
def firstMinute (second nano : Nat) (hsecond : second < 60) (hnano : nano < 1000000000) : DateTime where
  date := ⟨2026, 1, 1, by decide, by decide, by decide, by decide⟩
  hour := 0
  minute := 0
  second := second
  nano := nano
  year_lt := by decide
  hour_lt := by decide
  minute_lt := by decide
  second_lt := hsecond
  nano_lt := hnano

/-- The clock goes back from second 30.5 to second 10, and then on to second 30.500001. -/
theorem timestamps_monotone_back :
    let calls := [(firstMinute 30 500000000 (by decide) (by decide), plainCall "1" "" none),
      (firstMinute 10 0 (by decide) (by decide), plainCall "2" "" none),
      (firstMinute 30 500001000 (by decide) (by decide), plainCall "3" "" none)]
    let s : AuditLogger (List UInt8) PlainLine := AuditLogger.new plainConfig Disk.empty
    let stored := (storedRun (plainEnv shortDigests) plainConfig s calls).map Prod.snd
    stored = ["2026-01-01T00:00:30.500+00:00", "2026-01-01T00:00:30.500+00:00",
      "2026-01-01T00:00:30.500001+00:00"] ∧ TimestampsPass none stored := by
  intro calls s stored
  obtain ⟨-, times, -, -, hfiles⟩ :=
    timestamps_monotone (plainEnv shortDigests) plainConfig s none rfl calls
  exact ⟨by decide +kernel, hfiles _ (List.infix_refl _)⟩

end Vellaveto.Audit
