import MiniOB.Lib.Calendar
import MiniOB.Lib.Decimal
import MiniOB.Sql.Evaluation

/-!
# Dates

What `parseDate` and `date_to_string` of `sql/parser/value.cpp` have to do with the dates of the
calendar: the number of a date, the strings that name one, and what `sscanf` takes for one.
-/

namespace MiniOB.Sql

open Calendar

/-- The number of a date. -/
def code (date : Date) : Nat := date.year * 10000 + date.month * 100 + date.day

/-- Digits, and nothing else. -/
structure IsNumeral (s : Str) (n : Nat) : Prop where
  digits : ∀ b ∈ s, Decimal.isDigit b
  nonempty : s ≠ []
  value : Decimal.value s = n

/-- The string is the year, the month and the day of the date in digits, with a `-` between
them, and nothing else. -/
def Names (s : Str) (date : Date) : Prop :=
  ∃ year month day, s = year ++ 45 :: (month ++ 45 :: day) ∧ IsNumeral year date.year
    ∧ IsNumeral month date.month ∧ IsNumeral day date.day

/-- A sign or none, and whether it makes the number negative. -/
inductive IsSign : Str → Bool → Prop where
  | none : IsSign [] false
  | plus : IsSign [43] false
  | minus : IsSign [45] true

/-- What a `%d` takes for a number: blanks, a sign, and digits. -/
def IsInteger (s : Str) (k : Int) : Prop :=
  ∃ blanks sign negative digits n, s = blanks ++ (sign ++ digits) ∧ (∀ b ∈ blanks, isSpace b)
    ∧ IsSign sign negative ∧ IsNumeral digits n ∧ k = if negative then -(n : Int) else n

/-- The `int` that a `%d` stores for a number: the nearest `long`, cut to its lower half. -/
def storedInt (k : Int) : BitVec 32 := BitVec.ofInt 32 (max (min k (2 ^ 63 - 1)) (-2 ^ 63))

/-- The string begins with three numbers, as a `%d` takes them, with a `-` between them, and as
`int`s these are the year, the month and the day of the date. -/
def Begins (s : Str) (date : Date) : Prop :=
  ∃ t₁ t₂ t₃ rest year month day, s = t₁ ++ 45 :: (t₂ ++ 45 :: (t₃ ++ rest))
    ∧ IsInteger t₁ year ∧ IsInteger t₂ month ∧ IsInteger t₃ day
    ∧ (∀ b ∈ rest.head?, ¬ Decimal.isDigit b) ∧ (storedInt year).toInt = date.year
    ∧ (storedInt month).toInt = date.month ∧ (storedInt day).toInt = date.day

/-- `sscanf` reads the date from the string. -/
def Reads (s : Str) (date : Date) : Prop :=
  date.year < 2 ^ 31 ∧ scanDate s
    = some (BitVec.ofNat 32 date.year, BitVec.ofNat 32 date.month, BitVec.ofNat 32 date.day)

/-! ### Reading numbers -/

variable {s t : Str} {n : Nat} {date : Date}

theorem notSpace_of_isDigit {b : BitVec 8} (h : Decimal.isDigit b) :
  isSpace b = false ∧ b ≠ 45 ∧ b ≠ 43
  := by
  simp only [Decimal.isDigit, isSpace, BitVec.le_def, decide_eq_true_eq, decide_eq_false_iff_not]
    at h ⊢
  refine ⟨?_, ?_, ?_⟩
  · rintro (rfl | hb)
    · exact absurd h.1 (by decide)
    · have h48 : (48 : BitVec 8).toNat = 48 := rfl
      have h13 : (13 : BitVec 8).toNat = 13 := rfl
      omega
  · rintro rfl
    exact absurd h.1 (by decide)
  · rintro rfl
    exact absurd h.1 (by decide)

/-- The sign of the number that a `%d` reads, and what follows it. -/
def scanSign : Str → Bool × Str
  | 45 :: s => (true, s)
  | 43 :: s => (false, s)
  | s => (false, s)

/-- The number that a `%d` reads after the sign, with what follows it. -/
def scanDigits (negative : Bool) (s : Str) : Option (BitVec 32 × Str) :=
  match s.takeWhile Decimal.isDigit with
  | [] => none
  | digits =>
    let n : Int := if negative then max (-(Decimal.value digits : Int)) (-2 ^ 63)
      else min (Decimal.value digits : Int) (2 ^ 63 - 1)
    some (BitVec.ofInt 32 n, s.dropWhile Decimal.isDigit)

theorem scanInt_eq (s : Str) :
  scanInt s
    = scanDigits (scanSign (s.dropWhile isSpace)).1 (scanSign (s.dropWhile isSpace)).2
  := rfl

theorem scanSign_cons {b : BitVec 8} (hminus : b ≠ 45) (hplus : b ≠ 43) :
  scanSign (b :: s) = (false, b :: s)
  := by
  unfold scanSign
  split
  · next heq => exact absurd (List.cons.inj heq).1 hminus
  · next heq => exact absurd (List.cons.inj heq).1 hplus
  · rfl

theorem scanSign_split (s : Str) :
  ∃ sign, s = sign ++ (scanSign s).2 ∧ IsSign sign (scanSign s).1
  := by
  unfold scanSign
  split
  · exact ⟨[45], rfl, .minus⟩
  · exact ⟨[43], rfl, .plus⟩
  · exact ⟨[], rfl, .none⟩

theorem scanSign_append {sign digits : Str} {negative : Bool} (hsign : IsSign sign negative)
    (hdigits : IsNumeral digits n) :
  scanSign (sign ++ (digits ++ t)) = (negative, digits ++ t)
    ∧ (sign ++ (digits ++ t)).dropWhile isSpace = sign ++ (digits ++ t)
  := by
  cases hsign with
  | none =>
    cases digits with
    | nil => exact absurd rfl hdigits.nonempty
    | cons b digits =>
      obtain ⟨hspace, hminus, hplus⟩ := notSpace_of_isDigit (hdigits.digits b List.mem_cons_self)
      constructor
      · apply scanSign_cons hminus hplus
      · rw [List.nil_append, List.cons_append,
          List.dropWhile_cons_of_neg (by rw [hspace]; decide)]
  | plus => exact ⟨rfl, rfl⟩
  | minus => exact ⟨rfl, rfl⟩

/-- A `%d` takes a number, and leaves what does not begin with a digit. -/
theorem scanInt_eq_some_iff {v : BitVec 32} {rest : Str} :
  scanInt s = some (v, rest)
    ↔ ∃ t k, s = t ++ rest ∧ IsInteger t k ∧ v = storedInt k ∧ ∀ b ∈ rest.head?, ¬ Decimal.isDigit b
  := by
  rw [scanInt_eq]
  constructor
  · intro h
    obtain ⟨sign, hsplit, hsign⟩ := scanSign_split (s.dropWhile isSpace)
    rw [scanDigits] at h
    split at h
    · cases h
    · rename_i hne
      cases h
      refine ⟨s.takeWhile isSpace ++ (sign ++ ((scanSign (s.dropWhile isSpace)).2.takeWhile
        Decimal.isDigit)), _, ?_, ⟨_, sign, _, _, _, rfl, ?_, hsign, ⟨?_, ?_, rfl⟩, rfl⟩, ?_, ?_⟩
      · rw [List.append_assoc, List.append_assoc, List.takeWhile_append_dropWhile, ← hsplit,
          List.takeWhile_append_dropWhile]
      · intro b hb
        exact List.mem_takeWhile_imp hb
      · intro b hb
        exact List.mem_takeWhile_imp hb
      · exact fun heq => hne heq
      · rw [storedInt]
        congr 1
        cases (scanSign (s.dropWhile isSpace)).1 <;> simp
      · intro b hb
        have hnot := List.head?_dropWhile_not Decimal.isDigit (scanSign (s.dropWhile isSpace)).2
        rw [Option.mem_def.mp hb] at hnot
        exact Bool.eq_false_iff.mp hnot
  · rintro ⟨_, k, rfl, ⟨blanks, sign, negative, digits, n, rfl, hblanks, hsign, hdigits, rfl⟩, rfl,
      hrest⟩
    obtain ⟨hscan, hskip⟩ := scanSign_append (t := rest) hsign hdigits
    obtain ⟨htake, hdrop⟩ := Decimal.takeWhile_append hdigits.digits hrest
    rw [List.append_assoc, List.append_assoc, List.dropWhile_append_of_pos hblanks, hskip, hscan]
    rw [← hdigits.value]
    simp only [scanDigits, htake, hdrop]
    cases digits with
    | nil => exact absurd rfl hdigits.nonempty
    | cons b digits =>
      dsimp only
      rw [storedInt]
      cases negative <;> simp

/-- A numeral is read up to its end. -/
theorem scanInt_numeral (h : IsNumeral s n) (ht : ∀ b ∈ t.head?, ¬ Decimal.isDigit b) :
  scanInt (s ++ t) = some (BitVec.ofInt 32 (min (n : Int) (2 ^ 63 - 1)), t)
  := by
  rw [scanInt_eq_some_iff]
  refine ⟨s, n, rfl, ⟨[], [], false, s, n, rfl, by simp, .none, h, rfl⟩, ?_, ht⟩
  rw [storedInt, max_eq_left (by omega)]

/-! ### Reading dates -/

variable {year month day : BitVec 32}

theorem toInt_of_lt {n : BitVec 32} (h : n.toNat < 2 ^ 31) :
  n.toInt = n.toNat
  := by
  rw [BitVec.toInt_eq_toNat_cond, if_pos (by omega)]

theorem toInt_of_le {n : BitVec 32} (h : 2 ^ 31 ≤ n.toNat) :
  n.toInt < 0
  := by
  rw [BitVec.toInt_eq_toNat_cond, if_neg (by omega)]
  omega

theorem toNat_lt_of_pos {n : BitVec 32} (h : 0 < n.toInt) :
  n.toNat < 2 ^ 31
  := by
  by_contra hge
  have := toInt_of_le (Nat.le_of_not_lt hge)
  omega

theorem toNat_ofNat_of_lt {k : Nat} (h : k < 2 ^ 32) :
  (BitVec.ofNat 32 k).toNat = k
  := by
  rw [BitVec.toNat_ofNat, Nat.mod_eq_of_lt h]

theorem toInt_ofNat_of_lt {k : Nat} (h : k < 2 ^ 31) :
  (BitVec.ofNat 32 k).toInt = k
  := by
  have hto := toNat_ofNat_of_lt (by omega : k < 2 ^ 32)
  rw [toInt_of_lt (by rwa [hto]), hto]

theorem toInt_between {n : BitVec 32} {k : Nat} (hk : k < 2 ^ 31) :
  (n.toInt < 1 ∨ (k : Int) < n.toInt) ↔ ¬ (1 ≤ n.toNat ∧ n.toNat ≤ k)
  := by
  obtain hn | hn := Nat.lt_or_ge n.toNat (2 ^ 31)
  · rw [toInt_of_lt hn]
    omega
  · have := toInt_of_le hn
    omega

theorem eq_ofNat_iff {n : BitVec 32} {k : Nat} (hk : k < 2 ^ 32) :
  n = BitVec.ofNat 32 k ↔ n.toNat = k
  := by
  rw [← BitVec.toNat_inj, toNat_ofNat_of_lt hk]

theorem tmod_iff (k : Nat) :
  ((Int.tmod k 4 = 0 ∧ Int.tmod k 100 ≠ 0) ∨ Int.tmod k 400 = 0) ↔ IsLeap k
  := by
  have h : ∀ n : Nat, Int.tmod k n = ((k % n : Nat) : Int) := fun _ => rfl
  have h4 := h 4
  have h100 := h 100
  have h400 := h 400
  unfold IsLeap
  push_cast at h4 h100 h400
  rw [h4, h100, h400]
  omega

/-- What `parseDate` tests of three numbers is that they name a date. -/
theorem parseDate_of_scanDate (h : scanDate s = some (year, month, day)) :
  parseDate s
    = if year.toNat < 2 ^ 31 ∧ IsDate year.toNat month.toNat day.toNat then
        year * 10000 + month * 100 + day
      else 0
  := by
  rw [parseDate, h]
  dsimp only
  obtain hyear | hyear := Nat.lt_or_ge year.toNat (2 ^ 31)
  · have hm := toInt_between (n := month) (k := 12) (by decide)
    have hd := toInt_between (n := day) (k := 31) (by decide)
    obtain hbounds | hbounds := em
      ((1 ≤ month.toNat ∧ month.toNat ≤ 12) ∧ 1 ≤ day.toNat ∧ day.toNat ≤ 31)
    · rw [toInt_of_lt hyear, toInt_of_lt (n := month) (by omega),
        toInt_of_lt (n := day) (by omega), if_neg (by omega)]
      have h2 : month = 2 ↔ month.toNat = 2 := eq_ofNat_iff (by decide)
      have h4 : month = 4 ↔ month.toNat = 4 := eq_ofNat_iff (by decide)
      have h6 : month = 6 ↔ month.toNat = 6 := eq_ofNat_iff (by decide)
      have h9 : month = 9 ↔ month.toNat = 9 := eq_ofNat_iff (by decide)
      have h11 : month = 11 ↔ month.toNat = 11 := eq_ofNat_iff (by decide)
      simp only [tmod_iff, h2, h4, h6, h9, h11, IsDate, daysOfMonth]
      split_ifs <;> first | rfl | omega
    · have hle := daysOfMonth_le year.toNat month.toNat
      rw [if_pos (by omega), if_neg]
      rintro ⟨-, hdate⟩
      unfold IsDate at hdate
      omega
  · have := toInt_of_le hyear
    rw [if_pos (.inl this), if_neg]
    rintro ⟨hlt, -⟩
    omega

theorem ofInt_min {k : Nat} (hk : k < 2 ^ 63) :
  BitVec.ofInt 32 (min (k : Int) (2 ^ 63 - 1)) = BitVec.ofNat 32 k
  := by
  rw [min_eq_left (by omega), BitVec.ofInt_natCast]

theorem scanDate_eq_some_iff :
  scanDate s = some (year, month, day)
    ↔ ∃ s₂ s₃ rest, scanInt s = some (year, 45 :: s₂) ∧ scanInt s₂ = some (month, 45 :: s₃)
      ∧ scanInt s₃ = some (day, rest)
  := by
  constructor
  · intro h
    rw [scanDate] at h
    split at h
    · rename_i s₂ hyear
      split at h
      · rename_i s₃ hmonth
        obtain ⟨⟨_, rest⟩, hday, heq⟩ := Option.map_eq_some_iff.mp h
        cases heq
        exact ⟨s₂, s₃, rest, hyear, hmonth, hday⟩
      · cases h
    · cases h
  · rintro ⟨s₂, s₃, rest, hyear, hmonth, hday⟩
    simp [scanDate, hyear, hmonth, hday]

theorem not_isDigit_dash (rest : Str) :
  ∀ b ∈ (45 :: rest).head?, ¬ Decimal.isDigit b
  := by
  rintro b ⟨⟩
  decide

/-- Three numerals are read to their end. -/
theorem scanDate_numerals {year month day : Str} {y m d : Nat} (hyear : IsNumeral year y)
    (hmonth : IsNumeral month m) (hday : IsNumeral day d) (hm : m < 2 ^ 63) (hd : d < 2 ^ 63) :
  scanDate (year ++ 45 :: (month ++ 45 :: day))
    = some (BitVec.ofInt 32 (min (y : Int) (2 ^ 63 - 1)), BitVec.ofNat 32 m, BitVec.ofNat 32 d)
  := by
  have hend := scanInt_numeral (t := []) hday (by simp)
  rw [List.append_nil] at hend
  rw [← ofInt_min hm, ← ofInt_min hd]
  exact scanDate_eq_some_iff.mpr ⟨_, _, _, scanInt_numeral hyear (not_isDigit_dash _),
    scanInt_numeral hmonth (not_isDigit_dash _), hend⟩

/-- A string that names a date is read to its end. -/
theorem scanDate_of_names (h : Names s date) :
  scanDate s = some (BitVec.ofInt 32 (min (date.year : Int) (2 ^ 63 - 1)),
    BitVec.ofNat 32 date.month, BitVec.ofNat 32 date.day)
  := by
  obtain ⟨year, month, day, rfl, hyear, hmonth, hday⟩ := h
  have := date.month_le
  have := date.day_le_max
  apply scanDate_numerals hyear hmonth hday <;> omega

theorem reads_of_names (h : Names s date) (hyear : date.year < 2 ^ 31) :
  Reads s date
  := by
  refine ⟨hyear, ?_⟩
  rw [scanDate_of_names h, ofInt_min (by omega)]

theorem eq_ofNat_iff_toInt {v : BitVec 32} {k : Nat} (hk : k < 2 ^ 31) :
  v = BitVec.ofNat 32 k ↔ v.toInt = k
  := by
  rw [← BitVec.toInt_inj, toInt_ofNat_of_lt hk]

/-- What `sscanf` reads is what the string begins with. -/
theorem reads_iff_begins :
  Reads s date ↔ Begins s date
  := by
  have hmonth := date.month_le
  have hday := date.day_le_max
  constructor
  · rintro ⟨hyear, hscan⟩
    obtain ⟨s₂, s₃, rest, h₁, h₂, h₃⟩ := scanDate_eq_some_iff.mp hscan
    obtain ⟨t₁, year, rfl, ht₁, hy, -⟩ := scanInt_eq_some_iff.mp h₁
    obtain ⟨t₂, month, rfl, ht₂, hm, -⟩ := scanInt_eq_some_iff.mp h₂
    obtain ⟨t₃, day, rfl, ht₃, hd, hrest⟩ := scanInt_eq_some_iff.mp h₃
    refine ⟨t₁, t₂, t₃, rest, year, month, day, rfl, ht₁, ht₂, ht₃, hrest, ?_, ?_, ?_⟩
    · rw [← eq_ofNat_iff_toInt hyear, hy]
    · rw [← eq_ofNat_iff_toInt (by omega), hm]
    · rw [← eq_ofNat_iff_toInt (by omega), hd]
  · rintro ⟨t₁, t₂, t₃, rest, year, month, day, rfl, ht₁, ht₂, ht₃, hrest, hy, hm, hd⟩
    have hyear : date.year < 2 ^ 31 := by
      have hlt := BitVec.toInt_lt (x := storedInt year)
      omega
    refine ⟨hyear, ?_⟩
    rw [← (eq_ofNat_iff_toInt hyear).mpr hy, ← (eq_ofNat_iff_toInt (by omega)).mpr hm,
      ← (eq_ofNat_iff_toInt (by omega)).mpr hd]
    refine scanDate_eq_some_iff.mpr ⟨t₂ ++ 45 :: (t₃ ++ rest), t₃ ++ rest, rest, ?_, ?_, ?_⟩
    · exact scanInt_eq_some_iff.mpr ⟨t₁, year, rfl, ht₁, rfl, not_isDigit_dash _⟩
    · exact scanInt_eq_some_iff.mpr ⟨t₂, month, rfl, ht₂, rfl, not_isDigit_dash _⟩
    · exact scanInt_eq_some_iff.mpr ⟨t₃, day, rfl, ht₃, rfl, hrest⟩

/-! ### The number of a date -/

theorem toNat_month (date : Date) :
  (BitVec.ofNat 32 date.month).toNat = date.month
  := by
  have := date.month_le
  exact toNat_ofNat_of_lt (by omega)

theorem toNat_day (date : Date) :
  (BitVec.ofNat 32 date.day).toNat = date.day
  := by
  have := date.day_le_max
  exact toNat_ofNat_of_lt (by omega)

/-- A date that is read gives its number, as far as it is an `int`. -/
theorem parseDate_of_reads (h : Reads s date) :
  parseDate s = BitVec.ofNat 32 (code date)
  := by
  obtain ⟨hyear, h⟩ := h
  have hto : (BitVec.ofNat 32 date.year).toNat = date.year := toNat_ofNat_of_lt (by omega)
  rw [parseDate_of_scanDate h, hto, toNat_month, toNat_day, if_pos ⟨hyear, date.isDate⟩, code,
    BitVec.ofNat_add, BitVec.ofNat_add, BitVec.ofNat_mul, BitVec.ofNat_mul]
  rfl

theorem reads_of_parseDate (h : parseDate s ≠ 0) :
  ∃ date, Reads s date
  := by
  cases hscan : scanDate s with
  | none =>
    rw [parseDate, hscan] at h
    exact absurd rfl h
  | some triple =>
    obtain ⟨year, month, day⟩ := triple
    rw [parseDate_of_scanDate hscan] at h
    obtain ⟨hyear, hdate⟩ : year.toNat < 2 ^ 31 ∧ IsDate year.toNat month.toNat day.toNat := by
      by_contra hnot
      rw [if_neg hnot] at h
      exact h rfl
    use hdate.toDate, hyear
    rw [hscan]
    simp [IsDate.toDate]

theorem code_pos (date : Date) :
  0 < code date
  := by
  have := date.day_pos
  rw [code]
  omega

/-- The number of a date is an `int` up to this year. -/
theorem code_lt (h : date.year ≤ 214748) :
  code date < 2 ^ 31
  := by
  have := date.month_le
  have := date.day_le_max
  rw [code]
  omega

theorem code_lt_code {a b : Date} (h : a.Before b) :
  code a < code b
  := by
  have := a.month_le
  have := a.day_le_max
  rw [code, code]
  unfold Date.Before at h
  omega

/-- The year, the month and the day are the digits of the number. -/
theorem code_parts (date : Date) :
  code date / 10000 = date.year ∧ code date % 10000 / 100 = date.month
    ∧ code date % 100 = date.day
  := by
  have := date.month_le
  have := date.day_le_max
  rw [code]
  omega

theorem code_injective : Function.Injective code := by
  intro a b h
  obtain ⟨hyear, hmonth, hday⟩ := code_parts a
  obtain ⟨hyear', hmonth', hday'⟩ := code_parts b
  ext
  · rw [← hyear, ← hyear', h]
  · rw [← hmonth, ← hmonth', h]
  · rw [← hday, ← hday', h]

/-! ### Printing dates -/

theorem printInt_natCast (width n : Nat) :
  printInt width n
    = List.replicate (width - (Decimal.digits n).length) 48 ++ Decimal.digits n
  := by
  rw [printInt, if_neg (by omega)]
  rfl

theorem isNumeral_printInt (width n : Nat) :
  IsNumeral (printInt width n) n
  := by
  rw [printInt_natCast]
  constructor
  · intro b hb
    obtain hb | hb := List.mem_append.mp hb
    · rw [List.eq_of_mem_replicate hb]
      decide
    · exact Decimal.isDigit_of_mem_digits b hb
  · intro h
    exact Decimal.digits_ne_nil (List.append_eq_nil_iff.mp h).2
  · rw [Decimal.value_replicate_append, Decimal.value_digits]

/-- A positive number is printed as the year, the month and the day that it consists of. -/
theorem dateToString_of_pos {k : BitVec 32} (h : 0 < k.toInt) :
  dateToString k = printInt 4 (k.toNat / 10000 : Nat)
    ++ 45 :: (printInt 2 (k.toNat % 10000 / 100 : Nat) ++ 45 :: printInt 2 (k.toNat % 100 : Nat))
  := by
  have hlt := toNat_lt_of_pos h
  have hne : k ≠ 0 := by
    rintro rfl
    exact absurd h (by decide)
  rw [dateToString, if_neg hne, toInt_of_lt hlt, List.append_assoc]
  rfl

/-- The number of a date is printed as a string that names the date. -/
theorem names_dateToString_code (h : date.year ≤ 214748) :
  Names (dateToString (BitVec.ofNat 32 (code date))) date
  := by
  have hlt := code_lt h
  have hto : (BitVec.ofNat 32 (code date)).toNat = code date := toNat_ofNat_of_lt (by omega)
  have hpos : 0 < (BitVec.ofNat 32 (code date)).toInt := by
    have := code_pos date
    rw [toInt_ofNat_of_lt hlt]
    omega
  obtain ⟨hyear, hmonth, hday⟩ := code_parts date
  have hprint := dateToString_of_pos hpos
  rw [hto, hyear, hmonth, hday] at hprint
  exact ⟨_, _, _, hprint, isNumeral_printInt _ _, isNumeral_printInt _ _, isNumeral_printInt _ _⟩

/-- A date with a small year is read back from its number. -/
theorem parseDate_dateToString (h : date.year ≤ 214748) :
  parseDate (dateToString (BitVec.ofNat 32 (code date))) = BitVec.ofNat 32 (code date)
  := by
  apply parseDate_of_reads
  apply reads_of_names (names_dateToString_code h)
  omega

/-! ### The numbers of the dates that strings name -/

/-- Reading the string overflows nowhere: a year that it names is an `int`, and so is the number of
a date that `parseDate` puts together. -/
structure NoOverflow (s : Str) : Prop where
  year : ∀ date, Names s date → date.year < 2 ^ 31
  code : ∀ date, Begins s date → code date < 2 ^ 31

/-- On these strings `parseDate` is an encoding of the dates: it accepts the names of dates without
an overflow, the number of a date stands for it alone and grows with it, and it is printed as a
name of it. -/
structure EncodesDates (strings : Set Str) : Prop where
  accepts : ∀ s ∈ strings, parseDate s ≠ 0 ↔ ∃ date, Names s date
  noOverflow : ∀ s ∈ strings, NoOverflow s
  injective : ∀ s ∈ strings, ∀ t ∈ strings, ∀ a b, Names s a → Names t b →
    (parseDate s = parseDate t ↔ a = b)
  positive : ∀ s ∈ strings, parseDate s ≠ 0 → 0 < (parseDate s).toInt
  monotone : ∀ s ∈ strings, ∀ t ∈ strings, ∀ a b, Names s a → Names t b → a.Before b →
    (parseDate s).toInt < (parseDate t).toInt
  printed : ∀ s ∈ strings, parseDate s ≠ 0 → parseDate (dateToString (parseDate s)) = parseDate s

/-- A year that the string names is not too large, and a string that begins like a date is the name
of one. -/
structure IsSound (s : Str) : Prop where
  year_le : ∀ date, Names s date → date.year ≤ 214748
  named : ∀ date, Begins s date → ∃ date, Names s date

theorem parseDate_of_names (h : Names s date) (hyear : date.year ≤ 214748) :
  parseDate s = BitVec.ofNat 32 (code date) ∧ (parseDate s).toInt = code date
  := by
  have hparse := parseDate_of_reads (reads_of_names h (by omega))
  have hlt := code_lt hyear
  constructor
  · exact hparse
  · rw [hparse, toInt_ofNat_of_lt hlt]

theorem reads_unique {a b : Date} (ha : Reads s a) (hb : Reads s b) :
  a = b
  := by
  obtain ⟨hyear, hscan⟩ := ha
  obtain ⟨hyear', hscan'⟩ := hb
  rw [hscan, Option.some.injEq, Prod.mk.injEq, Prod.mk.injEq, ← BitVec.toNat_inj,
    ← BitVec.toNat_inj, ← BitVec.toNat_inj, toNat_ofNat_of_lt (by omega),
    toNat_ofNat_of_lt (by omega), toNat_month, toNat_month, toNat_day, toNat_day] at hscan'
  obtain ⟨hy, hm, hd⟩ := hscan'
  ext
  · exact hy
  · exact hm
  · exact hd

namespace IsSound

/-- The date that a sound string begins with is the one that it names. -/
theorem names_of_begins (h : IsSound s) (hbegins : Begins s date) :
  Names s date
  := by
  obtain ⟨named, hnames⟩ := h.named date hbegins
  have hyear := h.year_le named hnames
  rwa [reads_unique (reads_iff_begins.mpr hbegins) (reads_of_names hnames (by omega))]

theorem noOverflow (h : IsSound s) :
  NoOverflow s
  := by
  constructor
  · intro date hnames
    have hyear := h.year_le date hnames
    omega
  · intro date hbegins
    apply code_lt
    apply h.year_le date (h.names_of_begins hbegins)

theorem parseDate_ne_zero_iff (h : IsSound s) :
  parseDate s ≠ 0 ↔ ∃ date, Names s date
  := by
  constructor
  · intro hne
    obtain ⟨date, hreads⟩ := reads_of_parseDate hne
    exact h.named date (reads_iff_begins.mp hreads)
  · rintro ⟨date, hnames⟩ hzero
    have hpos := code_pos date
    have hint := (parseDate_of_names hnames (h.year_le date hnames)).2
    rw [hzero] at hint
    change (0 : Int) = _ at hint
    omega

end IsSound

/-- A string that is read without an overflow is sound if it is accepted for the name of a date
only. -/
theorem isSound_of_noOverflow (hoverflow : NoOverflow s)
    (haccepts : parseDate s ≠ 0 → ∃ date, Names s date) :
  IsSound s
  := by
  constructor
  · intro date hnames
    have hyear := hoverflow.year date hnames
    have hcode := hoverflow.code date (reads_iff_begins.mp (reads_of_names hnames hyear))
    rw [code] at hcode
    omega
  · intro date hbegins
    apply haccepts
    have hpos := code_pos date
    have hcode := hoverflow.code date hbegins
    rw [parseDate_of_reads (reads_iff_begins.mpr hbegins)]
    intro hzero
    have hto := congrArg BitVec.toNat hzero
    rw [toNat_ofNat_of_lt (by omega)] at hto
    change code date = 0 at hto
    omega

theorem encodesDates_of_sound {strings : Set Str} (h : ∀ s ∈ strings, IsSound s) :
  EncodesDates strings
  := by
  have hparse : ∀ s ∈ strings, ∀ date, Names s date →
      parseDate s = BitVec.ofNat 32 (code date) ∧ (parseDate s).toInt = code date :=
    fun s hs date hnames => parseDate_of_names hnames ((h s hs).year_le date hnames)
  constructor
  · intro s hs
    exact (h s hs).parseDate_ne_zero_iff
  · intro s hs
    exact (h s hs).noOverflow
  · intro s hs t ht a b ha hb
    obtain ⟨-, hints⟩ := hparse s hs a ha
    obtain ⟨-, hintt⟩ := hparse t ht b hb
    constructor
    · intro heq
      rw [heq, hintt] at hints
      apply code_injective
      omega
    · rintro rfl
      rw [(hparse s hs a ha).1, (hparse t ht a hb).1]
  · intro s hs hne
    obtain ⟨date, hnames⟩ := (h s hs).parseDate_ne_zero_iff.mp hne
    have hpos := code_pos date
    rw [(hparse s hs date hnames).2]
    omega
  · intro s hs t ht a b ha hb hbefore
    have hlt := code_lt_code hbefore
    rw [(hparse s hs a ha).2, (hparse t ht b hb).2]
    omega
  · intro s hs hne
    obtain ⟨date, hnames⟩ := (h s hs).parseDate_ne_zero_iff.mp hne
    rw [(hparse s hs date hnames).1]
    apply parseDate_dateToString ((h s hs).year_le date hnames)

/-- On a set of strings `parseDate` encodes the dates if and only if all of them are sound: one that
begins like a date names it and has nothing else in it, and no year after 214748 is named. -/
theorem encodesDates_iff (strings : Set Str) :
  EncodesDates strings ↔ ∀ s ∈ strings, IsSound s
  := by
  constructor
  · intro h s hs
    apply isSound_of_noOverflow (h.noOverflow s hs)
    exact (h.accepts s hs).mp
  · apply encodesDates_of_sound

theorem IsNumeral.append_inj {u v u' v' : Str} {k : Nat} (hu : IsNumeral u n)
    (hu' : IsNumeral u' k) (h : u ++ 45 :: v = u' ++ 45 :: v') :
  n = k ∧ v = v'
  := by
  obtain ⟨htake, hdrop⟩ := Decimal.takeWhile_append hu.digits (not_isDigit_dash v)
  obtain ⟨htake', hdrop'⟩ := Decimal.takeWhile_append hu'.digits (not_isDigit_dash v')
  rw [h, htake'] at htake
  rw [h, hdrop'] at hdrop
  constructor
  · rw [← hu.value, ← hu'.value, htake]
  · exact (List.cons.inj hdrop).2.symm

/-- A string names one date at most. -/
theorem names_unique {a b : Date} (ha : Names s a) (hb : Names s b) :
  a = b
  := by
  obtain ⟨year, month, day, rfl, hyear, hmonth, hday⟩ := ha
  obtain ⟨year', month', day', h, hyear', hmonth', hday'⟩ := hb
  obtain ⟨heqyear, h⟩ := hyear.append_inj hyear' h
  obtain ⟨heqmonth, rfl⟩ := hmonth.append_inj hmonth' h
  ext
  · exact heqyear
  · exact heqmonth
  · rw [← hday.value, ← hday'.value]

/-- The names of the dates up to this year are sound. -/
theorem isSound_of_names (h : Names s date) (hyear : date.year ≤ 214748) :
  IsSound s
  := by
  constructor
  · intro other hother
    rw [names_unique hother h]
    exact hyear
  · intro _ _
    exact ⟨date, h⟩

/-- On them the dates are encoded. -/
theorem encodesDates_ordinary :
  EncodesDates {s | ∃ date, Names s date ∧ date.year ≤ 214748}
  := by
  apply (encodesDates_iff _).mpr
  rintro s ⟨date, hnames, hyear⟩
  exact isSound_of_names hnames hyear

theorem isDigit_or_dash_of_names (h : Names s date) :
  ∀ b ∈ s, Decimal.isDigit b ∨ b = 45
  := by
  obtain ⟨year, month, day, rfl, hyear, hmonth, hday⟩ := h
  intro b hb
  simp only [List.mem_append, List.mem_cons] at hb
  obtain hb | rfl | hb | rfl | hb := hb
  · left; exact hyear.digits b hb
  · right; rfl
  · left; exact hmonth.digits b hb
  · right; rfl
  · left; exact hday.digits b hb

/-- `2024-01-01x` is taken for a date. -/
theorem encodesDates_fails :
  ¬ EncodesDates Set.univ
  := by
  intro h
  obtain ⟨date, hnames⟩ :=
    (h.accepts [50, 48, 50, 52, 45, 48, 49, 45, 48, 49, 120] trivial).mp (by decide)
  obtain hb | hb := isDigit_or_dash_of_names hnames 120 (by decide)
  · cases hb
  · cases hb

end MiniOB.Sql
