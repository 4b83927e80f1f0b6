import MiniOB.Sql.Date

/-!
# Formats of dates

`DateFormatFunction` of `sql/expr/function.cpp`, which writes a date in a given format, and what
the formats mean. Where a number is no `int`, an index lies outside of its table or a text is
longer than its buffer there is no result.
-/

namespace MiniOB.Sql

open Calendar

/-- The bytes of a text. -/
def ascii (text : List Char) : Str := text.map fun c => BitVec.ofNat 8 c.toNat

/-! ### The function -/

/-- `std::to_string`. -/
def toDecimal (n : Int) : Str := printInt 0 n

/-- The element of a table. -/
def entry {α : Type} (table : List α) (index : Int) : Option α :=
  if index < 0 then none else table[index.toNat]?

/-- What `sprintf` writes into so many bytes, a zero behind it. -/
def sprintf (size : Nat) (s : Str) : Option Str := if s.length < size then some s else none

/-- `is_luner_year`. -/
def isLunerYear (year : Int) : Bool :=
  year.tmod 4 = 0 ∧ (year.tmod 100 ≠ 0 ∨ year.tmod 400 = 0)

/-- `day_of_year`. -/
def dayOfYear (year month day : Int) : Option Int := do
  let daysInMonth : List Int := [0, 31, 28, 31, 30, 31, 30, 31, 31, 30, 31, 30, 31]
  let days ← (List.range' 1 (month.toNat - 1)).mapM fun i : Nat => entry daysInMonth i
  let dayCount := days.foldl (· + ·) day
  return if 2 < month ∧ isLunerYear year then dayCount + 1 else dayCount

/-- `day_of_week`. -/
def dayOfWeek (year month day : Int) : Option Int := do
  let dayCount ← dayOfYear year month day
  let dayCount := (List.range' 1000 (year.toNat - 1000)).foldl
    (fun dayCount (i : Nat) => if isLunerYear i then dayCount + 365 + 1 else dayCount + 365)
    dayCount
  return (dayCount + 1).tmod 7

/-- The `weekday_names` of `get_abbreviated_weekday_name`. -/
def abbreviatedWeekdayNames : List Str :=
  [ascii ['M', 'o', 'n'], ascii ['T', 'u', 'e'], ascii ['W', 'e', 'd'], ascii ['T', 'h', 'u'],
    ascii ['F', 'r', 'i'], ascii ['S', 'a', 't'], ascii ['S', 'u', 'n']]

/-- `get_abbreviated_weekday_name`. -/
def getAbbreviatedWeekdayName (year month day : Int) : Option Str :=
  (dayOfWeek year month day).bind (entry abbreviatedWeekdayNames)

/-- `get_abbreviated_month_name`. -/
def getAbbreviatedMonthName (month : Int) : Option Str :=
  entry [[], ascii ['J', 'a', 'n'], ascii ['F', 'e', 'b'], ascii ['M', 'a', 'r'],
    ascii ['A', 'p', 'r'], ascii ['M', 'a', 'y'], ascii ['J', 'u', 'n'], ascii ['J', 'u', 'l'],
    ascii ['A', 'u', 'g'], ascii ['S', 'e', 'p'], ascii ['O', 'c', 't'], ascii ['N', 'o', 'v'],
    ascii ['D', 'e', 'c']] month

/-- `get_month_numeric`. -/
def getMonthNumeric (month : Int) : Str := toDecimal (month - 1)

/-- `get_day_of_month_with_english_suffix`. -/
def getDayOfMonthWithEnglishSuffix (day : Int) : Option Str := do
  let th := ascii ['t', 'h']
  let suffixes := [th, ascii ['s', 't'], ascii ['n', 'd'], th, th, th, th, th, th, th]
  let suffix ← if day = 3 then some (ascii ['r', 'd']) else entry suffixes (day.tmod 10)
  return toDecimal day ++ suffix

/-- `get_day_of_month_numeric_zero_fill`. -/
def getDayOfMonthNumericZeroFill (day : Int) : Str :=
  if day < 10 then 48 :: toDecimal day else toDecimal day

/-- `get_day_of_month_numeric`. -/
def getDayOfMonthNumeric (day : Int) : Str := toDecimal day

/-- `get_day_of_year_zero_fill`. -/
def getDayOfYearZeroFill (year month day : Int) : Option Str :=
  (dayOfYear year month day).map toDecimal

/-- `get_month_name`. -/
def getMonthName (month : Int) : Option Str :=
  entry [[], ascii ['J', 'a', 'n', 'u', 'a', 'r', 'y'],
    ascii ['F', 'e', 'b', 'r', 'u', 'a', 'r', 'y'], ascii ['M', 'a', 'r', 'c', 'h'],
    ascii ['A', 'p', 'r', 'i', 'l'], ascii ['M', 'a', 'y'], ascii ['J', 'u', 'n', 'e'],
    ascii ['J', 'u', 'l', 'y'], ascii ['A', 'u', 'g', 'u', 's', 't'],
    ascii ['S', 'e', 'p', 't', 'e', 'm', 'b', 'e', 'r'],
    ascii ['O', 'c', 't', 'o', 'b', 'e', 'r'], ascii ['N', 'o', 'v', 'e', 'm', 'b', 'e', 'r'],
    ascii ['D', 'e', 'c', 'e', 'm', 'b', 'e', 'r']] month

/-- `get_month_numeric_zero_fill`. -/
def getMonthNumericZeroFill (month : Int) : Str :=
  if month < 10 then 48 :: toDecimal month else toDecimal month

/-- The `weekday_names` of `get_weekday_name`. -/
def weekdayNames : List Str :=
  [ascii ['M', 'o', 'n', 'd', 'a', 'y'], ascii ['T', 'u', 'e', 's', 'd', 'a', 'y'],
    ascii ['W', 'e', 'd', 'n', 'e', 's', 'd', 'a', 'y'],
    ascii ['T', 'h', 'u', 'r', 's', 'd', 'a', 'y'], ascii ['F', 'r', 'i', 'd', 'a', 'y'],
    ascii ['S', 'a', 't', 'u', 'r', 'd', 'a', 'y'], ascii ['S', 'u', 'n', 'd', 'a', 'y']]

/-- `get_weekday_name`. -/
def getWeekdayName (year month day : Int) : Option Str :=
  (dayOfWeek year month day).bind (entry weekdayNames)

/-- `get_day_of_week`. -/
def getDayOfWeek (year month day : Int) : Option Str :=
  (dayOfWeek year month day).map fun index => toDecimal ((index + 1).tmod 7)

/-- `get_year_four_digits`. -/
def getYearFourDigits (year : Int) : Option Str := sprintf 5 (printInt 4 year)

/-- `get_year_two_digits`. -/
def getYearTwoDigits (year : Int) : Option Str := sprintf 3 (printInt 2 (year.tmod 100))

/-- The switch of `do_date_format`. -/
def formatSpecifier (year month day : Int) (c : BitVec 8) : Option (Except RC Str) :=
  match Char.ofNat c.toNat with
  | 'a' => (getAbbreviatedWeekdayName year month day).map .ok
  | 'b' => (getAbbreviatedMonthName month).map .ok
  | 'c' => some (.ok (getMonthNumeric month))
  | 'D' => (getDayOfMonthWithEnglishSuffix day).map .ok
  | 'd' => some (.ok (getDayOfMonthNumericZeroFill day))
  | 'e' => some (.ok (getDayOfMonthNumeric day))
  | 'j' => (getDayOfYearZeroFill year month day).map .ok
  | 'M' => (getMonthName month).map .ok
  | 'm' => some (.ok (getMonthNumericZeroFill month))
  | 'W' => (getWeekdayName year month day).map .ok
  | 'w' => (getDayOfWeek year month day).map .ok
  | 'Y' => (getYearFourDigits year).map .ok
  | 'y' => (getYearTwoDigits year).map .ok
  | '%' => some (.ok (ascii ['%']))
  | _ => some (.error .incorrectDateFormat)

/-- `do_date_format`. -/
def doDateFormat (year month day : Int) : Str → Option (Except RC Str)
  | [] => some (.ok [])
  | c :: format =>
    if c = 37 then
      match format with
      | [] => some (.error .incorrectDateFormat)
      | d :: format =>
        match formatSpecifier year month day d with
        | none => none
        | some (.error rc) => some (.error rc)
        | some (.ok piece) => (doDateFormat year month day format).map (·.map (piece ++ ·))
    else (doDateFormat year month day format).map (·.map (c :: ·))

/-- The number of a date, if it is an `int`: otherwise the arithmetic of `parseDate` overflows. -/
def packDate (s : Str) : Option (BitVec 32) :=
  match scanDate s with
  | some (year, month, day) =>
    if parseDate s ≠ 0 ∧ 2 ^ 31 ≤ year.toInt * 10000 + month.toInt * 100 + day.toInt then none
    else some (parseDate s)
  | none => some 0

/-- `date_format` of a string that is a date, as `function_body` calls `do_date_format`. -/
def formatDate (dateString format : Str) : Option (Except RC Str) :=
  (packDate dateString).bind fun ymd =>
    doDateFormat (ymd.toInt.tdiv 10000) ((ymd.toInt.tmod 10000).tdiv 100) (ymd.toInt.tmod 100)
      format

/-- `function_body`, of the values of the parameters. -/
def functionBody (L : Library) (date format : Value) : Option (Except RC Value) :=
  match date.getString L with
  | none => some (.ok .nulls)
  | some dateString =>
    if packDate (cStr dateString) = some 0 then some (.ok .nulls)
    else
      match format.getString L with
      | none => some (.ok .nulls)
      | some format => (formatDate (cStr dateString) format).map (·.map fun s => .chars (cStr s))

/-! ### The meaning of formats -/

/-- What stands for a part of the date. -/
inductive Specifier where
  | abbreviatedWeekdayName
  | abbreviatedMonthName
  | monthNumeric
  | dayWithEnglishSuffix
  | dayZeroFill
  | dayNumeric
  | dayOfYearZeroFill
  | monthName
  | monthZeroFill
  | weekdayName
  | dayOfWeek
  | yearFourDigits
  | yearTwoDigits
  | percent
  deriving DecidableEq, Repr

/-- The letter behind the `%`. -/
def Specifier.letter : Specifier → Char
  | abbreviatedWeekdayName => 'a'
  | abbreviatedMonthName => 'b'
  | monthNumeric => 'c'
  | dayWithEnglishSuffix => 'D'
  | dayZeroFill => 'd'
  | dayNumeric => 'e'
  | dayOfYearZeroFill => 'j'
  | monthName => 'M'
  | monthZeroFill => 'm'
  | weekdayName => 'W'
  | dayOfWeek => 'w'
  | yearFourDigits => 'Y'
  | yearTwoDigits => 'y'
  | percent => '%'

/-- A part of a format. -/
inductive FormatItem where
  | literal (c : {c : BitVec 8 // c ≠ 37})
  | specifier (s : Specifier)

def FormatItem.text : FormatItem → Str
  | literal c => [c.1]
  | specifier s => ascii ['%', s.letter]

/-- The text of a format whose specifiers are all supported. -/
def formatText (items : List FormatItem) : Str := items.flatMap FormatItem.text

/-- The name of a day of the week, from Monday on. -/
def nameOfWeekday : Nat → Str
  | 0 => ascii ['M', 'o', 'n', 'd', 'a', 'y']
  | 1 => ascii ['T', 'u', 'e', 's', 'd', 'a', 'y']
  | 2 => ascii ['W', 'e', 'd', 'n', 'e', 's', 'd', 'a', 'y']
  | 3 => ascii ['T', 'h', 'u', 'r', 's', 'd', 'a', 'y']
  | 4 => ascii ['F', 'r', 'i', 'd', 'a', 'y']
  | 5 => ascii ['S', 'a', 't', 'u', 'r', 'd', 'a', 'y']
  | _ => ascii ['S', 'u', 'n', 'd', 'a', 'y']

/-- The name of a month. -/
def nameOfMonth : Nat → Str
  | 1 => ascii ['J', 'a', 'n', 'u', 'a', 'r', 'y']
  | 2 => ascii ['F', 'e', 'b', 'r', 'u', 'a', 'r', 'y']
  | 3 => ascii ['M', 'a', 'r', 'c', 'h']
  | 4 => ascii ['A', 'p', 'r', 'i', 'l']
  | 5 => ascii ['M', 'a', 'y']
  | 6 => ascii ['J', 'u', 'n', 'e']
  | 7 => ascii ['J', 'u', 'l', 'y']
  | 8 => ascii ['A', 'u', 'g', 'u', 's', 't']
  | 9 => ascii ['S', 'e', 'p', 't', 'e', 'm', 'b', 'e', 'r']
  | 10 => ascii ['O', 'c', 't', 'o', 'b', 'e', 'r']
  | 11 => ascii ['N', 'o', 'v', 'e', 'm', 'b', 'e', 'r']
  | _ => ascii ['D', 'e', 'c', 'e', 'm', 'b', 'e', 'r']

/-- A number with its English suffix: 1st, 2nd, 3rd, 4th, 11th, 21st. -/
def ordinal (n : Nat) : Str :=
  printInt 0 n
    ++ if n % 100 / 10 = 1 then ascii ['t', 'h']
      else if n % 10 = 1 then ascii ['s', 't']
      else if n % 10 = 2 then ascii ['n', 'd']
      else if n % 10 = 3 then ascii ['r', 'd']
      else ascii ['t', 'h']

/-- What a specifier stands for. -/
def Specifier.meaning (date : Date) : Specifier → Str
  | abbreviatedWeekdayName => (nameOfWeekday date.weekday).take 3
  | abbreviatedMonthName => (nameOfMonth date.month).take 3
  | monthNumeric => printInt 0 date.month
  | dayWithEnglishSuffix => ordinal date.day
  | dayZeroFill => printInt 2 date.day
  | dayNumeric => printInt 0 date.day
  | dayOfYearZeroFill => printInt 3 date.dayOfYear
  | monthName => nameOfMonth date.month
  | monthZeroFill => printInt 2 date.month
  | weekdayName => nameOfWeekday date.weekday
  -- 0 is a Sunday here
  | dayOfWeek => printInt 0 ((date.weekday + 1) % 7 : Nat)
  | yearFourDigits => printInt 4 date.year
  | yearTwoDigits => printInt 2 (date.year % 100 : Nat)
  | percent => ascii ['%']

def FormatItem.meaning (date : Date) : FormatItem → Str
  | literal c => [c.1]
  | specifier s => s.meaning date

/-- The format with each specifier replaced by what it stands for. -/
def render (date : Date) (items : List FormatItem) : Str := items.flatMap (FormatItem.meaning date)

/-- The date is written as the format says. -/
def Formats (dateString : Str) (date : Date) (items : List FormatItem) : Prop :=
  formatDate dateString (formatText items) = some (.ok (render date items))

/-- Where the function writes what the specifier stands for. -/
def Specifier.IsRight (date : Date) : Specifier → Prop
  | abbreviatedWeekdayName => 1000 ≤ date.year ∨ (newYear date.year).weekday = 2
  | weekdayName => 1000 ≤ date.year ∨ (newYear date.year).weekday = 2
  | dayOfWeek => 1000 ≤ date.year ∨ (newYear date.year).weekday = 2
  | monthNumeric => False
  | dayWithEnglishSuffix => date.day ≠ 11 ∧ date.day ≠ 12 ∧ date.day ≠ 23
  | dayOfYearZeroFill => 100 ≤ date.dayOfYear
  | yearFourDigits => date.year ≤ 9999
  | _ => True

/-! ### Texts of which none begins with the other -/

/-- Either it is right and the text is this one, or the text, if there is one, and this one differ
before one of them ends. -/
def Compares (right : Prop) (piece : Option Str) (meaning : Str) : Prop :=
  (right → piece = some meaning)
    ∧ (¬ right → ∀ p ∈ piece, ¬ p <+: meaning ∧ ¬ meaning <+: p)

instance (right : Prop) [Decidable right] (piece : Option Str) (meaning : Str) :
    Decidable (Compares right piece meaning) := by
  unfold Compares
  infer_instance

/-! ### Days -/

theorem isLunerYear_iff (year : Nat) :
  isLunerYear year = true ↔ IsLeap year
  := by
  have h4 : Int.tmod year 4 = (year % 4 : Nat) := rfl
  have h100 : Int.tmod year 100 = (year % 100 : Nat) := rfl
  have h400 : Int.tmod year 400 = (year % 400 : Nat) := rfl
  rw [isLunerYear, decide_eq_true_eq, h4, h100, h400, IsLeap]
  omega

/-- The months are as long as those of the year 4, or of the year 1. -/
theorem daysOfMonth_eq (year : Nat) :
  daysOfMonth year = daysOfMonth (if isLunerYear year then 4 else 1)
  := by
  funext month
  have hfour : IsLeap 4 := by decide
  have hone : ¬ IsLeap 1 := by decide
  by_cases h : IsLeap year
  · rw [if_pos ((isLunerYear_iff year).mpr h), daysOfMonth, daysOfMonth, if_pos h, if_pos hfour]
  · rw [if_neg (mt (isLunerYear_iff year).mp h), daysOfMonth, daysOfMonth, if_neg h, if_neg hone]

theorem dayOfYear_eq (date : Date) :
  dayOfYear date.year date.month date.day = some (date.dayOfYear : Int)
  := by
  have hmonths : ∀ leap : Bool, ∀ month : Nat, month < 13 → 1 ≤ month →
      ((List.range' 1 (month - 1)).mapM fun i =>
          entry [0, 31, 28, 31, 30, 31, 30, 31, 31, 30, 31, 30, 31] (i : Nat)).map
        (fun days => days.sum + if 2 < month ∧ leap then 1 else 0)
      = some ((∑ k ∈ Finset.Ico 1 month, daysOfMonth (if leap then 4 else 1) k : Nat) : Int) := by
    decide
  have hfold : ∀ (days : List Int) (day : Int), days.foldl (· + ·) day = day + days.sum := by
    intro days
    induction days with
    | nil => simp
    | cons n days ih =>
      intro day
      rw [List.foldl_cons, ih, List.sum_cons, add_assoc]
  have hmonth := hmonths (isLunerYear date.year) date.month
    (Nat.lt_succ_of_le date.month_le) date.month_pos
  obtain ⟨days, hdays, hsum⟩ := Option.map_eq_some_iff.mp hmonth
  rw [← daysOfMonth_eq] at hsum
  have htwo : (2 : Int) < date.month ↔ 2 < date.month := by omega
  rw [dayOfYear, Date.dayOfYear, Int.toNat_natCast]
  dsimp only
  rw [hdays]
  simp only [Option.bind_eq_bind, Option.bind_some, hfold, htwo]
  rw [Option.pure_def, Option.some.injEq]
  push_cast at hsum ⊢
  rw [← hsum]
  split_ifs <;> ring

/-- The loop over the years adds up their days. -/
theorem foldl_years (dayCount : Int) (n : Nat) :
  (List.range' 1000 n).foldl
      (fun dayCount i => if isLunerYear (i : Nat) then dayCount + 365 + 1 else dayCount + 365)
      dayCount
    = dayCount + ∑ i ∈ Finset.range n, daysOfYear (1000 + i)
  := by
  induction n with
  | zero => simp
  | succ n ih =>
    rw [List.range'_concat, List.foldl_append, ih, Finset.sum_range_succ]
    simp only [List.foldl_cons, List.foldl_nil, isLunerYear_iff, daysOfYear]
    rw [Nat.one_mul]
    split_ifs <;> push_cast <;> ring

theorem sum_daysOfYear :
  (∑ year ∈ Finset.range 1000, daysOfYear year) % 7 = 4
  := by
  decide +kernel

/-- The day of the week that the loop over the years ends with. -/
theorem dayOfWeek_eq (date : Date) :
  ∃ w < 7, dayOfWeek date.year date.month date.day = some ((w : Nat) : Int)
    ∧ (w = date.weekday ↔ 1000 ≤ date.year ∨ (newYear date.year).weekday = 2)
  := by
  let later := ∑ i ∈ Finset.range (date.year - 1000), daysOfYear (1000 + i)
  refine ⟨(date.dayOfYear + later + 1) % 7, Nat.mod_lt _ (by decide), ?_, ?_⟩
  · rw [dayOfWeek, dayOfYear_eq]
    simp only [Option.bind_eq_bind, Option.bind_some, Int.toNat_natCast, foldl_years]
    rfl
  · rw [weekday_newYear, Date.weekday, Date.dayNumber]
    obtain hyear | hyear := Nat.lt_or_ge date.year 1000
    · have hlater : later = 0 := by
        simp [later, Nat.sub_eq_zero_of_le hyear.le]
      omega
    · have hsum := Finset.sum_range_add daysOfYear 1000 (date.year - 1000)
      have hfirst := sum_daysOfYear
      rw [Nat.add_sub_cancel' hyear] at hsum
      change _ = _ + later at hsum
      omega

/-! ### What the function writes -/

/-- The call of the switch. -/
def Specifier.piece (year month day : Int) : Specifier → Option Str
  | abbreviatedWeekdayName => getAbbreviatedWeekdayName year month day
  | abbreviatedMonthName => getAbbreviatedMonthName month
  | monthNumeric => some (getMonthNumeric month)
  | dayWithEnglishSuffix => getDayOfMonthWithEnglishSuffix day
  | dayZeroFill => some (getDayOfMonthNumericZeroFill day)
  | dayNumeric => some (getDayOfMonthNumeric day)
  | dayOfYearZeroFill => getDayOfYearZeroFill year month day
  | monthName => getMonthName month
  | monthZeroFill => some (getMonthNumericZeroFill month)
  | weekdayName => getWeekdayName year month day
  | dayOfWeek => getDayOfWeek year month day
  | yearFourDigits => getYearFourDigits year
  | yearTwoDigits => getYearTwoDigits year
  | percent => some (ascii ['%'])

theorem formatSpecifier_letter (year month day : Int) (s : Specifier) :
  formatSpecifier year month day (BitVec.ofNat 8 s.letter.toNat)
    = (s.piece year month day).map .ok
  := by
  cases s <;> rfl

theorem compares_of_eq {right : Prop} {piece : Option Str} {meaning : Str} (hright : right)
    (h : piece = some meaning) :
  Compares right piece meaning
  := ⟨fun _ => h, fun hnot => absurd hright hnot⟩

theorem Compares.congr {right right' : Prop} {piece : Option Str} {meaning : Str}
    (h : Compares right piece meaning) (hright : right ↔ right') :
  Compares right' piece meaning
  := by
  rwa [← hright]

theorem compares_weekday : ∀ v < 7, ∀ w < 7,
    Compares (v = w) (entry abbreviatedWeekdayNames (v : Nat)) ((nameOfWeekday w).take 3)
      ∧ Compares (v = w) (entry weekdayNames (v : Nat)) (nameOfWeekday w)
      ∧ Compares (v = w) (some (toDecimal (((v : Nat) + 1 : Int).tmod 7)))
        (printInt 0 ((w + 1) % 7 : Nat)) := by
  decide

theorem compares_month : ∀ month : Nat, month < 13 → 1 ≤ month →
    getAbbreviatedMonthName month = some ((nameOfMonth month).take 3)
      ∧ getMonthName month = some (nameOfMonth month)
      ∧ getMonthNumericZeroFill month = printInt 2 month
      ∧ Compares False (some (getMonthNumeric month)) (printInt 0 month) := by
  decide

theorem compares_day : ∀ day : Nat, day < 32 → 1 ≤ day →
    getDayOfMonthNumericZeroFill day = printInt 2 day
      ∧ Compares (day ≠ 11 ∧ day ≠ 12 ∧ day ≠ 23) (getDayOfMonthWithEnglishSuffix day)
        (ordinal day) := by
  decide

theorem compares_dayOfYear : ∀ day : Nat, day < 367 → 1 ≤ day →
    Compares (100 ≤ day) (some (toDecimal day)) (printInt 3 day) := by
  decide +kernel

theorem getYearTwoDigits_eq (year : Nat) :
  getYearTwoDigits year = some (printInt 2 (year % 100 : Nat))
  := by
  have hdigits : ∀ n : Nat, n < 100 → sprintf 3 (printInt 2 n) = some (printInt 2 n) := by
    decide
  exact hdigits (year % 100) (Nat.mod_lt _ (by decide))

theorem length_printInt_four (year : Nat) :
  (printInt 4 year).length < 5 ↔ year ≤ 9999
  := by
  have hlength := Decimal.length_digits_le_iff (n := year) (by decide : 0 < 4)
  rw [printInt_natCast, List.length_append, List.length_replicate]
  omega

/-- Each specifier by itself. -/
theorem compares_specifier (date : Date) (s : Specifier) :
  Compares (s.IsRight date) (s.piece date.year date.month date.day) (s.meaning date)
  := by
  obtain ⟨w, hw, hweek, hright⟩ := dayOfWeek_eq date
  have hweekday : date.weekday < 7 := Nat.mod_lt _ (by decide)
  obtain ⟨hshort, hlong, hnumber⟩ := compares_weekday w hw date.weekday hweekday
  obtain ⟨hmonth, hmonthName, hmonthFill, hmonthNumber⟩ :=
    compares_month date.month (Nat.lt_succ_of_le date.month_le) date.month_pos
  obtain ⟨hdayFill, hsuffix⟩ :=
    compares_day date.day (Nat.lt_succ_of_le date.day_le_max) date.day_pos
  cases s with
  | abbreviatedWeekdayName =>
    rw [Specifier.piece, getAbbreviatedWeekdayName, hweek]
    exact hshort.congr hright
  | weekdayName =>
    rw [Specifier.piece, getWeekdayName, hweek]
    exact hlong.congr hright
  | dayOfWeek =>
    rw [Specifier.piece, getDayOfWeek, hweek]
    exact hnumber.congr hright
  | abbreviatedMonthName => exact compares_of_eq trivial hmonth
  | monthName => exact compares_of_eq trivial hmonthName
  | monthZeroFill => exact compares_of_eq trivial (congrArg some hmonthFill)
  | monthNumeric => exact hmonthNumber
  | dayWithEnglishSuffix => exact hsuffix
  | dayZeroFill => exact compares_of_eq trivial (congrArg some hdayFill)
  | dayNumeric => exact compares_of_eq trivial rfl
  | dayOfYearZeroFill =>
    have hle : date.dayOfYear < 367 := by
      apply Nat.lt_succ_of_le (date.dayOfYear_le.trans _)
      rw [daysOfYear]
      split_ifs <;> omega
    rw [Specifier.piece, getDayOfYearZeroFill, dayOfYear_eq]
    exact compares_dayOfYear date.dayOfYear hle date.dayOfYear_pos
  | yearFourDigits =>
    rw [Specifier.piece, getYearFourDigits, sprintf]
    simp only [length_printInt_four]
    constructor
    · exact fun hle => if_pos hle
    · intro (hlt : ¬ date.year ≤ 9999) p hp
      rw [if_neg hlt] at hp
      cases hp
  | yearTwoDigits => exact compares_of_eq trivial (getYearTwoDigits_eq date.year)
  | percent => exact compares_of_eq trivial rfl

/-! ### Whole formats -/

/-- A piece that is right can be taken away, and one that is not makes the texts differ. -/
theorem Compares.append_iff {right : Prop} {piece meaning rest : Str}
    {result : Option (Except RC Str)} (h : Compares right (some piece) meaning) :
  result.map (·.map (piece ++ ·)) = some (.ok (meaning ++ rest))
    ↔ right ∧ result = some (.ok rest)
  := by
  match result with
  | none => simp
  | some (.error rc) => simp [Except.map]
  | some (.ok text) =>
    simp only [Option.map_some, Except.map, Option.some.injEq, Except.ok.injEq]
    by_cases hright : right
    · rw [← Option.some.inj (h.1 hright), List.append_cancel_left_eq]
      exact (and_iff_right hright).symm
    · apply iff_of_false
      · intro heq
        obtain ⟨hpiece, hmeaning⟩ := h.2 hright piece rfl
        obtain hprefix | hprefix := List.prefix_or_prefix_of_prefix
          (List.prefix_append piece text) (heq ▸ List.prefix_append meaning rest)
        · exact hpiece hprefix
        · exact hmeaning hprefix
      · exact fun h => hright h.1

theorem doDateFormat_specifier (year month day : Int) (s : Specifier) (format : Str) :
  doDateFormat year month day (FormatItem.text (.specifier s) ++ format)
    = (s.piece year month day).bind fun piece =>
      (doDateFormat year month day format).map (·.map (piece ++ ·))
  := by
  have hletter := formatSpecifier_letter year month day s
  change doDateFormat year month day (37 :: BitVec.ofNat 8 s.letter.toNat :: format) = _
  rw [doDateFormat, if_pos rfl, hletter]
  cases s.piece year month day <;> rfl

theorem doDateFormat_iff (date : Date) : ∀ items : List FormatItem,
    doDateFormat date.year date.month date.day (formatText items)
        = some (.ok (render date items))
      ↔ ∀ s, .specifier s ∈ items → s.IsRight date
  | [] => by simp [formatText, render, doDateFormat]
  | .literal c :: items => by
    have ih := doDateFormat_iff date items
    have hsame : Compares True (some [c.1]) [c.1] := compares_of_eq trivial rfl
    have hcons : doDateFormat date.year date.month date.day (formatText (.literal c :: items))
        = (doDateFormat date.year date.month date.day (formatText items)).map
          (·.map ([c.1] ++ ·)) := by
      change doDateFormat _ _ _ (c.1 :: formatText items) = _
      rw [doDateFormat.eq_def]
      exact if_neg c.2
    rw [hcons, render, List.flatMap_cons]
    refine (hsame.append_iff.trans (and_iff_right trivial)).trans (ih.trans ?_)
    simp
  | .specifier s :: items => by
    have ih := doDateFormat_iff date items
    have hcompares := compares_specifier date s
    rw [formatText, List.flatMap_cons, doDateFormat_specifier, render, List.flatMap_cons]
    cases hpiece : s.piece date.year date.month date.day with
    | none =>
      rw [hpiece] at hcompares
      apply iff_of_false
      · exact fun h => by cases h
      · intro h
        cases hcompares.1 (h s (.head _))
    | some piece =>
      rw [hpiece] at hcompares
      refine hcompares.append_iff.trans ((and_congr_right fun _ => ih).trans ?_)
      simp

/-! ### Dates of strings -/

variable {s : Str} {date : Date}

/-- The number is an `int` up to the year 214748. -/
theorem packDate_of_reads (hreads : Reads s date) (haccepted : parseDate s ≠ 0) :
  packDate s = if date.year ≤ 214748 then some (BitVec.ofNat 32 (code date)) else none
  := by
  obtain ⟨hyear, hscan⟩ := hreads
  have hmonth := date.month_le
  have hday := date.day_le_max
  rw [packDate, hscan]
  dsimp only
  rw [toInt_ofNat_of_lt hyear, toInt_ofNat_of_lt (by omega), toInt_ofNat_of_lt (by omega),
    parseDate_of_reads ⟨hyear, hscan⟩]
  rw [parseDate_of_reads ⟨hyear, hscan⟩] at haccepted
  have hiff : (2 : Int) ^ 31 ≤ date.year * 10000 + date.month * 100 + date.day
      ↔ ¬ date.year ≤ 214748 := by
    omega
  simp only [hiff, haccepted, ne_eq, not_false_eq_true, true_and, ite_not]

/-- The date is read back from its number. -/
theorem decode_code (hyear : date.year ≤ 214748) :
  (BitVec.ofNat 32 (code date)).toInt.tdiv 10000 = date.year
    ∧ ((BitVec.ofNat 32 (code date)).toInt.tmod 10000).tdiv 100 = date.month
    ∧ (BitVec.ofNat 32 (code date)).toInt.tmod 100 = date.day
  := by
  obtain ⟨hyearPart, hmonthPart, hdayPart⟩ := code_parts date
  have hdiv : (code date : Int).tdiv 10000 = (code date / 10000 : Nat) := rfl
  have hmod : ((code date : Int).tmod 10000).tdiv 100 = (code date % 10000 / 100 : Nat) := rfl
  have hmod' : (code date : Int).tmod 100 = (code date % 100 : Nat) := rfl
  rw [toInt_ofNat_of_lt (code_lt hyear), hdiv, hmod, hmod', hyearPart, hmonthPart, hdayPart]
  exact ⟨rfl, rfl, rfl⟩

/-- A date is written as the format says exactly if its number is an `int` and the function is
right for each specifier. -/
theorem formats_iff (hreads : Reads s date) (haccepted : parseDate s ≠ 0)
    (items : List FormatItem) :
  Formats s date items
    ↔ date.year ≤ 214748 ∧ ∀ specifier, .specifier specifier ∈ items → specifier.IsRight date
  := by
  rw [Formats, formatDate, packDate_of_reads hreads haccepted]
  split_ifs with hyear
  · obtain ⟨hdecodeYear, hdecodeMonth, hdecodeDay⟩ := decode_code hyear
    rw [Option.bind_some, hdecodeYear, hdecodeMonth, hdecodeDay, doDateFormat_iff]
    exact (and_iff_right hyear).symm
  · apply iff_of_false
    · exact fun h => by cases h
    · exact fun h => hyear h.1

/-- The function gives the text as a value, up to its first zero. -/
theorem functionBody_of_formats {L : Library} {dateString : Str} {items : List FormatItem}
    (hreads : Reads (cStr dateString) date) (haccepted : parseDate (cStr dateString) ≠ 0)
    (h : Formats (cStr dateString) date items) :
  functionBody L (.chars dateString) (.chars (formatText items))
    = some (.ok (.chars (cStr (render date items))))
  := by
  have hne : packDate (cStr dateString) ≠ some 0 := by
    rw [packDate_of_reads hreads haccepted, ← parseDate_of_reads hreads]
    split_ifs
    · exact fun hzero => haccepted (Option.some.inj hzero)
    · exact nofun
  show (if packDate (cStr dateString) = some 0 then _ else
    (formatDate (cStr dateString) (formatText items)).map _) = _
  rw [if_neg hne, h]
  rfl

/-- The 15th of January 2024. -/
def january15 : Date := IsDate.toDate (by decide : IsDate 2024 1 15)

/-- The string `2024-01-15`. -/
def january15String : Str := ascii ['2', '0', '2', '4', '-', '0', '1', '-', '1', '5']

/-- The day of the week and the day are written in this format. -/
theorem formats_weekday :
  Formats january15String january15
    [.specifier .weekdayName, .literal ⟨32, by decide⟩, .specifier .dayWithEnglishSuffix]
  := by
  apply (formats_iff ⟨by decide, by decide⟩ (by decide) _).mpr
  refine ⟨by decide, ?_⟩
  intro specifier h
  simp only [List.mem_cons, FormatItem.specifier.injEq, reduceCtorEq, List.not_mem_nil, or_false,
    false_or] at h
  obtain rfl | rfl := h
  · exact .inl (by decide)
  · exact ⟨by decide, by decide, by decide⟩

/-- January is written as the month 0. -/
theorem formats_fails :
  ¬ Formats january15String january15 [.specifier .monthNumeric]
  := by
  intro h
  cases h

end MiniOB.Sql
