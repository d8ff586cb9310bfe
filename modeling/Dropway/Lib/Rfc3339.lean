import Dropway.Lib.Utf8
import Mathlib.Data.Nat.Digits.Lemmas

/-! Instants as RFC 3339 text. Time is counted from the Unix epoch on the
proleptic Gregorian calendar; formatting drops what is below a second, and
parsing gives nanoseconds. -/

namespace Dropway.Lib.Rfc3339

structure Date where
  year : Int
  month : Nat
  day : Nat
  deriving Repr, DecidableEq

/-- A day within its cycle of 400 years, which starts on the first of March so
that leap days end years, years end fours and fours end centuries. -/
structure DayOfEra where
  century : Int
  four : Int
  year : Int
  day : Int

def DayOfEra.ofDay (day : Int) : DayOfEra :=
  let century := min (day / 36524) 3
  let four := (day - century * 36524) / 1461
  let year := min ((day - century * 36524 - four * 1461) / 365) 3
  ⟨century, four, year, day - century * 36524 - four * 1461 - year * 365⟩

def DayOfEra.date (era : Int) (parts : DayOfEra) : Date :=
  let year := era * 400 + parts.century * 100 + parts.four * 4 + parts.year
  let month := (5 * parts.day + 2) / 153
  let day := parts.day - (153 * month + 2) / 5 + 1
  if month < 10 then ⟨year, (month + 3).toNat, day.toNat⟩
  else ⟨year + 1, (month - 9).toNat, day.toNat⟩

def dateOfDays (days : Int) : Date :=
  (DayOfEra.ofDay ((days + 719468) % 146097)).date ((days + 719468) / 146097)

/-- Months are counted from March again. -/
def daysOf (year month day : Int) : Int :=
  year / 400 * 146097 + year % 400 * 365 + year % 400 / 4 - year % 400 / 100 +
    (153 * month + 2) / 5 + day - 1 - 719468

def Date.days (date : Date) : Int :=
  if date.month ≤ 2 then daysOf (date.year - 1) (date.month + 9) date.day
  else daysOf date.year (date.month - 3) date.day

structure DayOfEra.Valid (parts : DayOfEra) : Prop where
  century : 0 ≤ parts.century ∧ parts.century ≤ 3
  four : 0 ≤ parts.four ∧ parts.four ≤ 24
  year : 0 ≤ parts.year ∧ parts.year ≤ 3
  day : 0 ≤ parts.day ∧ parts.day ≤ 365

private theorem ofDay_valid {day : Int} (low : 0 ≤ day) (high : day < 146097) :
    (DayOfEra.ofDay day).Valid := by
  constructor <;> simp only [DayOfEra.ofDay] <;> omega

private theorem ofDay_total (day : Int) :
    (DayOfEra.ofDay day).century * 36524 + (DayOfEra.ofDay day).four * 1461 +
      (DayOfEra.ofDay day).year * 365 + (DayOfEra.ofDay day).day = day := by
  simp only [DayOfEra.ofDay]
  omega

private theorem daysOf_parts (era month day : Int) {parts : DayOfEra} (valid : parts.Valid) :
    daysOf (era * 400 + parts.century * 100 + parts.four * 4 + parts.year) month day =
      era * 146097 + parts.century * 36524 + parts.four * 1461 + parts.year * 365 +
        (153 * month + 2) / 5 + day - 1 - 719468 := by
  obtain ⟨century, four, year, -⟩ := valid
  simp only [daysOf]
  omega

private theorem days_date (era : Int) {parts : DayOfEra} (valid : parts.Valid) :
    (parts.date era).days =
      era * 146097 + parts.century * 36524 + parts.four * 1461 + parts.year * 365 + parts.day -
        719468 := by
  have day := valid.day
  simp only [DayOfEra.date]
  split
  · rw [Date.days, if_neg (by simp only; omega)]
    rw [daysOf_parts era _ _ valid]
    simp only
    omega
  · rw [Date.days, if_pos (by simp only; omega)]
    simp only [add_sub_cancel_right]
    rw [daysOf_parts era _ _ valid]
    omega

theorem days_dateOfDays (days : Int) : (dateOfDays days).days = days := by
  have valid := ofDay_valid (Int.emod_nonneg (days + 719468) (by decide : (146097 : Int) ≠ 0))
    (Int.emod_lt_of_pos _ (by decide))
  have total := ofDay_total ((days + 719468) % 146097)
  rw [dateOfDays, days_date _ valid]
  omega

theorem dateOfDays_lt (days : Int) : (dateOfDays days).month < 100 ∧ (dateOfDays days).day < 100 := by
  have valid := ofDay_valid (Int.emod_nonneg (days + 719468) (by decide : (146097 : Int) ≠ 0))
    (Int.emod_lt_of_pos _ (by decide))
  obtain ⟨low, high⟩ := valid.day
  simp only [dateOfDays, DayOfEra.date]
  split <;> constructor <;> simp only <;> omega

def digit (n : Nat) : Char := Char.ofNat (n + 48)

def digitValue (c : Char) : Nat := c.toNat - 48

@[simp] theorem digit_isDigit {n : Nat} (small : n < 10) : (digit n).isDigit = true := by
  interval_cases n <;> rfl

@[simp] theorem digitValue_digit {n : Nat} (small : n < 10) : digitValue (digit n) = n := by
  interval_cases n <;> rfl

def pad2 (n : Nat) : Text := [digit (n / 10), digit (n % 10)]

def yearText (year : Int) : Text :=
  (if year < 0 then ['-'] else []) ++
    if year.natAbs < 10000 then pad2 (year.natAbs / 100) ++ pad2 (year.natAbs % 100)
    else ((Nat.digits 10 year.natAbs).map digit).reverse

def clockText (second : Nat) : Text :=
  'T' :: pad2 (second / 3600) ++ ':' :: pad2 (second / 60 % 60) ++ ':' :: pad2 (second % 60) ++ ['Z']

/-- The text of an instant given in seconds. -/
def format (seconds : Int) : Text :=
  let date := dateOfDays (seconds / 86400)
  yearText date.year ++ '-' :: pad2 date.month ++ '-' :: pad2 date.day ++
    clockText (seconds % 86400).toNat

def skip (c : Char) : Text → Option Text
  | [] => none
  | d :: rest => if d = c then some rest else none

/-- One or two digits, and exactly two where `fixed` says so. -/
def getnum (fixed : Bool) : Text → Option (Nat × Text)
  | [] => none
  | [a] => if a.isDigit ∧ !fixed then some (digitValue a, []) else none
  | a :: b :: rest =>
    if !a.isDigit then none
    else if b.isDigit then some (digitValue a * 10 + digitValue b, rest)
    else if fixed then none
    else some (digitValue a, b :: rest)

/-- A number after the mark that separates it from the field before. -/
def field (mark : Char) (fixed : Bool) (text : Text) : Option (Nat × Text) := do
  getnum fixed (← skip mark text)

def getYear (text : Text) : Option (Nat × Text) := do
  let (century, rest) ← getnum true text
  let (year, rest) ← getnum true rest
  return (century * 100 + year, rest)

/-- A fraction of a second in nanoseconds; further digits are dropped. -/
def getNanos : Text → Nat × Text
  | mark :: c :: rest =>
    if (mark = '.' ∨ mark = ',') ∧ c.isDigit then
      let digits := (c :: rest).takeWhile Char.isDigit
      let kept := digits.take 9
      (kept.foldl (fun n c => n * 10 + digitValue c) 0 * 10 ^ (9 - kept.length),
        (c :: rest).drop digits.length)
    else (0, mark :: c :: rest)
  | rest => (0, rest)

/-- The offset in seconds, which ends the text. -/
def getZone : Text → Option Int
  | ['Z'] => some 0
  | sign :: rest => do
    let (hour, rest) ← getnum true rest
    let (minute, rest) ← field ':' true rest
    if rest ≠ [] ∨ 24 < hour ∨ 60 < minute then none
    else if sign = '+' then some (hour * 3600 + minute * 60)
    else if sign = '-' then some (-(hour * 3600 + minute * 60))
    else none
  | [] => none

def daysIn (year month : Nat) : Nat :=
  if month = 2 then
    if year % 4 = 0 ∧ (year % 100 ≠ 0 ∨ year % 400 = 0) then 29 else 28
  else if month ∈ [4, 6, 9, 11] then 30
  else 31

/-- What follows the year. -/
def parseFrom (year : Nat) (rest : Text) : Option Int := do
  let (month, rest) ← field '-' true rest
  let (day, rest) ← field '-' true rest
  let (hour, rest) ← field 'T' false rest
  let (minute, rest) ← field ':' true rest
  let (second, rest) ← field ':' true rest
  let (nanos, rest) := getNanos rest
  let offset ← getZone rest
  if month = 0 ∨ 12 < month ∨ day = 0 ∨ daysIn year month < day ∨ 23 < hour ∨ 59 < minute ∨
      59 < second then none
  else
    let seconds := (Date.mk year month day).days * 86400 + hour * 3600 + minute * 60 + second
    some ((seconds - offset) * 1000000000 + nanos)

/-- The instant that `text` denotes, in nanoseconds. -/
def parse (text : Text) : Option Int := do
  let (year, rest) ← getYear text
  parseFrom year rest

private theorem getnum_pad2 (fixed : Bool) {n : Nat} (small : n < 100) (rest : Text) :
    getnum fixed (pad2 n ++ rest) = some (n, rest) := by
  have tens : n / 10 < 10 := by omega
  have ones : n % 10 < 10 := Nat.mod_lt n (by decide)
  simp only [pad2, List.cons_append, List.nil_append, getnum, digit_isDigit tens, digit_isDigit ones,
    digitValue_digit tens, digitValue_digit ones]
  simp only [Bool.not_true, Bool.false_eq_true, if_false, if_true, Option.some.injEq, Prod.mk.injEq,
    and_true]
  omega

private theorem field_pad2 (mark : Char) (fixed : Bool) {n : Nat} (small : n < 100) (rest : Text) :
    field mark fixed (mark :: (pad2 n ++ rest)) = some (n, rest) := by
  simp [field, skip, getnum_pad2 fixed small]

private theorem getnum_nondigit (fixed : Bool) {c : Char} (other : c.isDigit = false) (rest : Text) :
    getnum fixed (c :: rest) = none := by
  cases rest <;> simp [getnum, other]

private theorem getnum_true {a b : Char} {rest : Text} {n : Nat} {after : Text}
    (read : getnum true (a :: b :: rest) = some (n, after)) : after = rest := by
  simp only [getnum, if_true] at read
  split at read
  · cases read
  · split at read
    · cases read
      rfl
    · cases read

/-- A year of more than four digits leaves a digit where the dash should be. -/
private theorem getYear_long {digits rest after : Text} {n : Nat} (long : 4 < digits.length)
    (all : ∀ c ∈ digits, c.isDigit = true) (read : getYear (digits ++ rest) = some (n, after)) :
    skip '-' after = none := by
  match digits, long with
  | a :: b :: c :: d :: e :: more, _ =>
    simp only [getYear, List.cons_append, Option.bind_eq_bind, Option.bind_eq_some_iff,
      Prod.exists] at read
    obtain ⟨century, left, first, year, last, second, done⟩ := read
    obtain rfl := getnum_true first
    obtain rfl := getnum_true second
    cases done
    have notDash : e ≠ '-' := by
      rintro rfl
      exact absurd (all '-' (by simp)) (by decide)
    simp [skip, notDash]

/-- Only years of four digits are read back. -/
private theorem getYear_yearText {year : Int} {rest after more : Text} {n : Nat}
    (read : getYear (yearText year ++ '-' :: rest) = some (n, after))
    (dash : skip '-' after = some more) : (n : Int) = year ∧ after = '-' :: rest := by
  unfold yearText at read
  by_cases negative : year < 0
  · rw [if_pos negative] at read
    simp only [getYear, List.cons_append, getnum_nondigit true (show '-'.isDigit = false from rfl),
      Option.bind_eq_bind, Option.bind_none, reduceCtorEq] at read
  rw [if_neg negative, List.nil_append] at read
  by_cases four : year.natAbs < 10000
  · rw [if_pos four, getYear, List.append_assoc, getnum_pad2 true (by omega)] at read
    simp only [Option.bind_eq_bind, Option.bind_some, getnum_pad2 true (Nat.mod_lt _ (by decide))]
      at read
    cases read
    exact ⟨by omega, rfl⟩
  · rw [if_neg four] at read
    have long : 4 < (((Nat.digits 10 year.natAbs).map digit).reverse).length := by
      rw [List.length_reverse, List.length_map, Nat.lt_digits_length_iff (by decide)]
      omega
    rw [getYear_long long ?_ read] at dash
    · cases dash
    · intro c mem
      obtain ⟨d, dMem, rfl⟩ := List.mem_map.mp (List.mem_reverse.mp mem)
      exact digit_isDigit (Nat.digits_lt_base (by decide) dMem)

private theorem clock_parts (second : Nat) (day : second < 86400) :
    second / 3600 < 100 ∧ second / 60 % 60 < 100 ∧ second % 60 < 100 ∧
      second / 3600 * 3600 + second / 60 % 60 * 60 + second % 60 = second := by
  omega

private theorem parseFrom_format {year month day clock : Nat} {nanos : Int} (monthSmall : month < 100)
    (daySmall : day < 100) (clockSmall : clock < 86400)
    (read : parseFrom year ('-' :: pad2 month ++ '-' :: pad2 day ++ clockText clock) = some nanos) :
    nanos = ((Date.mk year month day).days * 86400 + clock) * 1000000000 := by
  obtain ⟨hour, minute, second, parts⟩ := clock_parts clock clockSmall
  have zone : getZone ['Z'] = some 0 := rfl
  have noNanos : getNanos ['Z'] = (0, ['Z']) := rfl
  simp only [parseFrom, clockText, List.append_assoc, List.cons_append] at read
  rw [field_pad2 _ _ monthSmall, Option.bind_eq_bind, Option.bind_some] at read
  simp only [field_pad2 _ _ daySmall, field_pad2 _ _ hour, field_pad2 _ _ minute,
    field_pad2 _ _ second, noNanos, zone, Option.bind_eq_bind, Option.bind_some,
    Option.ite_none_left_eq_some, Option.some.injEq] at read
  obtain ⟨-, rfl⟩ := read
  omega

private theorem parseFrom_skip {year : Nat} {text : Text} {nanos : Int}
    (read : parseFrom year text = some nanos) : ∃ more, skip '-' text = some more := by
  cases dash : skip '-' text with
  | none => simp [parseFrom, field, dash] at read
  | some more => exact ⟨more, rfl⟩

/-- What a formatted instant denotes, if anything, is the instant itself. -/
theorem parse_format {seconds nanos : Int} (read : parse (format seconds) = some nanos) :
    nanos = seconds * 1000000000 := by
  obtain ⟨month, day⟩ := dateOfDays_lt (seconds / 86400)
  have total := days_dateOfDays (seconds / 86400)
  simp only [parse, Option.bind_eq_bind, Option.bind_eq_some_iff, Prod.exists] at read
  obtain ⟨year, after, yearRead, afterRead⟩ := read
  obtain ⟨more, dash⟩ := parseFrom_skip afterRead
  simp only [format, List.append_assoc, List.cons_append] at yearRead
  obtain ⟨yearEq, rfl⟩ := getYear_yearText yearRead dash
  have clockSmall : (seconds % 86400).toNat < 86400 := by omega
  have value := parseFrom_format month day clockSmall (by simpa using afterRead)
  rw [yearEq, total] at value
  omega

end Dropway.Lib.Rfc3339
