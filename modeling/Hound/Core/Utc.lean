import Hound.Core.Types
import Hound.Lib.Decimal

/-!
# Dates

`parse_utc` and `format_utc` of `utilities.cpp`. The first counts days by its
own loops over years and months; the second is `gmtime_r` and `strftime`, here
the Gregorian calendar.
-/

namespace Hound

open Decimal

/-! ## Reading a date -/

/-- `days[]`, the lengths of the months. -/
def monthDays : List Nat := [31, 28, 31, 30, 31, 30, 31, 31, 30, 31, 30, 31]

/-- `days[month - 1] + (month == 2 && year % 4 == 0)`. -/
def daysIn (year month : Nat) : Nat :=
  monthDays.getD (month - 1) 0 + if month == 2 && year % 4 == 0 then 1 else 0

/-- The lambda `n`: the number in `size` digits from `i`. -/
def digitsAt (s : Bytes) (i size : Nat) : Nat := value ((s.drop i).take size)

/-- The two loops over earlier years and earlier months. -/
def daysBefore (year month : Nat) : Nat :=
  ((List.range' 1970 (year - 1970)).map fun y => 365 + if y % 4 == 0 then 1 else 0).sum +
    ((List.range' 1 (month - 1)).map (daysIn year)).sum

def parseUtc (s : Bytes) : Option Nat :=
  if s.length != 12 || !s.all JsonTree.isDigit then none
  else
    let year := digitsAt s 0 4
    let month := digitsAt s 4 2
    let day := digitsAt s 6 2
    let hour := digitsAt s 8 2
    let minute := digitsAt s 10 2
    if year < 2020 || 2099 < year || month < 1 || 12 < month || 23 < hour || 59 < minute then none
    else if day < 1 || daysIn year month < day then none
    else some ((daysBefore year month + day - 1) * 86400 + hour * 3600 + minute * 60)

/-! ## The calendar -/

def leapYear (year : Nat) : Bool := year % 4 == 0 && (year % 100 != 0 || year % 400 == 0)

def yearLength (year : Nat) : Nat := if leapYear year then 366 else 365

def monthLengths (year : Nat) : List Nat :=
  [31, if leapYear year then 29 else 28, 31, 30, 31, 30, 31, 31, 30, 31, 30, 31]

/-- The span that holds position `n` when spans of these lengths follow each
other, and the place inside it. -/
def locateSpan : List Nat → Nat → Nat × Nat
  | [], n => (0, n)
  | len :: lens, n =>
      if n < len then (0, n) else ((locateSpan lens (n - len)).1 + 1, (locateSpan lens (n - len)).2)

/-- `tm`, with its year and month as they are written. -/
structure Tm where
  year : Nat
  month : Nat
  day : Nat
  hour : Nat
  minute : Nat
  second : Nat
  deriving DecidableEq, Repr

/-- The years `format_utc` can ask for. -/
def calendarYears : List Nat := List.range' 1970 130

def gmtime (seconds : Nat) : Tm :=
  let (y, dayOfYear) := locateSpan (calendarYears.map yearLength) (seconds / 86400)
  let (m, d) := locateSpan (monthLengths (1970 + y)) dayOfYear
  { year := 1970 + y, month := m + 1, day := d + 1, hour := seconds % 86400 / 3600,
    minute := seconds % 3600 / 60, second := seconds % 60 }

/-- `%Y-%m-%dT%H:%M:%SZ`. -/
def strftime (t : Tm) : Bytes :=
  padded 4 t.year ++ (45 :: padded 2 t.month ++ (45 :: padded 2 t.day ++ (84 :: padded 2 t.hour ++
    (58 :: padded 2 t.minute ++ (58 :: padded 2 t.second ++ [90])))))

/-- `format_utc` into a buffer of at least 21 characters. -/
def formatUtc (seconds : Nat) : Bytes :=
  if seconds < 1577836800 || 4102444799 < seconds then [] else strftime (gmtime seconds)

/-! ## Spans -/

theorem locateSpan_spec {lens : List Nat} {n : Nat} (h : n < lens.sum) :
    (locateSpan lens n).1 < lens.length ∧
      (locateSpan lens n).2 < lens.getD (locateSpan lens n).1 0 ∧
      (lens.take (locateSpan lens n).1).sum + (locateSpan lens n).2 = n := by
  induction lens generalizing n with
  | nil => simp at h
  | cons len lens ih =>
    unfold locateSpan
    split
    · rename_i hlt
      simpa using hlt
    · rename_i hge
      have hrest : n - len < lens.sum := by
        rw [List.sum_cons] at h
        omega
      obtain ⟨hindex, hinside, htotal⟩ := ih hrest
      refine ⟨by simpa using hindex, by simpa using hinside, ?_⟩
      rw [List.take_succ_cons, List.sum_cons]
      omega

theorem sum_take_le (lens : List Nat) {a b : Nat} (h : a ≤ b) :
    (lens.take a).sum ≤ (lens.take b).sum := by
  have hsub : (lens.take a).Sublist (lens.take b) := List.take_sublist_take_left h
  exact hsub.sum_le_sum fun _ _ => Nat.zero_le _

/-! ## A formatted date reads back -/

theorem yearLength_eq {year : Nat} (h : year ∈ calendarYears) :
    yearLength year = 365 + if year % 4 == 0 then 1 else 0 := by
  have hall : ∀ y ∈ calendarYears, yearLength y = 365 + if y % 4 == 0 then 1 else 0 := by
    decide +kernel
  exact hall year h

theorem leapYear_eq {year : Nat} (h : year ∈ calendarYears) : leapYear year = (year % 4 == 0) := by
  have hlen := yearLength_eq h
  unfold yearLength at hlen
  cases hleap : leapYear year <;> cases hfour : year % 4 == 0 <;> simp_all

theorem monthLengths_eq {year : Nat} (h : year ∈ calendarYears) :
    monthLengths year = (List.range' 1 12).map (daysIn year) := by
  rw [monthLengths, leapYear_eq h]
  cases hfour : year % 4 == 0 <;> simp [daysIn, monthDays, hfour, List.range']

/-- What `gmtime` says of an instant `format_utc` writes. -/
structure Civil (seconds : Nat) (t : Tm) : Prop where
  early : 2020 ≤ t.year
  late : t.year ≤ 2099
  month : 1 ≤ t.month ∧ t.month ≤ 12
  day : 1 ≤ t.day ∧ t.day ≤ daysIn t.year t.month
  hour : t.hour ≤ 23
  minute : t.minute ≤ 59
  second : t.second ≤ 59
  total : (daysBefore t.year t.month + t.day - 1) * 86400 + t.hour * 3600 + t.minute * 60 +
    t.second = seconds

theorem civil_gmtime {seconds : Nat} (hlow : 1577836800 ≤ seconds) (hhigh : seconds ≤ 4102444799) :
    Civil seconds (gmtime seconds) := by
  have hsum : (calendarYears.map yearLength).sum = 47482 := by decide +kernel
  have h2020 : ((calendarYears.map yearLength).take 50).sum = 18262 := by decide
  have hdays : seconds / 86400 < (calendarYears.map yearLength).sum := by omega
  obtain ⟨hyear, hday, htotal⟩ := locateSpan_spec hdays
  unfold gmtime
  generalize locateSpan (calendarYears.map yearLength) (seconds / 86400) = span at *
  obtain ⟨y, dayOfYear⟩ := span
  simp only at hyear hday htotal ⊢
  have hlen : (calendarYears.map yearLength).length = 130 := by simp [calendarYears]
  rw [hlen] at hyear
  have hmem : 1970 + y ∈ calendarYears := by
    simp only [calendarYears, List.mem_range'_1]
    omega
  have hfrom : 50 ≤ y := by
    by_contra hlt
    have hle := sum_take_le (calendarYears.map yearLength) (show y + 1 ≤ 50 by omega)
    have hnext : ((calendarYears.map yearLength).take (y + 1)).sum =
        ((calendarYears.map yearLength).take y).sum + (calendarYears.map yearLength).getD y 0 := by
      rw [List.take_add_one, List.sum_append, List.getD_eq_getElem?_getD]
      cases (calendarYears.map yearLength)[y]? <;> simp
    omega
  have hyears : ((calendarYears.map yearLength).take y).sum =
      ((List.range' 1970 y).map fun y => 365 + if y % 4 == 0 then 1 else 0).sum := by
    rw [← List.map_take]
    have htake : calendarYears.take y = List.range' 1970 y :=
      List.take_range'_of_length_ge (by omega)
    rw [htake]
    refine congrArg List.sum (List.map_congr_left fun z hz => yearLength_eq ?_)
    simp only [calendarYears, List.mem_range'_1] at hz ⊢
    omega
  have hlength : (calendarYears.map yearLength).getD y 0 = yearLength (1970 + y) := by
    simp [calendarYears, hyear]
  have hmonths : (monthLengths (1970 + y)).sum = yearLength (1970 + y) := by
    unfold monthLengths yearLength
    split <;> rfl
  rw [hlength, ← hmonths] at hday
  obtain ⟨hmonth, hinside, hrest⟩ := locateSpan_spec hday
  generalize locateSpan (monthLengths (1970 + y)) dayOfYear = span at *
  obtain ⟨m, d⟩ := span
  simp only at hmonth hinside hrest ⊢
  have htwelve : m < 12 := hmonth
  rw [monthLengths_eq hmem] at hinside hrest
  have hin : d < daysIn (1970 + y) (m + 1) := by
    simpa [htwelve, Nat.add_comm 1 m] using hinside
  have hbefore : daysBefore (1970 + y) (m + 1) + d = seconds / 86400 := by
    rw [← List.map_take, List.take_range'_of_length_ge (by omega)] at hrest
    simp only [daysBefore, Nat.add_sub_cancel_left, Nat.add_sub_cancel]
    omega
  exact {
    early := by simp only; omega
    late := by simp only; omega
    month := by simp only; omega
    day := by simp only; omega
    hour := by simp only; omega
    minute := by simp only; omega
    second := by simp only; omega
    total := by simp only; omega }

/-- The slices `validate_log` takes out of a date. -/
def dateDigits (utc : Bytes) : Bytes :=
  utc.take 4 ++ ((utc.drop 5).take 2 ++ ((utc.drop 8).take 2 ++ ((utc.drop 11).take 2 ++
    (utc.drop 14).take 2)))

theorem dateDigits_strftime (t : Tm) :
    dateDigits (strftime t) = padded 4 t.year ++ (padded 2 t.month ++ (padded 2 t.day ++
      (padded 2 t.hour ++ padded 2 t.minute))) := by
  simp [dateDigits, strftime, padded]

theorem digitsAt_padded (before after : Bytes) {width n i : Nat} (hi : i = before.length)
    (hn : n < 10 ^ width) : digitsAt (before ++ (padded width n ++ after)) i width = n := by
  have htake : ((before ++ (padded width n ++ after)).drop i).take width = padded width n := by
    rw [hi, List.drop_left, List.take_left' (length_padded width n)]
  rw [digitsAt, htake, value_padded, Nat.mod_eq_of_lt hn]

theorem daysIn_le (year month : Nat) : daysIn year month ≤ 31 := by
  unfold daysIn
  split
  · rename_i hfeb
    have htwo : month = 2 := by
      simp only [Bool.and_eq_true, beq_iff_eq] at hfeb
      exact hfeb.1
    rw [htwo]
    decide
  · have hall : ∀ d ∈ monthDays, d ≤ 31 := by decide
    rw [Nat.add_zero, List.getD_eq_getElem?_getD]
    cases hget : monthDays[month - 1]? with
    | none => exact Nat.zero_le _
    | some d => exact hall d (List.mem_of_getElem? hget)

/-- A date in range is read back to its minute. -/
theorem parseUtc_civil {seconds : Nat} {t : Tm} (h : Civil seconds t) :
    parseUtc (dateDigits (strftime t)) = some (seconds / 60 * 60) := by
  obtain ⟨hearly, hlate, hmonth, hday, hhour, hminute, hsecond, htotal⟩ := h
  have hdays := daysIn_le t.year t.month
  rw [dateDigits_strftime]
  generalize hs : padded 4 t.year ++ (padded 2 t.month ++ (padded 2 t.day ++
    (padded 2 t.hour ++ padded 2 t.minute))) = s
  have hyears : digitsAt s 0 4 = t.year := by
    rw [← hs]
    exact digitsAt_padded [] _ rfl (by omega)
  have hmonths : digitsAt s 4 2 = t.month := by
    rw [← hs]
    exact digitsAt_padded (padded 4 t.year) _ (by simp) (by omega)
  have hdates : digitsAt s 6 2 = t.day := by
    rw [← hs, ← List.append_assoc]
    exact digitsAt_padded (padded 4 t.year ++ padded 2 t.month) _ (by simp) (by omega)
  have hhours : digitsAt s 8 2 = t.hour := by
    rw [← hs, ← List.append_assoc, ← List.append_assoc]
    exact digitsAt_padded ((padded 4 t.year ++ padded 2 t.month) ++ padded 2 t.day) _ (by simp)
      (by omega)
  have hminutes : digitsAt s 10 2 = t.minute := by
    rw [← hs, ← List.append_assoc, ← List.append_assoc, ← List.append_assoc,
      ← List.append_nil (padded 2 t.minute)]
    exact digitsAt_padded (((padded 4 t.year ++ padded 2 t.month) ++ padded 2 t.day) ++
      padded 2 t.hour) [] (by simp) (by omega)
  have hlength : s.length = 12 := by
    rw [← hs]
    simp
  have hall : s.all JsonTree.isDigit = true := by
    rw [← hs]
    simp only [List.all_append, Bool.and_eq_true, List.all_eq_true]
    exact ⟨fun _ => isDigit_padded, fun _ => isDigit_padded, fun _ => isDigit_padded,
      fun _ => isDigit_padded, fun _ => isDigit_padded⟩
  have hrange : (t.year < 2020 || 2099 < t.year || t.month < 1 || 12 < t.month || 23 < t.hour ||
      59 < t.minute) = false := by
    simp only [Bool.or_eq_false_iff, decide_eq_false_iff_not]
    omega
  have hinside : (t.day < 1 || daysIn t.year t.month < t.day) = false := by
    simp only [Bool.or_eq_false_iff, decide_eq_false_iff_not]
    omega
  have htime : (daysBefore t.year t.month + t.day - 1) * 86400 + t.hour * 3600 + t.minute * 60 =
      seconds / 60 * 60 := by
    have hsplit : seconds = t.second +
        60 * ((daysBefore t.year t.month + t.day - 1) * 1440 + t.hour * 60 + t.minute) := by
      rw [← htotal]
      ring
    rw [hsplit, Nat.add_mul_div_left _ _ (by decide), Nat.div_eq_of_lt (by omega)]
    ring
  have hshape : (s.length != 12 || !s.all JsonTree.isDigit) = false := by
    rw [hlength, hall]
    rfl
  unfold parseUtc
  simp only [hshape, hyears, hmonths, hdates, hhours, hminutes, hrange, hinside,
    Bool.false_eq_true, if_false]
  exact congrArg some htime

theorem formatUtc_cases (seconds : Nat) :
    formatUtc seconds = [] ∨ Civil seconds (gmtime seconds) ∧
      formatUtc seconds = strftime (gmtime seconds) := by
  by_cases h : (seconds < 1577836800 || 4102444799 < seconds) = true
  · left
    rw [formatUtc, if_pos h]
  · right
    rw [formatUtc, if_neg h]
    simp only [Bool.or_eq_true, decide_eq_true_eq, not_or, Nat.not_lt] at h
    exact ⟨civil_gmtime h.1 h.2, rfl⟩

end Hound
