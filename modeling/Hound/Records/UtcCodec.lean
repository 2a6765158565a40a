import Hound.Records.ValidateLog

/-!
# The codec of dates

`parse_utc` accepts the minutes of the Gregorian calendar from 2020 to 2099, in
order, and `format_utc` writes them back. Both count days by their own rules, so
everything goes through the days before a month.
-/

namespace Hound

open Decimal JsonTree

/-! ## Days before a month -/

theorem daysBefore_succ (year : Nat) {month : Nat} (h : 1 ≤ month) :
    daysBefore year (month + 1) = daysBefore year month + daysIn year month := by
  obtain ⟨m, rfl⟩ := Nat.exists_eq_add_of_le' h
  unfold daysBefore
  rw [Nat.add_sub_cancel, Nat.add_sub_cancel, List.range'_1_concat, List.map_append, List.sum_append,
    List.map_singleton, List.sum_singleton, Nat.add_comm 1 m, Nat.add_assoc]

/-- A year is over after its twelve months. -/
theorem daysBefore_year {year : Nat} (h : 1970 ≤ year) : daysBefore year 13 = daysBefore (year + 1) 1 := by
  have hyears : year + 1 - 1970 = year - 1970 + 1 := by omega
  have hlast : 1970 + (year - 1970) = year := by omega
  have hbefore : ∀ n, List.range' 1970 (n + 1) = List.range' 1970 n ++ [1970 + n] := fun n => List.range'_1_concat
  have hmonths : ((List.range' 1 (13 - 1)).map (daysIn year)).sum =
      (365 + if year % 4 == 0 then 1 else 0) + ((List.range' 1 (1 - 1)).map (daysIn (year + 1))).sum := by
    cases hfour : year % 4 == 0 <;> simp [daysIn, monthDays, hfour, List.range']
  unfold daysBefore
  rw [hmonths, hyears, hbefore, List.map_append, List.sum_append, List.map_singleton, List.sum_singleton, hlast]
  exact (Nat.add_assoc _ _ _).symm

theorem daysBefore_month_le (year : Nat) {m n : Nat} (hm : 1 ≤ m) (hmn : m ≤ n) :
    daysBefore year m ≤ daysBefore year n := by
  induction n, hmn using Nat.le_induction with
  | base => exact Nat.le_refl _
  | succ n hle ih =>
    rw [daysBefore_succ year (hm.trans hle)]
    exact ih.trans (Nat.le_add_right _ _)

theorem daysBefore_year_le {y z : Nat} (hy : 1970 ≤ y) (hyz : y ≤ z) : daysBefore y 1 ≤ daysBefore z 1 := by
  induction z, hyz using Nat.le_induction with
  | base => exact Nat.le_refl _
  | succ z hle ih =>
    rw [← daysBefore_year (hy.trans hle)]
    exact ih.trans (daysBefore_month_le z (Nat.le_refl 1) (by decide))

/-- The last day of a month lies before any later month. -/
theorem daysIn_before {y m z n : Nat} (hy : 1970 ≤ y) (hm : 1 ≤ m) (hm' : m ≤ 12) (hn : 1 ≤ n)
    (hlater : y < z ∨ y = z ∧ m < n) : daysBefore y m + daysIn y m ≤ daysBefore z n := by
  rw [← daysBefore_succ y hm]
  rcases hlater with hyear | ⟨rfl, hmonth⟩
  · calc
      daysBefore y (m + 1) ≤ daysBefore y 13 := daysBefore_month_le y (by omega) (by omega)
      _ = daysBefore (y + 1) 1 := daysBefore_year hy
      _ ≤ daysBefore z 1 := daysBefore_year_le (by omega) hyear
      _ ≤ daysBefore z n := daysBefore_month_le z (Nat.le_refl 1) hn
  · exact daysBefore_month_le y (by omega) hmonth

/-! ## Minutes of the calendar -/

/-- A minute of the Gregorian calendar in the years of the product. -/
structure Minute where
  tm : Tm
  early : 2020 ≤ tm.year
  late : tm.year ≤ 2099
  month : 1 ≤ tm.month ∧ tm.month ≤ 12
  day : 1 ≤ tm.day ∧ tm.day ≤ (monthLengths tm.year).getD (tm.month - 1) 0
  hour : tm.hour ≤ 23
  minute : tm.minute ≤ 59
  second : tm.second = 0

/-- `YYYYMMDDHHMM`. -/
def Minute.text (t : Minute) : Bytes :=
  padded 4 t.tm.year ++ (padded 2 t.tm.month ++ (padded 2 t.tm.day ++
    (padded 2 t.tm.hour ++ padded 2 t.tm.minute)))

/-- The minute as a number, whose digits are the text. -/
def Tm.stamp (t : Tm) : Nat :=
  t.year * 100000000 + t.month * 1000000 + t.day * 10000 + t.hour * 100 + t.minute

theorem monthLengths_getD {year month : Nat} (hyear : year ∈ calendarYears) (hlow : 1 ≤ month) (hhigh : month ≤ 12) :
    (monthLengths year).getD (month - 1) 0 = daysIn year month := by
  obtain ⟨m, rfl⟩ := Nat.exists_eq_add_of_le' hlow
  have hm : m < 12 := by omega
  rw [monthLengths_eq hyear]
  simp [hm, Nat.add_comm 1 m]

theorem mem_calendarYears {year : Nat} (hearly : 2020 ≤ year) (hlate : year ≤ 2099) : year ∈ calendarYears := by
  simp only [calendarYears, List.mem_range'_1]
  omega

/-- The simplified leap rule agrees with the calendar in these years. -/
theorem Minute.civil (t : Minute) : Civil ((daysBefore t.tm.year t.tm.month + t.tm.day - 1) * 86400 +
    t.tm.hour * 3600 + t.tm.minute * 60) t.tm := by
  have hday := t.day
  rw [monthLengths_getD (mem_calendarYears t.early t.late) t.month.1 t.month.2] at hday
  exact {
    early := t.early
    late := t.late
    month := t.month
    day := hday
    hour := t.hour
    minute := t.minute
    second := by rw [t.second]; decide
    total := by rw [t.second, Nat.add_zero] }

/-- Earlier dates have fewer seconds. -/
theorem Civil.mono {a b : Nat} {s t : Tm} (ha : Civil a s) (hb : Civil b t) (hlt : s.stamp < t.stamp) :
    a < b := by
  obtain ⟨hearly, hlate, hmonth, hday, hhour, hminute, hsecond, htotal⟩ := ha
  obtain ⟨hearly', hlate', hmonth', hday', hhour', hminute', hsecond', htotal'⟩ := hb
  have hin := daysIn_le s.year s.month
  have hin' := daysIn_le t.year t.month
  unfold Tm.stamp at hlt
  by_cases hsame : s.year = t.year ∧ s.month = t.month
  · rw [← hsame.1, ← hsame.2] at hlt htotal' hday'
    generalize daysBefore s.year s.month = days at htotal htotal'
    omega
  · -- a later month: all of the earlier one is over
    have hlater : s.year < t.year ∨ s.year = t.year ∧ s.month < t.month := by omega
    have hbefore := daysIn_before (by omega) hmonth.1 hmonth.2 hmonth'.1 hlater
    omega

theorem Civil.bounds {a : Nat} {t : Tm} (h : Civil a t) : 1577836800 ≤ a ∧ a ≤ 4102444799 := by
  obtain ⟨hearly, hlate, hmonth, hday, hhour, hminute, hsecond, htotal⟩ := h
  have hfirst : daysBefore 2020 1 = 18262 := by decide +kernel
  have hlast : daysBefore 2100 1 = 47482 := by decide +kernel
  have hlow : daysBefore 2020 1 ≤ daysBefore t.year t.month :=
    (daysBefore_year_le (by decide) hearly).trans (daysBefore_month_le t.year (Nat.le_refl 1) hmonth.1)
  have hhigh : daysBefore t.year t.month + daysIn t.year t.month ≤ daysBefore 2100 1 :=
    daysIn_before (by omega) hmonth.1 hmonth.2 (Nat.le_refl 1) (.inl (by omega))
  omega

/-! ## What `parse_utc` reads -/

/-- What makes `parse_utc` accept, and what it returns. -/
theorem parseUtc_eq_some {s : Bytes} {a : Nat} (h : parseUtc s = some a) :
    ∃ t : Minute, s = t.text ∧ Civil a t.tm := by
  unfold parseUtc at h
  split at h
  · exact nomatch h
  rename_i hshape
  simp only [Bool.or_eq_true, bne_iff_ne, Bool.not_eq_true', not_or, Bool.not_eq_false, ne_eq,
    Decidable.not_not, List.all_eq_true] at hshape
  obtain ⟨hlength, hdigits⟩ := hshape
  dsimp only at h
  split at h
  · exact nomatch h
  rename_i hrange
  simp only [Bool.or_eq_true, decide_eq_true_eq, not_or, Nat.not_lt] at hrange
  split at h
  · exact nomatch h
  rename_i hday
  simp only [Bool.or_eq_true, decide_eq_true_eq, not_or, Nat.not_lt] at hday
  obtain ⟨⟨⟨⟨⟨hearly, hlate⟩, hmonth⟩, hmonth'⟩, hhour⟩, hminute⟩ := hrange
  have hinside := monthLengths_getD (mem_calendarYears hearly hlate) hmonth hmonth'
  let t : Minute :=
    { tm := ⟨digitsAt s 0 4, digitsAt s 4 2, digitsAt s 6 2, digitsAt s 8 2, digitsAt s 10 2, 0⟩
      early := hearly
      late := hlate
      month := ⟨hmonth, hmonth'⟩
      day := by rw [hinside]; exact hday
      hour := hhour
      minute := hminute
      second := rfl }
  have hslice : ∀ i size, i + size ≤ 12 → padded size (digitsAt s i size) = (s.drop i).take size := by
    intro i size hfits
    have hlen : ((s.drop i).take size).length = size := by
      rw [List.length_take, List.length_drop, hlength]
      omega
    have hdigits' : ∀ d ∈ (s.drop i).take size, isDigit d = true :=
      fun d hd => hdigits d (List.mem_of_mem_drop (List.mem_of_mem_take hd))
    have hback := padded_value hdigits'
    rw [hlen] at hback
    exact hback
  have htext : t.text = s.take 4 ++ ((s.drop 4).take 2 ++ ((s.drop 6).take 2 ++
      ((s.drop 8).take 2 ++ (s.drop 10).take 2))) := by
    unfold Minute.text
    rw [hslice 0 4 (by decide), hslice 4 2 (by decide), hslice 6 2 (by decide), hslice 8 2 (by decide),
      hslice 10 2 (by decide), List.drop_zero]
  have hwhole : (s.drop 10).take 2 = s.drop 10 :=
    List.take_of_length_le (by rw [List.length_drop, hlength])
  have hjoin : ∀ i, (s.drop i).take 2 ++ s.drop (i + 2) = s.drop i := by
    intro i
    rw [← List.drop_drop]
    exact List.take_append_drop 2 _
  refine ⟨t, ?_, ?_⟩
  · rw [htext, hwhole, hjoin 8, hjoin 6, hjoin 4, List.take_append_drop]
  · have hcivil := t.civil
    rw [Option.some.inj h] at hcivil
    exact hcivil

theorem dateDigits_minute (t : Minute) : dateDigits (strftime t.tm) = t.text := dateDigits_strftime t.tm

/-- Every minute is accepted. -/
theorem Minute.parse (t : Minute) : ∃ a, parseUtc t.text = some a := by
  rw [← dateDigits_minute]
  exact ⟨_, parseUtc_civil t.civil⟩

theorem Minute.isDigit_text (t : Minute) : ∀ d ∈ t.text, isDigit d = true := by
  intro d hd
  simp only [Minute.text, List.mem_append] at hd
  rcases hd with hd | hd | hd | hd | hd
  all_goals exact isDigit_padded hd

theorem Minute.value_text (t : Minute) : value t.text = t.tm.stamp := by
  have hday := t.civil.day
  have hin := daysIn_le t.tm.year t.tm.month
  have hlate := t.late
  have hmonth := t.month
  have hhour := t.hour
  have hminute := t.minute
  unfold Minute.text Tm.stamp
  simp only [value_append, value_padded, List.length_append, length_padded]
  omega

theorem Minute.text_lt (s t : Minute) : s.text < t.text ↔ s.tm.stamp < t.tm.stamp := by
  have hlength : s.text.length = t.text.length := by simp [Minute.text]
  rw [lt_iff_value_lt s.isDigit_text t.isDigit_text hlength, s.value_text, t.value_text]

/-- The seconds are in the order of the strings. -/
theorem parseUtc_lt {s t : Bytes} {a b : Nat} (hs : parseUtc s = some a) (ht : parseUtc t = some b) :
    s < t ↔ a < b := by
  obtain ⟨m, rfl, hm⟩ := parseUtc_eq_some hs
  obtain ⟨n, rfl, hn⟩ := parseUtc_eq_some ht
  rw [Minute.text_lt]
  rcases Nat.lt_trichotomy m.tm.stamp n.tm.stamp with hlt | heq | hgt
  · exact iff_of_true hlt (hm.mono hn hlt)
  · have htext : m.text = n.text := by
      have hvalue : value m.text = value n.text := by rw [m.value_text, n.value_text, heq]
      have hlength : m.text.length = n.text.length := by simp [Minute.text]
      rw [← padded_value m.isDigit_text, ← padded_value n.isDigit_text, hvalue, hlength]
    rw [htext, ht] at hs
    have hab : b = a := Option.some.inj hs
    exact iff_of_false (by omega) (by omega)
  · have hba := hn.mono hm hgt
    exact iff_of_false (by omega) (by omega)

/-! ## What `format_utc` writes -/

/-- A date of `parse_utc` as `format_utc` writes it, at second 00. -/
def dateText (s : Bytes) : Bytes :=
  s.take 4 ++ (45 :: (s.drop 4).take 2 ++ (45 :: (s.drop 6).take 2 ++ (84 :: (s.drop 8).take 2 ++
    (58 :: (s.drop 10).take 2 ++ [58, 48, 48, 90]))))

theorem dateText_minute (t : Minute) : dateText t.text = strftime t.tm := by
  have hzero : digit 0 = 48 := by decide
  simp [dateText, Minute.text, strftime, padded, t.second, hzero]

/-- Equal seconds are the same minute. -/
theorem Civil.unique {a : Nat} {s t : Minute} (hs : Civil a s.tm) (ht : Civil a t.tm) : s.text = t.text := by
  have hst : ¬ s.tm.stamp < t.tm.stamp := fun h => Nat.lt_irrefl a (hs.mono ht h)
  have hts : ¬ t.tm.stamp < s.tm.stamp := fun h => Nat.lt_irrefl a (ht.mono hs h)
  have hvalue : value s.text = value t.text := by
    rw [s.value_text, t.value_text]
    omega
  have hlength : s.text.length = t.text.length := by simp [Minute.text]
  rw [← padded_value s.isDigit_text, ← padded_value t.isDigit_text, hvalue, hlength]

theorem formatUtc_parseUtc {s : Bytes} {a : Nat} (h : parseUtc s = some a) : formatUtc a = dateText s := by
  obtain ⟨t, rfl, ht⟩ := parseUtc_eq_some h
  have hbounds := ht.bounds
  have hg := civil_gmtime hbounds.1 hbounds.2
  have hminute : a % 60 = 0 := by
    have htotal := ht.total
    rw [t.second] at htotal
    omega
  let g : Minute :=
    { tm := gmtime a
      early := hg.early
      late := hg.late
      month := hg.month
      day := by
        rw [monthLengths_getD (mem_calendarYears hg.early hg.late) hg.month.1 hg.month.2]
        exact hg.day
      hour := hg.hour
      minute := hg.minute
      second := hminute }
  have hrange : (a < 1577836800 || 4102444799 < a) = false := by
    simp only [Bool.or_eq_false_iff, decide_eq_false_iff_not]
    omega
  have hsame : t.text = g.text := Civil.unique ht (show Civil a g.tm from hg)
  unfold formatUtc
  rw [hrange, hsame, dateText_minute]
  rfl

theorem validDate_strftime {a : Nat} {t : Tm} (h : Civil a t) : validDate (strftime t) = true := by
  have hparse := parseUtc_civil h
  have htens : byteAt (strftime t) 17 = digit (t.second / 10) := by
    simp [strftime, padded, byteAt]
  have hones : byteAt (strftime t) 18 = digit t.second := by
    simp [strftime, padded, byteAt]
  have hdigit := digit_toNat (t.second / 10)
  have hsecond := h.second
  have hlow : (48 : UInt8) ≤ digit (t.second / 10) := by
    rw [UInt8.le_iff_toNat_le, hdigit]
    exact Nat.le_add_right 48 _
  have hhigh : digit (t.second / 10) ≤ (53 : UInt8) := by
    have hfive : 48 + t.second / 10 % 10 ≤ 53 := by omega
    rw [UInt8.le_iff_toNat_le, hdigit]
    exact hfive
  have hmarks : (strftime t).length == 20 && byteAt (strftime t) 4 == 45 && byteAt (strftime t) 7 == 45 &&
      byteAt (strftime t) 10 == 84 && byteAt (strftime t) 13 == 58 && byteAt (strftime t) 16 == 58 &&
      byteAt (strftime t) 19 == 90 := by
    simp [strftime, padded, byteAt]
  unfold validDate
  rw [hmarks, hparse, htens, hones, isDigit_digit, decide_eq_true hlow, decide_eq_true hhigh]
  rfl

/-- `parse_utc` and `format_utc` are a codec of the minutes of the calendar. -/
theorem utc_codec :
    (∀ s, (parseUtc s).isSome = true ↔ ∃ t : Minute, s = t.text) ∧
      (∀ s t a b, parseUtc s = some a → parseUtc t = some b → (s < t ↔ a < b)) ∧
      (∀ s a, parseUtc s = some a → 1577836800 ≤ a ∧ a ≤ 4102444799 ∧ formatUtc a = dateText s) ∧
      ∀ seconds, formatUtc seconds = [] ∨
        (formatUtc seconds).length = 20 ∧ validDate (formatUtc seconds) = true := by
  refine ⟨fun s => ⟨fun h => ?_, fun h => ?_⟩, fun s t a b => parseUtc_lt, fun s a h => ?_, fun seconds => ?_⟩
  · obtain ⟨a, ha⟩ := Option.isSome_iff_exists.mp h
    obtain ⟨t, ht, -⟩ := parseUtc_eq_some ha
    exact ⟨t, ht⟩
  · obtain ⟨t, rfl⟩ := h
    exact Option.isSome_iff_exists.mpr t.parse
  · obtain ⟨t, -, ht⟩ := parseUtc_eq_some h
    exact ⟨ht.bounds.1, ht.bounds.2, formatUtc_parseUtc h⟩
  · rcases formatUtc_cases seconds with hempty | ⟨hcivil, htext⟩
    · exact .inl hempty
    · rw [htext]
      exact .inr ⟨by simp [strftime], validDate_strftime hcivil⟩

end Hound
