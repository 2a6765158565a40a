import Hound.Watch.Presence

/-!
# When Travel Watch warns

A warning means that the identity was really followed, and a present identity
is never pushed out by others. Reports that the owner is near end a window only
when they pass the guards and are not older than its last sighting.
-/

namespace Hound

namespace TagWatch

open Runs

theorem first_le_last {first : Detection} {later : List Detection} (h : Regular (first :: later)) :
    first.lastMs.toNat ≤ (lastOf first later).toNat :=
  UInt64.le_iff_toNat_le.mp (le_lastOf h.increasing first List.mem_cons_self)

/-- `ready` asks of the counters what `Followed` asks of the sightings. -/
theorem ready_iff {e : Entry} {first : Detection} {later : List Detection} (hkept : Kept e first later)
    (hzero : e.hash ≠ 0) (now : UInt64) : e.ready now = true ↔ Followed first later now := by
  have hle := first_le_last hkept.regular
  have hminutes : requiredMinutes ≤ e.minutes ↔ 8 ≤ (minutesOf first (first :: later)).card := by
    rw [UInt16.le_iff_toNat_le, hkept.minutes]
    have height : requiredMinutes.toNat = 8 := rfl
    omega
  have hlong : duration ≤ e.last - e.first ↔
      first.lastMs.toNat + 600000 ≤ (lastOf first later).toNat := by
    have hten : duration.toNat = 600000 := rfl
    rw [UInt64.le_iff_toNat_le, hkept.last, hkept.start,
      UInt64.toNat_sub_of_le _ _ (UInt64.le_iff_toNat_le.mpr hle), hten]
    omega
  have horder : e.first ≤ e.last := by
    rw [hkept.last, hkept.start]
    exact UInt64.le_iff_toNat_le.mpr hle
  have hfresh : e.fresh now = true ↔ (lastOf first later).toNat ≤ now.toNat ∧
      now.toNat ≤ (lastOf first later).toNat + 120000 := by
    have htwo : gap.toNat = 120000 := rfl
    simp only [Entry.fresh, Bool.and_eq_true, bne_iff_ne, decide_eq_true_eq, hkept.last,
      UInt64.le_iff_toNat_le, and_assoc]
    constructor
    · rintro ⟨-, hpast, hrecent⟩
      rw [UInt64.toNat_sub_of_le _ _ (UInt64.le_iff_toNat_le.mpr hpast), htwo] at hrecent
      omega
    · rintro ⟨hpast, hrecent⟩
      refine ⟨hzero, hpast, ?_⟩
      rw [UInt64.toNat_sub_of_le _ _ (UInt64.le_iff_toNat_le.mpr hpast), htwo]
      omega
  unfold Entry.ready
  simp only [Bool.and_eq_true, decide_eq_true_eq, hminutes, hlong, hfresh, horder, and_true]
  constructor
  · rintro ⟨⟨⟨hpast, hrecent⟩, hspan⟩, hcount⟩
    exact ⟨hkept.regular, hspan, hcount, hpast, hrecent⟩
  · intro h
    exact ⟨⟨⟨h.past, h.recent⟩, h.long⟩, h.minutes⟩

theorem warning_window {w : TagWatch} (distinct : w.Distinct) {now : UInt64} {e : Entry}
    (h : w.warning now = some e) : w.windowOf e.hash = some e ∧ e.ready now = true := by
  unfold warning at h
  split at h
  · obtain ⟨i, hi, rfl⟩ := Option.map_eq_some_iff.mp h
    have hp := Slots.first_sound hi
    simp only [Bool.and_eq_true] at hp
    have hzero : (w.entries i).hash ≠ 0 := by
      have hready := hp.1
      simp only [Entry.ready, Entry.fresh, Bool.and_eq_true, bne_iff_ne] at hready
      exact hready.1.1.1.1.1
    exact ⟨(windowOf_eq_some distinct).mpr ⟨hzero, rfl, i, rfl⟩, hp.1⟩
  · exact nomatch h

/-- A report leaves every present entry of another identity as it is. -/
theorem observe_present (w : TagWatch) (h : UInt64) (d : Detection) (now : UInt64) (i : Slot)
    (fresh : (w.entries i).fresh now = true) (other : (w.entries i).hash ≠ h) :
    (w.observe h d now).entries i = w.entries i := by
  obtain ⟨-, -, hentries⟩ | ⟨j, -, -, hj, -, hentries⟩ | ⟨j, -, -, -, hslot, hentries⟩ :=
    observe_cases w h d now
  · rw [hentries]
  · rw [hentries, Function.update_of_ne]
    rintro rfl
    exact other hj
  · rw [hentries, Function.update_of_ne]
    rintro rfl
    rcases hslot with ⟨-, hj⟩ | ⟨-, -, hstale⟩
    · exact other hj
    · rw [fresh] at hstale
      exact nomatch hstale

/-- Travel Watch over a run of any calls. -/
theorem travel_watch (calls : List Call) :
    (∀ now e, (run {} calls).warning now = some e →
      ∃ before d at' after, calls = before ++ .observe e.hash d at' :: after ∧
        Window (run {} before) e.hash d at' after ∧
        Followed d (sightings e.hash ((run {} before).observe e.hash d at') after) now) ∧
    (∀ i j, ((run {} calls).entries i).hash ≠ 0 →
      ((run {} calls).entries i).hash = ((run {} calls).entries j).hash → i = j) ∧
    (∀ h d now i, ((run {} calls).entries i).fresh now = true → ((run {} calls).entries i).hash ≠ h →
      ((run {} calls).observe h d now).entries i = (run {} calls).entries i) ∧
    (∀ before h d at' after, calls = before ++ .observe h d at' :: after →
      Window (run {} before) h d at' after →
      Followed d (sightings h ((run {} before).observe h d at') after)
        (lastOf d (sightings h ((run {} before).observe h d at') after)) →
      ∃ i, ((run {} calls).entries i).hash = h ∧ ((run {} calls).entries i).ready
        (lastOf d (sightings h ((run {} before).observe h d at') after)) = true) := by
  have hdistinct : ∀ calls, (run {} calls).Distinct := distinct_run (distinct_empty rfl)
  have hsplit : ∀ before h d at' after, run {} (before ++ .observe h d at' :: after) =
      ((run {} before).observe h d at').run after := by
    intro before h d at' after
    rw [run, Runs.run_append]
    rfl
  refine ⟨?_, ?_, ?_, ?_⟩
  · intro now e hwarning
    obtain ⟨hwindow, hready⟩ := warning_window (hdistinct calls) hwarning
    obtain ⟨hzero, -⟩ := windowOf_hash hwindow
    obtain ⟨before, d, at', after, rfl, hw⟩ := window_exists calls hzero (by simp [hwindow])
    refine ⟨before, d, at', after, rfl, hw, ?_⟩
    obtain ⟨e', he', hkept⟩ := hw.entry (hdistinct before)
    rw [hsplit, he'] at hwindow
    obtain rfl := Option.some.inj hwindow
    exact (ready_iff hkept hzero now).mp hready
  · intro i j hzero hsame
    by_contra hne
    exact hdistinct calls i j hne ⟨hzero, hsame⟩
  · intro h d now i
    exact observe_present _ h d now i
  · rintro before h d at' after rfl hw hfollowed
    obtain ⟨e, he, hkept⟩ := hw.entry (hdistinct before)
    rw [← hsplit] at he
    obtain ⟨hzero, hhash, i, rfl⟩ := (windowOf_eq_some (hdistinct _)).mp he
    have hne : ((run {} (before ++ .observe h d at' :: after)).entries i).hash ≠ 0 := by
      rw [hhash]
      exact hzero
    exact ⟨i, hhash, (ready_iff hkept hne _).mpr hfollowed⟩

/-! ## Concrete runs -/

/-- A Samsung tag away from its owner. -/
def away (t : UInt64) : Detection :=
  { category := .SAMSUNG_TAG, radio := .Ble, score := 60, lastMs := t }

/-- The same tag when its owner is near. -/
def near (t : UInt64) : Detection :=
  { away t with samsung := { state := .Connected } }

def walk (times : List UInt64) : List Call :=
  .start 0 false :: times.map fun t => .observe 1 (away t) t

/-- A sighting a minute, for ten minutes. -/
def everyMinute : List UInt64 :=
  [0, 60000, 120000, 180000, 240000, 300000, 360000, 420000, 480000, 540000, 600000]

def everyMinuteWarning : Entry :=
  { hash := 1, first := 0, last := 600000, minutes := 11, category := .SAMSUNG_TAG, score := 60 }

theorem travel_watch_walk : ∃ before d at' after,
    walk everyMinute = before ++ .observe 1 d at' :: after ∧
      Window (run {} before) 1 d at' after ∧
      Followed d (sightings 1 ((run {} before).observe 1 d at') after) 720000 :=
  (travel_watch (walk everyMinute)).1 720000 everyMinuteWarning (by decide +kernel)

/-- Times of calls do not go back. -/
def Call.now : Call → Option UInt64
  | .start now _ | .observe _ _ now => some now
  | _ => none

def Ordered (calls : List Call) : Prop := (calls.filterMap Call.now).Pairwise (· ≤ ·)

/-- Any owner-connected report counts, late ones too. -/
def Call.interrupts (w : TagWatch) (h : UInt64) : Call → Bool
  | .observe hash d _ => hash == h && samsungConnected d
  | call => call.resets w h

/-- Two minutes apart from the second sighting on, in pairs around a minute's end. -/
def offset : List UInt64 :=
  [30000, 149999, 150000, 269999, 270000, 389999, 390000, 509999, 510000, 630000]

/-- A late owner-connected report is ignored, and minutes are counted from the
first sighting only: a warning may follow the one, and ten occupied minutes
counted from the second sighting may be six counted from the first. -/
theorem travel_watch_late_report :
    (¬ ∀ calls now e, Ordered calls → (run {} calls).warning now = some e →
      ∃ before d at' after, calls = before ++ .observe e.hash d at' :: after ∧
        (∀ v ∈ visited step ((run {} before).observe e.hash d at') after,
          v.2.interrupts v.1 e.hash = false) ∧
        Followed d (sightings e.hash ((run {} before).observe e.hash d at') after) now) ∧
    (¬ ∀ before h d at' after, Ordered (before ++ .observe h d at' :: after) →
      (run {} before).accepts h d at' = true →
      (∀ v ∈ visited step ((run {} before).observe h d at') after,
        v.2.interrupts v.1 h = false ∧ (v.1.step v.2).windowOf h ≠ none) →
      Followed d (sightings h ((run {} before).observe h d at') after)
        (lastOf d (sightings h ((run {} before).observe h d at') after)) →
      ∃ i, ((run {} (before ++ .observe h d at' :: after)).entries i).hash = h ∧
        ((run {} (before ++ .observe h d at' :: after)).entries i).ready
          (lastOf d (sightings h ((run {} before).observe h d at') after)) = true) := by
  constructor
  · intro claim
    obtain ⟨before, d, at', after, hsplit, hquiet, hfollowed⟩ :=
      claim (walk everyMinute ++ [.observe 1 (near 599000) 600000]) 600000 everyMinuteWarning
        (by unfold Ordered; decide) (by decide +kernel)
    rcases List.eq_nil_or_concat' after with rfl | ⟨after, last, rfl⟩
    · have hd : .observe 1 (near 599000) 600000 = Call.observe everyMinuteWarning.hash d at' := by
        have hlast := congrArg List.getLast? hsplit
        rw [List.getLast?_concat, List.getLast?_concat] at hlast
        exact Option.some.inj hlast
      obtain ⟨-, rfl, -⟩ := Call.observe.inj hd
      exact absurd (hfollowed.regular.qualify _ List.mem_cons_self).away (by decide)
    · have hd : .observe 1 (near 599000) 600000 = last := by
        have hlast := congrArg List.getLast? hsplit
        rw [← List.cons_append, ← List.append_assoc, List.getLast?_concat, List.getLast?_concat] at hlast
        exact Option.some.inj hlast
      have hv := hquiet (_, last) (by
        rw [visited_concat]
        exact List.mem_append_right _ List.mem_cons_self)
      rw [← hd] at hv
      exact nomatch hv
  · intro claim
    have hsightings : sightings 1 ((run {} (walk [0])).observe 1 (away 30000) 30000)
        (offset.tail.map fun t => .observe 1 (away t) t) = offset.tail.map away := by
      decide +kernel
    have hfollowed : Followed (away 30000) (offset.tail.map away) (lastOf (away 30000) (offset.tail.map away)) := by
      refine ⟨⟨?_, by decide, by decide⟩, by decide, by decide,
        by decide, by decide⟩
      intro d hd
      obtain ⟨t, -, rfl⟩ : ∃ t, True ∧ away t = d := by
        rcases List.mem_cons.mp hd with rfl | hd
        · exact ⟨_, trivial, rfl⟩
        · obtain ⟨t, -, rfl⟩ := List.mem_map.mp hd
          exact ⟨t, trivial, rfl⟩
      exact ⟨rfl, rfl, (by decide : (50 : UInt8) ≤ 60), (by decide : (60 : UInt8) ≤ 100), rfl⟩
    have hclaim := claim (walk [0]) 1 (away 30000) 30000
      (offset.tail.map fun t => .observe 1 (away t) t) (by unfold Ordered; decide)
      (by decide +kernel) (by decide +kernel)
    rw [hsightings] at hclaim
    exact absurd (hclaim hfollowed) (by decide +kernel)

end TagWatch

end Hound
