import Hound.Watch.Windows

/-!
# Repeated presence

A window stands for a stretch of the run: it was opened by a sighting of its
identity, every later sighting extended it, and nothing in between cancelled
it. First, last and the minute count are what these sightings come to.
-/

namespace Hound

namespace TagWatch

open Runs

/-! ## Calls seen from one identity -/

def Call.sighting (w : TagWatch) (h : UInt64) : Call → Option Detection
  | .observe hash d now => if hash == h && w.accepts hash d now then some d else none
  | _ => none

/-- The sighting starts a window: there is none, or its last sighting is too long ago. -/
def opens (w : TagWatch) (h : UInt64) (d : Detection) (now : UInt64) : Bool :=
  w.accepts h d now &&
    match w.windowOf h with
    | none => true
    | some e => decide (gap < d.lastMs - e.last)

def Call.opens (w : TagWatch) (h : UInt64) : Call → Bool
  | .observe hash d now => hash == h && w.opens hash d now
  | _ => false

/-- The call ends the window: a start, a clear, a drop of it, or an owner-connected
report that passes the guards and is not older than the last sighting. -/
def Call.resets (w : TagWatch) (h : UInt64) : Call → Bool
  | .start .. | .clear => true
  | .drop i _ => (w.entries i).hash == h
  | .acknowledge _ => false
  | .observe hash d now => hash == h && w.cancels hash d now

/-- The sightings of an identity along a run. -/
def sightings (h : UInt64) (w : TagWatch) (calls : List Call) : List Detection :=
  (visited step w calls).filterMap fun v => v.2.sighting v.1 h

/-- The calls `after` a sighting that opened a window kept that window in its slot. -/
structure Window (w : TagWatch) (h : UInt64) (d : Detection) (now : UInt64) (after : List Call) :
    Prop where
  opened : w.opens h d now = true
  calm : ∀ v ∈ visited step (w.observe h d now) after, v.2.resets v.1 h = false
  single : ∀ v ∈ visited step (w.observe h d now) after, v.2.opens v.1 h = false
  held : ∀ v ∈ visited step (w.observe h d now) after, (v.1.step v.2).windowOf h ≠ none

/-- The minutes, counted from the first sighting, in which there was one. -/
def minutesOf (first : Detection) (ds : List Detection) : Finset Nat :=
  (ds.map fun d => (d.lastMs.toNat - first.lastMs.toNat) / 60000).toFinset

def lastOf (first : Detection) (later : List Detection) : UInt64 := (later.getLastD first).lastMs

structure Qualifies (d : Detection) : Prop where
  radio : d.radio = .Ble
  tag : tag d.category = true
  low : 50 ≤ d.score
  high : d.score ≤ 100
  away : samsungConnected d = false

/-- Consecutive sightings are in order and close to each other. -/
structure Regular (ds : List Detection) : Prop where
  qualify : ∀ d ∈ ds, Qualifies d
  increasing : ds.IsChain fun a b => a.lastMs < b.lastMs
  gaps : ds.IsChain fun a b => b.lastMs.toNat - a.lastMs.toNat ≤ 120000

/-- Sightings over ten minutes, in eight of them at least, the last not long ago. -/
structure Followed (first : Detection) (later : List Detection) (now : UInt64) : Prop where
  regular : Regular (first :: later)
  long : first.lastMs.toNat + 600000 ≤ (lastOf first later).toNat
  minutes : 8 ≤ (minutesOf first (first :: later)).card
  past : (lastOf first later).toNat ≤ now.toNat
  recent : now.toNat ≤ (lastOf first later).toNat + 120000

/-! ## The table stays distinct -/

theorem distinct_empty {w : TagWatch} (h : w.entries = fun _ => {}) : w.Distinct := by
  intro i j _ hclash
  rw [h] at hclash
  exact hclash.1 rfl

theorem distinct_step {w : TagWatch} (distinct : w.Distinct) (call : Call) : (w.step call).Distinct := by
  cases call with
  | start now synthetic => exact distinct_empty rfl
  | clear => exact distinct_empty rfl
  | drop i gapExpired =>
    have hentries := drop_entries w i gapExpired
    by_cases hzero : (w.entries i).hash = 0
    · rw [if_pos hzero] at hentries
      unfold Distinct
      rw [step, hentries]
      exact distinct
    · rw [if_neg hzero] at hentries
      exact distinct.update hentries (.inl rfl)
  | acknowledge i => exact distinct.update (i := i) rfl (.inr (.inl rfl))
  | observe h d now =>
    obtain ⟨-, -, hentries⟩ | ⟨i, -, -, -, -, hentries⟩ | ⟨i, -, -, hzero, hslot, hentries⟩ :=
      observe_cases w h d now
    · unfold Distinct
      rw [step, hentries]
      exact distinct
    · exact distinct.update hentries (.inl rfl)
    · have hhash : (Entry.sighted h d (w.windowOf h)).hash = h :=
        sighted_hash fun e he => (windowOf_hash he).2
      refine distinct.update hentries ?_
      rcases hslot with ⟨-, hi⟩ | ⟨-, hnone, -⟩
      · exact .inr (.inl (hhash.trans hi.symm))
      · rw [hhash]
        exact .inr (.inr hnone)

theorem distinct_run {w : TagWatch} (distinct : w.Distinct) (calls : List Call) :
    (w.run calls).Distinct :=
  Runs.invariant Distinct (fun _ call hw => distinct_step hw call) distinct calls

/-! ## One call and one window -/

/-- What a call does to the window of `h`: nothing, or an acknowledgement; ending
it; storing a sighting in it; or giving its slot away once it is stale. -/
inductive Effect (w : TagWatch) (h : UInt64) (call : Call) : Prop where
  | kept (quiet : call.sighting w h = none) (open' : call.opens w h = false)
      (calm : call.resets w h = false)
      (window : ∃ f : Entry → Entry, (∀ e, (f e).hash = e.hash ∧ (f e).first = e.first ∧
        (f e).last = e.last ∧ (f e).minutes = e.minutes) ∧
        (w.step call).windowOf h = (w.windowOf h).map f)
  | ended (quiet : call.sighting w h = none) (open' : call.opens w h = false)
      (gone : (w.step call).windowOf h = none)
  | sighted (d : Detection) (now : UInt64) (report : call = .observe h d now)
      (stored : w.accepts h d now = true) (calm : call.resets w h = false)
      (window : (w.step call).windowOf h = some (Entry.sighted h d (w.windowOf h)))

theorem step_effect {w : TagWatch} (distinct : w.Distinct) {h : UInt64} (hzero : h ≠ 0) (call : Call) :
    Effect w h call := by
  have distinct' := distinct_step distinct call
  have hempty : ({} : Entry).hash ≠ h := fun he => hzero he.symm
  cases call with
  | start now synthetic =>
    refine .ended rfl rfl ?_
    cases hwin : (w.step (.start now synthetic)).windowOf h with
    | none => rfl
    | some e =>
      obtain ⟨-, hhash, i, rfl⟩ := (windowOf_eq_some distinct').mp hwin
      exact absurd hhash hempty
  | clear =>
    refine .ended rfl rfl ?_
    cases hwin : (w.step .clear).windowOf h with
    | none => rfl
    | some e =>
      obtain ⟨-, hhash, i, rfl⟩ := (windowOf_eq_some distinct').mp hwin
      exact absurd hhash hempty
  | drop i gapExpired =>
    have hentries := drop_entries w i gapExpired
    by_cases hslot : (w.entries i).hash = 0
    · rw [if_pos hslot] at hentries
      refine .kept rfl rfl ?_ ⟨id, fun e => ⟨rfl, rfl, rfl, rfl⟩, ?_⟩
      · simp [Call.resets, hslot, Ne.symm hzero]
      · rw [windowOf_congr (w.step (.drop i gapExpired)) hentries]
        exact Option.map_id'.symm
    · rw [if_neg hslot] at hentries
      have hwin := windowOf_update distinct distinct' (i := i) (e := {}) hentries hzero
      rw [if_neg hempty] at hwin
      by_cases hi : (w.entries i).hash = h
      · rw [if_pos hi] at hwin
        exact .ended rfl rfl hwin
      · rw [if_neg hi] at hwin
        refine .kept rfl rfl ?_ ⟨id, fun e => ⟨rfl, rfl, rfl, rfl⟩, ?_⟩
        · simpa [Call.resets] using hi
        · rw [hwin]
          exact Option.map_id'.symm
  | acknowledge i =>
    have hwin := windowOf_update distinct distinct' (i := i)
      (e := { w.entries i with acknowledged := true }) rfl hzero
    by_cases hi : (w.entries i).hash = h
    · refine .kept rfl rfl rfl ⟨fun e => { e with acknowledged := true },
        fun e => ⟨rfl, rfl, rfl, rfl⟩, ?_⟩
      rw [hwin, if_pos hi, (windowOf_eq_some distinct).mpr ⟨hzero, hi, i, rfl⟩]
      rfl
    · refine .kept rfl rfl rfl ⟨id, fun e => ⟨rfl, rfl, rfl, rfl⟩, ?_⟩
      rw [hwin, if_neg hi, if_neg hi]
      exact Option.map_id'.symm
  | observe hash d now =>
    by_cases hsame : hash = h
    · subst hsame
      obtain ⟨hno, hcalm, hentries⟩ | ⟨i, hno, -, hi, -, hentries⟩ | ⟨i, hyes, hcalm, -, -, hentries⟩ :=
        observe_cases w hash d now
      · refine .kept ?_ ?_ ?_ ⟨id, fun e => ⟨rfl, rfl, rfl, rfl⟩, ?_⟩
        · simp [Call.sighting, hno]
        · simp [Call.opens, TagWatch.opens, hno]
        · simp [Call.resets, hcalm]
        · rw [windowOf_congr (w.step (.observe hash d now)) hentries]
          exact Option.map_id'.symm
      · have hwin := windowOf_update distinct distinct' (i := i) (e := {}) hentries hzero
        rw [if_neg hempty, if_pos hi] at hwin
        refine .ended ?_ ?_ hwin
        · simp [Call.sighting, hno]
        · simp [Call.opens, TagWatch.opens, hno]
      · have hwin := windowOf_update distinct distinct' hentries hzero
        rw [if_pos (sighted_hash fun e he => (windowOf_hash he).2)] at hwin
        exact .sighted d now rfl hyes (by simp [Call.resets, hcalm]) hwin
    · have hquiet : (Call.observe hash d now).sighting w h = none := by simp [Call.sighting, hsame]
      have hopen : (Call.observe hash d now).opens w h = false := by simp [Call.opens, hsame]
      have hcalm : (Call.observe hash d now).resets w h = false := by simp [Call.resets, hsame]
      obtain ⟨-, -, hentries⟩ | ⟨i, -, -, hi, -, hentries⟩ | ⟨i, -, -, -, -, hentries⟩ :=
        observe_cases w hash d now
      · refine .kept hquiet hopen hcalm ⟨id, fun e => ⟨rfl, rfl, rfl, rfl⟩, ?_⟩
        rw [windowOf_congr (w.step (.observe hash d now)) hentries]
        exact Option.map_id'.symm
      · have hwin := windowOf_update distinct distinct' (i := i) (e := {}) hentries hzero
        have hother : (w.entries i).hash ≠ h := fun he => hsame (hi.symm.trans he)
        rw [if_neg hempty, if_neg hother] at hwin
        refine .kept hquiet hopen hcalm ⟨id, fun e => ⟨rfl, rfl, rfl, rfl⟩, ?_⟩
        rw [hwin]
        exact Option.map_id'.symm
      · have hwin := windowOf_update distinct distinct' hentries hzero
        have hhash : (Entry.sighted hash d (w.windowOf hash)).hash = hash :=
          sighted_hash fun e he => (windowOf_hash he).2
        rw [if_neg (fun he => hsame (hhash.symm.trans he))] at hwin
        by_cases hi : (w.entries i).hash = h
        · rw [if_pos hi] at hwin
          exact .ended hquiet hopen hwin
        · rw [if_neg hi] at hwin
          refine .kept hquiet hopen hcalm ⟨id, fun e => ⟨rfl, rfl, rfl, rfl⟩, ?_⟩
          rw [hwin]
          exact Option.map_id'.symm

/-! ## What a window holds -/

/-- The counters of a window are those of its sightings. -/
structure Kept (e : Entry) (first : Detection) (later : List Detection) : Prop where
  regular : Regular (first :: later)
  start : e.first = first.lastMs
  last : e.last = lastOf first later
  minutes : e.minutes.toNat = min 65535 (minutesOf first (first :: later)).card

theorem qualifies_of_accepts {w : TagWatch} {h : UInt64} {d : Detection} {now : UInt64}
    (hd : w.accepts h d now = true) : h ≠ 0 ∧ Qualifies d := by
  simp only [accepts, current, eligible, Bool.and_eq_true, bne_iff_ne, beq_iff_eq, decide_eq_true_eq,
    Bool.not_eq_true'] at hd
  obtain ⟨⟨⟨⟨⟨⟨⟨⟨⟨⟨⟨-, hzero⟩, htag⟩, hradio⟩, -⟩, hlow⟩, hhigh⟩, -⟩, -⟩, -⟩, haway⟩, -⟩ := hd
  exact ⟨hzero, hradio, htag, hlow, hhigh, haway⟩

theorem lastOf_concat (first : Detection) (later : List Detection) (d : Detection) :
    lastOf first (later ++ [d]) = d.lastMs := by
  simp [lastOf, List.getLastD_eq_getLast?]

theorem minutesOf_concat (first : Detection) (ds : List Detection) (d : Detection) :
    minutesOf first (ds ++ [d]) =
      insert ((d.lastMs.toNat - first.lastMs.toNat) / 60000) (minutesOf first ds) := by
  unfold minutesOf
  ext m
  simp

theorem getLast_later (first : Detection) (later : List Detection) :
    (first :: later).getLast? = some (later.getLastD first) := by
  rw [List.getLast?_cons, List.getLastD_eq_getLast?]

theorem le_lastOf {first : Detection} {later : List Detection}
    (h : (first :: later).IsChain fun a b => a.lastMs < b.lastMs) :
    ∀ d ∈ first :: later, d.lastMs ≤ lastOf first later := by
  induction later generalizing first with
  | nil =>
    intro d hd
    rw [List.mem_singleton.mp hd]
    exact UInt64.le_refl _
  | cons a later ih =>
    obtain ⟨hlt, hrest⟩ := List.isChain_cons_cons.mp h
    have hlast : lastOf first (a :: later) = lastOf a later := by rw [lastOf, List.getLastD_cons]; rfl
    rw [hlast]
    intro d hd
    rcases List.mem_cons.mp hd with rfl | hd
    · exact UInt64.le_trans (UInt64.le_of_lt hlt) (ih hrest a List.mem_cons_self)
    · exact ih hrest d hd

theorem kept_opening {h : UInt64} {d : Detection} (hd : Qualifies d) : Kept (opening h d) d [] where
  regular := ⟨by simpa using hd, by simp, by simp⟩
  start := rfl
  last := rfl
  minutes := by simp [opening, minutesOf]

/-- Saturating addition, counted in sixteen bits. -/
theorem saturate (n : UInt16) (c : Nat) (h : n.toNat = min 65535 c) :
    (min 65535 (n.toNat + 1)).toUInt16.toNat = min 65535 (c + 1) := by
  have hlt : min 65535 (n.toNat + 1) < 65536 := by omega
  rw [Nat.toUInt16, UInt16.toNat_ofNat', Nat.mod_eq_of_lt hlt, h]
  omega

theorem kept_extend {e : Entry} {first d : Detection} {later : List Detection}
    (h : Kept e first later) (hd : Qualifies d) (hlast : e.last < d.lastMs)
    (hgap : ¬ gap < d.lastMs - e.last) : Kept (e.extend d) first (later ++ [d]) := by
  have hend := h.last
  have hstart : first.lastMs ≤ e.last := by
    rw [hend]
    exact le_lastOf h.regular.increasing first List.mem_cons_self
  have hle : e.last ≤ d.lastMs := UInt64.le_of_lt hlast
  have hnat : e.last.toNat < d.lastMs.toNat := UInt64.lt_iff_toNat_lt.mp hlast
  have hstartNat : first.lastMs.toNat ≤ e.last.toNat := UInt64.le_iff_toNat_le.mp hstart
  refine ⟨⟨?_, ?_, ?_⟩, h.start, ?_, ?_⟩
  · intro x hx
    rw [← List.cons_append, List.mem_append, List.mem_singleton] at hx
    rcases hx with hx | rfl
    · exact h.regular.qualify x hx
    · exact hd
  · rw [← List.cons_append, List.isChain_append]
    refine ⟨h.regular.increasing, by simp, fun x hx y hy => ?_⟩
    rw [getLast_later, Option.mem_some_iff] at hx
    obtain rfl : d = y := by simpa using hy
    have hx' : e.last = x.lastMs := by rw [hend, ← hx]; rfl
    rw [← hx']
    exact hlast
  · rw [← List.cons_append, List.isChain_append]
    refine ⟨h.regular.gaps, by simp, fun x hx y hy => ?_⟩
    rw [getLast_later, Option.mem_some_iff] at hx
    obtain rfl : d = y := by simpa using hy
    have hsub := UInt64.le_iff_toNat_le.mp (UInt64.not_lt.mp hgap)
    rw [UInt64.toNat_sub_of_le _ _ hle, hend] at hsub
    rw [← hx]
    exact hsub
  · rw [lastOf_concat]
    rfl
  · have hbin : ∀ {x : UInt64}, first.lastMs ≤ x →
        ((x - e.first) / 60000).toNat = (x.toNat - first.lastMs.toNat) / 60000 := by
      intro x hx
      rw [h.start, UInt64.toNat_div, UInt64.toNat_sub_of_le _ _ hx]
      rfl
    have hnew := hbin (UInt64.le_trans hstart hle)
    have hold := hbin hstart
    have hmember : (e.last.toNat - first.lastMs.toNat) / 60000 ∈ minutesOf first (first :: later) := by
      unfold minutesOf
      rw [List.mem_toFinset, List.mem_map]
      refine ⟨later.getLastD first, ?_, by rw [hend]; rfl⟩
      exact List.mem_of_getLast? (getLast_later first later)
    rw [← List.cons_append, minutesOf_concat]
    by_cases hsame : (d.lastMs - e.first) / 60000 = (e.last - e.first) / 60000
    · have hminutes : (e.extend d).minutes = e.minutes := by simp [Entry.extend, hsame]
      rw [hminutes, ← hnew, hsame, hold, Finset.insert_eq_of_mem hmember]
      exact h.minutes
    · have hminutes : (e.extend d).minutes = (min 65535 (e.minutes.toNat + 1)).toUInt16 := by
        simp [Entry.extend, hsame]
      have hnot : (d.lastMs.toNat - first.lastMs.toNat) / 60000 ∉ minutesOf first (first :: later) := by
        -- every earlier minute is at most the last one, and this one is past it
        intro hmem
        unfold minutesOf at hmem
        rw [List.mem_toFinset, List.mem_map] at hmem
        obtain ⟨x, hx, hxbin⟩ := hmem
        have hxlast := UInt64.le_iff_toNat_le.mp (le_lastOf h.regular.increasing x hx)
        rw [← hend] at hxlast
        have hne : ((d.lastMs - e.first) / 60000).toNat ≠ ((e.last - e.first) / 60000).toNat :=
          fun heq => hsame (UInt64.toNat_inj.mp heq)
        rw [hnew, hold] at hne
        omega
      rw [hminutes, Finset.card_insert_of_notMem hnot]
      exact saturate _ _ h.minutes

theorem sightings_concat (h : UInt64) (w : TagWatch) (calls : List Call) (call : Call) :
    sightings h w (calls ++ [call]) =
      sightings h w calls ++ (call.sighting (w.run calls) h).toList := by
  unfold sightings
  rw [visited_concat, List.filterMap_append, List.filterMap_cons, List.filterMap_nil]
  rw [← run]
  cases call.sighting (w.run calls) h with
  | none => rfl
  | some d => rfl

theorem Window.init {w : TagWatch} {h : UInt64} {d : Detection} {now : UInt64} {after : List Call}
    {call : Call} (hw : Window w h d now (after ++ [call])) : Window w h d now after where
  opened := hw.opened
  calm v hv := hw.calm v (by rw [visited_concat]; exact List.mem_append_left _ hv)
  single v hv := hw.single v (by rw [visited_concat]; exact List.mem_append_left _ hv)
  held v hv := hw.held v (by rw [visited_concat]; exact List.mem_append_left _ hv)

/-- A window that was kept is there, and holds what was sighted in it. -/
theorem Window.entry {w : TagWatch} (distinct : w.Distinct) {h : UInt64} {d : Detection}
    {now : UInt64} {after : List Call} (hw : Window w h d now after) :
    ∃ e, ((w.observe h d now).run after).windowOf h = some e ∧
      Kept e d (sightings h (w.observe h d now) after) := by
  have hopens := hw.opened
  simp only [TagWatch.opens, Bool.and_eq_true] at hopens
  obtain ⟨haccepts, hnew⟩ := hopens
  obtain ⟨hzero, hqualifies⟩ := qualifies_of_accepts haccepts
  induction after using List.reverseRecOn with
  | nil =>
    refine ⟨opening h d, ?_, kept_opening hqualifies⟩
    cases step_effect distinct hzero (.observe h d now) with
    | kept quiet | ended quiet =>
      simp [Call.sighting, haccepts] at quiet
    | sighted d' now' report stored calm window =>
      obtain ⟨-, rfl, rfl⟩ := Call.observe.inj report
      have hsighted : Entry.sighted h d (w.windowOf h) = opening h d := by
        cases hwin : w.windowOf h with
        | none => rfl
        | some e =>
          rw [hwin] at hnew
          exact if_pos (of_decide_eq_true hnew)
      rw [← hsighted]
      exact window
  | append_singleton after call ih =>
    obtain ⟨e, hwin, hkept⟩ := ih hw.init
    have hlast : ((w.observe h d now).run after, call) ∈
        visited step (w.observe h d now) (after ++ [call]) := by
      rw [visited_concat]
      exact List.mem_append_right _ List.mem_cons_self
    have hsingle := hw.single _ hlast
    have hheld := hw.held _ hlast
    have hdistinct : ((w.observe h d now).run after).Distinct :=
      distinct_run (distinct_step distinct (.observe h d now)) after
    rw [sightings_concat]
    have hrun : (w.observe h d now).run (after ++ [call]) = ((w.observe h d now).run after).step call :=
      run_concat step _ _ _
    rw [hrun]
    cases step_effect hdistinct hzero call with
    | kept quiet open' calm window =>
      obtain ⟨f, hf, hmap⟩ := window
      obtain ⟨-, hfirst, hend, hminutes⟩ := hf e
      rw [quiet, Option.toList_none, List.append_nil]
      refine ⟨f e, by rw [hmap, hwin]; rfl, hkept.regular, ?_, ?_, ?_⟩
      · rw [hfirst, hkept.start]
      · rw [hend, hkept.last]
      · rw [hminutes, hkept.minutes]
    | ended quiet open' gone => exact absurd gone hheld
    | sighted d' now' report stored calm window =>
      subst report
      have hs : (Call.observe h d' now').sighting ((w.observe h d now).run after) h = some d' := by
        simp [Call.sighting, stored]
      have hgap : ¬ gap < d'.lastMs - e.last := by
        simpa [Call.opens, TagWatch.opens, stored, hwin] using hsingle
      have hle : e.last < d'.lastMs := by
        have haccepted := stored
        simp only [accepts, hwin, Bool.and_eq_true, decide_eq_true_eq] at haccepted
        exact haccepted.2
      rw [hs, window, hwin]
      refine ⟨e.extend d', ?_, kept_extend hkept (qualifies_of_accepts stored).2 hle hgap⟩
      simp only [Entry.sighted]
      rw [if_neg hgap]

/-- Every window in the table was opened somewhere in the run and kept since. -/
theorem window_exists (calls : List Call) {h : UInt64} (hzero : h ≠ 0)
    (hwin : (run {} calls).windowOf h ≠ none) :
    ∃ before d now after, calls = before ++ .observe h d now :: after ∧
      Window (run {} before) h d now after := by
  induction calls using List.reverseRecOn with
  | nil =>
    cases hw : (run {} []).windowOf h with
    | none => exact absurd hw hwin
    | some e =>
      obtain ⟨-, hhash, i, rfl⟩ := (windowOf_eq_some (distinct_empty rfl)).mp hw
      exact absurd hhash.symm hzero
  | append_singleton calls call ih =>
    have hdistinct : (run {} calls).Distinct := distinct_run (distinct_empty rfl) calls
    have hrun : run {} (calls ++ [call]) = (run {} calls).step call := run_concat step _ _ _
    rw [hrun] at hwin
    -- a window opened by this very call starts here
    by_cases hopens : call.opens (run {} calls) h = true
    · cases call with
      | observe hash d now =>
        simp only [Call.opens, Bool.and_eq_true, beq_iff_eq] at hopens
        obtain ⟨rfl, hopens⟩ := hopens
        exact ⟨calls, d, now, [], rfl, hopens, by simp, by simp, by simp⟩
      | _ => exact nomatch hopens
    have hclosed : call.opens (run {} calls) h = false := by simpa using hopens
    -- any other was there before, and this call kept it
    have hbefore : (run {} calls).windowOf h ≠ none ∧ call.resets (run {} calls) h = false := by
      cases step_effect hdistinct hzero call with
      | kept quiet open' calm window =>
        obtain ⟨f, -, hmap⟩ := window
        refine ⟨fun hnone => hwin ?_, calm⟩
        rw [hmap, hnone]
        rfl
      | ended quiet open' gone => exact absurd gone hwin
      | sighted d now report stored calm window =>
        refine ⟨fun hnone => ?_, calm⟩
        subst report
        simp [Call.opens, TagWatch.opens, stored, hnone] at hclosed
    obtain ⟨before, d, now, after, rfl, hw⟩ := ih hbefore.1
    refine ⟨before, d, now, after ++ [call], by simp, hw.opened, ?_, ?_, ?_⟩ <;>
      (intro v hv; rw [visited_concat, List.mem_append, List.mem_singleton] at hv)
    all_goals
      have hstate : run {} (before ++ .observe h d now :: after) =
          ((run {} before).observe h d now).run after := by
        rw [run, Runs.run_append]
        rfl
    · rcases hv with hv | rfl
      · exact hw.calm v hv
      · rw [← run, ← hstate]
        exact hbefore.2
    · rcases hv with hv | rfl
      · exact hw.single v hv
      · rw [← run, ← hstate]
        exact hclosed
    · rcases hv with hv | rfl
      · exact hw.held v hv
      · rw [← run, ← hstate]
        exact hwin

end TagWatch

end Hound
