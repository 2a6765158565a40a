import Hound.Watch.TagWatch

/-!
# The table of windows

An identity has at most one window, found by its hash. Each call does one of
few things to it, and `observe` leaves the windows of other identities alone as
long as they are present.
-/

namespace Hound

namespace TagWatch

/-! ## Lookups -/

/-- Two slots hold the same identity. -/
def Clash (a b : Entry) : Prop := a.hash ≠ 0 ∧ a.hash = b.hash

def Distinct (w : TagWatch) : Prop := Slots.Apart Clash w.entries

def windowOf (w : TagWatch) (h : UInt64) : Option Entry := (w.find h).map w.entries

theorem Clash.symm {a b : Entry} (h : Clash a b) : Clash b a := ⟨h.2 ▸ h.1, h.2.symm⟩

theorem find_eq_some {w : TagWatch} {h : UInt64} {i : Slot} (hi : w.find h = some i) :
    h ≠ 0 ∧ (w.entries i).hash = h := by
  have hp := Slots.first_sound hi
  simpa using hp

theorem find_eq_none {w : TagWatch} {h : UInt64} (hzero : h ≠ 0) (hn : w.find h = none) (i : Slot) :
    (w.entries i).hash ≠ h := by
  have hp := Slots.first_eq_none.mp hn i
  simpa [hzero] using hp

theorem find_of_hash {w : TagWatch} (distinct : w.Distinct) {h : UInt64} (hzero : h ≠ 0) {i : Slot}
    (hi : (w.entries i).hash = h) : w.find h = some i := by
  refine Slots.first_eq_some_of_unique (by simp [hzero, hi]) fun j hj => ?_
  have hhash : (w.entries j).hash = h := by simpa [hzero] using hj
  by_contra hne
  refine distinct j i hne ⟨?_, hhash.trans hi.symm⟩
  rw [hhash]
  exact hzero

theorem windowOf_eq_some {w : TagWatch} (distinct : w.Distinct) {h : UInt64} {e : Entry} :
    w.windowOf h = some e ↔ h ≠ 0 ∧ e.hash = h ∧ ∃ i, w.entries i = e := by
  unfold windowOf
  rw [Option.map_eq_some_iff]
  constructor
  · rintro ⟨i, hi, rfl⟩
    exact ⟨(find_eq_some hi).1, (find_eq_some hi).2, i, rfl⟩
  · rintro ⟨hzero, hhash, i, rfl⟩
    exact ⟨i, find_of_hash distinct hzero hhash, rfl⟩

theorem windowOf_hash {w : TagWatch} {h : UInt64} {e : Entry} (he : w.windowOf h = some e) :
    h ≠ 0 ∧ e.hash = h := by
  obtain ⟨i, hi, rfl⟩ := Option.map_eq_some_iff.mp he
  exact find_eq_some hi

theorem windowOf_congr {w : TagWatch} (w' : TagWatch) (h : w'.entries = w.entries) (hash : UInt64) :
    w'.windowOf hash = w.windowOf hash := by
  unfold windowOf find
  rw [h]

/-- Writing one slot changes the windows of the identity written and of the one
overwritten, no others. -/
theorem windowOf_update {w w' : TagWatch} (distinct : w.Distinct) (distinct' : w'.Distinct) {i : Slot}
    {e : Entry} (hw : w'.entries = Function.update w.entries i e) {h : UInt64} (hzero : h ≠ 0) :
    w'.windowOf h =
      if e.hash = h then some e else if (w.entries i).hash = h then none else w.windowOf h := by
  split
  · rename_i he
    refine (windowOf_eq_some distinct').mpr ⟨hzero, he, i, ?_⟩
    rw [hw, Function.update_self]
  · rename_i he
    split
    · rename_i hi
      cases hwin : w'.windowOf h with
      | none => rfl
      | some e' =>
        obtain ⟨-, hhash, j, hj⟩ := (windowOf_eq_some distinct').mp hwin
        rw [hw] at hj
        by_cases hji : j = i
        · subst hji
          rw [Function.update_self] at hj
          exact absurd (hj ▸ hhash) he
        · rw [Function.update_of_ne hji] at hj
          refine absurd ⟨?_, ?_⟩ (distinct j i hji)
          · rw [hj, hhash]
            exact hzero
          · rw [hj, hhash, hi]
    · rename_i hi
      ext e'
      rw [windowOf_eq_some distinct', windowOf_eq_some distinct, hw]
      constructor
      · rintro ⟨-, hhash, j, hj⟩
        refine ⟨hzero, hhash, j, ?_⟩
        by_cases hji : j = i
        · subst hji
          rw [Function.update_self] at hj
          exact absurd (hj ▸ hhash) he
        · rwa [Function.update_of_ne hji] at hj
      · rintro ⟨-, hhash, j, hj⟩
        refine ⟨hzero, hhash, j, ?_⟩
        by_cases hji : j = i
        · subst hji
          exact absurd (hj ▸ hhash) hi
        · rwa [Function.update_of_ne hji]

theorem Distinct.update {w w' : TagWatch} (distinct : w.Distinct) {i : Slot} {e : Entry}
    (hw : w'.entries = Function.update w.entries i e)
    (free : e.hash = 0 ∨ e.hash = (w.entries i).hash ∨ w.find e.hash = none) : w'.Distinct := by
  unfold Distinct
  rw [hw]
  refine Slots.Apart.update Clash.symm distinct i e fun j hji hclash => ?_
  rcases free with hzero | hsame | hnone
  · exact hclash.1 hzero
  · refine distinct i j (Ne.symm hji) ⟨hsame ▸ hclash.1, ?_⟩
    rw [← hsame]
    exact hclash.2
  · exact find_eq_none hclash.1 hnone j hclash.2.symm

/-! ## What one observation does -/

/-- The guards of `observe`: a report of a tag that is neither old nor early. -/
def current (w : TagWatch) (h : UInt64) (d : Detection) (now : UInt64) : Bool :=
  w.eligible h d && decide (d.lastMs ≤ now) && decide (now - d.lastMs ≤ gap)

/-- The report is stored as a sighting. -/
def accepts (w : TagWatch) (h : UInt64) (d : Detection) (now : UInt64) : Bool :=
  w.current h d now && !samsungConnected d &&
    match w.windowOf h with
    | some e => decide (e.last < d.lastMs)
    | none => (w.spare now).isSome

/-- The report says that the owner is near, and is no older than the last sighting. -/
def cancels (w : TagWatch) (h : UInt64) (d : Detection) (now : UInt64) : Bool :=
  w.current h d now && samsungConnected d &&
    match w.windowOf h with
    | some e => decide (e.last ≤ d.lastMs)
    | none => false

/-- The window a first sighting opens. -/
def opening (h : UInt64) (d : Detection) : Entry :=
  { hash := h, first := d.lastMs, last := d.lastMs, minutes := 1, category := d.category,
    score := d.score }

/-- The window after one more sighting. -/
def Entry.extend (e : Entry) (d : Detection) : Entry :=
  { e with
    minutes := if (d.lastMs - e.first) / 60000 != (e.last - e.first) / 60000 then
      (min 65535 (e.minutes.toNat + 1)).toUInt16 else e.minutes
    last := d.lastMs, score := d.score }

def Entry.sighted (h : UInt64) (d : Detection) : Option Entry → Entry
  | none => opening h d
  | some e => if gap < d.lastMs - e.last then opening h d else e.extend d

@[simp] theorem sighted_hash {h : UInt64} {d : Detection} {o : Option Entry}
    (ho : ∀ e, o = some e → e.hash = h) : (Entry.sighted h d o).hash = h := by
  cases o with
  | none => rfl
  | some e =>
    simp only [Entry.sighted]
    split
    · rfl
    · exact ho e rfl

@[simp] theorem drop_entries (w : TagWatch) (i : Slot) (g : Bool) :
    (w.drop i g).entries = if (w.entries i).hash = 0 then w.entries
      else Function.update w.entries i {} := by
  unfold drop
  cases g <;> split <;> simp_all [set]

/-- `sight` writes the sighted window into its slot. -/
theorem sight_entries (w : TagWatch) (i : Slot) (h : UInt64) (d : Detection) :
    (w.sight i h d).entries = Function.update w.entries i
      (Entry.sighted h d (if (w.entries i).hash = 0 then none else some (w.entries i))) := by
  unfold sight
  by_cases hzero : (w.entries i).hash = 0
  · simp [hzero, set, Entry.sighted, opening]
  · by_cases hgap : gap < d.lastMs - (w.entries i).last
    · simp [hzero, hgap, set, Entry.sighted, opening]
    · simp [hzero, hgap, set, Entry.sighted, Entry.extend]

theorem drop_guards (w : TagWatch) (i : Slot) (g : Bool) :
    (w.drop i g).armed = w.armed ∧ (w.drop i g).started = w.started ∧ (w.drop i g).demo = w.demo := by
  unfold drop
  cases g <;> split <;> simp [set]

theorem sight_armed (w : TagWatch) (i : Slot) (h : UInt64) (d : Detection) :
    (w.sight i h d).armed = w.armed := by
  unfold sight
  dsimp only
  split
  · split
    · exact (drop_guards w i true).1
    · rfl
  · rfl

theorem observe_armed (w : TagWatch) (h : UInt64) (d : Detection) (now : UInt64) :
    (w.observe h d now).armed = w.armed := by
  unfold observe
  split
  · rfl
  · split
    · rfl
    · split
      · rfl
      · split
        · split
          · split
            · exact (drop_guards w _ _).1
            · rfl
          · split
            · rfl
            · exact sight_armed w _ h d
        · split
          · rfl
          · split
            · exact sight_armed _ _ h d
            · rfl

/-- A current report reaches the table. -/
theorem observe_current {w : TagWatch} {h : UInt64} {d : Detection} {now : UInt64}
    (hcurrent : w.current h d now = true) :
    w.observe h d now =
      match w.find h with
      | some i =>
        if samsungConnected d then
          if (w.entries i).last ≤ d.lastMs then w.drop i false else w
        else if d.lastMs ≤ (w.entries i).last then w
        else w.sight i h d
      | none =>
        if samsungConnected d then w
        else
          match w.spare now with
          | some i => (w.set i {}).sight i h d
          | none => w := by
  simp only [current, Bool.and_eq_true, decide_eq_true_eq] at hcurrent
  refine (if_neg (by simp [hcurrent.1.1])).trans ?_
  refine (if_neg (UInt64.not_lt.mpr hcurrent.1.2)).trans ?_
  exact if_neg (UInt64.not_lt.mpr hcurrent.2)

/-- Everything one report can do to the table. -/
theorem observe_cases (w : TagWatch) (h : UInt64) (d : Detection) (now : UInt64) :
    (w.accepts h d now = false ∧ w.cancels h d now = false ∧
      (w.observe h d now).entries = w.entries) ∨
    (∃ i, w.accepts h d now = false ∧ w.cancels h d now = true ∧ (w.entries i).hash = h ∧ h ≠ 0 ∧
      (w.observe h d now).entries = Function.update w.entries i {}) ∨
    (∃ i, w.accepts h d now = true ∧ w.cancels h d now = false ∧ h ≠ 0 ∧
      ((w.windowOf h = some (w.entries i) ∧ (w.entries i).hash = h) ∨
        (w.windowOf h = none ∧ w.find h = none ∧ (w.entries i).fresh now = false)) ∧
      (w.observe h d now).entries =
        Function.update w.entries i (Entry.sighted h d (w.windowOf h))) := by
  by_cases hcurrent : w.current h d now = true
  swap
  · have hstop : w.current h d now = false := by simpa using hcurrent
    refine .inl ⟨by simp [accepts, hstop], by simp [cancels, hstop], ?_⟩
    unfold observe
    unfold current at hstop
    split
    · rfl
    · split
      · rfl
      · split
        · rfl
        · rename_i heligible hearly hold
          simp only [Bool.not_eq_true', Bool.not_eq_false] at heligible
          simp [heligible, UInt64.not_lt.mp hearly, UInt64.not_lt.mp hold] at hstop
  have hgo := hcurrent
  simp only [current, Bool.and_eq_true, decide_eq_true_eq] at hgo
  have hzero : h ≠ 0 := by
    have heligible := hgo.1.1
    simp only [eligible, Bool.and_eq_true, bne_iff_ne] at heligible
    exact heligible.1.1.1.1.1.1.2
  rw [observe_current hcurrent]
  cases hfind : w.find h with
  | some i =>
    obtain ⟨-, hhash⟩ := find_eq_some hfind
    have hwindow : w.windowOf h = some (w.entries i) := by rw [windowOf, hfind]; rfl
    have hne : (w.entries i).hash ≠ 0 := by rw [hhash]; exact hzero
    simp only
    by_cases hconnected : samsungConnected d = true
    · by_cases hlast : (w.entries i).last ≤ d.lastMs
      · refine .inr (.inl ⟨i, ?_, ?_, hhash, hzero, ?_⟩)
        · simp [accepts, hconnected]
        · simp [cancels, hcurrent, hconnected, hwindow, hlast]
        · rw [if_pos hconnected, if_pos hlast, drop_entries, if_neg hne]
      · refine .inl ⟨?_, ?_, ?_⟩
        · simp [accepts, hconnected]
        · simp [cancels, hwindow, hlast]
        · rw [if_pos hconnected, if_neg hlast]
    · by_cases hlast : d.lastMs ≤ (w.entries i).last
      · refine .inl ⟨?_, ?_, ?_⟩
        · simp [accepts, hwindow, UInt64.not_lt.mpr hlast]
        · simp [cancels, hconnected]
        · rw [if_neg hconnected, if_pos hlast]
      · refine .inr (.inr ⟨i, ?_, ?_, hzero, .inl ⟨hwindow, hhash⟩, ?_⟩)
        · simp [accepts, hcurrent, hconnected, hwindow, UInt64.not_le.mp hlast]
        · simp [cancels, hconnected]
        · rw [if_neg hconnected, if_neg hlast, sight_entries, if_neg hne, hwindow]
  | none =>
    have hwindow : w.windowOf h = none := by rw [windowOf, hfind]; rfl
    simp only
    by_cases hconnected : samsungConnected d = true
    · refine .inl ⟨?_, ?_, ?_⟩
      · simp [accepts, hconnected]
      · simp [cancels, hwindow]
      · rw [if_pos hconnected]
    · cases hspare : w.spare now with
      | none =>
        refine .inl ⟨?_, ?_, ?_⟩
        · simp [accepts, hwindow, hspare]
        · simp [cancels, hconnected]
        · rw [if_neg hconnected]
      | some i =>
        have hstale : (w.entries i).fresh now = false := by
          have hp := Slots.first_sound hspare
          simpa using hp
        refine .inr (.inr ⟨i, ?_, ?_, hzero, .inr ⟨hwindow, trivial, hstale⟩, ?_⟩)
        · simp [accepts, hcurrent, hconnected, hwindow, hspare]
        · simp [cancels, hconnected]
        · rw [if_neg hconnected]
          simp [sight_entries, set, hwindow]

end TagWatch

end Hound
