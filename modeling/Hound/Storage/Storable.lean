import Hound.Core.MealGuard
import Hound.Storage.State

/-!
# States the store accepts

`valid_current` part by part, and what each update of a part keeps of it.
-/

namespace Hound

/-! ## Masks and settings -/

theorem validMask_xor {a b : UInt32} (ha : validMask a = true) (hb : validMask b = true) :
    validMask (a ^^^ b) = true := by
  unfold validMask at ha hb ⊢
  rw [beq_iff_eq] at ha hb ⊢
  rw [UInt32.shiftRight_xor, ha, hb]
  rfl

/-- What the store asks of the settings. -/
structure Settings.Storable (s : Settings) : Prop where
  version : s.version = 2
  sound : s.sound.valid = true
  lowFeeding : s.lowFeeding.valid = true
  reducedAnimation : s.reducedAnimation.valid = true
  research : s.research.valid = true
  rawSsid : s.rawSsid.valid = true
  onboarded : s.onboarded.valid = true
  ibeaconAlerts : s.ibeaconAlerts.valid = true
  portrait : s.portrait.valid = true
  rotationLocked : s.rotationLocked.valid = true
  character : s.character < 6
  region : s.region < 2
  dimmest : 1 ≤ s.brightness
  brightest : s.brightness ≤ 100
  name : validName s.name = true
  threshold : validThreshold s.threshold = true
  enabled : validMask s.enabledCategories = true
  alerts : validMask s.alertCategories = true

/-- What the store asks of the battery's calibration. -/
structure BatteryCalibration.Storable (c : BatteryCalibration) : Prop where
  flag : c.enabled.valid = true
  points : c.enabled.isSet = true → validBattery c = true

theorem BatteryCalibration.storable_off {c : BatteryCalibration} (h : c.enabled = .ofBool false) : c.Storable := by
  constructor
  · rw [h]
    exact Flag.valid_ofBool false
  · rw [h, Flag.isSet_ofBool]
    exact fun hset => absurd hset Bool.false_ne_true

/-! ## The scent book -/

/-- What the store asks of a scent book. -/
structure Companion.Storable (c : Companion) : Prop where
  version : c.version = 2
  equipped : c.equipped.toNat < outfitCount
  first : c.unlocked &&& 1 ≠ 0
  known : c.unlocked >>> 6 = 0
  worn : wears c.unlocked c.equipped = true
  scents : ∀ i, validScent (c.scents.get i) = true
  named : ∀ i, (c.ignored.get i).category.toNat < categoryCount
  distinct : ∀ i j, i ≠ j → (c.ignored.get i).hash ≠ 0 → (c.ignored.get j).hash ≠ (c.ignored.get i).hash

theorem validIgnores_iff (list : IgnoreList) :
    validIgnores list = true ↔ (∀ i, (list.get i).category.toNat < categoryCount) ∧
      ∀ i j, i ≠ j → (list.get i).hash ≠ 0 → (list.get j).hash ≠ (list.get i).hash := by
  unfold validIgnores
  simp only [List.all_eq_true, List.mem_finRange, true_implies, Bool.and_eq_true, decide_eq_true_eq,
    Bool.or_eq_true, beq_iff_eq, bne_iff_ne, Bool.not_eq_true', decide_eq_false_iff_not]
  constructor
  · intro h
    refine ⟨fun i => (h i).1, fun i j hij hi heq => ?_⟩
    rcases lt_or_gt_of_ne hij with hlt | hlt
    · have hj : (list.get j).hash ≠ 0 := by
        rw [heq]
        exact hi
      rcases (h j).2 with hzero | hall
      · exact hj hzero
      · rcases hall i with hnot | hne
        · exact hnot hlt
        · exact hne heq.symm
    · rcases (h i).2 with hzero | hall
      · exact hi hzero
      · rcases hall j with hnot | hne
        · exact hnot hlt
        · exact hne heq
  · rintro ⟨hnamed, hdistinct⟩ i
    refine ⟨hnamed i, ?_⟩
    by_cases hi : (list.get i).hash = 0
    · exact .inl hi
    · refine .inr fun j => ?_
      by_cases hlt : j < i
      · exact .inr (hdistinct i j (Ne.symm (ne_of_lt hlt)) hi)
      · exact .inl hlt

theorem validCompanion_iff (c : Companion) : validCompanion c = true ↔ c.Storable := by
  have hscents : c.scents.toList.all validScent = true ↔ ∀ i, validScent (c.scents.get i) = true := by
    rw [List.all_eq_true]
    constructor
    · exact fun h i => h _ (Vector.mem_toList_iff.mpr (Vector.getElem_mem i.isLt))
    · intro h s hs
      obtain ⟨i, hi, rfl⟩ := Vector.mem_iff_getElem.mp (Vector.mem_toList_iff.mp hs)
      exact h ⟨i, hi⟩
  unfold validCompanion
  rw [Bool.and_eq_true, Bool.and_eq_true, hscents, validIgnores_iff]
  simp only [Bool.not_eq_true', Bool.or_eq_false_iff, bne_eq_false_iff_eq, beq_eq_false_iff_ne,
    decide_eq_false_iff_not, not_le, Bool.not_eq_false']
  constructor
  · rintro ⟨⟨⟨⟨⟨⟨hversion, hequipped⟩, hfirst⟩, hknown⟩, hworn⟩, hscents⟩, hnamed, hdistinct⟩
    exact ⟨hversion, hequipped, hfirst, hknown, hworn, hscents, hnamed, hdistinct⟩
  · exact fun h => ⟨⟨⟨⟨⟨⟨h.version, h.equipped⟩, h.first⟩, h.known⟩, h.worn⟩, h.scents⟩, h.named, h.distinct⟩

namespace Companion.Storable

variable {c : Companion}

/-- The last second that the store takes, 2099-12-31 23:59:59. -/
def lastSecond : UInt64 := 4102444799

theorem record (h : c.Storable) {scents : Scents} (hscents : ∀ i, validScent (scents.get i) = true) :
    ({ c with scents } : Companion).Storable :=
  ⟨h.version, h.equipped, h.first, h.known, h.worn, hscents, h.named, h.distinct⟩

theorem validScent_observeEntry {s : ScentEntry} (h : validScent s = true) {d : Detection} (hscore : d.score ≤ 100)
    (htime : d.unixSeconds ≤ lastSecond) : validScent (Companion.observeEntry d s) = true := by
  unfold lastSecond at htime
  unfold validScent at h ⊢
  simp only [Bool.not_eq_true', Bool.or_eq_false_iff, decide_eq_false_iff_not, UInt8.not_lt, UInt64.not_lt] at h ⊢
  obtain ⟨⟨⟨hbest, -⟩, hfirst⟩, -⟩ := h
  unfold Companion.observeEntry
  dsimp only
  refine ⟨⟨⟨?_, ?_⟩, ?_⟩, htime⟩
  · split
    · exact hscore
    · exact hbest
  · split
    · exact UInt8.le_refl _
    · rename_i hge
      exact UInt8.not_lt.mp hge
  · split
    · exact htime
    · exact hfirst

theorem observe (h : c.Storable) {d : Detection} (hscore : d.score ≤ 100) (htime : d.unixSeconds ≤ lastSecond) :
    (c.observe d).Storable := by
  refine h.record fun i => ?_
  rw [Vector.get_ofFn]
  split
  · exact validScent_observeEntry (h.scents i) hscore htime
  · exact h.scents i

theorem earned_bits (c : Companion) (xp : UInt32) : c.earned xp >>> 6 = 0 := by
  unfold Companion.earned
  split <;> split <;> split <;> split <;> split <;> decide

/-- More outfits leave the worn one unlocked. -/
theorem unlock (h : c.Storable) (xp : UInt32) : (c.unlock xp).2.Storable := by
  refine { h with first := ?_, known := ?_, worn := ?_ }
  · change (c.unlocked ||| c.earned xp) &&& 1 ≠ 0
    intro hzero
    have hbit := congrArg (fun b : UInt8 => b.toNat.testBit 0) hzero
    have hfirst : (c.earned xp).toNat.testBit 0 = true := by
      unfold Companion.earned
      split <;> split <;> split <;> split <;> split <;> decide
    simp only [UInt8.toNat_and, UInt8.toNat_or, Nat.testBit_and, Nat.testBit_or, hfirst, Bool.or_true] at hbit
    exact absurd hbit (by decide)
  · change (c.unlocked ||| c.earned xp) >>> 6 = 0
    rw [UInt8.shiftRight_or, h.known, earned_bits]
    rfl
  · have hworn := h.worn
    change (c.unlocked ||| c.earned xp).toNat.testBit c.equipped.toNat = true
    unfold wears at hworn
    rw [UInt8.toNat_or, Nat.testBit_or, hworn, Bool.true_or]

theorem equip (h : c.Storable) {i : Nat} (hi : c.unlocked.toNat.testBit i = true) :
    ({ c with equipped := i.toUInt8 } : Companion).Storable := by
  have hlt : i < 6 := by
    by_contra hge
    have hshift := congrArg UInt8.toNat h.known
    rw [UInt8.toNat_shiftRight] at hshift
    have hbit : (c.unlocked.toNat >>> 6).testBit (i - 6) = true := by
      rw [Nat.testBit_shiftRight, show 6 + (i - 6) = i by omega]
      exact hi
    have hzero : c.unlocked.toNat >>> 6 = 0 := hshift
    rw [hzero, Nat.zero_testBit] at hbit
    exact absurd hbit Bool.false_ne_true
  have hsmall : i.toUInt8.toNat = i := by
    rw [Nat.toUInt8_eq, UInt8.toNat_ofNat']
    omega
  refine { h with equipped := ?_, worn := ?_ }
  · change i.toUInt8.toNat < 6
    rw [hsmall]
    exact hlt
  · change c.unlocked.toNat.testBit i.toUInt8.toNat = true
    rw [hsmall]
    exact hi

theorem forget (h : c.Storable) :
    ({ c with scents := Vector.replicate 19 {}, equipped := 0, unlocked := 1 } : Companion).Storable := by
  have hfirst : (1 : UInt8) &&& 1 ≠ 0 := by decide
  have hknown : (1 : UInt8) >>> 6 = 0 := by decide
  have hworn : wears 1 0 = true := by decide
  refine ⟨h.version, Nat.succ_pos _, hfirst, hknown, hworn, fun i => ?_, h.named, h.distinct⟩
  change validScent ((Vector.replicate 19 ({} : ScentEntry)).get i) = true
  rw [Vector.get_replicate]
  decide

/-- One slot of the list is written; a new hash is not in another slot. -/
theorem write (h : c.Storable) {list : IgnoreList} {i : Fin 64} (hnamed : (list.get i).category.toNat < categoryCount)
    (hnew : (list.get i).hash ≠ 0 → ∀ j, j ≠ i → (c.ignored.get j).hash ≠ (list.get i).hash)
    (hother : ∀ j, j ≠ i → list.get j = c.ignored.get j) : ({ c with ignored := list } : Companion).Storable := by
  refine { h with named := fun j => ?_, distinct := fun j k hjk hj => ?_ }
  · change (list.get j).category.toNat < categoryCount
    by_cases hji : j = i
    · rw [hji]
      exact hnamed
    · rw [hother j hji]
      exact h.named j
  · change (list.get k).hash ≠ (list.get j).hash
    change (list.get j).hash ≠ 0 at hj
    by_cases hji : j = i
    · subst hji
      rw [hother k (Ne.symm hjk)]
      exact hnew hj k (Ne.symm hjk)
    · rw [hother j hji] at hj ⊢
      by_cases hki : k = i
      · subst hki
        intro heq
        exact hnew (by rw [heq]; exact hj) j hjk heq.symm
      · rw [hother k hki]
        exact h.distinct j k hjk hj

theorem ignore (h : c.Storable) (hash : UInt64) (category : Category) : (c.ignore hash category).2.Storable := by
  unfold Companion.ignore
  split
  · exact h
  rename_i hzero
  split
  · exact h
  rename_i hlisted
  split
  · exact h
  rename_i i hfree
  have hfresh : ∀ j, (c.ignored.get j).hash ≠ hash := by
    intro j heq
    refine hlisted ?_
    unfold Companion.isIgnored
    rw [Bool.and_eq_true, bne_iff_ne, List.any_eq_true]
    exact ⟨by simpa using hzero, _, Vector.mem_toList_iff.mpr (Vector.getElem_mem j.isLt), beq_iff_eq.mpr heq⟩
  have hself : (Vector.ofFn fun j => if j = i then IgnoredScent.ofHash hash category.code.toUInt8
      else c.ignored.get j).get i = .ofHash hash category.code.toUInt8 := by
    rw [Vector.get_ofFn, if_pos rfl]
  refine h.write (i := i) ?_ ?_ fun j hj => ?_
  · rw [hself]
    change category.code.toUInt8.toNat < categoryCount
    have hcode := category.code_lt
    rw [Nat.toUInt8_eq, UInt8.toNat_ofNat', Nat.mod_eq_of_lt (by unfold categoryCount at hcode; omega)]
    exact hcode
  · rw [hself, IgnoredScent.hash_ofHash]
    exact fun _ j _ => hfresh j
  · rw [Vector.get_ofFn, if_neg hj]

theorem drop (h : c.Storable) (i : Fin 64) :
    ({ c with ignored := Slots.put c.ignored i {} } : Companion).Storable := by
  refine h.write (i := i) ?_ ?_ fun j hj => Slots.put_other _ (Ne.symm hj) _
  · rw [Slots.put_self]
    decide
  · rw [Slots.put_self, IgnoredScent.hash_default]
    exact fun hne => absurd rfl hne

end Companion.Storable

/-! ## The appearance -/

/-- What the store asks of an appearance. -/
structure Appearance.Storable (a : Appearance) : Prop where
  version : a.version = 3
  theme : a.theme < 3
  scene : a.scene < 3
  speech : a.speech < 3
  compact : a.compact < 2
  inverted : a.inverted < 2
  dim : validTimeout a.dimMinutes = true
  saver : validTimeout a.saverMinutes = true
  off : validTimeout a.offMinutes = true

theorem validAppearance_iff (a : Appearance) : validAppearance a = true ↔ a.Storable := by
  unfold validAppearance
  simp only [Bool.and_eq_true, decide_eq_true_eq, beq_iff_eq]
  constructor
  · rintro ⟨⟨⟨⟨⟨⟨⟨⟨hversion, htheme⟩, hscene⟩, hspeech⟩, hcompact⟩, hinverted⟩, hdim⟩, hsaver⟩, hoff⟩
    exact ⟨hversion, htheme, hscene, hspeech, hcompact, hinverted, hdim, hsaver, hoff⟩
  · exact fun h => ⟨⟨⟨⟨⟨⟨⟨⟨h.version, h.theme⟩, h.scene⟩, h.speech⟩, h.compact⟩, h.inverted⟩, h.dim⟩, h.saver⟩, h.off⟩

/-- `^= 1` of a choice between two. -/
theorem flip_lt_two {b : UInt8} (h : b < 2) : b ^^^ 1 < 2 := by
  rw [UInt8.lt_iff_toNat_lt] at h
  change b.toNat < 2 at h
  rcases (by omega : b.toNat = 0 ∨ b.toNat = 1) with hb | hb
  · rw [UInt8.toNat_inj.mp (hb.trans (show 0 = (0 : UInt8).toNat from rfl))]
    decide
  · rw [UInt8.toNat_inj.mp (hb.trans (show 1 = (1 : UInt8).toNat from rfl))]
    decide

theorem next_lt_three (b : UInt8) : (b + 1) % 3 < 3 := UInt8.mod_lt _ (by decide)

/-! ## The pet and its meals -/

section Pet

variable {q : Pet}

theorem fed_le (need gain least : Nat) : Pet.fed need gain least ≤ 100 := by
  unfold Pet.fed
  rw [UInt8.le_iff_toNat_le, Nat.toUInt8_eq, UInt8.toNat_ofNat']
  change min (max (need + gain) least) 100 % 2 ^ 8 ≤ 100
  omega

theorem lessened_le (need : UInt8) (loss : UInt64) : Pet.lessened need loss ≤ need := by
  rw [UInt8.le_iff_toNat_le]
  unfold Pet.lessened
  split
  · rename_i hlt
    rw [UInt64.toNat_toUInt8, UInt64.toNat_sub_of_le _ _ (UInt64.le_of_lt hlt), UInt8.toNat_toUInt64]
    have hbyte := need.toNat_lt
    omega
  · exact Nat.zero_le _

theorem decayNeeds_le (now : UInt64) (n : Pet.Needs) :
    (Pet.decayNeeds now n).fullness ≤ n.fullness ∧ (Pet.decayNeeds now n).mood ≤ n.mood := by
  unfold Pet.decayNeeds
  dsimp only
  generalize (if now < n.clock then now else n.clock) = clock
  split
  · exact ⟨UInt8.le_refl _, UInt8.le_refl _⟩
  · exact ⟨lessened_le _ _, lessened_le _ _⟩

theorem validPet_iff (q : Pet) : validPet q = true ↔ q.fullness ≤ 100 ∧ q.mood ≤ 100 := by
  unfold validPet
  rw [Bool.and_eq_true, decide_eq_true_eq, decide_eq_true_eq]

theorem validPet_tick (h : validPet q = true) (now : UInt64) : validPet (q.tick now) = true := by
  rw [validPet_iff] at h ⊢
  obtain ⟨hfullness, hmood⟩ := decayNeeds_le now ⟨q.decayMs, q.fullness, q.mood⟩
  exact ⟨UInt8.le_trans hfullness h.1, UInt8.le_trans hmood h.2⟩

theorem validPet_stroke (h : validPet q = true) : validPet q.stroke = true := by
  rw [validPet_iff] at h ⊢
  refine ⟨h.1, ?_⟩
  change (min 100 (q.mood.toNat + 2)).toUInt8 ≤ 100
  rw [UInt8.le_iff_toNat_le, Nat.toUInt8_eq, UInt8.toNat_ofNat']
  change min 100 (q.mood.toNat + 2) % 2 ^ 8 ≤ 100
  omega

theorem validPet_feed (h : validPet q = true) (d : Detection) (low : Bool) : validPet (q.feed d low) = true := by
  unfold Pet.feed
  generalize (if low = true then (20 : UInt8) else 50) = least
  split
  · exact h
  · rw [validPet_iff]
    exact ⟨fed_le _ _ _, fed_le _ _ _⟩

end Pet

namespace MealGuard

/-- No stamp holds longer than half an hour from now on. -/
def Brief (g : MealGuard) (now : UInt64) : Prop :=
  ∀ i, now < (g.stamps i).remainingMs → (g.stamps i).remainingMs - now ≤ 1800000

theorem Brief.later {g : MealGuard} {now now' : UInt64} (h : g.Brief now) (hle : now ≤ now') : g.Brief now' := by
  intro i hi
  have hbrief := h i (UInt64.lt_of_le_of_lt hle hi)
  rw [UInt64.le_iff_toNat_le, UInt64.toNat_sub_of_le _ _ (UInt64.le_of_lt (UInt64.lt_of_le_of_lt hle hi))] at hbrief
  rw [UInt64.le_iff_toNat_le, UInt64.toNat_sub_of_le _ _ (UInt64.le_of_lt hi)]
  have hle' := UInt64.le_iff_toNat_le.mp hle
  omega

theorem sourceHold_le (c : Category) : (sourceHold c).toNat ≤ 1800000 := by
  cases c <;> decide

theorem Brief.step {g : MealGuard} {r : Request} (h : g.Brief r.now) : (g.step r).Brief r.now := by
  by_cases hs : g.Succeeds r
  · rw [(award_spec hs).2.2.2.2]
    intro i hi
    change r.now < (Function.update g.stamps (g.destination r.hash) _ i).remainingMs at hi
    change (Function.update g.stamps (g.destination r.hash) _ i).remainingMs - r.now ≤ 1800000
    by_cases hdest : i = g.destination r.hash
    · subst hdest
      rw [Function.update_self] at hi ⊢
      change r.now + sourceHold r.category - r.now ≤ 1800000
      rw [UInt64.le_iff_toNat_le, add_sub_cancel_left]
      exact sourceHold_le _
    · rw [Function.update_of_ne hdest] at hi ⊢
      exact h i hi
  · rw [step_of_not_succeeds hs]
    exact h

theorem restore_brief (g : MealGuard) (saved : List MealStamp) : (g.restore saved).Brief 0 := by
  have hfull : (1800000 : UInt64) - 0 ≤ 1800000 := by decide
  have hnone : (0 : UInt64) - 0 ≤ 1800000 := by decide
  intro i _
  unfold restore
  dsimp only
  split
  · exact hfull
  · exact hnone

theorem snapshot_brief (sort : SortFn MealStamp) {g : MealGuard} {now : UInt64} (h : g.Brief now) :
    (g.snapshot sort now).toList.all (fun s => decide (s.remainingMs ≤ 1800000)) = true := by
  rw [List.all_eq_true]
  intro s hs
  rw [decide_eq_true_eq]
  obtain ⟨i, hi, rfl⟩ := Vector.mem_iff_getElem.mp (Vector.mem_toList_iff.mp hs)
  unfold snapshot
  dsimp only
  rw [Vector.getElem_ofFn]
  split
  · rename_i stamp hstamp
    split
    · rename_i hlater
      obtain ⟨k, hk⟩ : ∃ k, g.stamps k = stamp := by
        have hmem := (sort.mem_run _ _ stamp).mp (List.mem_of_getElem? hstamp)
        obtain ⟨k, hk⟩ := List.mem_ofFn.mp hmem
        exact ⟨k, hk⟩
      rw [← hk] at hlater ⊢
      exact h k hlater
    · decide
  · decide

end MealGuard

/-! ## The whole -/

/-- `valid_current` part by part. -/
structure State.Storable (s : State) : Prop where
  version : s.version = 5
  settings : s.settings.Storable
  calibration : validCalibration s.calibration = true
  pet : validPet s.pet = true
  companion : s.companion.Storable
  appearance : s.appearance.Storable
  battery : s.battery.Storable
  recent : (s.recent.toList.all fun stamp => decide (stamp.remainingMs ≤ 1800000)) = true
  key : (s.mealKey.toList.any fun b => b != 0) = true

theorem validCurrent_iff (s : State) : validCurrent s = true ↔ s.Storable := by
  have hbattery : (!s.battery.enabled.isSet || validBattery s.battery) = true ↔
      (s.battery.enabled.isSet = true → validBattery s.battery = true) := by
    cases s.battery.enabled.isSet <;> simp
  unfold validCurrent validState validSettings
  simp only [Bool.and_eq_true, hbattery, validCompanion_iff, validAppearance_iff, List.all_cons, List.all_nil, Bool.and_true,
    decide_eq_true_eq, beq_iff_eq]
  constructor
  · intro h
    obtain ⟨⟨⟨⟨⟨⟨⟨hstate, hcompanion⟩, happearance⟩, hportrait, hlocked, hflag⟩, halerts⟩, hpoints⟩, hrecent⟩, hkey⟩ := h
    obtain ⟨⟨⟨hsettings, hcalibration⟩, hstored⟩, hpet⟩ := hstate
    obtain ⟨⟨⟨⟨⟨⟨⟨⟨⟨hsound, hlow, hreduced, hresearch, hraw, honboarded, hibeacon⟩, hversion⟩, hcharacter⟩,
      hregion⟩, hbright⟩, hdim⟩, hname⟩, hthreshold⟩, henabled⟩ := hsettings
    exact ⟨hstored, ⟨hversion, hsound, hlow, hreduced, hresearch, hraw, honboarded, hibeacon, hportrait, hlocked,
      hcharacter, hregion, hdim, hbright, hname, hthreshold, henabled, halerts⟩, hcalibration, hpet, hcompanion,
      happearance, ⟨hflag, hpoints⟩, hrecent, hkey⟩
  · intro h
    have hs := h.settings
    have hflags := And.intro hs.sound (And.intro hs.lowFeeding (And.intro hs.reducedAnimation
      (And.intro hs.research (And.intro hs.rawSsid (And.intro hs.onboarded hs.ibeaconAlerts)))))
    have hsettings := And.intro (And.intro (And.intro (And.intro (And.intro (And.intro (And.intro (And.intro hflags
      hs.version) hs.character) hs.region) hs.brightest) hs.dimmest) hs.name) hs.threshold) hs.enabled
    exact ⟨⟨⟨⟨⟨⟨⟨⟨⟨⟨hsettings, h.calibration⟩, h.version⟩, h.pet⟩, h.companion⟩, h.appearance⟩, hs.portrait,
      hs.rotationLocked, h.battery.flag⟩, hs.alerts⟩, h.battery.points⟩, h.recent⟩, h.key⟩

end Hound
