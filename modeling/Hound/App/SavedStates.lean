import Hound.App.Routine
import Hound.Lib.Runs
import Hound.Storage.Storable

/-!
# What is saved can be loaded

Every State that the task hands over for a save is one that the store accepts, from a
boot with an accepted State on, as long as no brightness step overshoots, no clock
has run past the last second a scent may carry, and every solved calibration is in
range.
-/

namespace Hound

/-- What `save` takes from the view. -/
structure View.Savable (v : View) : Prop where
  settings : v.settings.Storable
  pet : validPet v.pet = true
  companion : v.companion.Storable
  appearance : v.appearance.Storable
  battery : v.batteryCal.Storable

namespace View.Savable

variable {bright : UInt8 → Prop} {hmac : Hmac} {v w : View} {d : Detection}

theorem of_base (h : v.Savable) (hbase : w.base = v.base) (hcompanion : w.companion.Storable) : w.Savable := by
  have hsettings : w.settings = v.settings := congrArg Base.settings hbase
  have hpet : w.pet = v.pet := congrArg Base.pet hbase
  have happearance : w.appearance = v.appearance := congrArg Base.appearance hbase
  have hbattery : w.batteryCal = v.batteryCal := congrArg Base.batteryCal hbase
  exact ⟨hsettings ▸ h.settings, hpet ▸ h.pet, hcompanion, happearance ▸ h.appearance, hbattery ▸ h.battery⟩

theorem quiet (h : v.Savable) (hquiet : Quiet v w) : w.Savable := by
  have hcompanion : w.companion = v.companion := congrArg Guarded.companion hquiet.kept
  exact h.of_base hquiet.base (hcompanion ▸ h.companion)

theorem request (h : v.Savable) (r : UiRequest) : (v.request r).Savable :=
  ⟨h.settings, h.pet, h.companion, h.appearance, h.battery⟩

theorem setBook (h : v.Savable) {demo : Bool} {c : Companion} (hc : demo = false → c.Storable) :
    (v.setBook demo c).Savable := by
  cases demo with
  | true => exact ⟨h.settings, h.pet, h.companion, h.appearance, h.battery⟩
  | false => exact ⟨h.settings, h.pet, hc rfl, h.appearance, h.battery⟩

theorem book (h : v.Savable) {demo : Bool} (hdemo : demo = false) : (v.book demo).Storable := by
  rw [hdemo]
  exact h.companion

theorem setLook (h : v.Savable) {a : Appearance} (ha : v.demo = false → a.Storable) : (v.setLook a).Savable := by
  unfold View.setLook
  split
  · exact ⟨h.settings, h.pet, h.companion, h.appearance, h.battery⟩
  · rename_i hdemo
    exact ⟨h.settings, h.pet, h.companion, ha (Bool.not_eq_true _ ▸ hdemo), h.battery⟩

theorem setSnooze (h : v.Savable) (t : UInt64) : (v.setSnooze t).Savable := by
  unfold View.setSnooze
  split <;> exact ⟨h.settings, h.pet, h.companion, h.appearance, h.battery⟩

/-! ## Taps -/

/-- A step of the brightness from here stays in range. -/
def Stepped (n : UInt8) : Prop := n ≤ 80 ∨ 100 ≤ n

instance (n : UInt8) : Decidable (Stepped n) := inferInstanceAs (Decidable (_ ∨ _))

theorem brighten {s : Settings} (h : s.Storable) (hstep : Stepped s.brightness) :
    ({ s with brightness := if 100 ≤ s.brightness then 20 else s.brightness + 20 } : Settings).Storable := by
  have hlow := UInt8.le_iff_toNat_le.mp h.dimmest
  change 1 ≤ s.brightness.toNat at hlow
  refine { h with dimmest := ?_, brightest := ?_ }
  · change 1 ≤ (if 100 ≤ s.brightness then 20 else s.brightness + 20)
    split
    · decide
    · rename_i hlt
      rw [UInt8.not_le, UInt8.lt_iff_toNat_lt] at hlt
      rw [UInt8.le_iff_toNat_le, UInt8.toNat_add]
      change s.brightness.toNat < 100 at hlt
      change 1 ≤ (s.brightness.toNat + 20) % 256
      omega
  · change (if 100 ≤ s.brightness then 20 else s.brightness + 20) ≤ 100
    split
    · decide
    · rcases hstep with hstep | hstep
      · have hle := UInt8.le_iff_toNat_le.mp hstep
        rw [UInt8.le_iff_toNat_le, UInt8.toNat_add]
        change s.brightness.toNat ≤ 80 at hle
        change (s.brightness.toNat + 20) % 256 ≤ 100
        omega
      · contradiction

theorem touch (hbright : ∀ n, bright n → Stepped n) (h : v.Savable) (htouch : Touch bright v w) : w.Savable := by
  cases htouch with
  | quiet hquiet => exact h.quiet hquiet
  | request _ => exact h.request _
  | prefer hs => exact ⟨hs h.settings, h.pet, h.companion, h.appearance, h.battery⟩
  | brighten hrow => exact ⟨brighten h.settings (hbright _ hrow), h.pet, h.companion, h.appearance, h.battery⟩
  | book hc => exact h.setBook fun hdemo => hc (h.book hdemo)
  | ignore hpage hc => exact h.setBook fun hdemo => hc (h.book hdemo)
  | dress ha =>
    refine h.setLook fun hdemo => ha ?_
    unfold View.look
    rw [hdemo]
    exact h.appearance
  | snooze t => exact h.setSnooze t
  | clock seconds => exact ⟨h.settings, h.pet, h.companion, h.appearance, h.battery⟩
  | battery hc => exact ⟨h.settings, h.pet, h.companion, h.appearance, hc h.battery⟩
  | stroke hreal => exact ⟨h.settings, validPet_stroke h.pet, h.companion, h.appearance, h.battery⟩
  | export' =>
    unfold View.requestExport
    repeat' split
    all_goals exact ⟨h.settings, h.pet, h.companion, h.appearance, h.battery⟩
  | eject =>
    unfold View.requestEject
    repeat' split
    all_goals exact ⟨h.settings, h.pet, h.companion, h.appearance, h.battery⟩
  | actions _ => exact ⟨h.settings, h.pet, h.companion, h.appearance, h.battery⟩
  | details i =>
    unfold View.openDetails
    split <;> exact ⟨h.settings, h.pet, h.companion, h.appearance, h.battery⟩

theorem touched (hbright : ∀ n, bright n → Stepped n) (h : v.Savable) (htouched : Touched bright v w) : w.Savable := by
  induction htouched with
  | refl => exact h
  | tail _ htouch ih => exact ih.touch hbright htouch

theorem tap (h : v.Savable) {x y : Int} (hbright : v.brightens x y → Stepped v.settings.brightness) :
    (v.tap hmac x y).Savable := by
  rcases v.tap_touched hmac x y with htouched | ⟨-, -, hdemo⟩
  · have hfound : ∀ n, v.found x y n → Stepped n := fun n hn => hn.2 ▸ hbright hn.1
    exact h.touched hfound htouched
  · rw [hdemo]
    have hwoken := h.quiet (View.wakeDisplay_quiet v false)
    exact ⟨hwoken.settings, hwoken.pet, hwoken.companion, hwoken.appearance, hwoken.battery⟩

/-! ## Detections, time and requests -/

theorem event (h : v.Savable) (htime : d.unixSeconds ≤ Companion.Storable.lastSecond) : (v.event hmac d).Savable := by
  have hlearnt := v.event_learnt hmac d
  refine h.of_base hlearnt.base ?_
  rcases hlearnt.companion with hsame | ⟨-, hscore, hobserved⟩
  · rw [hsame]
    exact h.companion
  · rw [hobserved]
    exact (h.companion.observe hscore htime).unlock _

theorem feedPet (h : v.Savable) (d : Detection) : (v.feedPet d).Savable := by
  have hcounted : validPet (if d.seenCount == 1 then { v.pet with unique := v.pet.unique + 1 } else v.pet) = true := by
    split <;> exact h.pet
  exact ⟨h.settings, validPet_feed hcounted d _, h.companion, h.appearance, h.battery⟩

theorem tickPet (h : v.Savable) : v.tickPet.Savable := by
  unfold View.tickPet
  split
  · exact ⟨h.settings, h.pet, h.companion, h.appearance, h.battery⟩
  · exact ⟨h.settings, validPet_tick h.pet _, h.companion, h.appearance, h.battery⟩

theorem resetProgress (h : v.Savable) : v.resetProgress.Savable := by
  have hscents : v.resetScents.Savable := h.setBook fun hdemo => (h.book hdemo).forget
  have hpet : v.resetScents.resetPet.Savable := by
    unfold View.resetPet
    split <;> exact ⟨hscents.settings, by first | exact hscents.pet | rfl, hscents.companion, hscents.appearance, hscents.battery⟩
  exact ⟨hpet.settings, hpet.pet, hpet.companion, hpet.appearance, hpet.battery⟩

theorem offCard (h : v.Savable) (hsame : w.offCard = v.offCard) : w.Savable := by
  have hsettings : w.settings = v.settings := View.eq_of_offCard View.settings (fun _ => rfl) hsame
  have hpet : w.pet = v.pet := View.eq_of_offCard View.pet (fun _ => rfl) hsame
  have hcompanion : w.companion = v.companion := View.eq_of_offCard View.companion (fun _ => rfl) hsame
  have happearance : w.appearance = v.appearance := View.eq_of_offCard View.appearance (fun _ => rfl) hsame
  have hbattery : w.batteryCal = v.batteryCal := View.eq_of_offCard View.batteryCal (fun _ => rfl) hsame
  exact ⟨hsettings ▸ h.settings, hpet ▸ h.pet, hcompanion ▸ h.companion, happearance ▸ h.appearance,
    hbattery ▸ h.battery⟩

theorem switchDemo (h : v.Savable) {kept : Pet} (hkept : validPet kept = true) : (v.switchDemo kept).Savable := by
  unfold View.switchDemo
  split
  · exact ⟨h.settings, h.pet, h.companion, h.appearance, h.battery⟩
  · exact ⟨h.settings, hkept, h.companion, h.appearance, h.battery⟩

end View.Savable

namespace App

open Worker (Message)
open View.Savable (Stepped)

variable {p : Platform} {a b : App}

/-- What the task keeps between its steps. -/
structure Savable (a : App) : Prop where
  view : a.view.Savable
  realPet : validPet a.realPet = true
  version : a.state.version = 5
  calibration : validCalibration a.state.calibration = true
  mealKey : (a.state.mealKey.toList.any fun b => b != 0) = true
  meals : a.meals.Brief a.view.now

/-- The State of a save is accepted. -/
def Stored : Message → Prop
  | .Save s | .BackupIgnores s | .Sleep s => validCurrent s = true
  | _ => True

instance : ∀ m : Message, Decidable (Stored m)
  | .Save s | .BackupIgnores s | .Sleep s => inferInstanceAs (Decidable (validCurrent s = true))
  | .Record _ | .Export | .Clear | .Eject | .Diagnostics _ | .Sound => .isTrue trivial

namespace Savable

theorem routine (h : a.Savable) (hr : Routine a b) : b.Savable :=
  ⟨h.view.quiet hr.view, hr.realPet ▸ h.realPet, hr.version ▸ h.version, hr.calibration ▸ h.calibration,
    hr.mealKey ▸ h.mealKey, by rw [hr.meals, hr.now]; exact h.meals⟩

/-- The same variables with another view at the same time. -/
theorem shown (h : a.Savable) (hview : b.view.Savable) (hnow : b.view.now = a.view.now) (hpet : b.realPet = a.realPet)
    (hstate : b.state = a.state) (hmeals : b.meals = a.meals) : b.Savable :=
  ⟨hview, hpet ▸ h.realPet, hstate ▸ h.version, hstate ▸ h.calibration, hstate ▸ h.mealKey,
    by rw [hmeals, hnow]; exact h.meals⟩

theorem assembled (h : a.Savable) : validCurrent (a.assembled p) = true :=
  (validCurrent_iff _).mpr ⟨h.version, h.view.settings, h.calibration, h.view.pet, h.view.companion, h.view.appearance,
    h.view.battery, MealGuard.snapshot_brief p.sortStamps h.meals, h.mealKey⟩

theorem told (h : a.Savable) : ∀ m, Told p a m → Stored m
  | .Save _, ⟨_, _, hr, hs⟩ => hs ▸ (h.routine hr).assembled
  | .BackupIgnores _, ⟨_, _, hr, hs⟩ => hs ▸ (h.routine hr).assembled
  | .Sleep _, hs => hs.2
  | .Record _, _ => trivial
  | .Diagnostics _, _ => trivial
  | .Sound, _ => trivial

theorem routinely (h : a.Savable) {x : AppIo App} (hx : Routinely p a x) : x.Meets Stored Savable :=
  hx.mono h.told fun _ hr => h.routine hr

/-- Other variables than those that are saved. -/
theorem apart (h : a.Savable) (hview : b.view = a.view) (hpet : b.realPet = a.realPet)
    (hstate : b.state = a.state) (hmeals : b.meals = a.meals) : b.Savable :=
  h.shown (hview ▸ h.view) (congrArg View.now hview) hpet hstate hmeals

end Savable

/-! ## What the steps assume -/

/-- The time does not go back. -/
def Clocked (a : App) : Input → Prop
  | .head now => a.view.now ≤ now
  | .packet r => a.view.now ≤ r.now
  | _ => True

instance (a : App) : ∀ i : Input, Decidable (a.Clocked i)
  | .head now => inferInstanceAs (Decidable (a.view.now ≤ now))
  | .packet r => inferInstanceAs (Decidable (a.view.now ≤ r.now))
  | .drained | .touch _ | .button _ _ | .serve _ | .synthesize | .rest _ | .taken => .isTrue trivial

/-- What the engine finds in a packet that the task listens to. -/
def found (p : Platform) (a : App) (r : Reception) : List Emission :=
  if a.phase ≠ .radio ∨ a.view.demo ∨ a.calibrating ∨ a.view.paused then []
  else match r.packet.observed with
    | none => []
    | some o => (a.engine.ingest p.sortRules o a.view.settings 4).2

/-- A new touch. -/
def presses (a : App) : Prop := a.phase = .touch ∧ a.wasTouch = false ∧ 150 < a.view.now - a.lastTouch

/-- The touch is a tap at a page, or the third of a calibration. -/
def InRange (p : Platform) (a : App) : Input → Prop
  | .packet r => a.found p r ≠ [] → ({ a.view with now := r.now } : View).utcNow ≤ Companion.Storable.lastSecond
  | .touch (some t) => a.presses →
      (a.calibrating = false → a.state.calibration.valid.isSet = true →
        let point := fromPortrait t.point a.view.settings.portrait.isSet
        a.view.brightens point.1 point.2 → Stepped a.view.settings.brightness) ∧
      (a.calibrating = true → a.calibrationStep = 2 →
        (Board.calibrate (a.rawPoints.setIfInBounds 2 t.raw) (targets a.view.settings.portrait.isSet)).all validCalibration = true)
  | _ => True

instance (a : App) : Decidable a.presses := inferInstanceAs (Decidable (_ ∧ _ ∧ _))

instance (p : Platform) (a : App) : ∀ i : Input, Decidable (a.InRange p i)
  | .packet r => inferInstanceAs (Decidable (a.found p r ≠ [] → _ ≤ Companion.Storable.lastSecond))
  | .touch (some _) => inferInstanceAs (Decidable (a.presses →
      (a.calibrating = false → a.state.calibration.valid.isSet = true → a.view.brightens _ _ → Stepped _) ∧
        (a.calibrating = true → a.calibrationStep = 2 → (Board.calibrate _ _).all validCalibration = true)))
  | .touch none | .head _ | .drained | .button _ _ | .serve _ | .synthesize | .rest _ | .taken => .isTrue trivial

/-! ## The steps -/

theorem head_savable (h : a.Savable) {now : UInt64} (hle : a.view.now ≤ now) : (a.head now).Savable := by
  have hnow : ({ a.view with now } : View).Savable :=
    ⟨h.view.settings, h.view.pet, h.view.companion, h.view.appearance, h.view.battery⟩
  have hupdates := (View.updateTagWatch_quiet { a.view with now }).trans (View.updateDisplay_quiet _)
  have hticks : ∀ v : View, v.tickPet.now = v.now := by
    intro v
    unfold View.tickPet
    split <;> rfl
  refine ⟨(hnow.quiet hupdates).tickPet, h.realPet, h.version, h.calibration, h.mealKey, ?_⟩
  have htime : (a.head now).view.now = now := (hticks _).trans hupdates.now
  rw [htime]
  exact h.meals.later hle

theorem award_brief (h : a.meals.Brief a.view.now) (d : Detection) : (a.award p d).2.Brief a.view.now := by
  unfold award
  split
  · exact MealGuard.Brief.step (r := ⟨mealHash p.hmac a.state.mealKey.toList d, a.view.now, d.category, d.score,
      a.view.settings.lowFeeding.isSet⟩) h
  · exact h

theorem utcNow_of_base {v w : View} (h : w.base = v.base) : w.utcNow = v.utcNow := by
  have hseconds : w.clockSeconds = v.clockSeconds := congrArg Base.clockSeconds h
  have hset : w.clockSetMs = v.clockSetMs := congrArg Base.clockSetMs h
  have hnow : w.now = v.now := congrArg Base.now h
  unfold View.utcNow
  rw [hseconds, hset, hnow]

/-- The task while it counts what the engine found. -/
def Counting (a : App) : Prop := a.Savable ∧ a.view.utcNow ≤ Companion.Storable.lastSecond

theorem Counting.routinely (h : a.Counting) {x : AppIo App} (hx : Routinely p a x) : x.Meets Stored Counting :=
  hx.mono h.1.told fun _ hr => ⟨h.1.routine hr, utcNow_of_base hr.view.base ▸ h.2⟩

theorem detected_counting (r : Reception) (a : App) (e : Emission) (h : a.Counting) :
    (detected p r a e).Meets Stored Counting := by
  unfold detected
  dsimp only
  split
  · exact Logged.meets_pure h
  have hmeals := award_brief (p := p) h.1.meals { e.detection with unixSeconds := a.view.utcNow }
  generalize a.award p { e.detection with unixSeconds := a.view.utcNow } = awarded at hmeals
  have hseen : ∀ d : Detection, d.unixSeconds ≤ Companion.Storable.lastSecond →
      Counting { a with meals := awarded.2, view := (a.view.feedPet d).event p.hmac d } := by
    intro d htime
    have hlearnt := (a.view.feedPet d).event_learnt p.hmac d
    have hutc : ((a.view.feedPet d).event p.hmac d).utcNow = a.view.utcNow := by
      rw [utcNow_of_base hlearnt.base]
      rfl
    have hnow : ((a.view.feedPet d).event p.hmac d).now = a.view.now := congrArg Base.now hlearnt.base
    refine ⟨⟨(h.1.view.feedPet d).event htime, h.1.realPet, h.1.version, h.1.calibration, h.1.mealKey, ?_⟩, ?_⟩
    · change awarded.2.Brief ((a.view.feedPet d).event p.hmac d).now
      rw [hnow]
      exact hmeals
    · change ((a.view.feedPet d).event p.hmac d).utcNow ≤ _
      rw [hutc]
      exact h.2
  exact .bind ((hseen _ h.2).routinely (saveMeal_routinely _ _ _)) fun b hb =>
    .bind (hb.routinely (append_routinely (p := p) b _ _ _)) fun c hc => hc.routinely (soundAlert_routinely c _)

theorem hear_savable (h : a.Savable) (r : Reception) (hphase : a.phase = .radio) (hclock : a.view.now ≤ r.now)
    (hutc : a.found p r ≠ [] → ({ a.view with now := r.now } : View).utcNow ≤ Companion.Storable.lastSecond) :
    (a.hear p r).Meets Stored Savable := by
  unfold found at hutc
  unfold hear
  by_cases hdeaf : (a.view.demo || a.calibrating || a.view.paused) = true
  · rw [if_pos hdeaf]
    exact Logged.meets_pure h
  rw [if_neg hdeaf]
  rw [if_neg (by simpa [hphase, and_assoc] using hdeaf)] at hutc
  split
  · exact Logged.meets_pure h
  rename_i o ho
  rw [ho] at hutc
  dsimp only at hutc
  have hnow : ({ a.view with now := r.now } : View).Savable :=
    ⟨h.view.settings, h.view.pet, h.view.companion, h.view.appearance, h.view.battery⟩
  have hheard := View.hear_aside { a.view with now := r.now } o false
  have hsettings : (View.hear { a.view with now := r.now } o false).settings = a.view.settings :=
    congrArg Base.settings hheard.base
  have htime : (View.hear { a.view with now := r.now } o false).now = r.now := congrArg Base.now hheard.base
  dsimp only
  rw [hsettings]
  generalize a.engine.ingest p.sortRules o a.view.settings 4 = ingested at hutc
  obtain ⟨engine, found⟩ := ingested
  have hview := hnow.quiet hheard.quiet
  have hutc' := utcNow_of_base hheard.base
  generalize View.hear { a.view with now := r.now } o false = v at *
  have hsaved : ({ a with view := v, engine } : App).Savable := by
    refine ⟨hview, h.realPet, h.version, h.calibration, h.mealKey, ?_⟩
    change a.meals.Brief v.now
    rw [htime]
    exact h.meals.later hclock
  dsimp only
  cases found with
  | nil => exact Logged.meets_pure hsaved
  | cons e found =>
    have hcounting : ({ a with view := v, engine } : App).Counting := ⟨hsaved, hutc' ▸ hutc (List.cons_ne_nil e found)⟩
    exact (Logged.Meets.foldlM (detected_counting r) (e :: found) hcounting).mono (fun _ h => h) fun _ h => h.1

theorem startCalibration_savable {v : View} (h : v.Savable) : (startCalibration v).Savable :=
  (h.request .Calibrate).quiet (startCalibration_quiet v)

theorem calibrate_savable (h : a.Savable) (t : Press)
    (hsolved : (Board.calibrate a.rawPoints (targets a.view.settings.portrait.isSet)).all validCalibration = true) :
    (a.calibrate p t).Meets Stored Savable := by
  unfold calibrate
  split
  · exact Logged.meets_pure (h.apart rfl rfl rfl rfl)
  rename_i c hc
  rw [hc] at hsolved
  have hpage : (if a.view.settings.onboarded.isSet = true then Screen.Home else .Welcome) ≠ .AlertActions ∧
      (if a.view.settings.onboarded.isSet = true then Screen.Home else .Welcome) ≠ .Details := by
    split <;> exact ⟨nofun, nofun⟩
  have hsolves : ({ a with
      state.calibration := c, calibrating := false
      view := a.view.goto (if a.view.settings.onboarded.isSet then .Home else .Welcome) } : App).Savable :=
    ⟨h.view.quiet (View.goto_quiet hpage _), h.realPet, h.version, hsolved, h.mealKey, h.meals⟩
  dsimp only
  refine .bind (hsolves.routinely (save_routinely _ _ _)) fun b hb => ?_
  split
  · exact Logged.meets_pure (hb.routine (beginRadio_routine b _))
  · exact Logged.meets_pure hb

theorem press_savable (h : a.Savable) (t : Press)
    (htap : a.calibrating = false → a.state.calibration.valid.isSet = true →
      let point := fromPortrait t.point a.view.settings.portrait.isSet
      a.view.brightens point.1 point.2 → Stepped a.view.settings.brightness)
    (hsolved : a.calibrating = true → a.calibrationStep = 2 →
      (Board.calibrate (a.rawPoints.setIfInBounds 2 t.raw) (targets a.view.settings.portrait.isSet)).all validCalibration = true) :
    (a.press p t).Meets Stored Savable := by
  unfold press
  split
  · rename_i hcalibrating
    have hcounts : (a.pointed t).Savable := h.apart rfl rfl rfl rfl
    dsimp only
    split
    · rename_i hthird
      have hstep : a.calibrationStep = 2 := Nat.succ.inj hthird
      have hpoints : (a.pointed t).rawPoints = a.rawPoints.setIfInBounds 2 t.raw := by
        unfold pointed
        rw [hstep]
      refine calibrate_savable hcounts t ?_
      rw [hpoints]
      exact hsolved hcalibrating hstep
    · exact Logged.meets_pure hcounts
  rename_i hcalibrating
  rw [Bool.not_eq_true] at hcalibrating
  split
  · rename_i hvalid
    exact Logged.meets_pure (h.shown (h.view.tap (htap hcalibrating hvalid)) (View.tap_now p.hmac _ _ _) rfl rfl rfl)
  · split
    · have hzero : (0 : UInt8) < 2 := by decide
      have hregion : ({ a.view with settings.region := 0 } : View).Savable :=
        ⟨{ h.view.settings with region := hzero }, h.view.pet, h.view.companion, h.view.appearance, h.view.battery⟩
      exact Logged.meets_pure (h.shown (startCalibration_savable hregion) rfl rfl rfl rfl)
    · exact Logged.meets_pure h

theorem touch_savable (h : a.Savable) (t : Option Press) (hphase : a.phase = .touch)
    (hrange : a.InRange p (.touch t)) : (App.touch p a t).Meets Stored Savable := by
  have hends : ∀ b : App, b.Savable → ({ b.held t.isSome with wasTouch := t.isSome, phase := .button } : App).Savable :=
    fun b hb => (hb.routine (held_routine b t.isSome)).apart rfl rfl rfl rfl
  unfold touch
  refine .bind (Q := Savable) ?_ fun b hb => Logged.meets_pure (hends b hb)
  cases t with
  | none => exact Logged.meets_pure h
  | some t =>
    have htouched : ({ a.view with touchX := t.raw.1, touchY := t.raw.2 } : View).Savable :=
      ⟨h.view.settings, h.view.pet, h.view.companion, h.view.appearance, h.view.battery⟩
    change (contact p a t).Meets Stored Savable
    unfold contact
    dsimp only
    split
    · rename_i hnew
      rw [Bool.and_eq_true, Bool.not_eq_true', decide_eq_true_eq] at hnew
      obtain ⟨htap, hsolved⟩ := hrange ⟨hphase, hnew.1, hnew.2⟩
      have hcontact : ({ a with
          view := { a.view with touchX := t.raw.1, touchY := t.raw.2 }, lastTouch := a.view.now } : App).Savable :=
        h.shown htouched rfl rfl rfl rfl
      exact press_savable hcontact t htap hsolved
    · exact Logged.meets_pure (h.shown htouched rfl rfl rfl rfl)

theorem release_savable (h : a.Savable) (claimed : Bool) : (a.release p claimed).Meets Stored Savable := by
  unfold release
  split
  · have hmuted : ({ a.view with settings.sound := .ofBool false } : View).Savable :=
      ⟨{ h.view.settings with sound := Flag.valid_ofBool false }, h.view.pet, h.view.companion,
        h.view.appearance, h.view.battery⟩
    have hsaved : ({ a with view := { a.view with settings.sound := .ofBool false } } : App).Savable :=
      h.shown hmuted rfl rfl rfl rfl
    exact hsaved.routinely (save_routinely _ _ _)
  · split
    · exact Logged.meets_pure (h.shown (startCalibration_savable h.view) rfl rfl rfl rfl)
    · exact Logged.meets_pure (h.routine (.shown (next_quiet a.view)))

theorem button_savable (h : a.Savable) (pressed claimed : Bool) : (a.button p pressed claimed).Meets Stored Savable := by
  have hpushed := h.routine (push_routine a pressed)
  unfold button
  refine .bind (Q := Savable) ?_ fun b hb => Logged.meets_pure (hb.apart rfl rfl rfl rfl)
  unfold letGo
  split
  · exact release_savable hpushed claimed
  · exact Logged.meets_pure hpushed

theorem send_savable (h : a.Savable) {m : Message} (hm : Stored m) :
    (a.send m).Meets Stored fun r => r.2.Savable := by
  refine (send_meets hm).mono (fun _ h => h) ?_
  rintro r ⟨queue, hr, -⟩
  rw [hr]
  exact h.apart rfl rfl rfl rfl

theorem sendUnless_savable (h : a.Savable) {m : Message} (hm : Stored m) (checking : Bool) :
    (sendUnless checking a m).Meets Stored fun r => r.2.Savable := by
  unfold sendUnless
  split
  · exact Logged.meets_pure h
  · exact send_savable h hm

theorem clearRequested_savable (h : a.Savable) (checking : Bool) : (a.clearRequested checking).Meets Stored Savable := by
  unfold clearRequested
  split
  · exact Logged.meets_pure h
  · refine .bind (sendUnless_savable h (m := .Clear) trivial checking) fun r hr => Logged.meets_pure ?_
    split
    · exact hr.routine (.shown (note_quiet _ _))
    · exact hr

theorem exportRequested_savable (h : a.Savable) (checking : Bool) : (a.exportRequested checking).Meets Stored Savable := by
  have hqueued : ∀ (b : App) (accepted : Bool), b.Savable →
      ({ b with view := b.view.exportQueued accepted } : App).Savable := fun b accepted hb =>
    hb.shown (hb.view.offCard (View.exportQueued_offCard _ _))
      (View.eq_of_offCard View.now (fun _ => rfl) (View.exportQueued_offCard b.view accepted)) rfl rfl rfl
  unfold exportRequested
  split
  · exact Logged.meets_pure (hqueued a false h)
  · exact .bind (sendUnless_savable h (m := .Export) trivial checking) fun r hr =>
      Logged.meets_pure (hqueued r.2 r.1 hr)

theorem ejectRequested_savable (h : a.Savable) (claimed : Bool) : (a.ejectRequested p claimed).Meets Stored Savable := by
  unfold ejectRequested
  split
  · exact Logged.meets_pure h
  · refine .bind (h.routinely (save_routinely a false claimed)) fun b hb =>
      .bind (send_savable hb (m := .Eject) trivial) fun r hr => Logged.meets_pure ?_
    exact hr.shown (hr.view.offCard (View.ejectQueued_offCard _ _))
      (View.eq_of_offCard View.now (fun _ => rfl) (View.ejectQueued_offCard r.2.view r.1)) rfl rfl rfl

theorem resetRequested_savable (h : a.Savable) (claimed : Bool) : (a.resetRequested p claimed).Meets Stored Savable := by
  have hnow : a.view.resetProgress.now = a.view.now := by
    unfold View.resetProgress View.resetScents View.setCollection View.setBook View.resetPet
    repeat' split
    all_goals rfl
  have hreset : ({ a with view := a.view.resetProgress } : App).Savable :=
    h.shown h.view.resetProgress hnow rfl rfl rfl
  exact hreset.routinely (save_routinely _ _ _)

theorem demoRequested_savable (h : a.Savable) (radio : Bool) : (a.demoRequested radio).Savable := by
  have hpet : validPet (if a.view.demo then a.view.pet else a.realPet) = true := by
    split
    · exact h.view.pet
    · exact h.realPet
  have hradio : (if a.view.demo then { a with radioPaused := true } else a.beginRadio radio).Savable := by
    split
    · exact h.apart rfl rfl rfl rfl
    · exact h.routine (beginRadio_routine a radio)
  unfold demoRequested
  dsimp only
  generalize (if a.view.demo then a.view.pet else a.realPet) = pet at hpet
  generalize (if a.view.demo then { a with radioPaused := true } else a.beginRadio radio) = b at hradio
  have hnow : (b.view.switchDemo pet).now = b.view.now := by
    unfold View.switchDemo
    split <;> rfl
  refine ⟨hradio.view.switchDemo hpet, hpet, hradio.version, hradio.calibration, hradio.mealKey, ?_⟩
  change b.meals.Brief (b.view.switchDemo pet).now
  rw [hnow]
  exact hradio.meals

/-- Every handler of a request. -/
theorem handlers_savable (s : Service) : ∀ r ∈ handlers p s, ∀ a : App, a.Savable → (r.2 a).Meets Stored Savable := by
  intro r hr a h
  simp only [handlers, List.mem_cons, List.not_mem_nil, or_false] at hr
  rcases hr with rfl | rfl | rfl | rfl | rfl | rfl | rfl | rfl | rfl | rfl | rfl
  · exact Logged.meets_pure (h.routine (calibrateRequested_routine a))
  · exact Logged.meets_pure (h.routine (pauseRequested_routine a s.radio))
  · exact clearRequested_savable h s.checking
  · exact Logged.meets_pure (h.routine (beginRadio_routine a s.radio))
  · exact h.routinely (save_routinely a false s.saved)
  · exact h.routinely (save_routinely a true s.backedUp)
  · exact exportRequested_savable h s.checking
  · exact ejectRequested_savable h s.ejectSaved
  · exact h.routinely (diagnostics_routinely (p := p) a s.report)
  · exact resetRequested_savable h s.resetSaved
  · exact Logged.meets_pure (demoRequested_savable h s.radio)

theorem serve_savable (h : a.Savable) (s : Service) : (a.serve p s).Meets Stored Savable := by
  have hasked : a.unasked.Savable :=
    h.shown ⟨h.view.settings, h.view.pet, h.view.companion, h.view.appearance, h.view.battery⟩ rfl rfl rfl rfl
  unfold serve
  refine .bind (Q := Savable) ?_ fun b hb => Logged.meets_pure (hb.apart rfl rfl rfl rfl)
  unfold handle
  refine Logged.Meets.foldlM_mem (fun b r hr hb => ?_) hasked
  split
  · exact handlers_savable s r hr b hb
  · exact Logged.meets_pure hb

theorem synthesize_savable (h : a.Savable) : (a.synthesize p).Savable := by
  unfold synthesize
  split
  · dsimp only
    have hheard := View.hear_aside a.view (demoSample (demoDetection a.view.now)) true
    have htime : (demoDetection a.view.now).unixSeconds ≤ Companion.Storable.lastSecond := UInt64.zero_le
    have hnow := congrArg Base.now (View.event_learnt p.hmac (a.view.hear (demoSample (demoDetection a.view.now)) true)
      (demoDetection a.view.now)).base
    exact h.shown ((h.view.quiet hheard.quiet).event htime) (hnow.trans (congrArg Base.now hheard.base)) rfl rfl rfl
  · exact h.apart rfl rfl rfl rfl

theorem poll_savable (h : a.Savable) (r : Readings) : (a.poll r).Savable := by
  have hreads : ∀ scanning backupPending : Bool, ({ a.view with scanning, backupPending } : View).Savable :=
    fun scanning backupPending => ⟨h.view.settings, h.view.pet, h.view.companion, h.view.appearance, h.view.battery⟩
  have hpolls : ∀ v : View, v.Savable → (v.poll r.polled).Savable := fun v hv =>
    hv.offCard (View.poll_offCard v r.polled)
  have hnow : ∀ v : View, (v.poll r.polled).now = v.now := fun v =>
    View.eq_of_offCard View.now (fun _ => rfl) (View.poll_offCard v r.polled)
  have hclears : ∀ v : View, v.Savable → v.clearRecent.Savable := fun v hv =>
    ⟨hv.settings, hv.pet, hv.companion, hv.appearance, hv.battery⟩
  unfold poll
  dsimp only
  split
  · exact h.shown (hclears _ (hpolls _ (hreads _ _))) (hnow _) rfl rfl rfl
  · exact h.shown (hpolls _ (hreads _ _)) (hnow _) rfl rfl rfl

theorem present_savable (h : a.Savable) : (a.present p).Savable := by
  have hdisplayed := View.updateDisplay_quiet a.view
  have hlit := h.view.quiet hdisplayed
  unfold present
  dsimp only
  split
  · exact h.shown hlit hdisplayed.now rfl rfl rfl
  · have hdrawn : (a.view.updateDisplay.renderFrame p.hmac).Savable := by
      rw [View.renderFrame_eq]
      exact ⟨hlit.settings, hlit.pet, hlit.companion, hlit.appearance, hlit.battery⟩
    have hnow : (a.view.updateDisplay.renderFrame p.hmac).now = a.view.now := by
      rw [View.renderFrame_eq]
      exact hdisplayed.now
    exact h.shown hdrawn hnow rfl rfl rfl

theorem rest_savable (h : a.Savable) (r : Readings) : (a.rest p r).Meets Stored Savable := by
  unfold rest
  exact .bind (h.routinely (retry_routinely a r.retried)) fun b hb =>
    .bind ((poll_savable hb r).routinely (battery_routinely _ r)) fun c hc => Logged.meets_pure (present_savable hc)

/-- One step. -/
theorem step_savable (h : a.Savable) {i : Input} (hclock : a.Clocked i) (hrange : a.InRange p i) :
    (a.stepIo p i).Meets Stored Savable := by
  cases i with
  | head now =>
    refine Logged.meets_pure ?_
    split
    · exact head_savable h hclock
    · exact h
  | packet r =>
    unfold stepIo
    dsimp only
    split
    · rename_i hphase
      exact hear_savable h r hphase hclock hrange
    · exact Logged.meets_pure h
  | drained =>
    refine Logged.meets_pure ?_
    split
    · exact h.apart rfl rfl rfl rfl
    · exact h
  | touch t =>
    unfold stepIo
    dsimp only
    split
    · rename_i hphase
      exact touch_savable h t hphase hrange
    · exact Logged.meets_pure h
  | button pressed claimed =>
    unfold stepIo
    dsimp only
    split
    · exact button_savable h pressed claimed
    · exact Logged.meets_pure h
  | serve s =>
    unfold stepIo
    dsimp only
    split
    · exact serve_savable h s
    · exact Logged.meets_pure h
  | synthesize =>
    refine Logged.meets_pure ?_
    split
    · exact synthesize_savable h
    · exact h
  | rest r =>
    unfold stepIo
    dsimp only
    split
    · exact rest_savable h r
    · exact Logged.meets_pure h
  | taken => exact Logged.meets_pure (h.apart rfl rfl rfl rfl)

/-- A State that was loaded. -/
theorem boot_savable {s : State} (hs : validCurrent s = true) (t : Boot) : (boot p s t).Meets Stored Savable := by
  have hstored := (validCurrent_iff s).mp hs
  have hloaded : (loaded s).Savable :=
    ⟨hstored.settings, hstored.pet, hstored.companion.unlock s.pet.xp, hstored.appearance, hstored.battery⟩
  have hnoted : (if t.started then loaded s else (loaded s).note "STORAGE TASK FAILED / RESTART").Savable := by
    split
    · exact hloaded
    · exact hloaded.quiet (note_quiet _ _)
  have hnow : (if t.started then loaded s else (loaded s).note "STORAGE TASK FAILED / RESTART").now = 0 := by
    split <;> rfl
  have hpet : validPet {} = true := by decide
  unfold boot
  dsimp only
  generalize (if t.started then loaded s else (loaded s).note "STORAGE TASK FAILED / RESTART") = v at hnoted hnow
  have hstarts : Savable { view := v, state := s, meals := ({} : MealGuard).restore s.recent.toList
                           engine := { rules := p.rules }, started := t.started } := by
    refine ⟨hnoted, hpet, hstored.version, hstored.calibration, hstored.key, ?_⟩
    change (({} : MealGuard).restore s.recent.toList).Brief v.now
    rw [hnow]
    exact MealGuard.restore_brief _ _
  refine .bind ((save_routinely _ _ _).mono hstarts.told fun _ h => h) fun b hb => Logged.meets_pure ?_
  have hpage : ∀ calibrating onboarded : Bool,
      (if calibrating = true then Screen.Calibration else if onboarded = true then .Home else .Welcome) ≠ .AlertActions ∧
      (if calibrating = true then Screen.Calibration else if onboarded = true then .Home else .Welcome) ≠ .Details := by
    intro calibrating onboarded
    cases calibrating <;> cases onboarded <;> exact ⟨nofun, nofun⟩
  have hopens : Routine b { b with
      calibrating := !s.calibration.valid.isSet
      view := b.view.goto (if !s.calibration.valid.isSet then .Calibration
        else if b.view.settings.onboarded.isSet then .Home else .Welcome) } :=
    ⟨View.goto_quiet (hpage _ _) _, rfl, rfl, rfl, rfl, rfl, rfl, rfl⟩
  have hready := hb.trans hopens
  generalize hc : ({ b with
      calibrating := !s.calibration.valid.isSet
      view := b.view.goto (if !s.calibration.valid.isSet then .Calibration
        else if b.view.settings.onboarded.isSet then .Home else .Welcome) } : App) = c at hready
  have hradio : Routine c (if b.view.settings.onboarded.isSet && !!s.calibration.valid.isSet then c.beginRadio t.radio
      else c) := by
    split
    · exact beginRadio_routine c t.radio
    · exact .refl c
  have hends := hready.trans hradio
  generalize (if b.view.settings.onboarded.isSet && !!s.calibration.valid.isSet then c.beginRadio t.radio else c) = e at hends
  have hsaved := hstarts.routine hends
  have hzero : e.view.now = 0 := hends.now.trans hnow
  have hview : ({ e.view with now := t.now } : View).Savable :=
    ⟨hsaved.view.settings, hsaved.view.pet, hsaved.view.companion, hsaved.view.appearance, hsaved.view.battery⟩
  refine ⟨hview.quiet (View.wakeDisplay_quiet _ false), hsaved.realPet, hsaved.version, hsaved.calibration, hsaved.mealKey, ?_⟩
  have hmeals := hsaved.meals
  rw [hzero] at hmeals
  exact hmeals.later UInt64.zero_le

/-- Whatever is handed over for a save is accepted by the store, as long as every step is in range. -/
theorem saved_states_valid (p : Platform) {s : State} (hs : validCurrent s = true) (t : Boot) (inputs : List Input)
    (hclock : ∀ v ∈ Runs.visited (step p) (boot p s t).value inputs, v.1.Clocked v.2)
    (hrange : ∀ v ∈ Runs.visited (step p) (boot p s t).value inputs, v.1.InRange p v.2) :
    (∀ m ∈ (boot p s t).log, Stored m) ∧
      ∀ v ∈ Runs.visited (step p) (boot p s t).value inputs, ∀ m ∈ v.1.handed p v.2, Stored m := by
  have hboot := boot_savable (p := p) hs t
  refine ⟨hboot.logged, fun v hv => ?_⟩
  obtain ⟨before, after, hinputs, hrun⟩ := (Runs.mem_visited (step p)).mp hv
  have hsavable : v.1.Savable := by
    rw [hrun]
    refine Runs.invariant_of_guard Savable (fun a i => a.Clocked i ∧ a.InRange p i)
      (fun a i hguard h => (step_savable h hguard.1 hguard.2).returned) hboot.returned fun w hw => ?_
    have hearlier : w ∈ Runs.visited (step p) (boot p s t).value inputs := by
      rw [hinputs, Runs.visited_append]
      exact List.mem_append_left _ hw
    exact ⟨hclock w hearlier, hrange w hearlier⟩
  exact (step_savable hsavable (hclock v hv) (hrange v hv)).logged

/-- A third touch 3 away from the first is taken, and the solution is refused. Touches near the targets give a good one. -/
example : (Board.calibrate #v[(4000, 100), (100, 4000), (4000, 103)] (targets true)).map validCalibration = some false ∧
    (Board.calibrate #v[(500, 1500), (3600, 1700), (2050, 3300)] (targets true)).map validCalibration = some true := by
  decide +kernel

/-! ## A step of the brightness -/

/-- The brightness after one step from the default. -/
def stepped : State :=
  { settings := { onboarded := .ofBool true, brightness := 90 }, calibration := { valid := .ofBool true }
    mealKey := Vector.replicate 32 1 }

/-- From home to the settings, to their second page, to the display page, to the row of the brightness. -/
def brighter : List Input :=
  taps 1000 [(470, 310), (100, 250), (100, 140)] ++ iteration 4000 (some (pressAt 100 70))

/-- From 90 the brightness goes to 110, and the State is refused. -/
theorem brightness_overshoots : validCurrent stepped = true ∧
    (∀ v ∈ Runs.visited (step bare) (boot bare stepped {}).value brighter, v.1.Clocked v.2) ∧
    ∃ v ∈ Runs.visited (step bare) (boot bare stepped {}).value brighter,
      ∃ m ∈ v.1.handed bare v.2, ¬ Stored m := by
  decide +kernel

/-- A State of a board that was never calibrated. -/
def uncalibrated : State := { settings := { onboarded := .ofBool true }, mealKey := Vector.replicate 32 1 }

/-- The three targets are touched, one a second. -/
def aimedTouches : List Input :=
  [(500, 1500), (3600, 1700), (2050, 3300)].zipIdx.flatMap fun (raw, i) =>
    iteration (1000 + i.toUInt64 * 1000) (some { raw, point := (0, 0) }) ++ iteration (1020 + i.toUInt64 * 1000) none

/-- Up to the display page every step is in range, and so are three touches that calibrate the panel. -/
theorem pages_saved_states_valid :
    ((∀ m ∈ (boot bare stepped {}).log, Stored m) ∧
      ∀ v ∈ Runs.visited (step bare) (boot bare stepped {}).value (brighter.take 40),
        ∀ m ∈ v.1.handed bare v.2, Stored m) ∧
    (Runs.run (step bare) (boot bare uncalibrated {}).value aimedTouches).state.calibration.valid.isSet = true ∧
      ∀ v ∈ Runs.visited (step bare) (boot bare uncalibrated {}).value aimedTouches,
        ∀ m ∈ v.1.handed bare v.2, Stored m :=
  ⟨saved_states_valid bare (by decide +kernel) {} (brighter.take 40) (by decide +kernel) (by decide +kernel),
    by decide +kernel,
    (saved_states_valid bare (by decide +kernel) {} aimedTouches (by decide +kernel) (by decide +kernel)).2⟩

end App

end Hound
