import Hound.Storage.Storable
import Hound.Ui.Aim

/-!
# What a tap is made of

A tap is a chain of elementary touches: changes of a page that nothing else depends
on, requests, and changes of what is saved, each with the guard of the place that
makes it. The switch of the demo is the one tap that is not.
-/

namespace Hound

/-! ## Touches -/

/-- What only a few touches change, and no event. -/
structure Base where
  settings : Settings
  pet : Pet
  appearance : Appearance
  snoozeUntil : UInt64
  batteryCal : BatteryCalibration
  clockSeconds : UInt64
  clockSetMs : UInt64
  now : UInt64
  demo : Bool
  identityKey : MealKey
  exportStatus : ExportStatus
  exportedRows : UInt32
  exportCount : UInt32
  ejectStatus : EjectStatus
  sd : Bool
  sdError : Bool
  sdReadOnly : Bool
  sdChecking : Bool
  actionDetection : Detection
  detailDetection : Detection
  detailValid : Bool
  homeAlertShown : Bool

def View.base (v : View) : Base :=
  { settings := v.settings, pet := v.pet, appearance := v.appearance, snoozeUntil := v.snoozeUntil
    batteryCal := v.batteryCal, clockSeconds := v.clockSeconds, clockSetMs := v.clockSetMs, now := v.now
    demo := v.demo, identityKey := v.identityKey, exportStatus := v.exportStatus
    exportedRows := v.exportedRows, exportCount := v.exportCount, ejectStatus := v.ejectStatus, sd := v.sd
    sdError := v.sdError, sdReadOnly := v.sdReadOnly, sdChecking := v.sdChecking
    actionDetection := v.actionDetection, detailDetection := v.detailDetection, detailValid := v.detailValid
    homeAlertShown := v.homeAlertShown }

/-- What a page changes only through the touches below. -/
structure Guarded where
  base : Base
  companion : Companion
  requests : List UiRequest
  recent : List Detection
  alertDetection : Detection

def View.kept (v : View) : Guarded :=
  { base := v.base, companion := v.companion, requests := v.requests, recent := v.recent
    alertDetection := v.alertDetection }

/-- Nothing else depends on the change: no page of a frozen detection is opened, an
alert may end, and a touch may be counted as activity. -/
structure Quiet (v w : View) : Prop where
  kept : w.kept = v.kept
  page : w.screen = v.screen ∨ w.screen ≠ .AlertActions ∧ w.screen ≠ .Details
  alert : w.alertUntil = v.alertUntil ∨ w.alertUntil = 0
  activity : w.lastActivity = v.lastActivity ∨ w.lastActivity = v.now

/-- An elementary touch; `bright` tells which brightness the row of the brightness may find. -/
inductive Touch (bright : UInt8 → Prop) : View → View → Prop where
  | quiet {v w : View} (h : Quiet v w) : Touch bright v w
  | request (v : View) {r : UiRequest} (h : r ≠ .Export ∧ r ≠ .Eject ∧ r ≠ .Demo) : Touch bright v (v.request r)
  | prefer (v : View) {s : Settings} (h : v.settings.Storable → s.Storable) : Touch bright v { v with settings := s }
  | brighten (v : View) (hrow : bright v.settings.brightness) :
      Touch bright v { v with settings.brightness :=
        if 100 ≤ v.settings.brightness then 20 else v.settings.brightness + 20 }
  | book (v : View) {c : Companion} (h : v.collection.Storable → c.Storable) :
      Touch bright v (v.setCollection c)
  | ignore (v : View) (hpage : v.screen = .AlertActions) {c : Companion}
      (h : (v.book v.actionDetection.demo).Storable → c.Storable) :
      Touch bright v (v.setBook v.actionDetection.demo c)
  | dress (v : View) {a : Appearance} (h : v.look.Storable → a.Storable) :
      Touch bright v (v.setLook a)
  | snooze (v : View) (t : UInt64) : Touch bright v (v.setSnooze t)
  | clock (v : View) (seconds : UInt64) : Touch bright v { v with clockSeconds := seconds, clockSetMs := v.now }
  | battery (v : View) {c : BatteryCalibration} (h : v.batteryCal.Storable → c.Storable) :
      Touch bright v { v with batteryCal := c }
  | stroke (v : View) (hreal : v.demo = false) : Touch bright v { v with pet := v.pet.stroke }
  | export' (v : View) : Touch bright v v.requestExport
  | eject (v : View) : Touch bright v v.requestEject
  | actions (v : View) {d : Detection}
      (h : v.homeAlertShown = true ∧ d = v.actionDetection ∨ v.now < v.alertUntil ∧ d = v.alertDetection ∨
        v.screen = .Details ∧ v.detail = some d) : Touch bright v (v.openActions d)
  | details (v : View) (i : Nat) : Touch bright v (v.openDetails i)

def Touched (bright : UInt8 → Prop) : View → View → Prop := Relation.ReflTransGen (Touch bright)

section Chains

variable {bright : UInt8 → Prop} {u v w : View}

namespace Quiet

theorem refl (v : View) : Quiet v v := ⟨rfl, .inl rfl, .inl rfl, .inl rfl⟩

theorem base (h : Quiet v w) : w.base = v.base := congrArg Guarded.base h.kept

theorem now (h : Quiet v w) : w.now = v.now := congrArg Base.now h.base

theorem trans (h : Quiet u v) (h' : Quiet v w) : Quiet u w := by
  refine ⟨h'.kept.trans h.kept, ?_, ?_, ?_⟩
  · rcases h'.page with hpage | hpage
    · rw [hpage]
      exact h.page
    · exact .inr hpage
  · rcases h'.alert with halert | halert
    · rw [halert]
      exact h.alert
    · exact .inr halert
  · rcases h'.activity with hactivity | hactivity
    · rw [hactivity]
      exact h.activity
    · exact .inr (hactivity.trans h.now)

/-- A change of fields that no part of `Quiet` reads. -/
theorem of_eq (hkept : w.kept = v.kept) (hpage : w.screen = v.screen) (halert : w.alertUntil = v.alertUntil)
    (hactivity : w.lastActivity = v.lastActivity) : Quiet v w := ⟨hkept, .inl hpage, .inl halert, .inl hactivity⟩

/-- Another page is opened. -/
theorem opened (hkept : w.kept = v.kept) (hpage : w.screen ≠ .AlertActions ∧ w.screen ≠ .Details)
    (halert : w.alertUntil = v.alertUntil ∨ w.alertUntil = 0) (hactivity : w.lastActivity = v.lastActivity) :
    Quiet v w := ⟨hkept, .inr hpage, halert, .inl hactivity⟩

end Quiet

theorem Touch.now_demo (h : Touch bright v w) : w.now = v.now ∧ w.demo = v.demo := by
  have hbook : ∀ (u : View) (demo : Bool) (c : Companion), (u.setBook demo c).now = u.now ∧
      (u.setBook demo c).demo = u.demo := by
    intro u demo c
    cases demo <;> exact ⟨rfl, rfl⟩
  cases h with
  | quiet hquiet => exact ⟨hquiet.now, congrArg Base.demo hquiet.base⟩
  | book => exact hbook _ _ _
  | ignore => exact hbook _ _ _
  | dress =>
    unfold View.setLook
    split <;> exact ⟨rfl, rfl⟩
  | snooze =>
    unfold View.setSnooze
    split <;> exact ⟨rfl, rfl⟩
  | export' =>
    unfold View.requestExport
    repeat' split
    all_goals exact ⟨rfl, rfl⟩
  | eject =>
    unfold View.requestEject
    repeat' split
    all_goals exact ⟨rfl, rfl⟩
  | details =>
    unfold View.openDetails
    split <;> exact ⟨rfl, rfl⟩
  | _ => exact ⟨rfl, rfl⟩

namespace Touched

theorem now_demo (h : Touched bright v w) : w.now = v.now ∧ w.demo = v.demo := by
  induction h with
  | refl => exact ⟨rfl, rfl⟩
  | tail _ htouch ih => exact ⟨htouch.now_demo.1.trans ih.1, htouch.now_demo.2.trans ih.2⟩

theorem refl (v : View) : Touched bright v v := Relation.ReflTransGen.refl

theorem trans (h : Touched bright u v) (h' : Touched bright v w) : Touched bright u w := Relation.ReflTransGen.trans h h'

theorem single (h : Touch bright v w) : Touched bright v w := Relation.ReflTransGen.single h

theorem quiet (h : Quiet v w) : Touched bright v w := single (.quiet h)

theorem same (hkept : w.kept = v.kept) (hpage : w.screen = v.screen) (halert : w.alertUntil = v.alertUntil)
    (hactivity : w.lastActivity = v.lastActivity) : Touched bright v w := quiet (.of_eq hkept hpage halert hactivity)

theorem request (v : View) {r : UiRequest} (h : r ≠ .Export ∧ r ≠ .Eject ∧ r ≠ .Demo) :
    Touched bright v (v.request r) := single (.request v h)

theorem prefer (v : View) {s : Settings} (h : v.settings.Storable → s.Storable) :
    Touched bright v { v with settings := s } := single (.prefer v h)

theorem ite {c : Prop} [Decidable c] {a b : View} (ha : c → Touched bright v a) (hb : ¬c → Touched bright v b) :
    Touched bright v (if c then a else b) := by
  split
  · rename_i hc
    exact ha hc
  · rename_i hc
    exact hb hc

theorem on (h : Touched bright v w) {c : Bool} {f : View → View} (hf : c = true → Touched bright w (f w)) :
    Touched bright v (w.on c f) := by
  unfold View.on
  split
  · rename_i hc
    exact h.trans (hf hc)
  · exact h

theorem foldl {α : Type} {f : View → α → View} (hf : ∀ u a, Touched bright u (f u a)) (as : List α) (v : View) :
    Touched bright v (as.foldl f v) := by
  induction as generalizing v with
  | nil => exact refl v
  | cons a as ih => exact (hf v a).trans (ih (f v a))

end Touched

end Chains

namespace View

variable {bright : UInt8 → Prop} {l : Layout} {x y : Int} {hmac : Hmac}

/-! ## The small updates -/

theorem goto_quiet {s : Screen} (hs : s ≠ .AlertActions ∧ s ≠ .Details) (v : View) : Quiet v (v.goto s) :=
  .opened rfl hs (.inl rfl) rfl

theorem goto_touched {s : Screen} (hs : s ≠ .AlertActions ∧ s ≠ .Details) (v : View) : Touched bright v (v.goto s) :=
  .quiet (goto_quiet hs v)

theorem home_quiet (v : View) : Quiet v v.home := .opened rfl ⟨nofun, nofun⟩ (.inl rfl) rfl

theorem home_touched (v : View) : Touched bright v v.home := .quiet (home_quiet v)

theorem note_touched (text : String) (v : View) : Touched bright v (v.note text) := .same rfl rfl rfl rfl

theorem save_touched (v : View) : Touched bright v (v.request .Save) := .request v ⟨nofun, nofun, nofun⟩

theorem wakeDisplay_quiet (v : View) (alert : Bool) : Quiet v (v.wakeDisplay alert).2 := by
  have hscreen : (v.wakeDisplay alert).2.screen = if alert && v.displayMode != .Active then .Home else v.screen := rfl
  refine ⟨rfl, ?_, .inl rfl, .inr rfl⟩
  rw [hscreen]
  split
  · exact .inr ⟨nofun, nofun⟩
  · exact .inl rfl

theorem prefers_touched {v : View} {s : Settings} (h : v.settings.Storable → s.Storable) :
    Touched bright v ({ v with settings := s }.request .Save) :=
  (Touched.prefer v h).trans (save_touched _)

theorem dresses_touched (v : View) {a : Appearance} (h : v.look.Storable → a.Storable) :
    Touched bright v ((v.setLook a).request .Save) :=
  (Touched.single (.dress v h)).trans (save_touched _)

theorem reviewWarning_quiet (v : View) : Quiet v v.reviewWarning := by
  unfold reviewWarning
  split
  · split
    · exact .of_eq rfl rfl rfl rfl
    · exact .refl v
  · exact .refl v

theorem updateTagWatch_quiet (v : View) : Quiet v v.updateTagWatch := by
  have hother : Quiet v v.endOtherWatch := by
    unfold endOtherWatch
    split
    · exact .of_eq rfl rfl rfl rfl
    · exact .refl v
  have hstale : ∀ u : View, Quiet u u.dropStale := by
    intro u
    unfold dropStale
    refine .of_eq ?_ rfl rfl rfl
    unfold kept base
    rfl
  exact (hother.trans (hstale _)).trans (reviewWarning_quiet _)

theorem recheckAlert_quiet (v : View) : Quiet v (v.recheckAlert hmac) := by
  unfold recheckAlert
  split
  · exact .refl v
  · exact ⟨rfl, .inl rfl, .inr rfl, .inl rfl⟩

theorem rotate_touched (v : View) : Touched bright v v.rotate := by
  unfold rotate
  refine (Touched.quiet (wakeDisplay_quiet v false)).trans ?_
  dsimp only
  split
  · exact .refl _
  · refine (prefers_touched fun h => ?_).trans (.request _ ⟨nofun, nofun, nofun⟩)
    exact { h with portrait := Flag.valid_toggle _ }

theorem setSnooze_touched (v : View) (t : UInt64) : Touched bright v (v.setSnooze t) := .single (.snooze v t)

theorem toggleSnooze_touched (v : View) : Touched bright v v.toggleSnooze :=
  (setSnooze_touched v _).trans (.quiet ⟨rfl, .inl rfl, .inr rfl, .inl rfl⟩)

theorem openTagWatch_touched (v : View) : Touched bright v v.openTagWatch := by
  have hscreen : v.openTagWatch.screen = .TagWatch ∨ v.openTagWatch.screen = .WatchProgress := by
    unfold openTagWatch
    dsimp only
    split
    · exact .inl rfl
    · exact .inr rfl
  refine .quiet (.opened rfl ?_ (.inl rfl) rfl)
  rcases hscreen with hscreen | hscreen <;> rw [hscreen] <;> exact ⟨nofun, nofun⟩

theorem openWardrobe_touched (v : View) : Touched bright v v.openWardrobe :=
  (Touched.single (.book v fun h => h.unlock _)).trans
    (.quiet (.opened rfl ⟨nofun, nofun⟩ (.inl rfl) rfl))

/-! ## Travel Watch -/

theorem tapWatchProgress_touched (v : View) : Touched bright v (v.tapWatchProgress l x y) := by
  unfold tapWatchProgress
  refine .on (.on (.on (.refl _) fun _ => ?_) fun _ => home_touched _) fun _ => .same rfl rfl rfl rfl
  exact .quiet (.opened rfl ⟨nofun, nofun⟩ (.inl rfl) rfl)

theorem toggleWatch_touched (v : View) : Touched bright v v.toggleWatch := by
  unfold toggleWatch
  dsimp only
  split
  · exact .same rfl rfl rfl rfl
  · exact .quiet (.opened rfl ⟨nofun, nofun⟩ (.inl rfl) rfl)

theorem ignoreWatched_touched (e : TagWatch.Entry) (v : View) : Touched bright v (v.ignoreWatched hmac e) := by
  unfold ignoreWatched
  dsimp only
  split
  · refine (Touched.single (.book v fun h => h.ignore e.hash e.category)).trans ?_
    refine (save_touched _).trans (.quiet ?_)
    exact ((recheckAlert_quiet _).trans (updateTagWatch_quiet _)).trans (home_quiet _)
  · exact note_touched _ v

theorem tapTagWatch_touched (v : View) : Touched bright v (v.tapTagWatch hmac l x y) := by
  unfold tapTagWatch
  split
  · exact .quiet (.opened rfl ⟨nofun, nofun⟩ (.inl rfl) rfl)
  · have htoggled : Touched bright v (v.on ((l.row 0).has x y) toggleWatch
        |>.on ((l.row 1).has x y) fun v => { v with watchFlash := !v.watchFlash }) :=
      .on (.on (.refl _) fun _ => toggleWatch_touched _) fun _ => .same rfl rfl rfl rfl
    dsimp only
    split
    · exact htoggled.trans (openTagWatch_touched _)
    · refine .on (.on ?_ fun _ => home_touched _) fun _ => (toggleSnooze_touched _).trans (home_touched _)
      split
      · refine .on (.on htoggled fun _ => ?_) fun _ => ignoreWatched_touched _ _
        exact .quiet (.opened rfl ⟨nofun, nofun⟩ (.inl rfl) rfl)
      · exact htoggled

/-! ## Home and the card's page -/

theorem toggleSniffing_touched (v : View) : Touched bright v v.toggleSniffing := by
  unfold toggleSniffing
  refine .trans ?_ (.request _ ⟨nofun, nofun, nofun⟩)
  exact .quiet ⟨rfl, .inl rfl, .inr rfl, .inl rfl⟩

theorem petHound_touched (v : View) : Touched bright v v.petHound := by
  unfold petHound
  dsimp only
  by_cases hdemo : v.demo = true
  · rw [if_pos hdemo]
    exact .same rfl rfl rfl rfl
  · rw [if_neg hdemo]
    exact (Touched.single (.stroke v (Bool.eq_false_iff.mpr hdemo))).trans (.same rfl rfl rfl rfl)

theorem barScreen_plain (i : Nat) : barScreen i ≠ .AlertActions ∧ barScreen i ≠ .Details := by
  unfold barScreen
  split <;> exact ⟨nofun, nofun⟩

theorem navigate_touched (v : View) : Touched bright v (v.navigate l x) :=
  .quiet (.opened rfl (barScreen_plain _) (.inl rfl) rfl)

theorem tapHome_touched (v : View) : Touched bright v (v.tapHome l x y) := by
  unfold tapHome
  refine .ite (fun _ => ?_) fun _ => .ite (fun _ => ?_) fun _ => .ite (fun _ => ?_) fun _ => .ite (fun hcard => ?_)
    fun _ => .ite (fun _ => ?_) fun _ => .ite (fun hfirst => ?_) fun _ => .ite (fun _ => ?_) fun _ =>
      .ite (fun _ => ?_) fun _ => .ite (fun _ => ?_) fun _ => .ite (fun _ => ?_) fun _ => .refl v
  · exact .quiet (.opened rfl ⟨nofun, nofun⟩ (.inl rfl) rfl)
  · exact openWardrobe_touched v
  · exact toggleSniffing_touched v
  · exact .single (.actions v (.inl ⟨hcard.1, rfl⟩))
  · exact openTagWatch_touched v
  · exact .single (.actions v (.inr (.inl ⟨hfirst.2.1, rfl⟩)))
  · exact .quiet (.opened rfl ⟨nofun, nofun⟩ (.inl rfl) rfl)
  · exact navigate_touched v
  · exact .quiet ⟨rfl, .inl rfl, .inr rfl, .inl rfl⟩
  · exact petHound_touched v

theorem ignoreAction_touched (v : View) (hpage : v.screen = .AlertActions) : Touched bright v (v.ignoreAction hmac) := by
  unfold ignoreAction
  dsimp only
  split
  · refine (Touched.single (.ignore v hpage fun h =>
      h.ignore (v.identity hmac v.actionDetection) v.actionDetection.category)).trans ?_
    refine (save_touched _).trans (.trans (.quiet ?_) (note_touched _ _))
    exact ((recheckAlert_quiet _).trans (updateTagWatch_quiet _)).trans (home_quiet _)
  · exact note_touched _ v

theorem tapAlertActions_touched (v : View) (hpage : v.screen = .AlertActions) :
    Touched bright v (v.tapAlertActions hmac l x y) := by
  unfold tapAlertActions
  split
  · rename_i i _
    refine (setSnooze_touched v (v.now + snoozeMinutes.getD i 0 * 60000)).trans (.quiet ?_)
    exact .opened rfl ⟨nofun, nofun⟩ (.inr rfl) rfl
  · refine .on (.on (.on (.refl _) fun _ => ignoreAction_touched v hpage) fun _ => ?_) fun _ => home_touched _
    exact (setSnooze_touched _ 0).trans (home_touched _)

/-! ## Pages of choices -/

theorem tapFollow_touched (v : View) : Touched bright v (v.tapFollow l x y) :=
  .on (.on (.refl _) fun _ => home_touched _) fun _ => .quiet (.opened rfl ⟨nofun, nofun⟩ (.inl rfl) rfl)

theorem tapDisplay_touched (v : View) (hbright : (l.row 0).has x y = true → bright v.settings.brightness) :
    Touched bright v (v.tapDisplay l x y) := by
  have hinverts : ∀ u : View, Touched bright u
      (((u.setLook { u.look with inverted := u.look.inverted ^^^ 1 }).request .Save).request .Invert) := fun u =>
    (dresses_touched (a := { u.look with inverted := u.look.inverted ^^^ 1 }) u fun h =>
      { h with inverted := flip_lt_two h.inverted }).trans (.request (r := .Invert) _ ⟨nofun, nofun, nofun⟩)
  unfold tapDisplay
  refine .on (.on (.on (.on (.on (.on (.refl _) fun hrow => ?_) fun _ => hinverts _) fun _ => ?_)
    fun _ => goto_touched ⟨Screen.noConfusion, Screen.noConfusion⟩ _) fun _ =>
      goto_touched ⟨Screen.noConfusion, Screen.noConfusion⟩ _) fun _ =>
        goto_touched ⟨Screen.noConfusion, Screen.noConfusion⟩ _
  · exact (Touched.single (.brighten v (hbright hrow))).trans (save_touched _)
  · exact prefers_touched fun h => { h with reducedAnimation := Flag.valid_toggle _ }

theorem startSaver_touched (v : View) : Touched bright v v.startSaver :=
  .quiet ((wakeDisplay_quiet v false).trans (.of_eq rfl rfl rfl rfl))

theorem tapIdleDisplay_touched (v : View) : Touched bright v (v.tapIdleDisplay l x y) := by
  unfold tapIdleDisplay
  refine .on (.on (.on (.on (.on (.on (.refl _) fun _ => ?_) fun _ => ?_) fun _ => ?_) fun _ => startSaver_touched _)
    fun _ => goto_touched ⟨Screen.noConfusion, Screen.noConfusion⟩ _) fun _ => home_touched _
  · exact dresses_touched _ fun h => { h with dim := validTimeout_nextTimeout _ }
  · exact dresses_touched _ fun h => { h with saver := validTimeout_nextTimeout _ }
  · exact dresses_touched _ fun h => { h with off := validTimeout_nextTimeout _ }

theorem tapAppearance_touched (v : View) : Touched bright v (v.tapAppearance l x y) := by
  unfold tapAppearance
  refine .trans (.on (.on (.on (.on (.on (.on (.refl _) fun _ => ?_) fun _ => ?_) fun _ => ?_) fun _ => ?_)
    fun _ => goto_touched ⟨Screen.noConfusion, Screen.noConfusion⟩ _) fun _ => home_touched _) (save_touched _)
  · exact .single (.dress _ fun h => { h with theme := next_lt_three _ })
  · exact .single (.dress _ fun h => { h with scene := next_lt_three _ })
  · exact .single (.dress _ fun h => { h with speech := next_lt_three _ })
  · exact .single (.dress _ fun h => { h with compact := flip_lt_two h.compact })

theorem tapCoverage_touched (v : View) : Touched bright v (v.tapCoverage l x y) :=
  .ite (fun _ => .quiet (.opened rfl ⟨nofun, nofun⟩ (.inl rfl) rfl)) fun _ =>
    .ite (fun _ => .same rfl rfl rfl rfl) fun _ => .refl v

theorem tapScent_touched (v : View) (i : Nat) : Touched bright v (tapScent l x y v i) :=
  .on (.refl v) fun _ => .quiet (.opened rfl ⟨nofun, nofun⟩ (.inl rfl) rfl)

theorem tapScentBook_touched (v : View) : Touched bright v (v.tapScentBook l x y) :=
  .ite (fun _ => .quiet (.opened rfl ⟨nofun, nofun⟩ (.inl rfl) rfl)) fun _ =>
    .ite (fun _ => .quiet (.opened rfl ⟨nofun, nofun⟩ (.inl rfl) rfl)) fun _ =>
      .ite (fun _ => .same rfl rfl rfl rfl) fun _ => .foldl tapScent_touched _ v

theorem tapScentCard_touched (v : View) : Touched bright v (v.tapScentCard l x y) :=
  .on (.on (.refl v) fun _ => goto_touched ⟨Screen.noConfusion, Screen.noConfusion⟩ _) fun _ => .same rfl rfl rfl rfl

theorem tapWardrobe_touched (v : View) : Touched bright v (v.tapWardrobe l x y) := by
  have hequips : ∀ u : View, u.collection.unlocked.toNat.testBit u.wardrobeIndex = true → Touched bright u
      ((u.setCollection { u.collection with equipped := u.wardrobeIndex.toUInt8 }).request .Save) := fun u hworn =>
    (Touched.single (.book u fun h => h.equip hworn)).trans (save_touched _)
  unfold tapWardrobe
  exact .on (.on (.on (.on (.refl v) fun _ => .same rfl rfl rfl rfl) fun _ => .same rfl rfl rfl rfl) fun _ =>
    goto_touched ⟨Screen.noConfusion, Screen.noConfusion⟩ _) fun hworn =>
      hequips _ (Bool.and_eq_true_iff.mp hworn).2

theorem tapIgnoreBackup_touched (v : View) : Touched bright v (v.tapIgnoreBackup l x y) := by
  unfold tapIgnoreBackup
  refine .on (.on (.refl v) fun _ => ?_) fun _ => goto_touched ⟨Screen.noConfusion, Screen.noConfusion⟩ _
  refine .ite (fun _ => note_touched _ v) fun _ => .ite (fun _ => ?_) fun _ => .refl v
  exact (Touched.same (v := v) (w := { v with backupPending := true }) rfl rfl rfl rfl).trans
    ((Touched.request (r := .BackupIgnores) _ ⟨nofun, nofun, nofun⟩).trans (note_touched _ _))

theorem clampIgnored_touched (v : View) : Touched bright v v.clampIgnored := .same rfl rfl rfl rfl

theorem dropIgnored_touched (v : View) (i : Nat) : Touched bright v (dropIgnored l x y v i) := by
  unfold dropIgnored
  refine .on (.refl v) fun _ => ?_
  split
  · rename_i slot _
    exact ((Touched.single (.book v fun h => h.drop slot)).trans (save_touched _)).trans (clampIgnored_touched _)
  · exact .refl v

theorem tapIgnored_touched (v : View) : Touched bright v (v.tapIgnored l x y) := by
  unfold tapIgnored
  refine .trans ?_ (.foldl dropIgnored_touched _ _)
  refine .on (.on (.on (clampIgnored_touched v) fun _ =>
    goto_touched ⟨Screen.noConfusion, Screen.noConfusion⟩ _) fun _ => .same rfl rfl rfl rfl) fun _ => ?_
  exact .quiet (.opened rfl ⟨nofun, nofun⟩ (.inl rfl) rfl)

/-! ## Setting up -/

theorem tapClock_touched (v : View) : Touched bright v (v.tapClock l x y) := by
  have hsets : ∀ (u : View) (seconds : UInt64), Touched bright u
      { u with clockSeconds := seconds, clockSetMs := u.now, screen := .Settings, notice := [] } := fun u seconds =>
    (Touched.single (.clock u seconds)).trans (.quiet (.opened rfl ⟨nofun, nofun⟩ (.inl rfl) rfl))
  unfold tapClock
  dsimp only
  split
  · exact .same rfl rfl rfl rfl
  · refine .on (.on (.on (.refl v) fun _ => .same rfl rfl rfl rfl) fun _ =>
      goto_touched ⟨Screen.noConfusion, Screen.noConfusion⟩ _) fun _ => ?_
    split
    · exact hsets _ _
    · exact note_touched _ _

theorem tapBattery_touched (v : View) : Touched bright v (v.tapBattery l x y) := by
  have hcalibrates : ∀ (u : View) (c : BatteryCalibration), c.Storable →
      Touched bright u ({ u with batteryCal := c }.request .Save) := fun u c hc =>
    (Touched.single (.battery u fun _ => hc)).trans (save_touched _)
  unfold tapBattery
  refine .on (.on (.on (.on (.on (.on (.refl v) fun _ => .same rfl rfl rfl rfl) fun _ => ?_) fun _ => ?_) fun _ => ?_)
    fun _ => ?_) fun _ => goto_touched ⟨Screen.noConfusion, Screen.noConfusion⟩ _
  · exact hcalibrates _ _ (BatteryCalibration.storable_off rfl)
  · exact hcalibrates _ _ (BatteryCalibration.storable_off rfl)
  · refine hcalibrates _ _ ⟨Flag.valid_ofBool _, fun hset => ?_⟩
    rw [Flag.isSet_ofBool, Bool.and_eq_true] at hset
    exact hset.2
  · exact hcalibrates _ _ (BatteryCalibration.storable_off rfl)

theorem tapSelfTest_touched (v : View) : Touched bright v (v.tapSelfTest l x y) :=
  .ite (fun _ => .quiet (.opened rfl ⟨nofun, nofun⟩ (.inl rfl) rfl)) fun _ => .same rfl rfl rfl rfl

theorem tapClearWarning_touched (v : View) : Touched bright v (v.tapClearWarning l x y) :=
  .on (.on (.refl v) fun _ => goto_touched ⟨Screen.noConfusion, Screen.noConfusion⟩ _) fun _ =>
    (Touched.request (r := .ClearLogs) _ ⟨nofun, nofun, nofun⟩).trans
      (goto_touched ⟨Screen.noConfusion, Screen.noConfusion⟩ _)

/-- Preferences that open another page. -/
theorem prefers_opened {v w : View} {s : Settings} (h : v.settings.Storable → s.Storable)
    (hw : Quiet { v with settings := s } w) : Touched bright v (w.request .Save) :=
  ((Touched.prefer v h).trans (.quiet hw)).trans (save_touched w)

theorem tapWelcome_touched (v : View) : Touched bright v (v.tapWelcome l x y) := by
  refine .ite (fun _ => ?_) fun _ => .refl v
  refine prefers_opened (s := { v.settings with region := if x < l.w / 2 then 0 else 1 })
    (fun h => { h with region := ?_ }) (.opened rfl ⟨nofun, nofun⟩ (.inl rfl) rfl)
  change (if x < l.w / 2 then (0 : UInt8) else 1) < 2
  split <;> decide

theorem tapChoose_touched (v : View) : Touched bright v (v.tapChoose l x y) := by
  unfold tapChoose
  split
  · rename_i i hi
    have hlt : i < 6 := List.mem_range.mp (List.mem_of_find?_eq_some hi)
    refine prefers_opened (s := { v.settings with character := i.toUInt8 }) (fun h => { h with character := ?_ })
      (.opened rfl ⟨nofun, nofun⟩ (.inl rfl) rfl)
    change i.toUInt8 < 6
    rw [UInt8.lt_iff_toNat_lt, Nat.toUInt8_eq, UInt8.toNat_ofNat']
    change i % 256 < 6
    omega
  · exact .refl v

theorem validName_set {name : Vector UInt8 13} (h : validName name = true) {n : Nat} {c : UInt8}
    (hc : c = 0 ∨ n < 12 ∧ (!(decide (c < 32) || decide (126 < c))) = true) :
    validName (name.setIfInBounds n c) = true := by
  unfold validName at h ⊢
  rw [Bool.and_eq_true, beq_iff_eq, List.all_eq_true] at h ⊢
  obtain ⟨hend, hall⟩ := h
  constructor
  · change (name.setIfInBounds n c)[12] = 0
    change name[12] = 0 at hend
    rw [Vector.getElem_setIfInBounds]
    split
    · rename_i hn
      rcases hc with hc | hc
      · exact hc
      · omega
    · exact hend
  · intro b hb
    rw [Vector.toList_setIfInBounds] at hb
    rcases List.mem_or_eq_of_mem_set hb with hb | rfl
    · exact hall b hb
    · rw [Bool.or_eq_true, beq_iff_eq]
      exact hc.imp_right And.right

theorem tapName_touched (v : View) : Touched bright v (v.tapName l x y) := by
  have hkeys : ∀ i ∈ List.range 30,
      (!(decide (keys.getD i 0 < 32) || decide (126 < keys.getD i 0))) = true := by decide
  unfold tapName
  dsimp only
  split
  · rename_i i hi
    have hmem := List.mem_of_find?_eq_some hi
    have hshort : strlen v.settings.name < 12 := by
      have hfound := List.find?_some hi
      simp only [Bool.and_eq_true, decide_eq_true_eq] at hfound
      exact hfound.2
    refine Touched.prefer v fun h => { h with name := ?_ }
    exact validName_set (validName_set h.name (.inr ⟨hshort, hkeys i hmem⟩)) (.inl rfl)
  · have herases : ∀ (u : View) (n : Nat), Touched bright u
        { u with settings.name := u.settings.name.setIfInBounds n 0 } := fun u n =>
      .prefer u fun h => { h with name := validName_set h.name (.inl rfl) }
    have hdone : ∀ u : View, Touched bright u
        ({ u with screen := if u.settings.onboarded.isSet then .Home else .Privacy }.request .Save) := by
      intro u
      let w := { u with screen := if u.settings.onboarded.isSet then .Home else .Privacy }
      refine .trans (.quiet (.opened (w := w) rfl ?_ (.inl rfl) rfl)) (save_touched w)
      dsimp only [w]
      split <;> exact ⟨nofun, nofun⟩
    exact .on (.on (.refl v) fun _ => herases _ _) fun _ => hdone _

theorem onboard_touched (research : Bool) (v : View) : Touched bright v (v.onboard research) := by
  refine .trans (prefers_opened
    (s := { v.settings with research := .ofBool research, onboarded := .ofBool true })
    (fun h => { h with research := Flag.valid_ofBool _, onboarded := Flag.valid_ofBool _ })
    (.opened (w := { v with
      settings.research := .ofBool research, settings.onboarded := .ofBool true, screen := .Home })
      rfl ⟨nofun, nofun⟩ (.inl rfl) rfl)) ?_
  exact .request (r := .Start) _ ⟨nofun, nofun, nofun⟩

theorem tapPrivacy_touched (v : View) : Touched bright v (v.tapPrivacy l x y) :=
  .ite (fun _ => onboard_touched false v) fun _ =>
    .ite (fun _ => .quiet (.opened rfl ⟨nofun, nofun⟩ (.inl rfl) rfl)) fun _ => .refl v

theorem tapWarning_touched (v : View) (reset : Bool) : Touched bright v (v.tapWarning reset l x y) := by
  refine .ite (fun _ => ?_) fun _ => .ite (fun _ => .ite (fun _ => ?_) fun _ => onboard_touched true v) fun _ => .refl v
  · refine .quiet (.opened rfl ?_ (.inl rfl) rfl)
    dsimp only
    split <;> exact ⟨nofun, nofun⟩
  · exact (Touched.request (r := .Reset) _ ⟨nofun, nofun, nofun⟩).trans
      (goto_touched ⟨Screen.noConfusion, Screen.noConfusion⟩ _)

/-! ## The list and its details -/

theorem confirm_apart {l : Layout} {x y : Int} (h : (l.confirm false).has x y = true) :
    ¬ (l.confirm true).has x y = true := by
  unfold Layout.confirm Rect.has at h ⊢
  simp only [Bool.and_eq_true, decide_eq_true_eq, if_true, Bool.false_eq_true, if_false] at h ⊢
  omega

theorem openDetail_touched (v : View) (hpage : v.screen = .Details) : Touched bright v v.openDetail := by
  unfold openDetail
  split
  · rename_i d hd
    exact .single (.actions v (.inr (.inr ⟨hpage, hd⟩)))
  · exact .refl v

theorem tapDetails_touched (v : View) (hpage : v.screen = .Details) : Touched bright v (v.tapDetails l x y) := by
  unfold tapDetails
  split
  · exact .quiet (.opened rfl ⟨nofun, nofun⟩ (.inr rfl) rfl)
  · by_cases hback : (l.confirm false).has x y = true
    · -- the page is left before the row of the card is looked at
      refine .on (.on (.on (.refl v) fun _ => .same rfl rfl rfl rfl) fun _ =>
        goto_touched ⟨Screen.noConfusion, Screen.noConfusion⟩ _) fun hopen => ?_
      exact absurd hopen (confirm_apart hback)
    · have hstay : ∀ u : View, u.on ((l.confirm false).has x y) (goto .Log) = u := fun u => if_neg hback
      rw [hstay]
      refine .on (.on (.refl v) fun _ => .same rfl rfl rfl rfl) fun _ => openDetail_touched _ ?_
      unfold on
      split <;> exact hpage

theorem openDetails_touched (v : View) (i : Nat) : Touched bright v (v.openDetails i) := .single (.details v i)

theorem tapLog_touched (v : View) : Touched bright v (v.tapLog l x y) :=
  .ite (fun _ => .same rfl rfl rfl rfl) fun _ =>
    .foldl (fun u _ => .on (.refl u) fun _ => openDetails_touched u _) _ v

theorem validMask_bit {i : Nat} (hi : i < categoryCount) : validMask (1 <<< i.toUInt32) = true := by
  change i < 19 at hi
  interval_cases i <;> decide

theorem flipDetector_touched (i : Nat) (v : View) : Touched bright v (v.flipDetector i) := by
  refine .ite (fun hi => ?_) fun _ => .refl v
  exact prefers_touched fun h => { h with enabled := validMask_xor h.enabled (validMask_bit hi) }

theorem tapDetectors_touched (v : View) : Touched bright v (v.tapDetectors l x y) :=
  .ite (fun _ => .same rfl rfl rfl rfl) fun _ =>
    .foldl (fun u _ => .on (.refl u) fun _ => flipDetector_touched _ u) _ v

theorem flipAlert_touched (i : Nat) (v : View) : Touched bright v (v.flipAlert i) := by
  refine .ite (fun hi => ?_) fun _ => .refl v
  refine .trans ?_ (save_touched _)
  let u := { v with settings.alertCategories := flipBit v.settings.alertCategories i }
  have hmask : Touched bright v u :=
    .prefer v fun h => { h with alerts := validMask_xor h.alerts (validMask_bit hi) }
  let w := if i = Category.IBEACON.code then
      { u with settings.ibeaconAlerts := .ofBool (hasCategory u.settings.alertCategories .IBEACON) } else u
  have hbeacon : Touched bright u w :=
    .ite (fun _ => .prefer u fun h => { h with ibeaconAlerts := Flag.valid_ofBool _ }) fun _ => .refl u
  have halert : Touched bright w (if w.now < w.alertUntil ∧ w.alertDetection.category.code = i ∧
      shouldAlert w.settings w.alertDetection = false then { w with alertUntil := 0 } else w) :=
    .ite (fun _ => .quiet ⟨rfl, .inl rfl, .inr rfl, .inl rfl⟩) fun _ => .refl w
  exact (hmask.trans hbeacon).trans halert

theorem tapAlerts_touched (v : View) : Touched bright v (v.tapAlerts l x y) :=
  .ite (fun _ => .same rfl rfl rfl rfl) fun _ =>
    .foldl (fun u _ => .on (.refl u) fun _ => flipAlert_touched _ u) _ v

theorem tapDiagnostics_touched (v : View) : Touched bright v (v.tapDiagnostics l x y) :=
  .on (.on (.refl v) fun _ => .same rfl rfl rfl rfl) fun _ =>
    .request (r := .DiagnosticCopy) _ ⟨nofun, nofun, nofun⟩

/-! ## Settings -/

theorem validThreshold_next (threshold : UInt8) : validThreshold (nextThreshold threshold) = true := by
  unfold nextThreshold
  split
  · decide
  · split <;> decide

theorem changePreference_touched (v : View) (row : Nat) : Touched bright v (v.changePreference row) := by
  refine prefers_touched fun h => ?_
  split
  · exact { h with sound := Flag.valid_toggle _ }
  · exact { h with threshold := validThreshold_next _ }
  · exact { h with region := UInt8.mod_lt _ (by decide) }
  · exact { h with lowFeeding := Flag.valid_toggle _ }
  · exact { h with ibeaconAlerts := Flag.valid_toggle _, alerts := validMask_xor h.alerts (by decide) }

theorem changeResearch_touched (v : View) : Touched bright v v.changeResearch :=
  .ite (fun _ => prefers_touched fun h => { h with research := Flag.valid_ofBool _ }) fun _ =>
    .quiet (.opened rfl ⟨nofun, nofun⟩ (.inl rfl) rfl)

/-- Every row but the one that switches the demo. -/
theorem settingsRow_touched (v : View) (row : Nat) :
    Touched bright v (v.settingsRow row) ∨ v.settingsRow row = v.toggleDemo := by
  unfold settingsRow
  split
  case h_1 => exact .inl (openWardrobe_touched v)
  case h_5 => exact .inl (toggleSnooze_touched v)
  case h_6 => exact .inl (prefers_touched fun h => { h with rotationLocked := Flag.valid_toggle _ })
  case h_7 => exact .inl (rotate_touched v)
  case h_9 => exact .inl (prefers_touched fun h => { h with reducedAnimation := Flag.valid_toggle _ })
  case h_11 => exact .inl (changePreference_touched v _)
  case h_12 => exact .inl (changeResearch_touched v)
  case h_13 => exact .inl (.single (.export' v))
  case h_14 => exact .inl (.single (.eject v))
  case h_15 => exact .inr rfl
  case h_21 => exact .inl (.single (.export' v))
  case h_22 => exact .inl ((Touched.request (r := .Calibrate) v ⟨nofun, nofun, nofun⟩).trans
    (goto_touched ⟨Screen.noConfusion, Screen.noConfusion⟩ _))
  case h_25 => exact .inl (.same rfl rfl rfl rfl)
  all_goals exact .inl (.quiet (.opened rfl ⟨nofun, nofun⟩ (.inl rfl) rfl))

theorem tapSettings_touched (v : View) :
    Touched bright v (v.tapSettings l x y) ∨ v.tapSettings l x y = v.toggleDemo := by
  unfold tapSettings
  split
  · exact .inl (.same rfl rfl rfl rfl)
  · split
    · exact settingsRow_touched v _
    · exact .inl (.refl v)

/-! ## A whole tap -/

theorem tapPage_touched (hmac : Hmac) (v : View) (l : Layout) (x y : Int)
    (hbright : v.screen = .Display → (l.row 0).has x y = true → bright v.settings.brightness) :
    Touched bright v (v.tapPage hmac l x y) ∨ v.screen = .Settings ∧ v.tapPage hmac l x y = v.toggleDemo := by
  have hbar : ∀ w : View, Touched bright v w → Touched bright v (if v.onBar l y then v.navigate l x else w) :=
    fun w hw => .ite (fun _ => navigate_touched v) fun _ => hw
  unfold tapPage
  cases hscreen : v.screen with
  | Settings =>
    dsimp only
    by_cases hbottom : v.onBar l y = true
    · rw [if_pos hbottom]
      exact .inl (navigate_touched v)
    · rw [if_neg hbottom]
      exact (tapSettings_touched v).imp_right fun h => ⟨rfl, h⟩
  | Home => exact .inl (tapHome_touched v)
  | Details => exact .inl (tapDetails_touched v hscreen)
  | Follow => exact .inl (tapFollow_touched v)
  | Display => exact .inl (tapDisplay_touched v (hbright hscreen))
  | IdleDisplay => exact .inl (tapIdleDisplay_touched v)
  | Appearance => exact .inl (tapAppearance_touched v)
  | Coverage => exact .inl (tapCoverage_touched v)
  | ScentBook => exact .inl (tapScentBook_touched v)
  | ScentCard => exact .inl (tapScentCard_touched v)
  | Wardrobe => exact .inl (tapWardrobe_touched v)
  | AlertActions => exact .inl (tapAlertActions_touched v hscreen)
  | IgnoreBackup => exact .inl (tapIgnoreBackup_touched v)
  | Ignored => exact .inl (tapIgnored_touched v)
  | Clock => exact .inl (tapClock_touched v)
  | Battery => exact .inl (tapBattery_touched v)
  | SelfTest => exact .inl (tapSelfTest_touched v)
  | ClearWarning => exact .inl (tapClearWarning_touched v)
  | Welcome => exact .inl (tapWelcome_touched v)
  | Choose => exact .inl (tapChoose_touched v)
  | Name => exact .inl (tapName_touched v)
  | Privacy => exact .inl (tapPrivacy_touched v)
  | ResearchWarning => exact .inl (tapWarning_touched v false)
  | ResetWarning => exact .inl (tapWarning_touched v true)
  | Log => exact .inl (hbar _ (tapLog_touched v))
  | Detectors => exact .inl (hbar _ (tapDetectors_touched v))
  | Alerts => exact .inl (hbar _ (tapAlerts_touched v))
  | Diagnostics => exact .inl (hbar _ (tapDiagnostics_touched v))
  | Calibration => exact .inl (.refl v)
  | WatchProgress => exact .inl (.refl v)
  | TagWatch => exact .inl (.refl v)

/-- A tap at the row of the brightness on its lit page. -/
def brightens (v : View) (x y : Int) : Prop :=
  v.displayMode = .Active ∧ v.screen = .Display ∧ (v.layout.row 0).has x y = true

instance (v : View) (x y : Int) : Decidable (v.brightens x y) := inferInstanceAs (Decidable (_ ∧ _ ∧ _))

/-- The brightness that such a tap finds. -/
def found (v : View) (x y : Int) (brightness : UInt8) : Prop := v.brightens x y ∧ brightness = v.settings.brightness

/-- A tap is a chain of touches, or switches the demo on a lit page of settings. -/
theorem tap_touched (hmac : Hmac) (v : View) (x y : Int) :
    Touched (v.found x y) v (v.tap hmac x y) ∨
      v.screen = .Settings ∧ v.displayMode = .Active ∧ v.tap hmac x y = (v.wakeDisplay false).2.toggleDemo := by
  have hwoken : Touched (v.found x y) v (v.wakeDisplay false).2 := .quiet (wakeDisplay_quiet v false)
  unfold tap
  dsimp only
  split
  · exact .inl (.refl v)
  split
  · exact .inl hwoken
  rename_i hidle
  have hactive : v.displayMode = .Active := by
    change ¬(v.displayMode != .Active) = true at hidle
    simpa using hidle
  generalize hw : (v.wakeDisplay false).2 = w at hwoken
  have hscreen : w.screen = v.screen := by
    rw [← hw]
    rfl
  have hbrightness : w.settings.brightness = v.settings.brightness := by
    rw [← hw]
    rfl
  unfold tapLit
  split
  · exact .inl (hwoken.trans (openTagWatch_touched w))
  split
  · exact .inl (hwoken.trans (openTagWatch_touched w))
  split
  · exact .inl (hwoken.trans (tapWatchProgress_touched w))
  split
  · exact .inl (hwoken.trans (tapTagWatch_touched w))
  split
  · exact .inl (hwoken.trans (rotate_touched w))
  · have hbright : w.screen = .Display → (v.layout.row 0).has x y = true →
        v.found x y w.settings.brightness :=
      fun hpage hrow => ⟨⟨hactive, hscreen ▸ hpage, hrow⟩, hbrightness⟩
    rcases tapPage_touched hmac w v.layout x y hbright with htouched | ⟨hpage, hdemo⟩
    · exact .inl (hwoken.trans htouched)
    · exact .inr ⟨hscreen.symm.trans hpage, hactive, hdemo⟩

theorem tap_now (hmac : Hmac) (v : View) (x y : Int) : (v.tap hmac x y).now = v.now := by
  rcases tap_touched hmac v x y with htouched | ⟨-, -, hdemo⟩
  · exact htouched.now_demo.1
  · rw [hdemo]
    rfl

end View

end Hound
