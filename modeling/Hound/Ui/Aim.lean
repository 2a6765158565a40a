import Hound.Ui.Panel
import Hound.Ui.Tap

/-!
# What a tap aims at

Three pages freeze a detection or act on a frozen one: Home with a card, the details
and the card's own page. No other page touches the frozen detection or opens the
card's page.
-/

namespace Hound

/-- The frozen detection is as it was, and the card's page is not opened. -/
structure KeepsAim (v w : View) : Prop where
  action : w.actionDetection = v.actionDetection
  card : w.homeAlertShown = v.homeAlertShown
  presented : w.framePresented = v.framePresented
  key : w.identityKey = v.identityKey
  page : w.screen = .AlertActions → v.screen = .AlertActions

namespace KeepsAim

variable {u v w : View}

theorem refl (v : View) : KeepsAim v v := ⟨rfl, rfl, rfl, rfl, id⟩

theorem trans (h : KeepsAim u v) (h' : KeepsAim v w) : KeepsAim u w :=
  ⟨h'.action.trans h.action, h'.card.trans h.card, h'.presented.trans h.presented, h'.key.trans h.key,
    fun hpage => h.page (h'.page hpage)⟩

theorem on (h : KeepsAim v w) {c : Bool} {f : View → View} (hf : ∀ u, KeepsAim u (f u)) :
    KeepsAim v (w.on c f) := by
  unfold View.on
  split
  · exact h.trans (hf w)
  · exact h

theorem foldl {α : Type} {f : View → α → View} (hf : ∀ u a, KeepsAim u (f u a)) (l : List α) (v : View) :
    KeepsAim v (l.foldl f v) := by
  induction l generalizing v with
  | nil => exact refl v
  | cons a l ih => exact (hf v a).trans (ih (f v a))

theorem of_panel (h : w.panel = v.panel) : KeepsAim v w where
  action := congrArg Panel.actionDetection h
  card := congrArg Panel.homeAlertShown h
  presented := congrArg Panel.framePresented h
  key := congrArg Panel.identityKey h
  page hpage := (congrArg Panel.screen h).symm.trans hpage

end KeepsAim

namespace View

variable {hmac : Hmac}

/-! ## The small updates -/

theorem goto_keepsAim {s : Screen} (hs : s ≠ .AlertActions) (v : View) : KeepsAim v (v.goto s) :=
  ⟨rfl, rfl, rfl, rfl, fun h => absurd h hs⟩

theorem home_keepsAim (v : View) : KeepsAim v v.home := ⟨rfl, rfl, rfl, rfl, Screen.noConfusion⟩

theorem note_keepsAim (text : String) (v : View) : KeepsAim v (v.note text) := ⟨rfl, rfl, rfl, rfl, id⟩

theorem turnTo_keepsAim {s : Screen} (hs : s ≠ .AlertActions) (v : View) : KeepsAim v (v.turnTo s) :=
  ⟨rfl, rfl, rfl, rfl, fun h => absurd h hs⟩

theorem request_keepsAim (v : View) (r : UiRequest) : KeepsAim v (v.request r) := ⟨rfl, rfl, rfl, rfl, id⟩

theorem setBook_keepsAim (v : View) (demo : Bool) (c : Companion) : KeepsAim v (v.setBook demo c) :=
  .of_panel (panel_setBook v demo c)

theorem setLook_keepsAim (v : View) (a : Appearance) : KeepsAim v (v.setLook a) := by
  unfold setLook
  split <;> exact ⟨rfl, rfl, rfl, rfl, id⟩

theorem setSnooze_keepsAim (v : View) (t : UInt64) : KeepsAim v (v.setSnooze t) := by
  unfold setSnooze
  split <;> exact ⟨rfl, rfl, rfl, rfl, id⟩

theorem toggleSnooze_keepsAim (v : View) : KeepsAim v v.toggleSnooze :=
  (setSnooze_keepsAim v _).trans ⟨rfl, rfl, rfl, rfl, id⟩

theorem updateTagWatch_keepsAim (v : View) : KeepsAim v v.updateTagWatch := .of_panel (panel_updateTagWatch v)

theorem recheckAlert_keepsAim (v : View) : KeepsAim v (v.recheckAlert hmac) := by
  unfold recheckAlert
  split
  · exact .refl v
  · exact ⟨rfl, rfl, rfl, rfl, id⟩

theorem wakeDisplay_keepsAim (v : View) (alert : Bool) : KeepsAim v (v.wakeDisplay alert).2 := by
  refine ⟨rfl, rfl, rfl, rfl, fun hpage => ?_⟩
  change (if alert && v.displayMode != .Active then Screen.Home else v.screen) = .AlertActions at hpage
  split at hpage
  · exact Screen.noConfusion hpage
  · exact hpage

theorem rotate_keepsAim (v : View) : KeepsAim v v.rotate := by
  unfold rotate
  refine (wakeDisplay_keepsAim v false).trans ?_
  dsimp only
  split
  · exact .refl _
  · exact ⟨rfl, rfl, rfl, rfl, id⟩

theorem openTagWatch_screen (v : View) : v.openTagWatch.screen ≠ .AlertActions := by
  change (if _ then Screen.TagWatch else Screen.WatchProgress) ≠ .AlertActions
  split <;> exact Screen.noConfusion

theorem openTagWatch_keepsAim (v : View) : KeepsAim v v.openTagWatch :=
  ⟨rfl, rfl, rfl, rfl, fun h => absurd h v.openTagWatch_screen⟩

theorem openWardrobe_keepsAim (v : View) : KeepsAim v v.openWardrobe :=
  (setBook_keepsAim v v.demo _).trans ⟨rfl, rfl, rfl, rfl, Screen.noConfusion⟩

theorem requestExport_keepsAim (v : View) : KeepsAim v v.requestExport := by
  unfold requestExport
  repeat' split
  all_goals exact ⟨rfl, rfl, rfl, rfl, id⟩

theorem requestEject_keepsAim (v : View) : KeepsAim v v.requestEject := by
  unfold requestEject
  repeat' split
  all_goals exact ⟨rfl, rfl, rfl, rfl, id⟩

/-! ## Travel Watch -/

theorem tapWatchProgress_keepsAim (v : View) (l : Layout) (x y : Int) :
    KeepsAim v (v.tapWatchProgress l x y) := by
  unfold tapWatchProgress
  refine .on (.on (.on (.refl v) fun u => ?_) home_keepsAim) fun u => ?_
  · exact ⟨rfl, rfl, rfl, rfl, Screen.noConfusion⟩
  · exact ⟨rfl, rfl, rfl, rfl, id⟩

theorem toggleWatch_keepsAim (v : View) : KeepsAim v v.toggleWatch := by
  unfold toggleWatch
  dsimp only
  split
  · exact ⟨rfl, rfl, rfl, rfl, id⟩
  · exact ⟨rfl, rfl, rfl, rfl, Screen.noConfusion⟩

theorem ignoreWatched_keepsAim (e : TagWatch.Entry) (v : View) : KeepsAim v (v.ignoreWatched hmac e) := by
  unfold ignoreWatched
  dsimp only
  split
  · refine .trans ?_ (home_keepsAim _)
    refine .trans ?_ (updateTagWatch_keepsAim _)
    refine .trans ?_ (recheckAlert_keepsAim _)
    exact (setBook_keepsAim v v.demo _).trans (request_keepsAim _ _)
  · exact note_keepsAim _ v

theorem tapTagWatch_keepsAim (v : View) (l : Layout) (x y : Int) : KeepsAim v (v.tapTagWatch hmac l x y) := by
  unfold tapTagWatch
  split
  · exact ⟨rfl, rfl, rfl, rfl, Screen.noConfusion⟩
  · have htoggled : KeepsAim v (v.on ((l.row 0).has x y) toggleWatch
        |>.on ((l.row 1).has x y) fun v => { v with watchFlash := !v.watchFlash }) :=
      .on (.on (.refl v) toggleWatch_keepsAim) fun u => ⟨rfl, rfl, rfl, rfl, id⟩
    dsimp only
    split
    · exact htoggled.trans (openTagWatch_keepsAim _)
    · refine .on (.on ?_ home_keepsAim) fun u => (toggleSnooze_keepsAim u).trans (home_keepsAim _)
      split
      · refine .on (.on htoggled fun u => ?_) (ignoreWatched_keepsAim _)
        exact ⟨rfl, rfl, rfl, rfl, Screen.noConfusion⟩
      · exact htoggled

/-! ## Home and the card's page -/

theorem toggleSniffing_keepsAim (v : View) : KeepsAim v v.toggleSniffing := ⟨rfl, rfl, rfl, rfl, id⟩

theorem petHound_keepsAim (v : View) : KeepsAim v v.petHound := by
  unfold petHound
  dsimp only
  split <;> exact ⟨rfl, rfl, rfl, rfl, id⟩

theorem barScreen_ne (i : Nat) : barScreen i ≠ .AlertActions := by
  unfold barScreen
  split <;> exact Screen.noConfusion

theorem navigate_keepsAim (v : View) (l : Layout) (x : Int) : KeepsAim v (v.navigate l x) :=
  turnTo_keepsAim (barScreen_ne _) v

/-- Home opens the card's page for the card that was drawn, and without a first frame
for the pending alert. -/
theorem tapHome_cases (v : View) (l : Layout) (x y : Int) :
    KeepsAim v (v.tapHome l x y) ∨
      v.homeAlertShown = true ∧ v.tapHome l x y = v.openActions v.actionDetection ∨
      v.framePresented = false ∧ v.tapHome l x y = v.openActions v.alertDetection := by
  unfold tapHome
  by_cases hbook : l.homeBook.has x y = true
  · rw [if_pos hbook]
    exact .inl ⟨rfl, rfl, rfl, rfl, Screen.noConfusion⟩
  rw [if_neg hbook]
  by_cases hwardrobe : l.homeWardrobe.has x y = true ∧ v.alertUntil ≤ v.now
  · rw [if_pos hwardrobe]
    exact .inl (openWardrobe_keepsAim v)
  rw [if_neg hwardrobe]
  by_cases hsniff : l.sniff.has x y = true
  · rw [if_pos hsniff]
    exact .inl (toggleSniffing_keepsAim v)
  rw [if_neg hsniff]
  by_cases hcard : v.homeAlertShown = true ∧ l.quiet.has x y = true
  · rw [if_pos hcard]
    exact .inr (.inl ⟨hcard.1, rfl⟩)
  rw [if_neg hcard]
  by_cases hwarning : v.watchWarning.isSome = true ∧ l.quiet.has x y = true
  · rw [if_pos hwarning]
    exact .inl (openTagWatch_keepsAim v)
  rw [if_neg hwarning]
  by_cases hfirst : ¬ v.framePresented = true ∧ v.now < v.alertUntil ∧ l.quiet.has x y = true
  · rw [if_pos hfirst]
    exact .inr (.inr ⟨Bool.eq_false_iff.mpr hfirst.1, rfl⟩)
  rw [if_neg hfirst]
  refine .inl ?_
  by_cases hfollow : v.follow.active = true ∧ l.homeFollow.has x y = true
  · rw [if_pos hfollow]
    exact ⟨rfl, rfl, rfl, rfl, Screen.noConfusion⟩
  rw [if_neg hfollow]
  by_cases hbar : v.onBar l y = true
  · rw [if_pos hbar]
    exact navigate_keepsAim v l x
  rw [if_neg hbar]
  by_cases halert : v.now < v.alertUntil
  · rw [if_pos halert]
    exact ⟨rfl, rfl, rfl, rfl, id⟩
  rw [if_neg halert]
  by_cases hhound : onHound l x y = true
  · rw [if_pos hhound]
    exact petHound_keepsAim v
  · rw [if_neg hhound]
    exact .refl v

theorem ignoreAction_keepsAim (v : View) : KeepsAim v (v.ignoreAction hmac) := by
  unfold ignoreAction
  dsimp only
  split
  · refine .trans ?_ (note_keepsAim _ _)
    refine .trans ?_ (home_keepsAim _)
    refine .trans ?_ (updateTagWatch_keepsAim _)
    refine .trans ?_ (recheckAlert_keepsAim _)
    exact (setBook_keepsAim v _ _).trans (request_keepsAim _ _)
  · exact note_keepsAim _ v

theorem tapAlertActions_keepsAim (v : View) (l : Layout) (x y : Int) :
    KeepsAim v (v.tapAlertActions hmac l x y) := by
  unfold tapAlertActions
  split
  · exact (setSnooze_keepsAim v _).trans ⟨rfl, rfl, rfl, rfl, Screen.noConfusion⟩
  · refine .on (.on (.on (.refl v) ignoreAction_keepsAim) fun u => ?_) home_keepsAim
    exact (setSnooze_keepsAim u 0).trans (home_keepsAim _)

/-! ## Pages of choices -/

theorem tapFollow_keepsAim (v : View) (l : Layout) (x y : Int) : KeepsAim v (v.tapFollow l x y) :=
  .on (.on (.refl v) home_keepsAim) fun _ => ⟨rfl, rfl, rfl, rfl, Screen.noConfusion⟩

theorem tapDisplay_keepsAim (v : View) (l : Layout) (x y : Int) : KeepsAim v (v.tapDisplay l x y) := by
  unfold tapDisplay
  refine .on (.on (.on (.on (.on (.on (.refl v) fun u => ?_) fun u => ?_) fun u => ?_)
    (goto_keepsAim Screen.noConfusion)) (goto_keepsAim Screen.noConfusion)) (goto_keepsAim Screen.noConfusion)
  · exact ⟨rfl, rfl, rfl, rfl, id⟩
  · exact ((setLook_keepsAim u _).trans (request_keepsAim _ _)).trans (request_keepsAim _ _)
  · exact ⟨rfl, rfl, rfl, rfl, id⟩

theorem startSaver_keepsAim (v : View) : KeepsAim v v.startSaver :=
  (wakeDisplay_keepsAim v false).trans ⟨rfl, rfl, rfl, rfl, id⟩

theorem tapIdleDisplay_keepsAim (v : View) (l : Layout) (x y : Int) : KeepsAim v (v.tapIdleDisplay l x y) := by
  have htimeout : ∀ (a : View → Appearance) (u : View), KeepsAim u ((u.setLook (a u)).request .Save) :=
    fun a u => (setLook_keepsAim u _).trans (request_keepsAim _ _)
  exact .on (.on (.on (.on (.on (.on (.refl v) (htimeout _)) (htimeout _)) (htimeout _)) startSaver_keepsAim)
    (goto_keepsAim Screen.noConfusion)) home_keepsAim

theorem tapAppearance_keepsAim (v : View) (l : Layout) (x y : Int) : KeepsAim v (v.tapAppearance l x y) := by
  have hlook : ∀ (a : View → Appearance) (u : View), KeepsAim u (u.setLook (a u)) :=
    fun a u => setLook_keepsAim u _
  exact .trans (.on (.on (.on (.on (.on (.on (.refl v) (hlook _)) (hlook _)) (hlook _)) (hlook _))
    (goto_keepsAim Screen.noConfusion)) home_keepsAim) (request_keepsAim _ _)

theorem tapCoverage_keepsAim (v : View) (l : Layout) (x y : Int) : KeepsAim v (v.tapCoverage l x y) := by
  unfold tapCoverage
  split
  · exact ⟨rfl, rfl, rfl, rfl, Screen.noConfusion⟩
  · split <;> exact ⟨rfl, rfl, rfl, rfl, id⟩

theorem tapScent_keepsAim (l : Layout) (x y : Int) (v : View) (i : Nat) : KeepsAim v (tapScent l x y v i) :=
  .on (.refl v) fun _ => ⟨rfl, rfl, rfl, rfl, Screen.noConfusion⟩

theorem tapScentBook_keepsAim (v : View) (l : Layout) (x y : Int) : KeepsAim v (v.tapScentBook l x y) := by
  unfold tapScentBook
  split
  · exact ⟨rfl, rfl, rfl, rfl, Screen.noConfusion⟩
  split
  · exact ⟨rfl, rfl, rfl, rfl, Screen.noConfusion⟩
  split
  · exact ⟨rfl, rfl, rfl, rfl, id⟩
  · exact .foldl (tapScent_keepsAim l x y) _ v

theorem tapScentCard_keepsAim (v : View) (l : Layout) (x y : Int) : KeepsAim v (v.tapScentCard l x y) :=
  .on (.on (.refl v) (goto_keepsAim Screen.noConfusion)) fun _ => ⟨rfl, rfl, rfl, rfl, id⟩

theorem tapWardrobe_keepsAim (v : View) (l : Layout) (x y : Int) : KeepsAim v (v.tapWardrobe l x y) := by
  unfold tapWardrobe
  refine .on (.on (.on (.on (.refl v) fun u => ?_) fun u => ?_) (goto_keepsAim Screen.noConfusion)) fun u => ?_
  · exact ⟨rfl, rfl, rfl, rfl, id⟩
  · exact ⟨rfl, rfl, rfl, rfl, id⟩
  · exact (setBook_keepsAim u u.demo _).trans (request_keepsAim _ _)

theorem tapIgnoreBackup_keepsAim (v : View) (l : Layout) (x y : Int) : KeepsAim v (v.tapIgnoreBackup l x y) := by
  unfold tapIgnoreBackup
  refine .on (.on (.refl v) fun u => ?_) (goto_keepsAim Screen.noConfusion)
  split
  · exact note_keepsAim _ u
  split
  · exact ⟨rfl, rfl, rfl, rfl, id⟩
  · exact .refl u

theorem clampIgnored_keepsAim (v : View) : KeepsAim v v.clampIgnored := ⟨rfl, rfl, rfl, rfl, id⟩

theorem dropIgnored_keepsAim (l : Layout) (x y : Int) (v : View) (i : Nat) :
    KeepsAim v (dropIgnored l x y v i) := by
  unfold dropIgnored
  refine .on (.refl v) fun u => ?_
  split
  · exact ((setBook_keepsAim u u.demo _).trans (request_keepsAim _ _)).trans (clampIgnored_keepsAim _)
  · exact .refl u

theorem tapIgnored_keepsAim (v : View) (l : Layout) (x y : Int) : KeepsAim v (v.tapIgnored l x y) := by
  unfold tapIgnored
  refine .trans ?_ (.foldl (dropIgnored_keepsAim l x y) _ _)
  refine .on (.on (.on (clampIgnored_keepsAim v) (goto_keepsAim Screen.noConfusion)) fun u => ?_) fun u => ?_
  · exact ⟨rfl, rfl, rfl, rfl, id⟩
  · exact ⟨rfl, rfl, rfl, rfl, Screen.noConfusion⟩

/-! ## Setting up -/

theorem tapClock_keepsAim (v : View) (l : Layout) (x y : Int) : KeepsAim v (v.tapClock l x y) := by
  unfold tapClock
  dsimp only
  split
  · exact ⟨rfl, rfl, rfl, rfl, id⟩
  · refine .on (.on (.on (.refl v) fun u => ?_) (goto_keepsAim Screen.noConfusion)) fun u => ?_
    · exact ⟨rfl, rfl, rfl, rfl, id⟩
    · split
      · exact ⟨rfl, rfl, rfl, rfl, Screen.noConfusion⟩
      · exact note_keepsAim _ u

theorem tapBattery_keepsAim (v : View) (l : Layout) (x y : Int) : KeepsAim v (v.tapBattery l x y) := by
  unfold tapBattery
  refine .on (.on (.on (.on (.on (.on (.refl v) fun u => ?_) fun u => ?_) fun u => ?_) fun u => ?_)
    fun u => ?_) (goto_keepsAim Screen.noConfusion)
  all_goals exact ⟨rfl, rfl, rfl, rfl, id⟩

theorem tapSelfTest_keepsAim (v : View) (l : Layout) (x y : Int) : KeepsAim v (v.tapSelfTest l x y) := by
  unfold tapSelfTest
  split
  · exact ⟨rfl, rfl, rfl, rfl, Screen.noConfusion⟩
  · exact ⟨rfl, rfl, rfl, rfl, id⟩

theorem tapClearWarning_keepsAim (v : View) (l : Layout) (x y : Int) : KeepsAim v (v.tapClearWarning l x y) :=
  .on (.on (.refl v) (goto_keepsAim Screen.noConfusion)) fun u =>
    (request_keepsAim u _).trans (goto_keepsAim Screen.noConfusion _)

theorem tapWelcome_keepsAim (v : View) (l : Layout) (x y : Int) : KeepsAim v (v.tapWelcome l x y) := by
  unfold tapWelcome
  split
  · exact ⟨rfl, rfl, rfl, rfl, Screen.noConfusion⟩
  · exact .refl v

theorem tapChoose_keepsAim (v : View) (l : Layout) (x y : Int) : KeepsAim v (v.tapChoose l x y) := by
  unfold tapChoose
  split
  · exact ⟨rfl, rfl, rfl, rfl, Screen.noConfusion⟩
  · exact .refl v

theorem tapName_keepsAim (v : View) (l : Layout) (x y : Int) : KeepsAim v (v.tapName l x y) := by
  unfold tapName
  dsimp only
  split
  · exact ⟨rfl, rfl, rfl, rfl, id⟩
  · refine .on (.on (.refl v) fun u => ?_) fun u => ⟨rfl, rfl, rfl, rfl, fun hpage => ?_⟩
    · exact ⟨rfl, rfl, rfl, rfl, id⟩
    · change (if u.settings.onboarded.isSet then Screen.Home else Screen.Privacy) = .AlertActions at hpage
      split at hpage <;> exact Screen.noConfusion hpage

theorem onboard_keepsAim (research : Bool) (v : View) : KeepsAim v (v.onboard research) :=
  ⟨rfl, rfl, rfl, rfl, Screen.noConfusion⟩

theorem tapPrivacy_keepsAim (v : View) (l : Layout) (x y : Int) : KeepsAim v (v.tapPrivacy l x y) := by
  unfold tapPrivacy
  split
  · exact onboard_keepsAim false v
  split
  · exact ⟨rfl, rfl, rfl, rfl, Screen.noConfusion⟩
  · exact .refl v

theorem tapWarning_keepsAim (v : View) (reset : Bool) (l : Layout) (x y : Int) :
    KeepsAim v (v.tapWarning reset l x y) := by
  unfold tapWarning
  split
  · refine ⟨rfl, rfl, rfl, rfl, fun hpage => ?_⟩
    change (if v.settings.onboarded.isSet then Screen.Settings else Screen.Privacy) = .AlertActions at hpage
    split at hpage <;> exact Screen.noConfusion hpage
  split
  · split
    · exact (request_keepsAim v _).trans (goto_keepsAim Screen.noConfusion _)
    · exact onboard_keepsAim true v
  · exact .refl v

/-! ## The list and its details -/

/-- The details open the card's page for the detection they show, without a card on Home. -/
theorem tapDetails_cases (v : View) (l : Layout) (x y : Int) :
    KeepsAim v (v.tapDetails l x y) ∨
      (v.tapDetails l x y).homeAlertShown = false ∧ (v.tapDetails l x y).framePresented = v.framePresented ∧
        (v.tapDetails l x y).identityKey = v.identityKey := by
  unfold tapDetails
  split
  · exact .inl ⟨rfl, rfl, rfl, rfl, Screen.noConfusion⟩
  · have hkept : KeepsAim v (v.on ((Rect.mk (l.w - 108) 32 96 30).has x y)
          (fun v => { v with detailPage := 1 - v.detailPage })
        |>.on ((l.confirm false).has x y) (goto .Log)) := by
      refine .on (.on (.refl v) fun u => ?_) (goto_keepsAim Screen.noConfusion)
      exact ⟨rfl, rfl, rfl, rfl, id⟩
    generalize (v.on ((Rect.mk (l.w - 108) 32 96 30).has x y)
          (fun v => { v with detailPage := 1 - v.detailPage })
        |>.on ((l.confirm false).has x y) (goto .Log)) = u at hkept
    unfold on openDetail
    split
    · split
      · exact .inr ⟨rfl, hkept.presented, hkept.key⟩
      · exact .inl hkept
    · exact .inl hkept

theorem openDetails_keepsAim (v : View) (i : Nat) : KeepsAim v (v.openDetails i) := by
  unfold openDetails
  split
  · exact .refl v
  · exact ⟨rfl, rfl, rfl, rfl, Screen.noConfusion⟩

theorem tapLog_keepsAim (v : View) (l : Layout) (x y : Int) : KeepsAim v (v.tapLog l x y) := by
  unfold tapLog
  split
  · exact ⟨rfl, rfl, rfl, rfl, id⟩
  · exact .foldl (fun u i => .on (.refl u) fun w => openDetails_keepsAim w _) _ v

theorem flipDetector_keepsAim (i : Nat) (v : View) : KeepsAim v (v.flipDetector i) := by
  unfold flipDetector
  split
  · exact ⟨rfl, rfl, rfl, rfl, id⟩
  · exact .refl v

theorem tapDetectors_keepsAim (v : View) (l : Layout) (x y : Int) : KeepsAim v (v.tapDetectors l x y) := by
  unfold tapDetectors
  split
  · exact ⟨rfl, rfl, rfl, rfl, id⟩
  · exact .foldl (fun u i => .on (.refl u) (flipDetector_keepsAim _)) _ v

theorem flipAlert_keepsAim (i : Nat) (v : View) : KeepsAim v (v.flipAlert i) := by
  unfold flipAlert
  split
  · dsimp only
    split <;> split <;> exact ⟨rfl, rfl, rfl, rfl, id⟩
  · exact .refl v

theorem tapAlerts_keepsAim (v : View) (l : Layout) (x y : Int) : KeepsAim v (v.tapAlerts l x y) := by
  unfold tapAlerts
  split
  · exact ⟨rfl, rfl, rfl, rfl, id⟩
  · exact .foldl (fun u i => .on (.refl u) (flipAlert_keepsAim _)) _ v

theorem tapDiagnostics_keepsAim (v : View) (l : Layout) (x y : Int) : KeepsAim v (v.tapDiagnostics l x y) := by
  unfold tapDiagnostics
  refine .on (.on (.refl v) fun u => ?_) fun u => request_keepsAim u _
  exact ⟨rfl, rfl, rfl, rfl, id⟩

/-! ## Settings -/

theorem toggleDemo_keepsAim (v : View) : KeepsAim v v.toggleDemo := ⟨rfl, rfl, rfl, rfl, Screen.noConfusion⟩

theorem changeResearch_keepsAim (v : View) : KeepsAim v v.changeResearch := by
  unfold changeResearch
  split
  · exact ⟨rfl, rfl, rfl, rfl, id⟩
  · exact ⟨rfl, rfl, rfl, rfl, Screen.noConfusion⟩

theorem settingsRow_keepsAim (v : View) (row : Nat) : KeepsAim v (v.settingsRow row) := by
  unfold settingsRow
  split
  case h_1 => exact openWardrobe_keepsAim v
  case h_5 => exact toggleSnooze_keepsAim v
  case h_7 => exact rotate_keepsAim v
  case h_12 => exact changeResearch_keepsAim v
  case h_13 => exact requestExport_keepsAim v
  case h_14 => exact requestEject_keepsAim v
  case h_15 => exact toggleDemo_keepsAim v
  case h_21 => exact requestExport_keepsAim v
  case h_22 => exact (request_keepsAim v _).trans (goto_keepsAim Screen.noConfusion _)
  case h_6 | h_9 | h_11 | h_25 => exact ⟨rfl, rfl, rfl, rfl, id⟩
  all_goals exact ⟨rfl, rfl, rfl, rfl, Screen.noConfusion⟩

theorem tapSettings_keepsAim (v : View) (l : Layout) (x y : Int) : KeepsAim v (v.tapSettings l x y) := by
  unfold tapSettings
  split
  · exact ⟨rfl, rfl, rfl, rfl, id⟩
  · split
    · exact settingsRow_keepsAim v _
    · exact .refl v

/-! ## A whole tap -/

/-- Everything a tap on a lit panel does to what taps aim at. -/
theorem tapLit_cases (hmac : Hmac) (v : View) (l : Layout) (x y : Int) :
    KeepsAim v (v.tapLit hmac l x y) ∨
      (v.screen = .Home ∧ v.homeAlertShown = true ∧
        v.tapLit hmac l x y = v.openActions v.actionDetection) ∨
      (v.screen = .Home ∧ v.framePresented = false ∧
        v.tapLit hmac l x y = v.openActions v.alertDetection) ∨
      v.screen = .Details ∧ (v.tapLit hmac l x y).homeAlertShown = false ∧
        (v.tapLit hmac l x y).framePresented = v.framePresented ∧
        (v.tapLit hmac l x y).identityKey = v.identityKey := by
  have hbar : ∀ w : View, KeepsAim v w → KeepsAim v (if v.onBar l y then v.navigate l x else w) := by
    intro w hw
    split
    · exact navigate_keepsAim v l x
    · exact hw
  unfold tapLit
  split
  · exact .inl (openTagWatch_keepsAim v)
  split
  · exact .inl (openTagWatch_keepsAim v)
  split
  · exact .inl (tapWatchProgress_keepsAim v l x y)
  split
  · exact .inl (tapTagWatch_keepsAim v l x y)
  split
  · exact .inl (rotate_keepsAim v)
  unfold tapPage
  cases hscreen : v.screen with
  | Home =>
    rcases tapHome_cases v l x y with hkept | ⟨hcard, heq⟩ | ⟨hfirst, heq⟩
    · exact .inl hkept
    · exact .inr (.inl ⟨rfl, hcard, heq⟩)
    · exact .inr (.inr (.inl ⟨rfl, hfirst, heq⟩))
  | Details =>
    rcases tapDetails_cases v l x y with hkept | hopened
    · exact .inl hkept
    · exact .inr (.inr (.inr ⟨rfl, hopened⟩))
  | Follow => exact .inl (tapFollow_keepsAim v l x y)
  | Display => exact .inl (tapDisplay_keepsAim v l x y)
  | IdleDisplay => exact .inl (tapIdleDisplay_keepsAim v l x y)
  | Appearance => exact .inl (tapAppearance_keepsAim v l x y)
  | Coverage => exact .inl (tapCoverage_keepsAim v l x y)
  | ScentBook => exact .inl (tapScentBook_keepsAim v l x y)
  | ScentCard => exact .inl (tapScentCard_keepsAim v l x y)
  | Wardrobe => exact .inl (tapWardrobe_keepsAim v l x y)
  | AlertActions => exact .inl (tapAlertActions_keepsAim v l x y)
  | IgnoreBackup => exact .inl (tapIgnoreBackup_keepsAim v l x y)
  | Ignored => exact .inl (tapIgnored_keepsAim v l x y)
  | Clock => exact .inl (tapClock_keepsAim v l x y)
  | Battery => exact .inl (tapBattery_keepsAim v l x y)
  | SelfTest => exact .inl (tapSelfTest_keepsAim v l x y)
  | ClearWarning => exact .inl (tapClearWarning_keepsAim v l x y)
  | Welcome => exact .inl (tapWelcome_keepsAim v l x y)
  | Choose => exact .inl (tapChoose_keepsAim v l x y)
  | Name => exact .inl (tapName_keepsAim v l x y)
  | Privacy => exact .inl (tapPrivacy_keepsAim v l x y)
  | ResearchWarning => exact .inl (tapWarning_keepsAim v false l x y)
  | ResetWarning => exact .inl (tapWarning_keepsAim v true l x y)
  | Log => exact .inl (hbar _ (tapLog_keepsAim v l x y))
  | Detectors => exact .inl (hbar _ (tapDetectors_keepsAim v l x y))
  | Alerts => exact .inl (hbar _ (tapAlerts_keepsAim v l x y))
  | Diagnostics => exact .inl (hbar _ (tapDiagnostics_keepsAim v l x y))
  | Settings => exact .inl (hbar _ (tapSettings_keepsAim v l x y))
  | Calibration => exact .inl (.refl v)
  | WatchProgress => exact .inl (.refl v)
  | TagWatch => exact .inl (.refl v)

end View

/-! ## The ignore lists on the card's page -/

/-- What `ignore` writes, wherever it writes. -/
theorem Companion.ignore_get (c : Companion) (hash : UInt64) (category : Category) {i : Fin 64}
    (h : (c.ignore hash category).2.ignored.get i ≠ c.ignored.get i) :
    (c.ignore hash category).2.ignored.get i = .ofHash hash category.code.toUInt8 := by
  unfold Companion.ignore at h ⊢
  split
  · rename_i hzero
    rw [if_pos hzero] at h
    exact absurd rfl h
  rename_i hzero
  rw [if_neg hzero] at h
  split
  · rename_i hlisted
    rw [if_pos hlisted] at h
    exact absurd rfl h
  rename_i hlisted
  rw [if_neg hlisted] at h
  cases hfree : Fin.find? fun i => (c.ignored.get i).hash == 0 with
  | none =>
    rw [hfree] at h
    exact absurd rfl h
  | some j =>
    rw [hfree] at h
    dsimp only at h ⊢
    rw [Vector.get_ofFn] at h ⊢
    by_cases hij : i = j
    · exact if_pos hij
    · rw [if_neg hij] at h
      exact absurd rfl h

namespace View

variable {hmac : Hmac}

/-- The two scent books, with their ignore lists. -/
def books (v : View) : Companion × Companion := (v.companion, v.previewCompanion)

theorem book_congr {v w : View} (h : w.books = v.books) (demo : Bool) : w.book demo = v.book demo := by
  obtain ⟨hreal, hpreview⟩ := Prod.mk.inj h
  unfold book
  rw [hreal, hpreview]

theorem books_home (v : View) : v.home.books = v.books := by
  unfold home books
  rfl

theorem books_note (text : String) (v : View) : (v.note text).books = v.books := by
  unfold note books
  rfl

theorem books_request (v : View) (r : UiRequest) : (v.request r).books = v.books := by
  unfold request books
  rfl

theorem books_setSnooze (v : View) (t : UInt64) : (v.setSnooze t).books = v.books := by
  unfold setSnooze books
  split <;> rfl

theorem books_recheckAlert (v : View) : (v.recheckAlert hmac).books = v.books := by
  unfold recheckAlert books
  split <;> rfl

theorem books_updateTagWatch (v : View) : v.updateTagWatch.books = v.books := by
  have hreview : ∀ u : View, u.reviewWarning.books = u.books := by
    intro u
    unfold reviewWarning books
    split
    · split <;> rfl
    · rfl
  have hother : v.endOtherWatch.books = v.books := by
    unfold endOtherWatch books
    split <;> rfl
  have hstale : v.endOtherWatch.dropStale.books = v.endOtherWatch.books := by
    unfold dropStale books
    rfl
  unfold updateTagWatch
  rw [hreview, hstale, hother]

theorem books_rotate (v : View) : v.rotate.books = v.books := by
  unfold rotate books
  dsimp only
  split <;> rfl

theorem book_setBook (v : View) (demo b : Bool) (c : Companion) :
    (v.setBook demo c).book b = if b = demo then c else v.book b := by
  unfold setBook book
  cases demo <;> cases b <;> rfl

/-- What the row that ignores adds, and where. -/
theorem ignoreAction_get (v : View) {b : Bool} {i : Fin 64}
    (h : ((v.ignoreAction hmac).book b).ignored.get i ≠ (v.book b).ignored.get i) :
    b = v.actionDetection.demo ∧ ((v.ignoreAction hmac).book b).ignored.get i =
      .ofHash (v.identity hmac v.actionDetection) v.actionDetection.category.code.toUInt8 := by
  have hbooks : (v.ignoreAction hmac).book b = v.book b ∨ (v.ignoreAction hmac).book b =
      (v.setBook v.actionDetection.demo ((v.book v.actionDetection.demo).ignore
        (v.identity hmac v.actionDetection) v.actionDetection.category).2).book b := by
    unfold ignoreAction
    dsimp only
    split
    · refine .inr (book_congr ?_ b)
      rw [books_note, books_home, books_updateTagWatch, books_recheckAlert, books_request]
    · exact .inl (book_congr (books_note _ v) b)
  rcases hbooks with hsame | hset
  · rw [hsame] at h
    exact absurd rfl h
  · rw [hset, book_setBook] at h ⊢
    by_cases hb : b = v.actionDetection.demo
    · rw [if_pos hb] at h ⊢
      subst hb
      exact ⟨rfl, Companion.ignore_get _ _ _ h⟩
    · rw [if_neg hb] at h
      exact absurd rfl h

theorem tapAlertActions_get (v : View) (l : Layout) (x y : Int) {b : Bool} {i : Fin 64}
    (h : ((v.tapAlertActions hmac l x y).book b).ignored.get i ≠ (v.book b).ignored.get i) :
    b = v.actionDetection.demo ∧ ((v.tapAlertActions hmac l x y).book b).ignored.get i =
      .ofHash (v.identity hmac v.actionDetection) v.actionDetection.category.code.toUInt8 := by
  -- past the row that ignores, nothing touches the books
  have hrest : ∀ u : View, (u.on ((l.row 4).has x y) (fun v => (v.setSnooze 0).home)
      |>.on (l.more.has x y) home).book b = u.book b := by
    intro u
    refine book_congr ?_ b
    have hhome : ∀ w : View, (w.on (l.more.has x y) home).books = w.books := by
      intro w
      unfold on
      split <;> rfl
    rw [hhome]
    unfold on
    split
    · exact books_setSnooze u 0
    · rfl
  unfold tapAlertActions at h ⊢
  split at h
  · rename_i j hj
    have hsnoozed := book_congr (books_setSnooze v (v.now + snoozeMinutes.getD j 0 * 60000)) b
    exact absurd (congrArg (fun c : Companion => c.ignored.get i) hsnoozed) h
  · rw [hrest] at h ⊢
    unfold on at h ⊢
    split at h
    · rename_i hrow
      rw [if_pos hrow]
      exact ignoreAction_get v h
    · exact absurd rfl h

/-- A tap on the card's page adds the frozen detection, or nothing. -/
theorem tapLit_get (v : View) (l : Layout) (x y : Int) (hpage : v.screen = .AlertActions) {b : Bool}
    {i : Fin 64} (h : ((v.tapLit hmac l x y).book b).ignored.get i ≠ (v.book b).ignored.get i) :
    b = v.actionDetection.demo ∧ ((v.tapLit hmac l x y).book b).ignored.get i =
      .ofHash (v.identity hmac v.actionDetection) v.actionDetection.category.code.toUInt8 := by
  have hkept : ∀ w : View, w.books = v.books → (w.book b).ignored.get i ≠ (v.book b).ignored.get i → False :=
    fun w hw hne => hne (by rw [book_congr hw])
  unfold tapLit at h ⊢
  split at h
  · exact (hkept _ rfl h).elim
  rename_i hheader
  rw [if_neg hheader]
  split at h
  · exact (hkept _ rfl h).elim
  rename_i hwatch
  rw [if_neg hwatch, if_neg (by simp [hpage]), if_neg (by simp [hpage])]
  rw [if_neg (by simp [hpage]), if_neg (by simp [hpage])] at h
  split at h
  · exact (hkept _ (books_rotate v) h).elim
  rename_i hrotate
  rw [if_neg hrotate]
  unfold tapPage at h ⊢
  rw [hpage] at h ⊢
  exact tapAlertActions_get v l x y h

end View

end Hound
