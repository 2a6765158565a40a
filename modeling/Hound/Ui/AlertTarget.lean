import Hound.Lib.Runs
import Hound.Ui.Aim

/-!
# The drawn target

Radio events run between a frame and the touch that answers it. The page of a card
acts on the detection that the frame showed, as long as the panel was not lit on
that page since.
-/

namespace Hound

/-! ## The steps of the application -/

/-- What the loop does to the view besides events, updates, frames and touches. -/
inductive Upkeep where
  | watch
  | pet
  | hear (o : Observation) (synthetic : Bool)
  | poll (p : View.Polled)
  | exportQueued (accepted : Bool)
  | ejectQueued (accepted : Bool)
  | reset
  | demoSwitched (kept : Pet)
  | logsCleared

inductive UiStep where
  | tap (x y : Int)
  | button
  | hold
  | frame
  | event (d : Detection)
  | advance (now : UInt64)
  | update
  | upkeep (u : Upkeep)

namespace View

/-- `observe` of Follow Scent, and the drone tracks next to it. -/
def hear (v : View) (o : Observation) (synthetic : Bool) : View :=
  let follow :=
    if !v.paused && synthetic == v.demo && decide (o.ms ≤ v.now) &&
        hasCategory v.settings.enabledCategories v.follow.category then
      (v.follow.observe o synthetic).2
    else v.follow
  { v with follow, drones := if synthetic then v.drones else v.drones.ingest o }

/-- The view's part of the request that `toggle_demo` leaves. -/
def switchDemo (v : View) (kept : Pet) : View :=
  let v := if v.demo then
      { v with previewFullness := 70, previewMood := 70, previewDecayMs := v.now }
    else { v with pet := { kept with decayMs := v.now } }
  { v with follow := {}, recent := [], alertUntil := 0, mealUntil := 0 }

def clearRecent (v : View) : View := { v with recent := [], logPage := 0, notice := ascii "SD LOGS DELETED" }

def upkeep (v : View) : Upkeep → View
  | .watch => v.updateTagWatch
  | .pet => v.tickPet
  | .hear o synthetic => v.hear o synthetic
  | .poll p => v.poll p
  | .exportQueued accepted => v.exportQueued accepted
  | .ejectQueued accepted => v.ejectQueued accepted
  | .reset => v.resetProgress
  | .demoSwitched kept => v.switchDemo kept
  | .logsCleared => v.clearRecent

variable (hmac : Hmac)

def uiStep (v : View) : UiStep → View
  | .tap x y => v.tap hmac x y
  | .button => v.next
  | .hold => (v.wakeDisplay false).2
  | .frame => v.renderFrame hmac
  | .event d => v.event hmac d
  | .advance now => { v with now }
  | .update => v.updateDisplay
  | .upkeep u => v.upkeep u

end View

/-! ## What was drawn -/

abbrev UiPast := List (View × UiStep)

/-- The last frame; the past is listed with the latest step first. -/
def lastFrame : UiPast → Option Frame
  | [] => none
  | (v, .frame) :: _ => some v.frame
  | _ :: past => lastFrame past

def touches : UiStep → Bool
  | .tap _ _ | .button | .hold => true
  | _ => false

/-- There is a frame, and no step since then spoils it. -/
def framed (spoils : View → UiStep → Bool) : UiPast → Bool
  | [] => false
  | (v, s) :: past => match s with
    | .frame => true
    | s => !spoils v s && framed spoils past

/-- An update lights the panel on a card's page that was dark. -/
def relights (v : View) (s : UiStep) : Bool :=
  match s with
  | .update => v.dark && !v.updateDisplay.dark && v.updateDisplay.screen == .AlertActions
  | _ => false

/-- A frame has been drawn since the last touch. -/
def frameSinceTouch : UiPast → Bool := framed fun _ s => touches s

/-- A frame has been drawn since the last touch, and since the card's page was lit. -/
def frameOfPage : UiPast → Bool := framed fun v s => touches s || relights v s

/-- What holds of the view after these steps. -/
structure Aimed (past : UiPast) (v : View) : Prop where
  presented : lastFrame past ≠ none → v.framePresented = true
  card : v.homeAlertShown = true → lastFrame past = some ⟨.Home, some v.actionDetection⟩
  page : v.screen = .AlertActions → frameOfPage past = true → v.dark = false →
    lastFrame past = some ⟨.AlertActions, some v.actionDetection⟩

section Steps

variable {hmac : Hmac} {past : UiPast} {v w : View}

theorem lastFrame_of_framed {spoils : View → UiStep → Bool} (h : framed spoils past = true) :
    lastFrame past ≠ none := by
  induction past with
  | nil => exact absurd h Bool.false_ne_true
  | cons p past ih =>
    obtain ⟨v, s⟩ := p
    cases s with
    | frame => exact Option.some_ne_none _
    | _ =>
      simp only [framed, Bool.and_eq_true] at h
      exact ih h.2

/-- A touch that keeps the aim leaves the page to the next frame. -/
theorem Aimed.touch (h : Aimed past v) {s : UiStep} (hs : touches s = true) (hkept : KeepsAim v w) :
    Aimed ((v, s) :: past) w := by
  have hlast : lastFrame ((v, s) :: past) = lastFrame past := by
    cases s <;> first | rfl | exact absurd hs Bool.false_ne_true
  have hspoilt : frameOfPage ((v, s) :: past) = false := by
    cases s <;> first | rfl | exact absurd hs Bool.false_ne_true
  constructor
  case presented =>
    rw [hlast, hkept.presented]
    exact h.presented
  case card =>
    rw [hlast, hkept.card, hkept.action]
    exact h.card
  case page =>
    intro _ hframed
    rw [hspoilt] at hframed
    exact absurd hframed Bool.false_ne_true

/-- A step that is neither a touch nor a frame keeps the aim, and the page stays lit or dark. -/
theorem Aimed.quiet (h : Aimed past v) {s : UiStep} (hs : touches s = false) (hframe : s ≠ .frame)
    (hkept : KeepsAim v w)
    (hlit : w.screen = .AlertActions → relights v s = false → w.dark = false → v.dark = false) :
    Aimed ((v, s) :: past) w := by
  have hlast : lastFrame ((v, s) :: past) = lastFrame past := by
    cases s <;> first | rfl | exact absurd rfl hframe
  have hpage : frameOfPage ((v, s) :: past) = (!relights v s && frameOfPage past) := by
    cases s <;> first | rfl | exact absurd rfl hframe | exact absurd hs (by simp [touches])
  constructor
  case presented =>
    rw [hlast, hkept.presented]
    exact h.presented
  case card =>
    rw [hlast, hkept.card, hkept.action]
    exact h.card
  case page =>
    intro hscreen hframed hdark
    rw [hpage, Bool.and_eq_true, Bool.not_eq_true'] at hframed
    rw [hlast, hkept.action]
    exact h.page (hkept.page hscreen) hframed.2 (hlit hscreen hframed.1 hdark)

theorem dark_congr (h : w.displayMode = v.displayMode) : w.dark = v.dark := by
  unfold View.dark
  rw [h]

theorem selectTarget_aimed (past : UiPast) (v : View) :
    Aimed ((v, .frame) :: past) (v.selectTarget hmac) := by
  constructor
  case presented => exact fun _ => rfl
  case card =>
    intro hcard
    change v.showsCard = true at hcard
    change some v.frame = some ⟨.Home, some (if v.showsCard then v.alertDetection else v.actionDetection)⟩
    have hparts := hcard
    unfold View.showsCard at hparts
    simp only [Bool.and_eq_true, Bool.not_eq_true', beq_iff_eq] at hparts
    unfold View.frame View.frameTarget
    rw [if_pos hcard, if_neg (by simp [hparts.1.1.1]), if_pos hcard, hparts.1.1.2]
  case page =>
    intro hscreen _ hdark
    change v.screen = .AlertActions at hscreen
    change v.dark = false at hdark
    have hcard : v.showsCard = false := by
      unfold View.showsCard
      simp [hscreen]
    change some v.frame = some ⟨.AlertActions, some (if v.showsCard then v.alertDetection else v.actionDetection)⟩
    unfold View.frame View.frameTarget
    rw [hdark, hcard, hscreen]
    rfl

theorem event_keepsAim (v : View) (d : Detection) : KeepsAim v (v.event hmac d) := by
  rcases View.panel_event hmac v d with hpanel | ⟨-, hpanel⟩
  · exact .of_panel hpanel
  · refine ⟨congrArg Panel.actionDetection hpanel, congrArg Panel.homeAlertShown hpanel,
      congrArg Panel.framePresented hpanel, congrArg Panel.identityKey hpanel, fun hpage => ?_⟩
    have hscreen : (v.event hmac d).screen = if v.displayMode != .Active then .Home else v.screen :=
      congrArg Panel.screen hpanel
    rw [hscreen] at hpage
    split at hpage
    · exact Screen.noConfusion hpage
    · exact hpage

/-- An event that lights the panel goes home. -/
theorem event_lit (v : View) (d : Detection) (hpage : (v.event hmac d).screen = .AlertActions)
    (hdark : (v.event hmac d).dark = false) : v.dark = false := by
  rcases View.panel_event hmac v d with hpanel | ⟨-, hpanel⟩
  · rw [← dark_congr (congrArg Panel.displayMode hpanel)]
    exact hdark
  · have hscreen : (v.event hmac d).screen = if v.displayMode != .Active then .Home else v.screen :=
      congrArg Panel.screen hpanel
    rw [hscreen] at hpage
    split at hpage
    · exact Screen.noConfusion hpage
    · rename_i hactive
      have hmode : v.displayMode = .Active := by simpa using hactive
      unfold View.dark
      rw [hmode]
      rfl

theorem updateDisplay_keepsAim (v : View) : KeepsAim v v.updateDisplay := by
  have hclock : KeepsAim v (if v.now < v.lastActivity then (v.wakeDisplay false).2 else v) := by
    split
    · exact View.wakeDisplay_keepsAim v false
    · exact .refl v
  unfold View.updateDisplay
  refine hclock.trans ?_
  generalize (if v.now < v.lastActivity then (v.wakeDisplay false).2 else v) = u
  dsimp only
  split
  · exact View.wakeDisplay_keepsAim u _
  · unfold View.settleDisplay
    split <;> exact ⟨rfl, rfl, rfl, rfl, id⟩

/-- The aim is kept, and the panel stays lit or dark. -/
structure KeepsShown (v w : View) : Prop extends KeepsAim v w where
  mode : w.displayMode = v.displayMode

namespace KeepsShown

theorem trans {u : View} (h : KeepsShown u v) (h' : KeepsShown v w) : KeepsShown u w :=
  ⟨h.toKeepsAim.trans h'.toKeepsAim, h'.mode.trans h.mode⟩

theorem of_panel (h : w.panel = v.panel) : KeepsShown v w := ⟨.of_panel h, congrArg Panel.displayMode h⟩

end KeepsShown

theorem poll_keepsShown (v : View) (p : View.Polled) : KeepsShown v (v.poll p) := by
  have hcard : KeepsShown v (v.readCard p) := ⟨⟨rfl, rfl, rfl, rfl, id⟩, rfl⟩
  have heject : ∀ u : View, KeepsShown u (u.ejectProgress p.ejected p.ejectFailed) := by
    intro u
    unfold View.ejectProgress
    split <;> exact ⟨⟨rfl, rfl, rfl, rfl, id⟩, rfl⟩
  have hhealth : ∀ u : View, KeepsShown u (u.readHealth p) := fun u => ⟨⟨rfl, rfl, rfl, rfl, id⟩, rfl⟩
  have hexport : ∀ u : View, KeepsShown u (u.exportProgress p.exports p.exportRows) := by
    intro u
    unfold View.exportProgress
    dsimp only
    repeat' split
    all_goals exact ⟨⟨rfl, rfl, rfl, rfl, id⟩, rfl⟩
  have hnotice : ∀ u : View, KeepsShown u u.warnReadOnly := by
    intro u
    unfold View.warnReadOnly
    split <;> exact ⟨⟨rfl, rfl, rfl, rfl, id⟩, rfl⟩
  exact (((hcard.trans (heject _)).trans (hhealth _)).trans (hexport _)).trans (hnotice _)

/-- A tap on a lit panel leaves the aim to the next frame. -/
theorem tapLit_aimed (h : Aimed past v) (x y : Int) :
    Aimed ((v, .tap x y) :: past) ((v.wakeDisplay false).2.tapLit hmac v.layout x y) := by
  have hopened : ∀ w : View, w.homeAlertShown = false → w.framePresented = v.framePresented →
      Aimed ((v, .tap x y) :: past) w := by
    intro w hcard hpresented
    constructor
    case presented => exact fun hframe => hpresented.trans (h.presented hframe)
    case card => simp [hcard]
    case page => exact fun _ hframed => absurd hframed Bool.false_ne_true
  have hwoken := View.wakeDisplay_keepsAim v false
  rcases View.tapLit_cases hmac (v.wakeDisplay false).2 v.layout x y with
    hkept | ⟨-, -, heq⟩ | ⟨-, -, heq⟩ | ⟨-, hcard, hpresented, -⟩
  · exact h.touch rfl (hwoken.trans hkept)
  · rw [heq]
    exact hopened _ rfl rfl
  · rw [heq]
    exact hopened _ rfl rfl
  · exact hopened _ hcard hpresented

/-- The upkeep leaves what is shown alone. -/
theorem upkeep_keepsShown (v : View) (u : Upkeep) : KeepsShown v (v.upkeep u) := by
  cases u with
  | watch => exact .of_panel (View.panel_updateTagWatch v)
  | pet =>
    change KeepsShown v v.tickPet
    unfold View.tickPet
    split <;> exact ⟨⟨rfl, rfl, rfl, rfl, id⟩, rfl⟩
  | hear o synthetic => exact ⟨⟨rfl, rfl, rfl, rfl, id⟩, rfl⟩
  | poll p => exact poll_keepsShown v p
  | exportQueued accepted =>
    change KeepsShown v (v.exportQueued accepted)
    unfold View.exportQueued
    split <;> exact ⟨⟨rfl, rfl, rfl, rfl, id⟩, rfl⟩
  | ejectQueued accepted =>
    change KeepsShown v (v.ejectQueued accepted)
    unfold View.ejectQueued
    split <;> exact ⟨⟨rfl, rfl, rfl, rfl, id⟩, rfl⟩
  | reset =>
    have hpet : KeepsShown v.resetScents v.resetScents.resetPet := by
      unfold View.resetPet
      split <;> exact ⟨⟨rfl, rfl, rfl, rfl, id⟩, rfl⟩
    refine .trans (.trans (.of_panel (View.panel_setBook v v.demo _)) hpet) ?_
    exact ⟨⟨rfl, rfl, rfl, rfl, id⟩, rfl⟩
  | demoSwitched kept =>
    change KeepsShown v (v.switchDemo kept)
    unfold View.switchDemo
    dsimp only
    split <;> exact ⟨⟨rfl, rfl, rfl, rfl, id⟩, rfl⟩
  | logsCleared => exact ⟨⟨rfl, rfl, rfl, rfl, id⟩, rfl⟩

theorem step_aimed (h : Aimed past v) (s : UiStep) : Aimed ((v, s) :: past) (v.uiStep hmac s) := by
  cases s with
  | tap x y =>
    change Aimed _ (v.tap hmac x y)
    unfold View.tap
    dsimp only
    split
    · exact h.touch rfl (.refl v)
    split
    · exact h.touch rfl (View.wakeDisplay_keepsAim v false)
    · exact tapLit_aimed h x y
  | button =>
    change Aimed _ v.next
    unfold View.next
    split
    · exact h.touch rfl (View.wakeDisplay_keepsAim v false)
    · refine h.touch rfl ((View.wakeDisplay_keepsAim v false).trans (View.turnTo_keepsAim ?_ _))
      unfold View.nextScreen
      split <;> exact Screen.noConfusion
  | hold => exact h.touch rfl (View.wakeDisplay_keepsAim v false)
  | frame =>
    change Aimed _ (v.renderFrame hmac)
    rw [View.renderFrame_eq]
    exact selectTarget_aimed past v
  | event d =>
    exact h.quiet rfl UiStep.noConfusion (event_keepsAim v d) fun hpage _ hdark => event_lit v d hpage hdark
  | advance now =>
    exact h.quiet rfl UiStep.noConfusion ⟨rfl, rfl, rfl, rfl, id⟩ fun _ _ hdark => hdark
  | update =>
    refine h.quiet rfl UiStep.noConfusion (updateDisplay_keepsAim v) fun hpage hlit hdark => ?_
    change (v.dark && !v.updateDisplay.dark && v.updateDisplay.screen == .AlertActions) = false at hlit
    change v.updateDisplay.screen = .AlertActions at hpage
    change v.updateDisplay.dark = false at hdark
    rw [hpage, hdark] at hlit
    simpa using hlit
  | upkeep u =>
    have hkept := upkeep_keepsShown v u
    exact h.quiet rfl UiStep.noConfusion hkept.toKeepsAim fun _ _ hdark => dark_congr hkept.mode ▸ hdark

theorem aimed_run (v₀ : View) (h₀ : v₀.homeAlertShown = false) (steps : List UiStep) :
    Aimed (Runs.visited (View.uiStep hmac) v₀ steps).reverse (Runs.run (View.uiStep hmac) v₀ steps) := by
  induction steps using List.reverseRecOn with
  | nil =>
    refine ⟨fun hframe => absurd rfl hframe, fun hcard => ?_, fun _ hframe => absurd hframe Bool.false_ne_true⟩
    exact absurd (h₀.symm.trans hcard) Bool.false_ne_true
  | append_singleton steps s ih =>
    rw [Runs.visited_concat, Runs.run_concat, List.reverse_append]
    exact step_aimed ih s

/-- A tap that is not swallowed finds the panel lit. -/
theorem tap_cases (hmac : Hmac) (v : View) (x y : Int) :
    v.tap hmac x y = v ∨ v.tap hmac x y = (v.wakeDisplay false).2 ∨
      v.dark = false ∧ v.tap hmac x y = (v.wakeDisplay false).2.tapLit hmac v.layout x y := by
  unfold View.tap
  dsimp only
  split
  · exact .inl rfl
  split
  · exact .inr (.inl rfl)
  · rename_i hidle
    have hmode : v.displayMode = .Active := by simpa [View.wakeDisplay] using hidle
    refine .inr (.inr ⟨?_, rfl⟩)
    unfold View.dark
    rw [hmode]
    rfl

/-- A tap on Home opens the page of the card that was drawn, and of no other. -/
theorem Aimed.opens (h : Aimed past v) (hframe : lastFrame past ≠ none) (x y : Int) (hhome : v.screen = .Home)
    (hopened : (v.tap hmac x y).screen = .AlertActions) :
    lastFrame past = some ⟨.Home, some (v.tap hmac x y).actionDetection⟩ := by
  have hclosed : v.screen ≠ .AlertActions := by simp [hhome]
  rcases tap_cases hmac v x y with heq | heq | ⟨-, heq⟩
  · rw [heq] at hopened
    exact absurd hopened hclosed
  · rw [heq] at hopened
    exact absurd hopened hclosed
  · rw [heq] at hopened ⊢
    rcases View.tapLit_cases hmac (v.wakeDisplay false).2 v.layout x y with
      hkept | ⟨-, hcard, htap⟩ | ⟨-, hfirst, -⟩ | ⟨hdetails, -⟩
    · exact absurd (hkept.page hopened) hclosed
    · rw [htap]
      exact h.card hcard
    · have hpresented : v.framePresented = false := hfirst
      exact absurd ((h.presented hframe).symm.trans hpresented) (by decide)
    · have hscreen : v.screen = .Details := hdetails
      exact absurd (hhome.symm.trans hscreen) (by decide)

end Steps

/-- Radio events never move what a tap acts on. A tap on Home opens the page of the card
that the last frame drew; the row that ignores adds the detection that the last frame
showed on that page, to the list of its own mode. -/
theorem tap_acts_on_drawn (hmac : Hmac) (v₀ : View) (h₀ : v₀.homeAlertShown = false) (steps : List UiStep)
    (x y : Int) (hframe : frameOfPage (Runs.visited (View.uiStep hmac) v₀ steps).reverse = true) :
    let past := (Runs.visited (View.uiStep hmac) v₀ steps).reverse
    let v := Runs.run (View.uiStep hmac) v₀ steps
    let w := v.tap hmac x y
    (v.screen = .Home → w.screen = .AlertActions →
      lastFrame past = some ⟨.Home, some w.actionDetection⟩) ∧
    (v.screen = .AlertActions → ∀ (b : Bool) (i : Fin 64),
      (w.book b).ignored.get i ≠ (v.book b).ignored.get i →
      ∃ d, lastFrame past = some ⟨.AlertActions, some d⟩ ∧ b = d.demo ∧
        (w.book b).ignored.get i = .ofHash (v.identity hmac d) d.category.code.toUInt8) ∧
    ∀ d, (v.event hmac d).actionDetection = v.actionDetection := by
  intro past v w
  have h : Aimed past v := aimed_run v₀ h₀ steps
  refine ⟨h.opens (lastFrame_of_framed hframe) x y, fun hpage b i hne => ?_, fun d => (event_keepsAim v d).action⟩
  rcases tap_cases hmac v x y with heq | heq | ⟨hlit, heq⟩
  · exact absurd (congrArg (fun u : View => (u.book b).ignored.get i) heq) hne
  · exact absurd (congrArg (fun u : View => (u.book b).ignored.get i) heq) hne
  · refine ⟨v.actionDetection, h.page hpage hframe hlit, ?_⟩
    change ((v.tap hmac x y).book b).ignored.get i ≠ _ at hne
    change b = _ ∧ ((v.tap hmac x y).book b).ignored.get i = _
    rw [heq] at hne ⊢
    exact View.tapLit_get (v.wakeDisplay false).2 v.layout x y hpage hne

/-! ## The loop's order

`app_task` updates the display before it draws and again before the next touch. The
second update cannot light a page that the first left dark. -/

/-- The panel is dark for its idle time, and stays so. -/
structure Dozing (v : View) : Prop where
  clock : v.lastActivity ≤ v.now
  onboarded : v.settings.onboarded.isSet = true
  calibration : v.screen ≠ .Calibration
  selfTest : v.screen ≠ .SelfTest
  exporting : v.exportStatus ≠ .Exporting
  ejecting : v.ejectStatus ≠ .Ejecting
  window : ¬ (v.now < v.alertWakeUntil ∧ v.now < v.alertUntil)
  stage : v.saverPreview = true ∨ timeoutDue (v.now - v.lastActivity) v.look.saverMinutes = true ∨
    (timeoutDue (v.now - v.lastActivity) v.look.offMinutes = true ∧ v.tagWatch.armed = false)

section Dozing

variable {v : View}

theorem idleStage_dark {a : Appearance} {armed : Bool} {idle : UInt64} :
    idleStage a armed idle = .Saver ∨ idleStage a armed idle = .Off ↔
      timeoutDue idle a.saverMinutes = true ∨ (timeoutDue idle a.offMinutes = true ∧ armed = false) := by
  unfold idleStage
  cases timeoutDue idle a.offMinutes <;> cases armed <;> cases timeoutDue idle a.saverMinutes <;>
    cases timeoutDue idle a.dimMinutes <;> decide

theorem timeoutDue_mono {idle idle' : UInt64} {minutes : UInt8} (hle : idle ≤ idle')
    (h : timeoutDue idle minutes = true) : timeoutDue idle' minutes = true := by
  unfold timeoutDue at h ⊢
  rw [Bool.and_eq_true, decide_eq_true_eq] at h ⊢
  exact ⟨h.1, UInt64.le_trans h.2 hle⟩

theorem updateDisplay_eq (hclock : v.lastActivity ≤ v.now) :
    v.updateDisplay = if v.heldAwake then (v.wakeDisplay v.watchWarning.isSome).2 else v.settleDisplay := by
  unfold View.updateDisplay
  rw [if_neg (UInt64.not_lt.mpr hclock)]

/-- An update that leaves the panel dark was decided by the idle time. -/
theorem dozing_of_update (hclock : v.lastActivity ≤ v.now) (hdark : v.updateDisplay.dark = true) :
    Dozing v.updateDisplay := by
  have hdecided : v.heldAwake = false ∧ v.updateDisplay = v.settleDisplay := by
    rw [updateDisplay_eq hclock] at hdark ⊢
    cases hheld : v.heldAwake with
    | true =>
      rw [hheld, if_pos rfl] at hdark
      exact absurd hdark Bool.false_ne_true
    | false => exact ⟨rfl, if_neg Bool.false_ne_true⟩
  obtain ⟨hheld, heq⟩ := hdecided
  rw [heq] at hdark ⊢
  unfold View.heldAwake at hheld
  simp only [Bool.or_eq_false_iff, Bool.not_eq_false', beq_eq_false_iff_ne] at hheld
  obtain ⟨⟨⟨⟨⟨honboarded, hcalibration⟩, hselfTest⟩, -⟩, hexporting⟩, hejecting⟩ := hheld
  unfold View.settleDisplay at hdark ⊢
  split
  · rename_i hopen
    rw [if_pos hopen] at hdark
    exact absurd hdark Bool.false_ne_true
  · rename_i hclosed
    rw [if_neg hclosed] at hdark
    refine ⟨hclock, honboarded, hcalibration, hselfTest, hexporting, hejecting, hclosed, ?_⟩
    change v.saverPreview = true ∨ timeoutDue (v.now - v.lastActivity) v.look.saverMinutes = true ∨
      (timeoutDue (v.now - v.lastActivity) v.look.offMinutes = true ∧ v.tagWatch.armed = false)
    by_cases hpreview : v.saverPreview = true
    · exact .inl hpreview
    · refine .inr (idleStage_dark.mp ?_)
      unfold View.dark at hdark
      simpa [hpreview] using hdark

theorem Dozing.advance (h : Dozing v) {now : UInt64} (hlater : v.now ≤ now) : Dozing { v with now } := by
  have hidle : v.now - v.lastActivity ≤ now - v.lastActivity := by
    rw [UInt64.le_iff_toNat_le, UInt64.toNat_sub_of_le _ _ h.clock,
      UInt64.toNat_sub_of_le _ _ (UInt64.le_trans h.clock hlater)]
    exact Nat.sub_le_sub_right (UInt64.le_iff_toNat_le.mp hlater) _
  constructor
  case clock => exact UInt64.le_trans h.clock hlater
  case onboarded => exact h.onboarded
  case calibration => exact h.calibration
  case selfTest => exact h.selfTest
  case exporting => exact h.exporting
  case ejecting => exact h.ejecting
  case window =>
    exact fun hopen => h.window ⟨UInt64.lt_of_le_of_lt hlater hopen.1, UInt64.lt_of_le_of_lt hlater hopen.2⟩
  case stage =>
    exact h.stage.imp_right (Or.imp (timeoutDue_mono hidle) (And.imp_left (timeoutDue_mono hidle)))

theorem alertUntil_updateTagWatch (v : View) : v.updateTagWatch.alertUntil = v.alertUntil := by
  have hreview : ∀ u : View, u.reviewWarning.alertUntil = u.alertUntil := by
    intro u
    unfold View.reviewWarning
    split
    · split <;> rfl
    · rfl
  have hother : v.endOtherWatch.alertUntil = v.alertUntil := by
    unfold View.endOtherWatch
    split <;> rfl
  have hstale : v.endOtherWatch.dropStale.alertUntil = v.endOtherWatch.alertUntil := by
    unfold View.dropStale
    rfl
  unfold View.updateTagWatch
  rw [hreview, hstale, hother]

theorem Dozing.watch (h : Dozing v) : Dozing v.updateTagWatch := by
  have hpanel := View.panel_updateTagWatch v
  have hnow : v.updateTagWatch.now = v.now := congrArg Panel.now hpanel
  have hactivity : v.updateTagWatch.lastActivity = v.lastActivity := congrArg Panel.lastActivity hpanel
  have hlook : v.updateTagWatch.look = v.look := by
    unfold View.look
    rw [show v.updateTagWatch.demo = v.demo from congrArg Panel.demo hpanel,
      show v.updateTagWatch.appearance = v.appearance from congrArg Panel.appearance hpanel,
      show v.updateTagWatch.previewAppearance = v.previewAppearance from
        congrArg Panel.previewAppearance hpanel]
  constructor
  case clock => rw [hnow, hactivity]; exact h.clock
  case onboarded =>
    rw [show v.updateTagWatch.settings = v.settings from congrArg Panel.settings hpanel]
    exact h.onboarded
  case calibration =>
    rw [show v.updateTagWatch.screen = v.screen from congrArg Panel.screen hpanel]
    exact h.calibration
  case selfTest =>
    rw [show v.updateTagWatch.screen = v.screen from congrArg Panel.screen hpanel]
    exact h.selfTest
  case exporting =>
    rw [show v.updateTagWatch.exportStatus = v.exportStatus from congrArg Panel.exportStatus hpanel]
    exact h.exporting
  case ejecting =>
    rw [show v.updateTagWatch.ejectStatus = v.ejectStatus from congrArg Panel.ejectStatus hpanel]
    exact h.ejecting
  case window =>
    rw [hnow, alertUntil_updateTagWatch,
      show v.updateTagWatch.alertWakeUntil = v.alertWakeUntil from congrArg Panel.alertWakeUntil hpanel]
    exact h.window
  case stage =>
    rw [hnow, hactivity, hlook,
      show v.updateTagWatch.saverPreview = v.saverPreview from congrArg Panel.saverPreview hpanel]
    refine h.stage.imp_right (Or.imp_right fun hoff => ⟨hoff.1, ?_⟩)
    exact Bool.eq_false_iff.mpr fun harmed =>
      Bool.eq_false_iff.mp hoff.2 (View.updateTagWatch_armed harmed)

/-- The panel of a dozing view is lit by a warning only, and that goes home. -/
theorem Dozing.not_relit (h : Dozing v) : relights v .update = false := by
  change (v.dark && !v.updateDisplay.dark && v.updateDisplay.screen == .AlertActions) = false
  cases hdark : v.dark with
  | false => rfl
  | true =>
    rw [updateDisplay_eq h.clock]
    cases hwarning : v.watchWarning.isSome with
    | true =>
      have hheld : v.heldAwake = true := by
        unfold View.heldAwake
        simp [hwarning]
      have hidle : (v.displayMode != .Active) = true := by
        unfold View.dark at hdark
        cases hmode : v.displayMode <;> simp_all
      rw [hheld, if_pos rfl]
      unfold View.wakeDisplay
      dsimp only
      rw [hidle]
      exact Bool.and_false _
    | false =>
      have hheld : v.heldAwake = false := by
        unfold View.heldAwake
        simp [hwarning, h.onboarded, h.calibration, h.selfTest, h.exporting, h.ejecting]
      rw [hheld, if_neg Bool.false_ne_true]
      have hstays : v.settleDisplay.dark = true := by
        unfold View.settleDisplay
        rw [if_neg h.window]
        unfold View.dark
        rcases h.stage with hpreview | hstage
        · simp [hpreview]
        · rcases idleStage_dark.mpr hstage with heq | heq
          · cases v.saverPreview <;> simp [heq]
          · cases v.saverPreview <;> simp [heq]
      rw [hstays]
      rfl

end Dozing

/-- From the update before a frame to the one before the next touch only time passes. -/
theorem redrawn_before_touch (v : View) (hclock : v.lastActivity ≤ v.now) {now : UInt64} (hlater : v.now ≤ now) :
    relights { v.updateDisplay with now }.updateTagWatch .update = false := by
  have hnow : v.updateDisplay.now = v.now := by
    rw [updateDisplay_eq hclock]
    split
    · rfl
    · unfold View.settleDisplay
      split <;> rfl
  cases hdark : v.updateDisplay.dark with
  | true =>
    have hdoze := dozing_of_update hclock hdark
    have hpassed : v.updateDisplay.now ≤ now := by
      rw [hnow]
      exact hlater
    exact (hdoze.advance hpassed).watch.not_relit
  | false =>
    have hmode : ({ v.updateDisplay with now }.updateTagWatch).dark = false := by
      rw [dark_congr (congrArg Panel.displayMode (View.panel_updateTagWatch _))]
      exact hdark
    change (_ && _ && _) = false
    rw [hmode]
    rfl

/-! ## A page that is lit again -/

/-- Every tap has a frame since the touch before it. -/
def everyTapFramed : UiPast → Bool
  | [] => true
  | (_, .tap _ _) :: past => frameSinceTouch past && everyTapFramed past
  | _ :: past => everyTapFramed past

def keyedHome : View :=
  { settings := { onboarded := .ofBool true }, screen := .Home, scanning := true, now := 1000
    identityKey := Vector.replicate 32 1, appearance := { dimMinutes := 0, saverMinutes := 1 } }

def sighting (last : UInt8) (score : UInt8) : Detection :=
  { category := .AIRTAG, radio := .Ble, score, seenCount := 1, address := #v[2, 0, 0, 0, 0, last] }

/-- The page is open when its minute of idle time ends in a window; the window's alert
is over, the saver is drawn, and the next alert lights the page again. -/
def relitSteps : List UiStep :=
  [.event (sighting 1 85), .frame, .tap 320 190, .frame,
    .advance 59000, .event (sighting 2 85), .advance 61500, .event (sighting 2 20), .update, .frame,
    .advance 62000, .event (sighting 3 85), .update]

/-- HMAC-SHA-256 under that key of the identities of three sightings. -/
def sightingHmac : Hmac := fun _ input => some
  (if input = [2, 0, 0, 0, 0, 1, 1, 0, 5] then
    #v[140, 198, 147, 18, 144, 133, 162, 6, 156, 5, 55, 155, 82, 114, 121, 126, 235, 128, 132, 70, 201, 71, 174, 201,
      170, 74, 5, 15, 89, 80, 31, 44]
  else if input = [2, 0, 0, 0, 0, 2, 1, 0, 5] then
    #v[236, 196, 153, 102, 50, 223, 59, 39, 231, 220, 220, 100, 245, 0, 33, 229, 78, 207, 96, 192, 63, 90, 192, 191,
      128, 218, 197, 214, 46, 213, 131, 7]
  else
    #v[141, 174, 176, 123, 120, 62, 140, 195, 146, 44, 211, 214, 50, 71, 209, 253, 28, 118, 163, 103, 68, 172, 84, 200,
      15, 85, 168, 131, 204, 249, 129, 238])

/-- A card is drawn, tapped, and drawn on its page. -/
def openedSteps : List UiStep := [.event (sighting 1 85), .frame, .tap 320 190, .frame]

theorem tap_acts_on_drawn_card :
    lastFrame (Runs.visited (View.uiStep sightingHmac) keyedHome [.event (sighting 1 85), .frame]).reverse =
      some ⟨.Home, some (((Runs.run (View.uiStep sightingHmac) keyedHome
        [.event (sighting 1 85), .frame]).tap sightingHmac 320 190).actionDetection)⟩ ∧
    ∃ d, lastFrame (Runs.visited (View.uiStep sightingHmac) keyedHome openedSteps).reverse =
        some ⟨.AlertActions, some d⟩ ∧ false = d.demo ∧
      (((Runs.run (View.uiStep sightingHmac) keyedHome openedSteps).tap sightingHmac 100 180).book false).ignored.get 0 =
        .ofHash ((Runs.run (View.uiStep sightingHmac) keyedHome openedSteps).identity sightingHmac d)
          d.category.code.toUInt8 :=
  ⟨(tap_acts_on_drawn sightingHmac keyedHome rfl [.event (sighting 1 85), .frame] 320 190 rfl).1
      (by decide +kernel) (by decide +kernel),
    (tap_acts_on_drawn sightingHmac keyedHome rfl openedSteps 100 180 (by decide +kernel)).2.1 (by decide +kernel) false 0
      (by decide +kernel)⟩

/-- The tap after `relitSteps` adds an entry although the last frame showed nothing. -/
theorem relit_page_ignores :
    let past := (Runs.visited (View.uiStep sightingHmac) keyedHome relitSteps).reverse
    let v := Runs.run (View.uiStep sightingHmac) keyedHome relitSteps
    everyTapFramed ((v, .tap 100 180) :: past) = true ∧ v.screen = .AlertActions ∧
      lastFrame past = some ⟨.AlertActions, none⟩ ∧ (v.companion.ignored.get 0).hash = 0 ∧
      ((v.tap sightingHmac 100 180).companion.ignored.get 0).hash ≠ 0 := by
  decide +kernel

end Hound
