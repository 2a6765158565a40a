import Hound.Lib.Runs
import Hound.Ui.Panel

/-!
# Alert windows

Between two touches only events and updates change what the panel shows. An event
can open a window of five seconds and leaves the idle deadline alone; an update
shows the idle stage unless a window is open.
-/

namespace Hound

/-- What happens to the view while nobody touches it. -/
inductive PanelStep where
  | event (d : Detection)
  | update
  | advance (now : UInt64)

def View.panelStep (hmac : Hmac) (v : View) : PanelStep → View
  | .event d => v.event hmac d
  | .update => v.updateDisplay
  | .advance now => { v with now }

/-- `esp_timer_get_time() / 1000` of a signed count of microseconds. -/
def lastClock : UInt64 := 9223372036854775

/-- Time does not go back, and an update finds no Travel Watch warning. -/
def Calm (v : View) : PanelStep → Prop
  | .event _ => True
  | .update => v.watchWarning = none
  | .advance now => v.now ≤ now ∧ now ≤ lastClock

/-- Nothing keeps the panel lit. -/
structure MayIdle (v : View) : Prop where
  onboarded : v.settings.onboarded.isSet = true
  calibration : v.screen ≠ .Calibration
  selfTest : v.screen ≠ .SelfTest
  exporting : v.exportStatus ≠ .Exporting
  ejecting : v.ejectStatus ≠ .Ejecting

/-- The time at which a step opens a window. -/
def opened (hmac : Hmac) (x : View × PanelStep) : Option UInt64 :=
  if (x.1.panelStep hmac x.2).alertWakeUntil ≠ x.1.alertWakeUntil then some x.1.now else none

/-- The starts of the windows, oldest first. -/
def openings (hmac : Hmac) (past : List (View × PanelStep)) : List UInt64 := past.filterMap (opened hmac)

/-- Five seconds from one of the starts. -/
def InWindow (starts : List UInt64) (now : UInt64) : Prop :=
  ∃ s ∈ starts, s.toNat ≤ now.toNat ∧ now.toNat < s.toNat + 5000

/-- The end of the last window, zero before there is one. -/
def windowEnd (starts : List UInt64) : UInt64 :=
  match starts.getLast? with
  | none => 0
  | some s => s + 5000

/-- What holds since the touch `w`. -/
structure Paced (w : View) (starts : List UInt64) (v : View) : Prop where
  activity : v.lastActivity = w.now
  later : w.now ≤ v.now
  clock : v.now ≤ lastClock
  look : v.look = w.look
  mayIdle : MayIdle v
  noPreview : v.saverPreview = false
  window : v.alertWakeUntil = windowEnd starts
  past : ∀ s ∈ starts, s ≤ v.now
  apart : starts.Pairwise fun s t => s.toNat + 30000 ≤ t.toNat
  lit : v.tagWatch.armed = true → v.displayMode ≠ .Off
  saver : v.displayMode = .Saver → v.saverSince = v.lastActivity + v.look.saverMinutes.toUInt64 * 60000

section Steps

variable {hmac : Hmac} {w v : View} {starts : List UInt64}

theorem windowEnd_concat (starts : List UInt64) (s : UInt64) : windowEnd (starts ++ [s]) = s + 5000 := by
  unfold windowEnd
  rw [List.getLast?_concat]

theorem windowEnd_last {s : UInt64} (h : starts.getLast? = some s) : windowEnd starts = s + 5000 := by
  unfold windowEnd
  rw [h]

theorem toNat_window {s : UInt64} (h : s ≤ lastClock) : (s + 5000).toNat = s.toNat + 5000 := by
  have hle : s.toNat ≤ 9223372036854775 := UInt64.le_iff_toNat_le.mp h
  rw [UInt64.toNat_add]
  exact Nat.mod_eq_of_lt (by change s.toNat + 5000 < 2 ^ 64; omega)

/-- An open window is the last one that was opened. -/
theorem Paced.inWindow (h : Paced w starts v) (hopen : v.now < v.alertWakeUntil) : InWindow starts v.now := by
  cases hlast : starts.getLast? with
  | none =>
    have hend : v.alertWakeUntil = 0 := by
      rw [h.window, List.getLast?_eq_none_iff.mp hlast]
      rfl
    rw [hend] at hopen
    exact absurd hopen (UInt64.not_lt.mpr (UInt64.le_iff_toNat_le.mpr (Nat.zero_le _)))
  | some s =>
    have hend : v.alertWakeUntil = s + 5000 := h.window.trans (windowEnd_last hlast)
    have hmem : s ∈ starts := List.mem_of_getLast? hlast
    have hpast := h.past s hmem
    have hs := toNat_window (UInt64.le_trans hpast h.clock)
    refine ⟨s, hmem, UInt64.le_iff_toNat_le.mp hpast, ?_⟩
    rw [hend, UInt64.lt_iff_toNat_lt, hs] at hopen
    exact hopen

/-- The window that an event opens starts half a minute after the last one. -/
theorem Paced.spaced (h : Paced w starts v) (hheld : v.windowHeld = false) {s : UInt64} (hs : s ∈ starts) :
    s.toNat + 30000 ≤ v.now.toNat := by
  cases hlast : starts.getLast? with
  | none =>
    rw [List.getLast?_eq_none_iff.mp hlast] at hs
    exact absurd hs List.not_mem_nil
  | some t =>
    have hend : v.alertWakeUntil = t + 5000 := h.window.trans (windowEnd_last hlast)
    have htpast := h.past t (List.mem_of_getLast? hlast)
    have ht := toNat_window (UInt64.le_trans htpast h.clock)
    -- the last window is over for 25 s
    have hlate : t.toNat + 30000 ≤ v.now.toNat := by
      unfold View.windowHeld at hheld
      have hzero : (v.alertWakeUntil != 0) = true := by
        rw [hend]
        refine bne_iff_ne.mpr fun hzero => ?_
        rw [hzero] at ht
        exact absurd ht (by simp)
      rw [hzero, Bool.true_and, Bool.or_eq_false_iff, decide_eq_false_iff_not, decide_eq_false_iff_not,
        UInt64.not_lt, UInt64.not_lt, hend] at hheld
      have hafter := UInt64.le_iff_toNat_le.mp hheld.1
      have hgap := UInt64.le_iff_toNat_le.mp hheld.2
      rw [UInt64.toNat_sub_of_le _ _ hheld.1] at hgap
      rw [ht] at hafter hgap
      have hgap' : 25000 ≤ v.now.toNat - (t.toNat + 5000) := hgap
      omega
    obtain ⟨front, rfl⟩ := List.getLast?_eq_some_iff.mp hlast
    rcases List.mem_append.mp hs with hfront | hs
    · have hst := (List.pairwise_append.mp h.apart).2.2 s hfront t List.mem_cons_self
      omega
    · rw [List.mem_singleton.mp hs]
      exact hlate

/-- A step that leaves the panel as it is, and does not arm the watch. -/
theorem Paced.kept {u : View} (h : Paced w starts v) (hpanel : u.panel = v.panel)
    (harmed : u.tagWatch.armed = true → v.tagWatch.armed = true) : Paced w starts u := by
  have hnow : u.now = v.now := congrArg Panel.now hpanel
  have hsettings : u.settings = v.settings := congrArg Panel.settings hpanel
  have hscreen : u.screen = v.screen := congrArg Panel.screen hpanel
  have hmode : u.displayMode = v.displayMode := congrArg Panel.displayMode hpanel
  have hactivity : u.lastActivity = v.lastActivity := congrArg Panel.lastActivity hpanel
  have hlook : u.look = v.look := by
    unfold View.look
    rw [show u.demo = v.demo from congrArg Panel.demo hpanel,
      show u.appearance = v.appearance from congrArg Panel.appearance hpanel,
      show u.previewAppearance = v.previewAppearance from congrArg Panel.previewAppearance hpanel]
  constructor
  case activity => exact hactivity.trans h.activity
  case later => exact hnow ▸ h.later
  case clock => exact hnow ▸ h.clock
  case look => exact hlook.trans h.look
  case mayIdle =>
    have hexport : u.exportStatus = v.exportStatus := congrArg Panel.exportStatus hpanel
    have heject : u.ejectStatus = v.ejectStatus := congrArg Panel.ejectStatus hpanel
    exact ⟨hsettings ▸ h.mayIdle.onboarded, hscreen ▸ h.mayIdle.calibration, hscreen ▸ h.mayIdle.selfTest,
      hexport ▸ h.mayIdle.exporting, heject ▸ h.mayIdle.ejecting⟩
  case noPreview => exact (congrArg Panel.saverPreview hpanel).trans h.noPreview
  case window => exact (congrArg Panel.alertWakeUntil hpanel).trans h.window
  case past => exact hnow ▸ h.past
  case apart => exact h.apart
  case lit => exact fun ha => hmode ▸ h.lit (harmed ha)
  case saver =>
    intro hsaver
    rw [show u.saverSince = v.saverSince from congrArg Panel.saverSince hpanel, hactivity, hlook]
    exact h.saver (hmode.symm.trans hsaver)

/-- A step that opens a window. -/
theorem Paced.woken {u : View} (h : Paced w starts v) (hheld : v.windowHeld = false)
    (hpanel : u.panel = v.panel.woken) : Paced w (starts ++ [v.now]) u := by
  have hnow : u.now = v.now := congrArg Panel.now hpanel
  have hmode : u.displayMode = .Active := congrArg Panel.displayMode hpanel
  have hsettings : u.settings = v.settings := congrArg Panel.settings hpanel
  have hscreen : u.screen = .Home ∨ u.screen = v.screen := by
    have hs : u.screen = if v.displayMode != .Active then .Home else v.screen := congrArg Panel.screen hpanel
    split at hs
    · exact .inl hs
    · exact .inr hs
  constructor
  case activity => exact (congrArg Panel.lastActivity hpanel).trans h.activity
  case later => exact hnow ▸ h.later
  case clock => exact hnow ▸ h.clock
  case look =>
    rw [← h.look]
    unfold View.look
    rw [show u.demo = v.demo from congrArg Panel.demo hpanel,
      show u.appearance = v.appearance from congrArg Panel.appearance hpanel,
      show u.previewAppearance = v.previewAppearance from congrArg Panel.previewAppearance hpanel]
  case mayIdle =>
    have hexport : u.exportStatus = v.exportStatus := congrArg Panel.exportStatus hpanel
    have heject : u.ejectStatus = v.ejectStatus := congrArg Panel.ejectStatus hpanel
    refine ⟨hsettings ▸ h.mayIdle.onboarded, ?_, ?_, hexport ▸ h.mayIdle.exporting,
      heject ▸ h.mayIdle.ejecting⟩
    · rcases hscreen with hs | hs
      · simp [hs]
      · exact hs ▸ h.mayIdle.calibration
    · rcases hscreen with hs | hs
      · simp [hs]
      · exact hs ▸ h.mayIdle.selfTest
  case noPreview => exact congrArg Panel.saverPreview hpanel
  case window =>
    rw [windowEnd_concat]
    exact congrArg Panel.alertWakeUntil hpanel
  case past =>
    intro s hs
    rw [hnow]
    rcases List.mem_append.mp hs with hs | hs
    · exact h.past s hs
    · rw [List.mem_singleton.mp hs]
      exact UInt64.le_refl _
  case apart =>
    refine List.pairwise_append.mpr ⟨h.apart, List.pairwise_singleton _ _, fun s hs t ht => ?_⟩
    rw [List.mem_singleton.mp ht]
    exact h.spaced hheld hs
  case lit => simp [hmode]
  case saver => simp [hmode]

theorem Paced.event (h : Paced w starts v) (d : Detection) :
    Paced w (starts ++ (opened hmac (v, .event d)).toList) (v.event hmac d) := by
  rcases View.panel_event hmac v d with hpanel | ⟨hheld, hpanel⟩
  · have hnone : opened hmac (v, .event d) = none := by
      unfold opened
      exact if_neg fun hne => hne (congrArg Panel.alertWakeUntil hpanel)
    rw [hnone]
    exact (List.append_nil starts).symm ▸ h.kept hpanel View.event_armed
  · have hsome : opened hmac (v, .event d) = some v.now := by
      have hwake : (v.event hmac d).alertWakeUntil = v.now + 5000 := congrArg Panel.alertWakeUntil hpanel
      unfold opened
      refine if_pos fun heq => ?_
      have hsame : v.alertWakeUntil = v.now + 5000 := heq.symm.trans hwake
      have hopen : v.now < v.alertWakeUntil := by
        rw [hsame, UInt64.lt_iff_toNat_lt, toNat_window h.clock]
        omega
      unfold View.windowHeld at hheld
      simp [hopen] at hheld
      rw [hheld] at hopen
      exact absurd hopen (UInt64.not_lt.mpr (UInt64.le_iff_toNat_le.mpr (Nat.zero_le _)))
    rw [hsome]
    exact h.woken hheld hpanel

theorem Paced.advance (h : Paced w starts v) {now : UInt64} (hlater : v.now ≤ now) (hclock : now ≤ lastClock) :
    Paced w starts { v with now } where
  activity := h.activity
  later := UInt64.le_trans h.later hlater
  clock := hclock
  look := h.look
  mayIdle := ⟨h.mayIdle.onboarded, h.mayIdle.calibration, h.mayIdle.selfTest, h.mayIdle.exporting,
    h.mayIdle.ejecting⟩
  noPreview := h.noPreview
  window := h.window
  past s hs := UInt64.le_trans (h.past s hs) hlater
  apart := h.apart
  lit := h.lit
  saver := h.saver

/-- An update that nothing else decides. -/
theorem Paced.settles (h : Paced w starts v) (hcalm : v.watchWarning = none) :
    v.updateDisplay = v.settleDisplay := by
  have hactive : ¬ v.now < v.lastActivity := by
    rw [h.activity]
    exact UInt64.not_lt.mpr h.later
  have hheld : v.heldAwake = false := by
    unfold View.heldAwake
    simp [hcalm, h.mayIdle.onboarded, h.mayIdle.calibration, h.mayIdle.selfTest, h.mayIdle.exporting,
      h.mayIdle.ejecting]
  unfold View.updateDisplay
  rw [if_neg hactive]
  exact if_neg (by rw [hheld]; exact Bool.false_ne_true)

/-- The stage of this much idle time, or a lit panel in a window. -/
theorem Paced.stage (h : Paced w starts v) :
    v.settleDisplay.displayMode = idleStage w.look v.tagWatch.armed (v.now - w.now) ∨
      InWindow starts v.now ∧ v.settleDisplay.displayMode = .Active := by
  unfold View.settleDisplay
  split
  · rename_i hopen
    exact .inr ⟨h.inWindow hopen.1, rfl⟩
  · refine .inl ?_
    simp only [h.noPreview, h.look, h.activity]
    rfl

theorem idleStage_armed (a : Appearance) (idle : UInt64) : idleStage a true idle ≠ .Off := by
  unfold idleStage
  rw [Bool.not_true, Bool.and_false, if_neg Bool.false_ne_true]
  split
  · exact DisplayMode.noConfusion
  · split <;> exact DisplayMode.noConfusion

theorem Paced.update (h : Paced w starts v) : Paced w starts v.settleDisplay := by
  unfold View.settleDisplay
  split
  · exact ⟨h.activity, h.later, h.clock, h.look,
      ⟨h.mayIdle.onboarded, h.mayIdle.calibration, h.mayIdle.selfTest, h.mayIdle.exporting,
        h.mayIdle.ejecting⟩,
      h.noPreview, h.window, h.past, h.apart, fun _ => DisplayMode.noConfusion, DisplayMode.noConfusion⟩
  · dsimp only
    refine ⟨h.activity, h.later, h.clock, h.look,
      ⟨h.mayIdle.onboarded, h.mayIdle.calibration, h.mayIdle.selfTest, h.mayIdle.exporting,
        h.mayIdle.ejecting⟩,
      h.noPreview, h.window, h.past, h.apart, fun harmed => ?_, fun hsaver => ?_⟩
    · rw [if_neg (by simp [h.noPreview])]
      change v.tagWatch.armed = true at harmed
      rw [harmed]
      exact idleStage_armed _ _
    · change (if v.saverPreview = true then DisplayMode.Saver else _) = DisplayMode.Saver at hsaver
      change (if _ ∧ v.displayMode ≠ .Saver ∧ v.saverPreview = false then _ else v.saverSince) = _
      by_cases hshown : v.displayMode = .Saver
      · rw [if_neg fun hc => hc.2.1 hshown]
        exact h.saver hshown
      · rw [if_pos ⟨hsaver, hshown, h.noPreview⟩]
        rfl

theorem Paced.step (hmac : Hmac) (h : Paced w starts v) {s : PanelStep} (hcalm : Calm v s) :
    Paced w (starts ++ (opened hmac (v, s)).toList) (v.panelStep hmac s) := by
  cases s with
  | event d => exact h.event d
  | update =>
    have hsettles : v.panelStep hmac .update = v.settleDisplay := h.settles hcalm
    have hnone : opened hmac (v, .update) = none := by
      unfold opened
      rw [hsettles]
      refine if_neg fun hne => hne ?_
      unfold View.settleDisplay
      split <;> rfl
    rw [hnone, hsettles]
    exact (List.append_nil starts).symm ▸ h.update
  | advance now =>
    have hnone : opened hmac (v, .advance now) = none := if_neg fun hne => hne rfl
    rw [hnone]
    exact (List.append_nil starts).symm ▸ h.advance hcalm.1 hcalm.2

theorem paced_touch (hw : MayIdle w) (hclock : w.now ≤ lastClock) : Paced w [] (w.wakeDisplay false).2 where
  activity := rfl
  later := UInt64.le_refl _
  clock := hclock
  look := rfl
  mayIdle := ⟨hw.onboarded, hw.calibration, hw.selfTest, hw.exporting, hw.ejecting⟩
  noPreview := rfl
  window := rfl
  past _ hs := absurd hs List.not_mem_nil
  apart := .nil
  lit _ := DisplayMode.noConfusion
  saver := DisplayMode.noConfusion

theorem paced_run (hw : MayIdle w) (hclock : w.now ≤ lastClock) (steps : List PanelStep)
    (hcalm : ∀ x ∈ Runs.visited (View.panelStep hmac) (w.wakeDisplay false).2 steps, Calm x.1 x.2) :
    Paced w (openings hmac (Runs.visited (View.panelStep hmac) (w.wakeDisplay false).2 steps))
      (Runs.run (View.panelStep hmac) (w.wakeDisplay false).2 steps) := by
  induction steps using List.reverseRecOn with
  | nil => exact paced_touch hw hclock
  | append_singleton steps s ih =>
    rw [Runs.visited_concat] at hcalm ⊢
    have hbefore := ih fun x hx => hcalm x (List.mem_append_left _ hx)
    have hlast := hcalm _ (List.mem_append_right _ List.mem_cons_self)
    rw [Runs.run_concat]
    unfold openings at hbefore ⊢
    rw [List.filterMap_append, List.filterMap_cons, List.filterMap_nil]
    have hstep := hbefore.step hmac hlast
    cases ho : opened hmac (Runs.run (View.panelStep hmac) (w.wakeDisplay false).2 steps, s) with
    | none => rw [ho] at hstep; exact hstep
    | some t => rw [ho] at hstep; exact hstep

end Steps

/-- Alerts never move the idle deadline. Whatever events and updates follow a touch, the
windows they open are half a minute apart, and outside them the panel shows what the
time since the touch decides. -/
theorem alerts_keep_deadline (hmac : Hmac) (w : View) (hw : MayIdle w) (hclock : w.now ≤ lastClock)
    (steps : List PanelStep)
    (hcalm : ∀ x ∈ Runs.visited (View.panelStep hmac) (w.wakeDisplay false).2 steps, Calm x.1 x.2) :
    let starts := openings hmac (Runs.visited (View.panelStep hmac) (w.wakeDisplay false).2 steps)
    let v := Runs.run (View.panelStep hmac) (w.wakeDisplay false).2 steps
    v.lastActivity = w.now ∧
    starts.Pairwise (fun s t => s.toNat + 30000 ≤ t.toNat) ∧
    (v.tagWatch.armed = true → v.displayMode ≠ .Off) ∧
    (v.displayMode = .Saver → v.saverSince = v.lastActivity + v.look.saverMinutes.toUInt64 * 60000) ∧
    (v.watchWarning = none →
      v.updateDisplay.displayMode = idleStage v.look v.tagWatch.armed (v.now - v.lastActivity) ∨
        InWindow starts v.now ∧ v.updateDisplay.displayMode = .Active) := by
  intro starts v
  have h : Paced w starts v := paced_run hw hclock steps hcalm
  refine ⟨h.activity, h.apart, h.lit, h.saver, fun hquiet => ?_⟩
  rw [h.settles hquiet, h.look, h.activity]
  exact h.stage

/-- A touch after a second, and a tag that is seen two minutes later. -/
def touchedHome : View :=
  { settings := { onboarded := .ofBool true }, screen := .Home, scanning := true, now := 1000 }

def tagAlert : Detection := { category := .AIRTAG, radio := .Ble, score := 85, seenCount := 1 }

theorem alerts_keep_deadline_tag :
    (Runs.run (View.panelStep fun _ _ => none) (touchedHome.wakeDisplay false).2
      [.advance 121000, .update, .event tagAlert, .update]).lastActivity = 1000 := by
  refine (alerts_keep_deadline _ touchedHome ⟨rfl, by decide, by decide, by decide, by decide⟩ (by decide) _ ?_).1
  have hquiet : ∀ v : View, v.tagWatch.armed = false → v.watchWarning = none := by
    intro v hv
    unfold View.watchWarning
    simp [hv]
  intro x hx
  simp only [Runs.visited_cons, Runs.visited_nil, List.mem_cons, List.not_mem_nil, or_false] at hx
  rcases hx with rfl | rfl | rfl | rfl
  · exact ⟨by decide, by decide⟩
  · exact hquiet _ rfl
  · trivial
  · refine hquiet _ (Bool.eq_false_iff.mpr fun harmed => ?_)
    exact absurd (View.event_armed harmed) (by decide)

end Hound
