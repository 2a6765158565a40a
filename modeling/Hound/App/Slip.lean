import Hound.App.Routine

/-!
# The card's slip

What the view shows of the card and asks of it, and the messages it follows. Four
steps of the loop write on it: the touch, the requests, the end of an iteration,
and the storage task that takes a message. The others leave it as it is.
-/

namespace Hound

structure Slip where
  exportStatus : ExportStatus
  exportedRows : UInt32
  exportCount : UInt32
  ejectStatus : EjectStatus
  sd : Bool
  sdError : Bool
  sdReadOnly : Bool
  sdChecking : Bool
  demo : Bool
  asksExport : Bool
  asksEject : Bool

def View.slip (v : View) : Slip :=
  { exportStatus := v.exportStatus, exportedRows := v.exportedRows, exportCount := v.exportCount
    ejectStatus := v.ejectStatus, sd := v.sd, sdError := v.sdError, sdReadOnly := v.sdReadOnly
    sdChecking := v.sdChecking, demo := v.demo, asksExport := decide (.Export ∈ v.requests)
    asksEject := decide (.Eject ∈ v.requests) }

/-! ## What is written on it -/

namespace Slip

def requestExport (s : Slip) : Slip :=
  if s.exportStatus = .Exporting then s
  else if s.demo then { s with exportStatus := .Demo }
  else if s.sdChecking then { s with exportStatus := .Checking }
  else if !s.sd ∨ s.ejectStatus = .Ejecting ∨ s.ejectStatus = .Safe ∨ s.ejectStatus = .Failed then
    { s with exportStatus := .NoCard }
  else if s.sdReadOnly then { s with exportStatus := .ReadOnly }
  else if s.sdError then { s with exportStatus := .Failed }
  else { s with exportStatus := .Exporting, asksExport := true }

def requestEject (s : Slip) : Slip :=
  if s.demo then { s with ejectStatus := .Demo }
  else if s.ejectStatus = .Ejecting ∨ s.ejectStatus = .Safe ∨ s.ejectStatus = .Failed then s
  else if !s.sd then { s with ejectStatus := .NoCard }
  else { s with ejectStatus := .Ejecting, asksEject := true }

def exportQueued (s : Slip) (accepted : Bool) : Slip :=
  if s.exportStatus = .Exporting ∧ accepted = false then { s with exportStatus := .QueueFull } else s

def ejectQueued (s : Slip) (accepted : Bool) : Slip :=
  if s.ejectStatus = .Ejecting ∧ accepted = false then { s with ejectStatus := .QueueFull } else s

def readCard (s : Slip) (p : View.Polled) : Slip := { s with sd := p.mounted && !p.ejected }

def ejectProgress (s : Slip) (stopped failed : Bool) : Slip :=
  if !s.demo && stopped then { s with ejectStatus := if failed then .Failed else .Safe } else s

def readHealth (s : Slip) (p : View.Polled) : Slip :=
  { s with sdError := p.failed, sdChecking := p.checking, sdReadOnly := p.readOnly }

/-- The status of an export that is under way. -/
def progress (s : Slip) (completed : UInt32) : ExportStatus :=
  if completed ≠ s.exportCount then .Complete
  else if s.sdError then .Failed
  else if s.sdReadOnly then .ReadOnly
  else if !s.sd then .NoCard
  else .Exporting

def exportProgress (s : Slip) (completed rows : UInt32) : Slip :=
  if s.exportStatus = .Exporting then
    { s with
      exportStatus := s.progress completed, exportCount := completed
      exportedRows := if completed ≠ s.exportCount then rows else s.exportedRows }
  else { s with exportCount := completed }

def poll (s : Slip) (p : View.Polled) : Slip :=
  (((s.readCard p).ejectProgress p.ejected p.ejectFailed).readHealth p).exportProgress p.exports p.exportRows

/-- The requests are taken. -/
def unasked (s : Slip) : Slip := { s with asksExport := false, asksEject := false }

/-- What a touch may do to it. -/
inductive Wish : Slip → Slip → Prop where
  | export' (s : Slip) : Wish s s.requestExport
  | eject (s : Slip) : Wish s s.requestEject

/-- What a tap may do to it. -/
inductive Wished (s t : Slip) : Prop where
  | touched (h : Relation.ReflTransGen Wish s t)
  | switched (h : t = { s with demo := !s.demo })

end Slip

/-! ## The view -/

section View

variable {v w : View} {d : Detection} {bright : UInt8 → Prop}

theorem slip_of_base (h : w.base = v.base) (hexport : .Export ∈ w.requests ↔ .Export ∈ v.requests)
    (heject : .Eject ∈ w.requests ↔ .Eject ∈ v.requests) : w.slip = v.slip := by
  have hstatus : w.exportStatus = v.exportStatus := congrArg Base.exportStatus h
  have hrows : w.exportedRows = v.exportedRows := congrArg Base.exportedRows h
  have hcount : w.exportCount = v.exportCount := congrArg Base.exportCount h
  have hejects : w.ejectStatus = v.ejectStatus := congrArg Base.ejectStatus h
  have hsd : w.sd = v.sd := congrArg Base.sd h
  have herror : w.sdError = v.sdError := congrArg Base.sdError h
  have hread : w.sdReadOnly = v.sdReadOnly := congrArg Base.sdReadOnly h
  have hchecking : w.sdChecking = v.sdChecking := congrArg Base.sdChecking h
  have hdemo : w.demo = v.demo := congrArg Base.demo h
  unfold View.slip
  rw [hstatus, hrows, hcount, hejects, hsd, herror, hread, hchecking, hdemo, decide_eq_decide.mpr hexport,
    decide_eq_decide.mpr heject]

theorem slip_of_requests (h : w.base = v.base) (hrequests : w.requests = v.requests) : w.slip = v.slip :=
  slip_of_base h (by rw [hrequests]) (by rw [hrequests])

theorem Quiet.slip (h : Quiet v w) : w.slip = v.slip :=
  slip_of_requests h.base (congrArg Guarded.requests h.kept)

theorem View.mem_request {r s : UiRequest} : s ∈ (v.request r).requests ↔ s = r ∨ s ∈ v.requests := by
  change s ∈ (if r ∈ v.requests then v.requests else r :: v.requests) ↔ _
  split
  · rename_i hmem
    constructor
    · exact .inr
    · rintro (rfl | h)
      · exact hmem
      · exact h
  · exact List.mem_cons

namespace View

theorem request_slip (v : View) {r : UiRequest} (hexport : r ≠ .Export) (heject : r ≠ .Eject) :
    (v.request r).slip = v.slip := by
  refine slip_of_base rfl ?_ ?_
  · rw [mem_request]
    exact or_iff_right hexport.symm
  · rw [mem_request]
    exact or_iff_right heject.symm

theorem request_export_slip (v : View) : (v.request .Export).slip = { v.slip with asksExport := true } := by
  have hexport : decide (UiRequest.Export ∈ (v.request .Export).requests) = true :=
    decide_eq_true (mem_request.mpr (.inl rfl))
  have heject : decide (UiRequest.Eject ∈ (v.request .Export).requests) = decide (.Eject ∈ v.requests) :=
    decide_eq_decide.mpr (mem_request.trans (or_iff_right UiRequest.noConfusion))
  unfold View.slip
  rw [hexport, heject]
  rfl

theorem request_eject_slip (v : View) : (v.request .Eject).slip = { v.slip with asksEject := true } := by
  have heject : decide (UiRequest.Eject ∈ (v.request .Eject).requests) = true :=
    decide_eq_true (mem_request.mpr (.inl rfl))
  have hexport : decide (UiRequest.Export ∈ (v.request .Eject).requests) = decide (.Export ∈ v.requests) :=
    decide_eq_decide.mpr (mem_request.trans (or_iff_right UiRequest.noConfusion))
  unfold View.slip
  rw [hexport, heject]
  rfl

theorem requestExport_slip (v : View) : v.requestExport.slip = v.slip.requestExport := by
  have hasks : ({ v with exportStatus := .Exporting } : View).slip = { v.slip with exportStatus := .Exporting } := rfl
  unfold requestExport
  simp only [apply_ite View.slip, request_export_slip, hasks]
  rfl

theorem requestEject_slip (v : View) : v.requestEject.slip = v.slip.requestEject := by
  have hasks : ({ v with ejectStatus := .Ejecting } : View).slip = { v.slip with ejectStatus := .Ejecting } := rfl
  unfold requestEject
  simp only [apply_ite View.slip, request_eject_slip, hasks]
  rfl

theorem exportQueued_slip (v : View) (accepted : Bool) : (v.exportQueued accepted).slip = v.slip.exportQueued accepted := by
  unfold exportQueued
  rw [apply_ite View.slip]
  rfl

theorem ejectQueued_slip (v : View) (accepted : Bool) : (v.ejectQueued accepted).slip = v.slip.ejectQueued accepted := by
  unfold ejectQueued
  rw [apply_ite View.slip]
  rfl

theorem poll_slip (v : View) (p : Polled) : (v.poll p).slip = v.slip.poll p := by
  have heject : ∀ u : View, (u.ejectProgress p.ejected p.ejectFailed).slip =
      u.slip.ejectProgress p.ejected p.ejectFailed := by
    intro u
    unfold ejectProgress
    rw [apply_ite View.slip]
    rfl
  have hexport : ∀ u : View, (u.exportProgress p.exports p.exportRows).slip =
      u.slip.exportProgress p.exports p.exportRows := by
    intro u
    unfold exportProgress Slip.exportProgress Slip.progress
    by_cases hbusy : u.exportStatus = .Exporting
    · rw [if_pos (show u.slip.exportStatus = .Exporting from hbusy), if_pos hbusy]
      dsimp only
      by_cases hcount : p.exports ≠ u.exportCount
      · rw [if_pos hcount, if_pos (show p.exports ≠ u.slip.exportCount from hcount),
          if_pos (show p.exports ≠ u.slip.exportCount from hcount)]
        rfl
      · rw [if_neg hcount, if_neg (show ¬p.exports ≠ u.slip.exportCount from hcount),
          if_neg (show ¬p.exports ≠ u.slip.exportCount from hcount)]
        cases herror : u.sdError <;> cases hread : u.sdReadOnly <;> cases hsd : u.sd <;>
          simp [View.slip, herror, hread, hsd, hbusy]
    · rw [if_neg (show ¬u.slip.exportStatus = .Exporting from hbusy), if_neg hbusy]
      rfl
  have hwarn : ∀ u : View, u.warnReadOnly.slip = u.slip := by
    intro u
    unfold warnReadOnly
    split <;> rfl
  unfold poll
  rw [hwarn, hexport]
  change (((v.readCard p).ejectProgress p.ejected p.ejectFailed).slip.readHealth p).exportProgress _ _ = _
  rw [heject]
  rfl

end View

theorem Aside.slip (h : Aside v w) : w.slip = v.slip := h.quiet.slip

theorem Learnt.slip (h : Learnt d v w) : w.slip = v.slip := by
  rcases h.requests with hsame | ⟨-, hsave⟩
  · exact slip_of_requests h.base hsame
  · refine slip_of_base h.base ?_ ?_
    · rw [hsave, View.mem_request]
      exact or_iff_right UiRequest.noConfusion
    · rw [hsave, View.mem_request]
      exact or_iff_right UiRequest.noConfusion

namespace View

theorem setBook_slip (v : View) (demo : Bool) (c : Companion) : (v.setBook demo c).slip = v.slip := by
  cases demo <;> rfl

theorem setLook_slip (v : View) (a : Appearance) : (v.setLook a).slip = v.slip := by
  unfold setLook
  split <;> rfl

theorem setSnooze_slip (v : View) (t : UInt64) : (v.setSnooze t).slip = v.slip := by
  unfold setSnooze
  split <;> rfl

theorem resetProgress_slip (v : View) : v.resetProgress.slip = v.slip := by
  have hscents : v.resetScents.slip = v.slip := setBook_slip v _ _
  have hpet : v.resetScents.resetPet.slip = v.resetScents.slip := by
    unfold resetPet
    split <;> rfl
  exact Eq.trans rfl (hpet.trans hscents)

theorem switchDemo_slip (v : View) (kept : Pet) : (v.switchDemo kept).slip = v.slip := by
  unfold switchDemo
  dsimp only
  split <;> rfl

theorem tickPet_slip (v : View) : v.tickPet.slip = v.slip := by
  unfold tickPet
  split <;> rfl

end View

/-! ## Taps -/

open Slip (Wish Wished)

theorem Touch.wished (h : Touch bright v w) : Relation.ReflTransGen Wish v.slip w.slip := by
  have hsame : ∀ {u : View}, u.slip = v.slip → Relation.ReflTransGen Wish v.slip u.slip := by
    intro u hu
    rw [hu]
  cases h with
  | quiet hquiet => exact hsame hquiet.slip
  | request hr => exact hsame (v.request_slip hr.1 hr.2.1)
  | prefer => exact .refl
  | brighten => exact .refl
  | book => exact hsame (v.setBook_slip _ _)
  | ignore => exact hsame (v.setBook_slip _ _)
  | dress => exact hsame (v.setLook_slip _)
  | snooze t => exact hsame (v.setSnooze_slip t)
  | clock => exact .refl
  | battery => exact .refl
  | stroke => exact .refl
  | export' =>
    rw [v.requestExport_slip]
    exact .single (.export' _)
  | eject =>
    rw [v.requestEject_slip]
    exact .single (.eject _)
  | actions => exact .refl
  | details i =>
    refine hsame ?_
    unfold View.openDetails
    split <;> rfl

theorem Touched.wished (h : Touched bright v w) : Relation.ReflTransGen Wish v.slip w.slip := by
  induction h with
  | refl => exact .refl
  | tail _ htouch ih => exact ih.trans htouch.wished

theorem View.tap_wished (hmac : Hmac) (v : View) (x y : Int) : Wished v.slip (v.tap hmac x y).slip := by
  rcases v.tap_touched hmac x y with htouched | ⟨-, -, hdemo⟩
  · exact .touched htouched.wished
  · have htoggle : ((v.wakeDisplay false).2.toggleDemo).slip = { v.slip with demo := !v.slip.demo } := by
      rw [← (View.wakeDisplay_quiet v false).slip]
      exact View.request_slip _ UiRequest.noConfusion UiRequest.noConfusion
    rw [hdemo]
    exact .switched htoggle

end View

namespace App

open Worker (Message)
open Slip (Wished)

variable {p : Platform} {a b c : App}

/-- Nothing is written on the slip, and no message that is followed is posted. -/
structure Uninvolved (a b : App) : Prop where
  slip : b.view.slip = a.view.slip
  posted : b.posted = a.posted
  phase : b.phase = a.phase

/-- A tap may have written on the slip. -/
structure Wishing (a b : App) : Prop where
  slip : Wished a.view.slip b.view.slip
  posted : b.posted = a.posted

namespace Uninvolved

theorem refl (a : App) : Uninvolved a a := ⟨rfl, rfl, rfl⟩

theorem trans (h : Uninvolved a b) (h' : Uninvolved b c) : Uninvolved a c :=
  ⟨h'.slip.trans h.slip, h'.posted.trans h.posted, h'.phase.trans h.phase⟩

theorem routine (h : Routine a b) : Uninvolved a b := ⟨h.view.slip, h.posted, h.phase⟩

/-- What follows is routine. -/
theorem andThen {x : AppIo App} (h : Uninvolved a b) (hx : Routinely p b x) : x.Meets (fun _ => True) (Uninvolved a) :=
  hx.mono (fun _ _ => trivial) fun _ hr => h.trans (.routine hr)

theorem wishing (h : Uninvolved a b) : Wishing a b := by
  refine ⟨.touched ?_, h.posted⟩
  rw [h.slip]

end Uninvolved

/-! ## The radio -/

theorem detected_uninvolved (r : Reception) (h : Uninvolved a b) (e : Emission) :
    (detected p r b e).Meets (fun _ => True) (Uninvolved a) := by
  have hseen : ∀ (meals : MealGuard) (d : Detection),
      Uninvolved a { b with meals, view := (b.view.feedPet d).event p.hmac d } := fun meals d =>
    h.trans ⟨((b.view.feedPet d).event_learnt p.hmac d).slip.trans rfl, rfl, rfl⟩
  unfold detected
  dsimp only
  split
  · exact Logged.meets_pure h
  · exact .bind ((hseen _ _).andThen (saveMeal_routinely _ _ _)) fun c hc =>
      .bind (hc.andThen (append_routinely (p := p) c _ _ _)) fun _ hd => hd.andThen (soundAlert_routinely _ _)

theorem hear_uninvolved (a : App) (r : Reception) : (a.hear p r).Meets (fun _ => True) (Uninvolved a) := by
  unfold hear
  split
  · exact Logged.meets_pure (.refl a)
  split
  · exact Logged.meets_pure (.refl a)
  rename_i o _
  have hheard : ∀ engine : Engine,
      Uninvolved a { a with view := ({ a.view with now := r.now } : View).hear o false, engine } := fun engine =>
    ⟨(View.hear_aside _ o false).slip.trans rfl, rfl, rfl⟩
  exact Logged.Meets.foldlM (fun b e hb => detected_uninvolved r hb e) _ (hheard _)

/-! ## Touch and button -/

theorem startCalibration_slip (v : View) : (startCalibration v).slip = v.slip :=
  (startCalibration_quiet v).slip.trans (v.request_slip UiRequest.noConfusion UiRequest.noConfusion)

theorem calibrate_uninvolved (a : App) (t : Press) : (a.calibrate p t).Meets (fun _ => True) (Uninvolved a) := by
  unfold calibrate
  split
  · exact Logged.meets_pure ⟨rfl, rfl, rfl⟩
  rename_i solved _
  have hsolves : ∀ page : Screen, Uninvolved a { a with
      state.calibration := solved, calibrating := false, view := a.view.goto page } := fun page => ⟨rfl, rfl, rfl⟩
  dsimp only
  refine .bind ((hsolves _).andThen (save_routinely _ _ _)) fun b hb => ?_
  split
  · exact Logged.meets_pure (hb.trans (.routine (beginRadio_routine b _)))
  · exact Logged.meets_pure hb

theorem press_wishing (a : App) (t : Press) : Wishing a (a.press p t).value := by
  unfold press
  split
  · have hcounts : Uninvolved a (a.pointed t) := ⟨rfl, rfl, rfl⟩
    dsimp only
    split
    · exact (hcounts.trans (calibrate_uninvolved _ t).returned).wishing
    · exact hcounts.wishing
  split
  · exact ⟨View.tap_wished p.hmac _ _ _, rfl⟩
  split
  · have hstarts : Uninvolved a { a with view := startCalibration { a.view with settings.region := 0 } } :=
      ⟨(startCalibration_slip _).trans rfl, rfl, rfl⟩
    exact hstarts.wishing
  · exact (Uninvolved.refl a).wishing

theorem touch_wishing (a : App) (t : Option Press) :
    Wishing a (App.touch p a t).value ∧ (App.touch p a t).value.phase = .button := by
  have hcontact : ∀ t : Press, Wishing a (contact p a t).value := by
    intro t
    have htouched : ∀ last : UInt64, Uninvolved a { a with
        view := { a.view with touchX := t.raw.1, touchY := t.raw.2 }, lastTouch := last } := fun last => ⟨rfl, rfl, rfl⟩
    unfold contact
    dsimp only
    split
    · have hpress := press_wishing (p := p) { a with
        view := { a.view with touchX := t.raw.1, touchY := t.raw.2 }, lastTouch := a.view.now } t
      exact ⟨hpress.slip, hpress.posted⟩
    · exact (htouched a.lastTouch).wishing
  have hends : ∀ b : App, Wishing a b →
      Wishing a { b.held t.isSome with wasTouch := t.isSome, phase := .button } := by
    intro b hb
    have hheld := held_routine b t.isSome
    refine ⟨?_, hheld.posted.trans hb.posted⟩
    change Wished a.view.slip (b.held t.isSome).view.slip
    rw [hheld.view.slip]
    exact hb.slip
  refine ⟨?_, rfl⟩
  cases t with
  | none => exact hends a (Uninvolved.refl a).wishing
  | some t => exact hends _ (hcontact t)

theorem release_uninvolved (a : App) (claimed : Bool) : (a.release p claimed).Meets (fun _ => True) (Uninvolved a) := by
  unfold release
  split
  · have hmutes : Uninvolved a { a with view := { a.view with settings.sound := .ofBool false } } := ⟨rfl, rfl, rfl⟩
    exact hmutes.andThen (save_routinely _ false claimed)
  split
  · exact Logged.meets_pure ⟨startCalibration_slip a.view, rfl, rfl⟩
  · exact Logged.meets_pure ⟨(next_quiet a.view).slip, rfl, rfl⟩

theorem button_uninvolved (a : App) (pressed claimed : Bool) : (a.button p pressed claimed).Meets (fun _ => True)
    fun b => ∃ c, Uninvolved a c ∧ b = { c with wasButton := pressed, phase := .serve } := by
  have hpush := Uninvolved.routine (push_routine a pressed)
  unfold button
  refine .bind (Q := Uninvolved a) ?_ fun c hc => Logged.meets_pure ⟨c, hc, rfl⟩
  unfold letGo
  split
  · exact (release_uninvolved _ claimed).mono (fun _ h => h) fun _ hc => hpush.trans hc
  · exact Logged.meets_pure hpush

/-! ## Requests -/

theorem handle_uninvolved {hs : List (UiRequest × (App → AppIo App))}
    (h : ∀ b, ∀ r ∈ hs, (r.2 b).Meets (fun _ => True) (Uninvolved b)) (asked : List UiRequest) (a : App) :
    (handle asked hs a).Meets (fun _ => True) (Uninvolved a) := by
  refine Logged.Meets.foldlM_mem (fun b r hr hb => ?_) (.refl a)
  split
  · exact (h b r hr).mono (fun _ h => h) fun _ hc => hb.trans hc
  · exact Logged.meets_pure hb

theorem handle_append (asked : List UiRequest) (hs hs' : List (UiRequest × (App → AppIo App))) (a : App) :
    handle asked (hs ++ hs') a = handle asked hs a >>= handle asked hs' := List.foldlM_append

theorem handle_single (asked : List UiRequest) (r : UiRequest) (f : App → AppIo App) (a : App) :
    (handle asked [(r, f)] a).value = if r ∈ asked then (f a).value else a := by
  unfold handle
  rw [List.foldlM_cons]
  simp only [Logged.value_bind, List.foldlM_nil, Logged.value_pure]
  split <;> rfl

/-- A message is offered to the queue, and the slip is told. -/
def Offered (asked : Bool) (m : Message) (queued : Slip → Bool → Slip) (a b : App) : Prop :=
  b.phase = a.phase ∧
    if asked then ∃ accepted, b.view.slip = queued a.view.slip accepted ∧
      b.posted = a.posted ++ if accepted then [m] else []
    else Uninvolved a b

theorem send_offers {m : Message} (hm : m.followed = true) (a : App) :
    Uninvolved a { (a.send m).value.2 with queue := a.queue } ∧
      (a.send m).value.2.posted = a.posted ++ if (a.send m).value.1 then [m] else [] := by
  unfold send
  simp only [Logged.value_bind]
  split
  · refine ⟨.refl a, ?_⟩
    change (a.queue ++ [m]).filter Message.followed = _
    rw [List.filter_append, List.filter_singleton, hm]
    rfl
  · exact ⟨.refl a, (List.append_nil _).symm⟩

theorem exportRequested_offers (a : App) (checking : Bool) :
    Offered true .Export Slip.exportQueued a (a.exportRequested checking).value := by
  have hqueued : ∀ (b : App) (accepted : Bool), Uninvolved a { b with queue := a.queue } →
      b.posted = a.posted ++ (if accepted then [.Export] else []) →
      Offered true .Export Slip.exportQueued a { b with view := b.view.exportQueued accepted } := by
    intro b accepted hb hposted
    refine ⟨hb.phase, accepted, ?_, hposted⟩
    rw [← hb.slip]
    exact b.view.exportQueued_slip accepted
  have hrefused : Offered true .Export Slip.exportQueued a { a with view := a.view.exportQueued false } :=
    hqueued a false (.refl a) (List.append_nil _).symm
  unfold exportRequested
  dsimp only
  split
  · exact hrefused
  · unfold sendUnless
    split
    · exact hrefused
    · obtain ⟨hsent, hposted⟩ := send_offers (m := .Export) rfl a
      exact hqueued _ _ hsent hposted

theorem ejectRequested_offers (a : App) (claimed : Bool) :
    Offered (!a.view.slip.demo) .Eject Slip.ejectQueued a (a.ejectRequested p claimed).value := by
  unfold ejectRequested
  cases hdemo : a.view.demo with
  | true =>
    refine ⟨rfl, ?_⟩
    rw [if_neg (by rw [show a.view.slip.demo = true from hdemo]; exact Bool.false_ne_true)]
    exact .refl a
  | false =>
    rw [if_neg Bool.false_ne_true]
    simp only [Logged.value_bind, Logged.value_pure]
    have hsaved := Uninvolved.routine (save_routinely (p := p) a false claimed).returned
    generalize (a.save p false claimed).value = b at hsaved
    obtain ⟨hsent, hposted⟩ := send_offers (m := .Eject) rfl b
    refine ⟨hsent.phase.trans hsaved.phase, ?_⟩
    rw [if_pos (by rw [show a.view.slip.demo = false from hdemo]; rfl)]
    refine ⟨(b.send .Eject).value.1, ?_, ?_⟩
    · rw [← hsaved.slip, ← hsent.slip]
      exact View.ejectQueued_slip _ _
    · rw [← hsaved.posted]
      exact hposted

theorem clearRequested_uninvolved (a : App) (checking : Bool) :
    (a.clearRequested checking).Meets (fun _ => True) (Uninvolved a) := by
  have hclears : ∀ b : App, Uninvolved a b → ∀ accepted : Bool,
      Uninvolved a (if accepted then { b with view := b.view.note "LOG DELETE QUEUED" } else b) := by
    intro b hb accepted
    cases accepted with
    | true => exact hb.trans (.routine (.shown (note_quiet _ _)))
    | false => exact hb
  unfold clearRequested
  split
  · exact Logged.meets_pure (.refl a)
  refine .bind (Q := fun r => Uninvolved a r.2) ?_ fun r hr => Logged.meets_pure (hclears r.2 hr r.1)
  unfold sendUnless
  split
  · exact Logged.meets_pure (.refl a)
  · refine (send_meets (P := fun _ => True) trivial).mono (fun _ h => h) ?_
    rintro r ⟨queue, hr, hqueue⟩
    rw [hr]
    exact .routine (routine_queue (m := .Clear) rfl hqueue)

theorem resetRequested_uninvolved (a : App) (claimed : Bool) :
    (a.resetRequested p claimed).Meets (fun _ => True) (Uninvolved a) := by
  have hresets : Uninvolved a { a with view := a.view.resetProgress } := ⟨a.view.resetProgress_slip, rfl, rfl⟩
  exact hresets.andThen (save_routinely _ false claimed)

theorem demoRequested_uninvolved (a : App) (radio : Bool) : Uninvolved a (a.demoRequested radio) := by
  have hradio : Uninvolved a (if a.view.demo then { a with radioPaused := true } else a.beginRadio radio) := by
    split
    · exact ⟨rfl, rfl, rfl⟩
    · exact .routine (beginRadio_routine a radio)
  unfold demoRequested
  dsimp only
  generalize (if a.view.demo then { a with radioPaused := true } else a.beginRadio radio : App) = b at hradio
  exact hradio.trans ⟨b.view.switchDemo_slip _, rfl, rfl⟩

theorem serve_offers (a : App) (s : Service) : ∃ b c,
    Offered a.view.slip.asksExport .Export Slip.exportQueued a.unasked b ∧
      Offered (a.view.slip.asksEject && !a.view.slip.demo) .Eject Slip.ejectQueued b c ∧
      (a.serve p s).value.view.slip = c.view.slip ∧ (a.serve p s).value.posted = c.posted ∧
      (a.serve p s).value.phase = .demo := by
  have hsplit : handlers p s = (handlers p s).take 6 ++ ([(.Export, fun a => a.exportRequested s.checking)] ++
      ([(.Eject, fun a => a.ejectRequested p s.ejectSaved)] ++ (handlers p s).drop 8)) := rfl
  have hbefore : ∀ b, ∀ r ∈ (handlers p s).take 6, (r.2 b).Meets (fun _ => True) (Uninvolved b) := by
    intro b r hr
    simp only [handlers, List.take_succ_cons, List.take_zero, List.mem_cons, List.not_mem_nil, or_false] at hr
    rcases hr with rfl | rfl | rfl | rfl | rfl | rfl
    · exact Logged.meets_pure (.routine (calibrateRequested_routine b))
    · exact Logged.meets_pure (.routine (pauseRequested_routine b s.radio))
    · exact clearRequested_uninvolved b s.checking
    · exact Logged.meets_pure (.routine (beginRadio_routine b s.radio))
    · exact (Uninvolved.refl b).andThen (save_routinely (p := p) b false s.saved)
    · exact (Uninvolved.refl b).andThen (save_routinely (p := p) b true s.backedUp)
  have hafter : ∀ b, ∀ r ∈ (handlers p s).drop 8, (r.2 b).Meets (fun _ => True) (Uninvolved b) := by
    intro b r hr
    simp only [handlers, List.drop_succ_cons, List.drop_zero, List.mem_cons, List.not_mem_nil, or_false] at hr
    rcases hr with rfl | rfl | rfl
    · exact (Uninvolved.refl b).andThen (diagnostics_routinely (p := p) b s.report)
    · exact resetRequested_uninvolved b s.resetSaved
    · exact Logged.meets_pure (demoRequested_uninvolved b s.radio)
  unfold serve
  rw [hsplit]
  simp only [handle_append, Logged.value_bind, Logged.value_pure, handle_single]
  generalize hasked : a.view.requests = asked
  have hexport : a.view.slip.asksExport = decide (.Export ∈ asked) := by rw [← hasked]; rfl
  have heject : a.view.slip.asksEject = decide (.Eject ∈ asked) := by rw [← hasked]; rfl
  have hfirst := (handle_uninvolved hbefore asked a.unasked).returned
  generalize (handle asked ((handlers p s).take 6) a.unasked).value = b₁ at hfirst
  have hexported : Offered (decide (.Export ∈ asked)) .Export Slip.exportQueued a.unasked
      (if .Export ∈ asked then (b₁.exportRequested s.checking).value else b₁) := by
    by_cases hmem : .Export ∈ asked
    · rw [if_pos hmem, decide_eq_true hmem]
      obtain ⟨hphase, accepted, hslip, hposted⟩ := exportRequested_offers b₁ s.checking
      refine ⟨hphase.trans hfirst.phase, accepted, ?_, ?_⟩
      · rw [← hfirst.slip]
        exact hslip
      · rw [← hfirst.posted]
        exact hposted
    · rw [if_neg hmem, decide_eq_false hmem]
      exact ⟨hfirst.phase, hfirst⟩
  generalize (if .Export ∈ asked then (b₁.exportRequested s.checking).value else b₁) = b₂ at hexported
  have hdemo : b₂.view.slip.demo = a.view.slip.demo := by
    obtain ⟨-, hoffered⟩ := hexported
    split at hoffered
    · obtain ⟨accepted, hslip, -⟩ := hoffered
      rw [hslip]
      unfold Slip.exportQueued
      split <;> rfl
    · rw [hoffered.slip]
      rfl
  have hejected : Offered (decide (.Eject ∈ asked) && !a.view.slip.demo) .Eject Slip.ejectQueued b₂
      (if .Eject ∈ asked then (b₂.ejectRequested p s.ejectSaved).value else b₂) := by
    by_cases hmem : .Eject ∈ asked
    · rw [if_pos hmem, decide_eq_true hmem, ← hdemo]
      exact ejectRequested_offers b₂ s.ejectSaved
    · rw [if_neg hmem, decide_eq_false hmem]
      exact ⟨rfl, .refl b₂⟩
  generalize (if .Eject ∈ asked then (b₂.ejectRequested p s.ejectSaved).value else b₂) = b₃ at hejected
  have hlast := (handle_uninvolved hafter asked b₃).returned
  rw [hexport, heject]
  exact ⟨b₂, b₃, hexported, hejected, hlast.slip, hlast.posted, trivial⟩

/-! ## The end of an iteration -/

theorem poll_slip (a : App) (r : Readings) : (a.poll r).view.slip = a.view.slip.poll r.polled := by
  have hreads : ∀ scanning backupPending : Bool,
      (View.poll { a.view with scanning, backupPending } r.polled).slip = a.view.slip.poll r.polled := fun _ _ =>
    View.poll_slip _ _
  have hempties : ∀ v : View, v.clearRecent.slip = v.slip := fun _ => rfl
  unfold poll
  dsimp only
  split
  · rw [hempties]
    exact hreads _ _
  · exact hreads _ _

theorem present_slip (a : App) : (a.present p).view.slip = a.view.slip := by
  have hdisplay := (View.updateDisplay_quiet a.view).slip
  have hframe : ∀ v : View, (v.renderFrame p.hmac).slip = v.slip := by
    intro v
    rw [View.renderFrame_eq]
    unfold View.selectTarget
    split <;> rfl
  unfold present
  dsimp only
  split
  · exact hdisplay
  · exact (hframe _).trans hdisplay

theorem rest_slip (a : App) (r : Readings) : (a.rest p r).value.view.slip = a.view.slip.poll r.polled ∧
    (a.rest p r).value.posted = a.posted ∧ (a.rest p r).value.phase = .head := by
  have hretry := Uninvolved.routine (retry_routinely (p := p) a r.retried).returned
  unfold rest
  simp only [Logged.value_bind, Logged.value_pure]
  generalize (a.retry p r.retried).value = b at hretry
  have hbattery := Uninvolved.routine (battery_routinely (p := p) (b.poll r) r).returned
  have hpoll : (b.poll r).posted = b.posted := rfl
  generalize ((b.poll r).battery p r).value = c at hbattery
  refine ⟨?_, ?_, rfl⟩
  · rw [present_slip, hbattery.slip, poll_slip, hretry.slip]
  · exact (hbattery.posted.trans hpoll).trans hretry.posted

theorem head_slip (a : App) (now : UInt64) : (a.head now).view.slip = a.view.slip := by
  have hupdates := (View.updateTagWatch_quiet { a.view with now }).trans (View.updateDisplay_quiet _)
  exact (View.tickPet_slip _).trans (hupdates.slip.trans rfl)

theorem synthesize_slip (a : App) : (a.synthesize p).view.slip = a.view.slip := by
  have hseen : ∀ d : Detection, ((a.view.hear (demoSample d) true).event p.hmac d).slip = a.view.slip := fun d =>
    ((View.event_learnt p.hmac _ d).slip).trans (View.hear_aside _ _ true).slip
  unfold synthesize
  split
  · exact hseen _
  · rfl

/-! ## What a step does -/

/-- The four kinds of steps, as the slip sees them. -/
inductive Writes (a b : App) : Input → Prop where
  | aside {i : Input} (h : b.view.slip = a.view.slip) (hposted : b.posted = a.posted)
      (hphase : b.phase = a.phase ∨ a.phase = .button ∧ b.phase = .serve ∨ a.phase ≠ .button ∧ a.phase ≠ .serve) :
      Writes a b i
  | touch {t : Option Press} (h : Wishing a b) (hphase : b.phase = .button) (hturn : a.phase = .touch) :
      Writes a b (.touch t)
  | serve {s : Service} {c d : App} (hexport : Offered a.view.slip.asksExport .Export Slip.exportQueued a.unasked c)
      (heject : Offered (a.view.slip.asksEject && !a.view.slip.demo) .Eject Slip.ejectQueued c d)
      (h : b.view.slip = d.view.slip) (hposted : b.posted = d.posted) (hphase : b.phase = .demo) :
      Writes a b (.serve s)
  | rest {r : Readings} (h : b.view.slip = a.view.slip.poll r.polled) (hposted : b.posted = a.posted)
      (hphase : b.phase = .head) (hturn : a.phase = .rest) : Writes a b (.rest r)

theorem step_writes (a : App) {i : Input} (htask : i ≠ .taken) : Writes a (a.step p i) i := by
  have hwaits : ∀ {q : Phase}, i.turn = some q → a.phase ≠ q → Writes a (a.step p i) i := by
    intro q hturn hphase
    have hstep : a.step p i = a := by
      unfold step
      rw [stepIo_out_of_turn hturn hphase]
      rfl
    rw [hstep]
    exact .aside rfl rfl (.inl rfl)
  have hpasses : ∀ {q : Phase}, a.phase = q → q ≠ .button → q ≠ .serve →
      a.phase ≠ .button ∧ a.phase ≠ .serve := by
    intro q hphase hbutton hserve
    rw [hphase]
    exact ⟨hbutton, hserve⟩
  cases i with
  | taken => exact absurd rfl htask
  | head now =>
    by_cases hphase : a.phase = .head
    · change Writes a (if a.phase = .head then a.head now else a) _
      rw [if_pos hphase]
      exact .aside (head_slip a now) rfl (.inr (.inr (hpasses hphase nofun nofun)))
    · exact hwaits rfl hphase
  | packet r =>
    by_cases hphase : a.phase = .radio
    · unfold step stepIo
      dsimp only
      rw [if_pos hphase]
      have hheard := (hear_uninvolved (p := p) a r).returned
      exact .aside hheard.slip hheard.posted (.inl hheard.phase)
    · exact hwaits rfl hphase
  | drained =>
    by_cases hphase : a.phase = .radio
    · change Writes a (if a.phase = .radio then { a with phase := .touch } else a) _
      rw [if_pos hphase]
      exact .aside rfl rfl (.inr (.inr (hpasses hphase nofun nofun)))
    · exact hwaits rfl hphase
  | touch t =>
    by_cases hphase : a.phase = .touch
    · unfold step stepIo
      dsimp only
      rw [if_pos hphase]
      obtain ⟨hwishing, hbutton⟩ := touch_wishing (p := p) a t
      exact .touch hwishing hbutton hphase
    · exact hwaits rfl hphase
  | button pressed claimed =>
    by_cases hphase : a.phase = .button
    · unfold step stepIo
      dsimp only
      rw [if_pos hphase]
      obtain ⟨c, hc, hb⟩ := (button_uninvolved (p := p) a pressed claimed).returned
      rw [hb]
      exact .aside hc.slip hc.posted (.inr (.inl ⟨hphase, rfl⟩))
    · exact hwaits rfl hphase
  | serve s =>
    by_cases hphase : a.phase = .serve
    · unfold step stepIo
      dsimp only
      rw [if_pos hphase]
      obtain ⟨b, c, hexport, heject, hslip, hposted, hdemo⟩ := serve_offers (p := p) a s
      exact .serve hexport heject hslip hposted hdemo
    · exact hwaits rfl hphase
  | synthesize =>
    by_cases hphase : a.phase = .demo
    · change Writes a (if a.phase = .demo then a.synthesize p else a) _
      rw [if_pos hphase]
      have hposted : (a.synthesize p).posted = a.posted := by
        unfold synthesize
        split <;> rfl
      exact .aside (synthesize_slip a) hposted (.inr (.inr (hpasses hphase nofun nofun)))
    · exact hwaits rfl hphase
  | rest r =>
    by_cases hphase : a.phase = .rest
    · unfold step stepIo
      dsimp only
      rw [if_pos hphase]
      obtain ⟨hslip, hposted, hhead⟩ := rest_slip (p := p) a r
      exact .rest hslip hposted hhead hphase
    · exact hwaits rfl hphase

/-- What `app_main` has written before the task starts. -/
theorem boot_slip (p : Platform) (state : State) (b : Boot) :
    (boot p state b).value.view.slip = ({} : View).slip ∧ (boot p state b).value.posted = [] ∧
      (boot p state b).value.phase = .head := by
  have hloaded : Uninvolved { view := {}, engine := { rules := p.rules } }
      { view := if b.started then loaded state else (loaded state).note "STORAGE TASK FAILED / RESTART"
        state, meals := ({} : MealGuard).restore state.recent.toList, engine := { rules := p.rules }
        started := b.started } := by
    refine ⟨?_, rfl, rfl⟩
    cases b.started <;> rfl
  have hboots : (boot p state b).Meets (fun _ => True) (Uninvolved { view := {}, engine := { rules := p.rules } }) := by
    unfold boot
    refine .bind (hloaded.andThen (save_routinely (p := p) _ false b.claimed)) fun c hc => Logged.meets_pure ?_
    have hshows : ∀ (calibrating : Bool) (page : Screen), Uninvolved c { c with calibrating, view := c.view.goto page } :=
      fun calibrating page => ⟨rfl, rfl, rfl⟩
    have hwakes : ∀ d : App, Uninvolved d { d with view := ({ d.view with now := b.now }.wakeDisplay false).2 } :=
      fun d => ⟨(View.wakeDisplay_quiet _ false).slip.trans rfl, rfl, rfl⟩
    have hradios : ∀ (d : App) (on : Bool), Uninvolved d (if on then d.beginRadio b.radio else d) := by
      intro d on
      cases on with
      | true => exact .routine (beginRadio_routine d b.radio)
      | false => exact .refl d
    exact ((hc.trans (hshows _ _)).trans (hradios _ _)).trans (hwakes _)
  exact ⟨hboots.returned.slip, hboots.returned.posted, hboots.returned.phase⟩

end App

end Hound
