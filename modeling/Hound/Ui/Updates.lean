import Hound.Ui.AlertTarget
import Hound.Ui.Touch

/-!
# What the loop's own updates change

An event of a detection writes the scent book of the detection's mode and the list,
and may ask for a save. The updates of the watch and of the display are quiet.
-/

namespace Hound

/-- Nothing outside the fields of the watch and of what a page shows. -/
structure Aside (v w : View) : Prop where
  kept : w.kept = v.kept
  activity : w.lastActivity = v.lastActivity
  page : w.screen = v.screen
  alert : w.alertUntil = v.alertUntil

/-- What an event leaves of the view. -/
structure Learnt (d : Detection) (v w : View) : Prop where
  base : w.base = v.base
  activity : w.lastActivity = v.lastActivity
  page : w.screen = v.screen ∨ w.screen = .Home
  companion : w.companion = v.companion ∨
    d.demo = false ∧ d.score ≤ 100 ∧ w.companion = ((v.companion.observe d).unlock v.pet.xp).2
  requests : w.requests = v.requests ∨ d.demo = false ∧ w.requests = (v.request .Save).requests
  recent : ∀ e ∈ w.recent, e = d ∨ e ∈ v.recent
  alert : w.alertDetection = d ∨
    w.alertDetection = v.alertDetection ∧ (w.alertUntil = v.alertUntil ∨ w.alertUntil = 0)

variable {hmac : Hmac} {u v w : View} {d : Detection}

namespace Aside

theorem refl (v : View) : Aside v v := ⟨rfl, rfl, rfl, rfl⟩

theorem trans (h : Aside u v) (h' : Aside v w) : Aside u w :=
  ⟨h'.kept.trans h.kept, h'.activity.trans h.activity, h'.page.trans h.page, h'.alert.trans h.alert⟩

theorem quiet (h : Aside v w) : Quiet v w := .of_eq h.kept h.page h.alert h.activity

theorem base (h : Aside v w) : w.base = v.base := congrArg Guarded.base h.kept

theorem companion (h : Aside v w) : w.companion = v.companion := congrArg Guarded.companion h.kept

theorem requests (h : Aside v w) : w.requests = v.requests := congrArg Guarded.requests h.kept

theorem recent (h : Aside v w) : w.recent = v.recent := congrArg Guarded.recent h.kept

theorem alertDetection (h : Aside v w) : w.alertDetection = v.alertDetection :=
  congrArg Guarded.alertDetection h.kept

end Aside

namespace Learnt

theorem refl (v : View) (d : Detection) : Learnt d v v :=
  ⟨rfl, rfl, .inl rfl, .inl rfl, .inl rfl, fun _ he => .inr he, .inr ⟨rfl, .inl rfl⟩⟩

theorem after (h : Learnt d v w) (haside : Aside u v) : Learnt d u w := by
  have hsave : (v.request .Save).requests = (u.request .Save).requests := by
    unfold View.request
    dsimp only
    rw [haside.requests]
  have hxp : v.pet.xp = u.pet.xp := congrArg (fun b : Base => b.pet.xp) haside.base
  refine ⟨h.base.trans haside.base, h.activity.trans haside.activity, ?_, ?_, ?_, ?_, ?_⟩
  · rw [← haside.page]
    exact h.page
  · rw [← haside.companion, ← hxp]
    exact h.companion
  · rw [← haside.requests, ← hsave]
    exact h.requests
  · rw [← haside.recent]
    exact h.recent
  · rw [← haside.alertDetection, ← haside.alert]
    exact h.alert

theorem before (h : Learnt d v w) (haside : Aside w u) : Learnt d v u := by
  refine ⟨haside.base.trans h.base, haside.activity.trans h.activity, ?_, ?_, ?_, ?_, ?_⟩
  · rw [haside.page]
    exact h.page
  · rw [haside.companion]
    exact h.companion
  · rw [haside.requests]
    exact h.requests
  · rw [haside.recent]
    exact h.recent
  · rw [haside.alertDetection, haside.alert]
    exact h.alert

end Learnt

namespace View

/-! ## Quiet updates -/

theorem tagWatch_aside (v : View) (watch : TagWatch) : Aside v { v with tagWatch := watch } :=
  ⟨rfl, rfl, rfl, rfl⟩

theorem watchTag_aside (v : View) (d : Detection) : Aside v (v.watchTag hmac d) := by
  unfold watchTag
  split
  · exact tagWatch_aside v _
  · exact .refl v

theorem reviewWarning_aside (v : View) : Aside v v.reviewWarning := by
  unfold reviewWarning
  split
  · split
    · exact ⟨rfl, rfl, rfl, rfl⟩
    · exact .refl v
  · exact .refl v

theorem updateTagWatch_aside (v : View) : Aside v v.updateTagWatch := by
  have hother : Aside v v.endOtherWatch := by
    unfold endOtherWatch
    split
    · exact ⟨rfl, rfl, rfl, rfl⟩
    · exact .refl v
  exact (hother.trans (tagWatch_aside _ _)).trans (reviewWarning_aside _)

theorem updateDisplay_quiet (v : View) : Quiet v v.updateDisplay := by
  have hclock : Quiet v (if v.now < v.lastActivity then (v.wakeDisplay false).2 else v) := by
    split
    · exact wakeDisplay_quiet v false
    · exact .refl v
  unfold updateDisplay
  refine hclock.trans ?_
  generalize (if v.now < v.lastActivity then (v.wakeDisplay false).2 else v) = u
  dsimp only
  split
  · exact wakeDisplay_quiet u _
  · unfold settleDisplay
    split <;> exact .of_eq rfl rfl rfl rfl

theorem hear_aside (v : View) (o : Observation) (synthetic : Bool) : Aside v (v.hear o synthetic) :=
  ⟨rfl, rfl, rfl, rfl⟩

/-! ## The card -/

/-- The view without what it shows of the card. -/
def offCard (v : View) : View :=
  { v with
    notice := [], sd := false, sdError := false, sdReadOnly := false, sdChecking := false, exportStatus := .Idle
    exportedRows := 0, exportCount := 0, ejectStatus := .Idle }

theorem eq_of_offCard {α : Type} (f : View → α) (hf : ∀ u : View, f u.offCard = f u)
    (h : w.offCard = v.offCard) : f w = f v := by rw [← hf w, h, hf v]

theorem exportQueued_offCard (v : View) (accepted : Bool) : (v.exportQueued accepted).offCard = v.offCard := by
  unfold exportQueued
  split <;> rfl

theorem ejectQueued_offCard (v : View) (accepted : Bool) : (v.ejectQueued accepted).offCard = v.offCard := by
  unfold ejectQueued
  split <;> rfl

theorem poll_offCard (v : View) (p : Polled) : (v.poll p).offCard = v.offCard := by
  have heject : ∀ (u : View) (stopped failed : Bool), (u.ejectProgress stopped failed).offCard = u.offCard := by
    intro u stopped failed
    unfold ejectProgress
    split <;> rfl
  have hexport : ∀ (u : View) (completed rows : UInt32), (u.exportProgress completed rows).offCard = u.offCard := by
    intro u completed rows
    unfold exportProgress
    dsimp only
    repeat' split
    all_goals rfl
  have hwarn : ∀ u : View, u.warnReadOnly.offCard = u.offCard := by
    intro u
    unfold warnReadOnly
    split <;> rfl
  unfold poll
  rw [hwarn, hexport]
  exact heject (v.readCard p) p.ejected p.ejectFailed

/-! ## Events -/

theorem announceOutfit_aside (v : View) (unlocked : UInt8) : Aside v (v.announceOutfit unlocked) := by
  have hannounces : ∀ (n : Nat) (t : UInt64), Aside v { v with unlockedOutfit := n, unlockUntil := t } :=
    fun n t => ⟨rfl, rfl, rfl, rfl⟩
  unfold announceOutfit
  split
  · exact hannounces _ (v.now + 12000)
  · exact .refl v

theorem setBook_preview (v : View) (c : Companion) : Aside v (v.setBook true c) := ⟨rfl, rfl, rfl, rfl⟩

theorem setBook_learnt (v : View) (c : Companion) (hd : d.demo = false ∧ d.score ≤ 100)
    (hc : c = ((v.companion.observe d).unlock v.pet.xp).2) :
    Learnt d v { v with companion := c } ∧ ({ v with companion := c } : View).requests = v.requests :=
  ⟨⟨rfl, rfl, .inl rfl, .inr ⟨hd.1, hd.2, hc⟩, .inl rfl, fun _ he => .inr he, .inr ⟨rfl, .inl rfl⟩⟩, rfl⟩

theorem earnPreview_aside (v : View) (d : Detection) : Aside v (v.earnPreview d) := by
  unfold earnPreview
  split
  · exact ⟨rfl, rfl, rfl, rfl⟩
  · exact .refl v

/-- The book of the detection's mode. -/
theorem observe_learnt (v : View) (hscore : d.score ≤ 100) :
    Learnt d v (((v.observeScent d).earnPreview d).unlockOutfits d.demo).2 ∧
      (((v.observeScent d).earnPreview d).unlockOutfits d.demo).2.requests = v.requests := by
  unfold unlockOutfits
  dsimp only
  cases hdemo : d.demo with
  | true =>
    have hbooks : ∀ c c' : Companion, Aside v (((v.setBook true c).earnPreview d).setBook true c') := fun c c' =>
      ((setBook_preview v c).trans (earnPreview_aside _ d)).trans (setBook_preview _ c')
    rw [observeScent, hdemo]
    exact ⟨(Learnt.refl v d).before (hbooks _ _), (hbooks _ _).requests⟩
  | false =>
    have hearns : ∀ u : View, u.earnPreview d = u := by
      intro u
      unfold earnPreview
      rw [hdemo]
      rfl
    rw [hearns]
    have hbooks : ∀ c c' : Companion, (v.setBook false c).setBook false c' = { v with companion := c' } :=
      fun c c' => rfl
    rw [observeScent, hdemo, hbooks]
    exact setBook_learnt v _ ⟨hdemo, hscore⟩ rfl

theorem saveScent_learnt (news : Bool) (h : Learnt d v w) (hrequests : w.requests = v.requests) :
    Learnt d v (w.saveScent d news) := by
  unfold saveScent
  split
  · rename_i hsave
    rw [Bool.and_eq_true, Bool.not_eq_true'] at hsave
    refine ⟨h.base, h.activity, h.page, h.companion, .inr ⟨hsave.1, ?_⟩, h.recent, h.alert⟩
    unfold request
    dsimp only
    rw [hrequests]
  · exact h

theorem remember_learnt (h : Learnt d v w) : Learnt d v (w.remember d) := by
  refine ⟨h.base, h.activity, h.page, h.companion, h.requests, fun e he => ?_, h.alert⟩
  rcases List.mem_cons.mp (List.mem_of_mem_take he) with rfl | he
  · exact .inl rfl
  · exact h.recent e he

theorem learn_learnt (v : View) (hscore : d.score ≤ 100) : Learnt d v (v.learn d) := by
  obtain ⟨hlearnt, hrequests⟩ := observe_learnt v hscore
  unfold learn
  dsimp only
  generalize ((v.observeScent d).earnPreview d).unlockOutfits d.demo = unlocked at hlearnt hrequests
  have hannounces := announceOutfit_aside unlocked.2 unlocked.1
  exact remember_learnt (saveScent_learnt _ (hlearnt.before hannounces) (hannounces.requests.trans hrequests))

theorem alert_learnt (h : Learnt d v w) : Learnt d v (w.alert hmac d) := by
  unfold alert
  split
  · have hkept : w.wakeForAlert.kept = w.kept := by
      unfold wakeForAlert
      split <;> rfl
    have hactivity : w.wakeForAlert.lastActivity = w.lastActivity := by
      unfold wakeForAlert
      split <;> rfl
    have hpage : w.wakeForAlert.screen = w.screen ∨ w.wakeForAlert.screen = .Home := by
      unfold wakeForAlert
      split
      · exact .inl rfl
      · dsimp only
        split
        · exact .inr rfl
        · exact .inl rfl
    have hcompanion : w.wakeForAlert.companion = w.companion := congrArg Guarded.companion hkept
    have hrequests : w.wakeForAlert.requests = w.requests := congrArg Guarded.requests hkept
    have hrecent : w.wakeForAlert.recent = w.recent := congrArg Guarded.recent hkept
    have hbase : w.wakeForAlert.base = w.base := congrArg Guarded.base hkept
    generalize w.wakeForAlert = u at *
    generalize w.now + 5000 = t
    refine ⟨hbase.trans h.base, hactivity.trans h.activity, ?_, ?_, ?_, ?_, .inl rfl⟩
    · rcases hpage with hpage | hpage
      · dsimp only
        rw [hpage]
        exact h.page
      · exact .inr hpage
    · dsimp only
      rw [hcompanion]
      exact h.companion
    · dsimp only
      rw [hrequests]
      exact h.requests
    · dsimp only
      rw [hrecent]
      exact h.recent
  · split
    · refine ⟨h.base, h.activity, h.page, h.companion, h.requests, h.recent, ?_⟩
      rcases h.alert with halert | halert
      · exact .inl halert
      · exact .inr ⟨halert.1, .inr rfl⟩
    · exact h

theorem serveMeal_aside (v : View) (d : Detection) : Aside v (v.serveMeal d) := by
  have hserves : ∀ (c : Category) (t t' : UInt64), Aside v { v with
      mealCategory := c, mealUntil := t, celebrationUntil := t' } := fun c t t' => ⟨rfl, rfl, rfl, rfl⟩
  have hpreviews : ∀ (u : View) (fullness mood : UInt8),
      Aside u { u with previewFullness := fullness, previewMood := mood, previewDecayMs := u.now } :=
    fun u fullness mood => ⟨rfl, rfl, rfl, rfl⟩
  unfold serveMeal
  split
  · dsimp only
    split
    · refine (hserves d.category (v.now + mealDuration) (v.now + mealDuration + 2500)).trans ?_
      generalize Pet.nourish _ _ _ = n
      exact hpreviews _ n.1 n.2
    · exact hserves d.category _ _
  · exact .refl v

theorem event_learnt (hmac : Hmac) (v : View) (d : Detection) : Learnt d v (v.event hmac d) := by
  unfold event
  split
  · exact .refl v d
  · rename_i hplain
    have hscore : d.score ≤ 100 := by
      rw [not_or, not_or, UInt8.not_lt] at hplain
      exact hplain.2.2
    have hwatched : Aside v (v.updateTagWatch.watchTag hmac d) :=
      (updateTagWatch_aside v).trans (watchTag_aside v.updateTagWatch d)
    exact ((alert_learnt (learn_learnt _ hscore)).before (serveMeal_aside _ d)).after hwatched

end View

end Hound
