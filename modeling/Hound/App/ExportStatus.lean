import Hound.App.Device
import Hound.App.Slip
import Hound.Storage.ExportCompletes
import Hound.Storage.ExportSteps

/-!
# The status of an export

The view never hears of an export directly. It watches a counter and the flags that
bar an export, and lets the next export be asked for only once the status has moved
on. At most one export is then on its way, and a counter that has moved is that one's.
-/

namespace Hound

open Worker (Message Answers BootAnswers Turn)

def Worker.Message.isExport : Message → Bool
  | .Export => true
  | _ => false

def App.exports (a : App) : Nat := a.queue.countP Message.isExport

/-- The exports that the storage task holds. -/
def Stage.exports : Stage → Nat
  | .handling m => m.isExport.toNat
  | _ => 0

theorem Stage.handling_of_exports {stage : Stage} (h : stage.exports ≠ 0) : stage = .handling .Export := by
  cases stage with
  | handling m =>
    cases m with
    | Export => rfl
    | _ => exact absurd rfl h
  | _ => exact absurd rfl h

namespace Device

/-- The exports in the queue and in the storage task's hands. -/
def outstanding (d : Device) : Nat := d.app.exports + d.stage.exports

/-! ## The history of the exports -/

inductive ExportEvent where
  /-- A tap has set the status to Exporting. -/
  | asked
  /-- The queue has taken the message. -/
  | accepted
  | exported (rows : UInt32)
  | refused
  /-- The status is no longer Exporting. -/
  | resolved

/-- What a step of the application tells, by the status and the exports in the queue. -/
def turned (before after : ExportStatus) (queued queued' : Nat) : List ExportEvent :=
  (if before ≠ .Exporting ∧ after = .Exporting then [.asked] else []) ++
    ((if queued < queued' then [.accepted] else []) ++
      if before = .Exporting ∧ after ≠ .Exporting then [.resolved] else [])

/-- What the storage task tells of the message it handles. -/
def reported (s : Firmware) (d : Device) (a : Answers) : List ExportEvent :=
  match d.stage with
  | .handling .Export =>
    match d.worker.exportResult s a with
    | some rows => [.exported rows]
    | none => [.refused]
  | _ => []

def events (p : Platform) (s : Firmware) (d : Device) (i : Input) : List ExportEvent :=
  match i with
  | .app _ =>
    turned d.app.view.exportStatus (step p s d i).app.view.exportStatus d.app.exports (step p s d i).app.exports
  | .handle a => if d.app.started then d.reported s a else []
  | _ => []

/-- A device and the history of its exports. -/
abbrev Traced := Device × List ExportEvent

def next (p : Platform) (s : Firmware) (t : Traced) (i : Input) : Traced :=
  (step p s t.1 i, t.2 ++ events p s t.1 i)

def traced (p : Platform) (s : Firmware) (state : State) (b : App.Boot) (inputs : List Input) : Traced :=
  Runs.run (next p s) (power p state b, []) inputs

theorem traced_run (p : Platform) (s : Firmware) (state : State) (b : App.Boot) (inputs : List Input) :
    (traced p s state b inputs).1 = run p s state b inputs := by
  induction inputs using List.reverseRecOn with
  | nil => rfl
  | append_singleton inputs i ih =>
    unfold traced run at ih ⊢
    rw [Runs.run_concat, Runs.run_concat, ← ih]
    rfl

/-- The events since the status was last resolved. -/
def sinceResolved (history : List ExportEvent) : List ExportEvent :=
  history.foldl (fun since e => match e with
    | .resolved => []
    | e => since ++ [e]) []

@[simp] theorem sinceResolved_resolved (history : List ExportEvent) : sinceResolved (history ++ [.resolved]) = [] := by
  unfold sinceResolved
  rw [List.foldl_append]
  rfl

theorem sinceResolved_append {e : ExportEvent} (he : e ≠ .resolved) (history : List ExportEvent) :
    sinceResolved (history ++ [e]) = sinceResolved history ++ [e] := by
  unfold sinceResolved
  rw [List.foldl_append]
  cases e with
  | resolved => exact absurd rfl he
  | _ => rfl

/-! ## Counting exports -/

theorem exports_posted (a : App) : a.exports = a.posted.countP Message.isExport := by
  unfold App.exports App.posted
  rw [List.countP_filter]
  refine List.countP_congr fun m _ => ?_
  cases m <;> rfl

theorem exports_of_posted {a b : App} {ms : List Message} (h : b.posted = a.posted ++ ms) :
    b.exports = a.exports + ms.countP Message.isExport := by
  rw [exports_posted, exports_posted, h, List.countP_append]

theorem exports_same {a b : App} (h : b.posted = a.posted) : b.exports = a.exports := by
  rw [exports_posted, exports_posted, h]

@[simp] theorem turned_same (status : ExportStatus) (n : Nat) : turned status status n n = [] := by
  unfold turned
  rw [if_neg (fun h => h.1 h.2), if_neg (Nat.lt_irrefl n), if_neg (fun h => h.2 h.1)]
  rfl

end Device

/-! ## Where an export stands -/

/-- The flags of the card that the view has seen. -/
def Slip.barred (x : Slip) : Bool := !x.sd || x.sdReadOnly || x.sdError

namespace Device

/-- Nothing is asked for, and nothing is on its way. -/
structure Idle (x : Slip) (n : Nat) (h : Health) (since : List ExportEvent) : Prop where
  status : x.exportStatus ≠ .Exporting
  asks : x.asksExport = false
  count : x.exportCount = h.exports
  none : n = 0
  fresh : since = []

/-- What an export in flight comes to: the slip, the phase, the exports outstanding, the
health and the events since the last one was resolved. -/
inductive Standing (x : Slip) (q : Phase) (n : Nat) (h : Health) (since : List ExportEvent) : Prop where
  | idle (h : Idle x n h since)
  /-- The status was resolved by a flag, and the export may still be on its way. -/
  | shut (status : x.exportStatus ≠ .Exporting) (asks : x.asksExport = false) (count : x.exportCount = h.exports)
      (one : n ≤ 1) (seen : x.barred = true) (barred : h.barred = true)
  | asked (status : x.exportStatus = .Exporting) (asks : x.asksExport = true) (count : x.exportCount = h.exports)
      (none : n = 0) (turn : q = .button ∨ q = .serve) (since : since = [.asked])
  | waiting (status : x.exportStatus = .Exporting) (asks : x.asksExport = false) (count : x.exportCount = h.exports)
      (one : n = 1) (since : since = [.asked, .accepted])
  | exported (status : x.exportStatus = .Exporting) (asks : x.asksExport = false) (moved : h.exports ≠ x.exportCount)
      (none : n = 0) (since : since = [.asked, .accepted, .exported h.exportRows])
  | refused (status : x.exportStatus = .Exporting) (asks : x.asksExport = false) (count : x.exportCount = h.exports)
      (none : n = 0) (barred : h.barred = true)

section Standing

variable {x y : Slip} {q q' : Phase} {n : Nat} {h h' : Health} {since : List ExportEvent}

theorem Standing.single (hs : Standing x q n h since) : n ≤ 1 := by
  cases hs with
  | idle hidle => exact hidle.none.le.trans (Nat.zero_le 1)
  | shut _ _ _ one _ _ => exact one
  | asked _ _ _ none _ _ => exact none.le.trans (Nat.zero_le 1)
  | waiting _ _ _ one _ => exact one.le
  | exported _ _ _ none _ => exact none.le.trans (Nat.zero_le 1)
  | refused _ _ _ none _ => exact none.le.trans (Nat.zero_le 1)

/-! ### Taps -/

/-- What taps may do to an export. -/
structure Tapped (x y : Slip) : Prop where
  count : y.exportCount = x.exportCount
  barred : y.barred = x.barred
  complete : y.exportStatus = .Complete → x.exportStatus = .Complete
  asks : (y.exportStatus = .Exporting ↔ x.exportStatus = .Exporting) ∧ y.asksExport = x.asksExport ∨
    x.exportStatus ≠ .Exporting ∧ x.barred = false ∧ y.exportStatus = .Exporting ∧ y.asksExport = true

theorem tapped_refl (x : Slip) : Tapped x x := ⟨rfl, rfl, id, .inl ⟨Iff.rfl, rfl⟩⟩

theorem Tapped.trans {z : Slip} (hx : Tapped x y) (hy : Tapped y z) : Tapped x z := by
  refine ⟨hy.count.trans hx.count, hy.barred.trans hx.barred, fun hz => hx.complete (hy.complete hz), ?_⟩
  rcases hx.asks with ⟨hiff, hasks⟩ | ⟨hidle, hclear, hexporting, hasks⟩
  · rcases hy.asks with ⟨hiff', hasks'⟩ | ⟨hidle', hclear', hexporting', hasks'⟩
    · exact .inl ⟨hiff'.trans hiff, hasks'.trans hasks⟩
    · exact .inr ⟨fun h => hidle' (hiff.mpr h), hx.barred.symm.trans hclear', hexporting', hasks'⟩
  · rcases hy.asks with ⟨hiff', hasks'⟩ | ⟨hidle', -⟩
    · exact .inr ⟨hidle, hclear, hiff'.mpr hexporting, hasks'.trans hasks⟩
    · exact absurd hexporting hidle'

/-- A status that is set without an export. -/
theorem tapped_status {status : ExportStatus} (hx : x.exportStatus ≠ .Exporting) (hexporting : status ≠ .Exporting)
    (hcomplete : status ≠ .Complete) : Tapped x { x with exportStatus := status } :=
  ⟨rfl, rfl, fun h => absurd h hcomplete, .inl ⟨⟨fun h => absurd h hexporting, fun h => absurd h hx⟩, rfl⟩⟩

theorem requestExport_tapped (x : Slip) : Tapped x x.requestExport := by
  unfold Slip.requestExport
  split
  · exact tapped_refl x
  rename_i hidle
  split
  · exact tapped_status hidle nofun nofun
  split
  · exact tapped_status hidle nofun nofun
  split
  · exact tapped_status hidle nofun nofun
  rename_i hcard
  split
  · exact tapped_status hidle nofun nofun
  rename_i hread
  split
  · exact tapped_status hidle nofun nofun
  rename_i herror
  refine ⟨rfl, rfl, nofun, .inr ⟨hidle, ?_, rfl, rfl⟩⟩
  rw [not_or] at hcard
  rw [Bool.not_eq_true] at hread herror hcard
  unfold Slip.barred
  rw [hread, herror, hcard.1]
  rfl

theorem Tapped.of_wished (hw : Slip.Wished x y) : Tapped x y := by
  cases hw with
  | switched hswitched =>
    rw [hswitched]
    exact ⟨rfl, rfl, id, .inl ⟨Iff.rfl, rfl⟩⟩
  | touched htouched =>
    induction htouched with
    | refl => exact tapped_refl x
    | tail _ hwish ih =>
      refine ih.trans ?_
      cases hwish with
      | export' => exact requestExport_tapped _
      | eject =>
        unfold Slip.requestEject
        repeat' split
        all_goals exact ⟨rfl, rfl, id, .inl ⟨Iff.rfl, rfl⟩⟩

/-! ### Polls -/

theorem poll_barred (x : Slip) (h : Health) : (x.poll (polled h)).barred = h.barred := by
  have hprogress : ∀ (z : Slip) (completed rows : UInt32), (z.exportProgress completed rows).barred = z.barred := by
    intro z completed rows
    unfold Slip.exportProgress
    split <;> rfl
  have heject : ∀ (z : Slip) (stopped failed : Bool), (z.ejectProgress stopped failed).sd = z.sd := by
    intro z stopped failed
    unfold Slip.ejectProgress
    split <;> rfl
  unfold Slip.poll
  rw [hprogress]
  change (!(((x.readCard (polled h)).ejectProgress h.ejected h.ejectFailed).sd) || h.readOnly || h.failed) = h.barred
  rw [heject]
  change (!(h.mounted && !h.ejected) || h.readOnly || h.failed) = h.barred
  rw [Bool.not_and, Bool.not_not]
  rfl

/-- The slip before the poll looks at the counter. -/
theorem poll_eq (x : Slip) (h : Health) : ∃ z : Slip, x.poll (polled h) = z.exportProgress h.exports h.exportRows ∧
    z.exportStatus = x.exportStatus ∧ z.exportCount = x.exportCount ∧ z.asksExport = x.asksExport := by
  refine ⟨_, rfl, ?_⟩
  unfold Slip.ejectProgress
  split <;> exact ⟨rfl, rfl, rfl⟩

theorem poll_count (x : Slip) (h : Health) :
    (x.poll (polled h)).exportCount = h.exports ∧ (x.poll (polled h)).asksExport = x.asksExport := by
  obtain ⟨z, hpoll, -, -, hasks⟩ := poll_eq x h
  rw [hpoll]
  unfold Slip.exportProgress
  split
  · exact ⟨rfl, hasks⟩
  · exact ⟨rfl, hasks⟩

theorem poll_idle (hidle : x.exportStatus ≠ .Exporting) : (x.poll (polled h)).exportStatus = x.exportStatus := by
  obtain ⟨z, hpoll, hstatus, -⟩ := poll_eq x h
  rw [hpoll]
  unfold Slip.exportProgress
  rw [if_neg (by rw [hstatus]; exact hidle)]
  exact hstatus

theorem poll_moved (hbusy : x.exportStatus = .Exporting) (hmoved : h.exports ≠ x.exportCount) :
    (x.poll (polled h)).exportStatus = .Complete ∧ (x.poll (polled h)).exportedRows = h.exportRows := by
  obtain ⟨z, hpoll, hstatus, hcount, -⟩ := poll_eq x h
  rw [hpoll]
  rw [← hcount] at hmoved
  unfold Slip.exportProgress Slip.progress
  rw [if_pos (hstatus.trans hbusy), if_pos hmoved, if_pos hmoved]
  exact ⟨rfl, rfl⟩

/-- An export that has not gone through is over only when a flag is up. -/
theorem poll_still (hbusy : x.exportStatus = .Exporting) (hstill : x.exportCount = h.exports) :
    (x.poll (polled h)).exportStatus ≠ .Complete ∧
      ((x.poll (polled h)).exportStatus = .Exporting ↔ h.barred = false) := by
  have hbarred := poll_barred x h
  obtain ⟨z, hpoll, hstatus, hcount, -⟩ := poll_eq x h
  rw [hpoll] at hbarred ⊢
  rw [← hbarred]
  unfold Slip.exportProgress Slip.progress Slip.barred
  rw [if_pos (hstatus.trans hbusy), if_neg (fun hne => hne (hstill.symm.trans hcount.symm))]
  dsimp only
  cases z.sdError <;> cases z.sdReadOnly <;> cases z.sd <;> simp

/-! ### The history of one step -/

section History

variable {before after : ExportStatus} {history : List ExportEvent} {m : Nat}

theorem turned_quiet (h : after = .Exporting ↔ before = .Exporting) : turned before after m m = [] := by
  unfold turned
  rw [if_neg (fun hasks => hasks.1 (h.mp hasks.2)), if_neg (Nat.lt_irrefl m),
    if_neg (fun hends => hends.2 (h.mpr hends.1))]
  rfl

theorem turned_asked (hbefore : before ≠ .Exporting) (hafter : after = .Exporting) :
    turned before after m m = [.asked] := by
  unfold turned
  rw [if_pos ⟨hbefore, hafter⟩, if_neg (Nat.lt_irrefl m), if_neg (fun hends => hbefore hends.1)]
  rfl

theorem turned_accepted (hbefore : before = .Exporting) (hafter : after = .Exporting) :
    turned before after m (m + 1) = [.accepted] := by
  unfold turned
  rw [if_neg (fun hasks => hasks.1 hbefore), if_pos (Nat.lt_succ_self m), if_neg (fun hends => hends.2 hafter)]
  rfl

theorem turned_resolved (hbefore : before = .Exporting) (hafter : after ≠ .Exporting) :
    turned before after m m = [.resolved] := by
  unfold turned
  rw [if_neg (fun hasks => hafter hasks.2), if_neg (Nat.lt_irrefl m), if_pos ⟨hbefore, hafter⟩]
  rfl

/-- A step that changes neither the slip's export nor what is on its way. -/
theorem Standing.keep (hs : Standing x q n h since) (hstatus : y.exportStatus = .Exporting ↔ x.exportStatus = .Exporting)
    (hasks : y.asksExport = x.asksExport) (hcount : y.exportCount = x.exportCount) (hbarred : y.barred = x.barred)
    (hturn : x.asksExport = true → q = .button ∨ q = .serve → q' = .button ∨ q' = .serve) :
    Standing y q' n h since := by
  cases hs with
  | idle hidle =>
    exact .idle ⟨fun hbusy => hidle.status (hstatus.mp hbusy), hasks.trans hidle.asks, hcount.trans hidle.count,
      hidle.none, hidle.fresh⟩
  | shut status asks count one seen barred =>
    exact .shut (fun hbusy => status (hstatus.mp hbusy)) (hasks.trans asks) (hcount.trans count) one
      (hbarred.trans seen) barred
  | asked status asks count none turn since =>
    exact .asked (hstatus.mpr status) (hasks.trans asks) (hcount.trans count) none (hturn asks turn) since
  | waiting status asks count one since =>
    exact .waiting (hstatus.mpr status) (hasks.trans asks) (hcount.trans count) one since
  | exported status asks moved none since =>
    exact .exported (hstatus.mpr status) (hasks.trans asks) (by rw [hcount]; exact moved) none since
  | refused status asks count none barred =>
    exact .refused (hstatus.mpr status) (hasks.trans asks) (hcount.trans count) none barred

theorem Standing.touch (hs : Standing x .touch n h (sinceResolved history)) (ht : Tapped x y) :
    Standing y .button n h (sinceResolved (history ++ turned x.exportStatus y.exportStatus m m)) := by
  rcases ht.asks with ⟨hiff, hasks⟩ | ⟨hidle, hclear, hexporting, hasks⟩
  · rw [turned_quiet hiff, List.append_nil]
    exact hs.keep hiff hasks ht.count ht.barred fun _ _ => .inl rfl
  · rw [turned_asked hidle hexporting, sinceResolved_append ExportEvent.noConfusion]
    cases hs with
    | idle h =>
      refine .asked hexporting hasks (ht.count.trans h.count) h.none (.inl rfl) ?_
      rw [h.fresh]
      rfl
    | shut _ _ _ _ seen _ => exact absurd (seen.symm.trans hclear) Bool.noConfusion
    | asked status => exact absurd status hidle
    | waiting status => exact absurd status hidle
    | exported status => exact absurd status hidle
    | refused status => exact absurd status hidle

theorem Standing.rest (hs : Standing x .rest n h (sinceResolved history)) :
    Standing (x.poll (polled h)) .head n h
      (sinceResolved (history ++ turned x.exportStatus (x.poll (polled h)).exportStatus m m)) := by
  obtain ⟨hcount, hasks⟩ := poll_count x h
  have hquiet : x.exportStatus ≠ .Exporting →
      history ++ turned x.exportStatus (x.poll (polled h)).exportStatus m m = history := by
    intro hidle
    rw [poll_idle hidle, turned_same, List.append_nil]
  have hresolves : x.exportStatus = .Exporting → (x.poll (polled h)).exportStatus ≠ .Exporting →
      sinceResolved (history ++ turned x.exportStatus (x.poll (polled h)).exportStatus m m) = [] := by
    intro hbusy hover
    rw [turned_resolved hbusy hover, sinceResolved_resolved]
  cases hs with
  | idle hidle =>
    rw [hquiet hidle.status]
    exact .idle ⟨by rw [poll_idle hidle.status]; exact hidle.status, hasks.trans hidle.asks, hcount, hidle.none, hidle.fresh⟩
  | shut status asks count one seen barred =>
    exact .shut (by rw [poll_idle status]; exact status) (hasks.trans asks) hcount one
      ((poll_barred x h).trans barred) barred
  | asked _ _ _ _ turn _ => rcases turn with hq | hq <;> exact Phase.noConfusion hq
  | waiting status asks count one since =>
    obtain ⟨-, hiff⟩ := poll_still status count
    cases hbarred : h.barred with
    | false =>
      have hgoes := hiff.mpr hbarred
      rw [status, hgoes, turned_same, List.append_nil]
      exact .waiting hgoes (hasks.trans asks) hcount one since
    | true =>
      have hover : (x.poll (polled h)).exportStatus ≠ .Exporting := fun hgoes =>
        Bool.noConfusion ((hiff.mp hgoes).symm.trans hbarred)
      exact .shut hover (hasks.trans asks) hcount one.le ((poll_barred x h).trans hbarred) hbarred
  | exported status asks moved none since =>
    have hover : (x.poll (polled h)).exportStatus ≠ .Exporting := by
      rw [(poll_moved status moved).1]
      exact nofun
    exact .idle ⟨hover, hasks.trans asks, hcount, none, hresolves status hover⟩
  | refused status asks count none barred =>
    obtain ⟨-, hiff⟩ := poll_still status count
    have hover : (x.poll (polled h)).exportStatus ≠ .Exporting := fun hgoes =>
      Bool.noConfusion ((hiff.mp hgoes).symm.trans barred)
    exact .idle ⟨hover, hasks.trans asks, hcount, none, hresolves status hover⟩

end History

end Standing

/-! ## The steps of the application -/

section App

variable {a b c : App} {q : Phase} {n : Nat} {h : Health} {history : List ExportEvent}

/-- What an eject leaves of an export. -/
theorem eject_offered {asked : Bool} (ho : App.Offered asked .Eject Slip.ejectQueued a b) :
    b.view.slip.exportStatus = a.view.slip.exportStatus ∧ b.view.slip.asksExport = a.view.slip.asksExport ∧
      b.view.slip.exportCount = a.view.slip.exportCount ∧ b.view.slip.barred = a.view.slip.barred ∧
      b.exports = a.exports := by
  obtain ⟨-, hoffered⟩ := ho
  split at hoffered
  · obtain ⟨accepted, hslip, hposted⟩ := hoffered
    have hexports : b.exports = a.exports := by
      rw [exports_of_posted hposted]
      cases accepted <;> rfl
    rw [hslip]
    unfold Slip.ejectQueued
    split <;> exact ⟨rfl, rfl, rfl, rfl, hexports⟩
  · rw [hoffered.slip]
    exact ⟨rfl, rfl, rfl, rfl, exports_same hoffered.posted⟩

theorem Standing.serve {d : App} {k : Nat} (hs : Standing a.view.slip q (a.exports + k) h (sinceResolved history))
    (hexport : App.Offered a.view.slip.asksExport .Export Slip.exportQueued a.unasked c)
    (heject : App.Offered (a.view.slip.asksEject && !a.view.slip.demo) .Eject Slip.ejectQueued c d)
    (hslip : b.view.slip = d.view.slip) (hposted : b.posted = d.posted) :
    Standing b.view.slip .demo (b.exports + k) h (sinceResolved
      (history ++ turned a.view.slip.exportStatus b.view.slip.exportStatus a.exports b.exports)) := by
  obtain ⟨hstatus, hasks, hcount, hbarred, hexports⟩ := eject_offered heject
  rw [← exports_same hposted] at hexports
  rw [← hslip] at hstatus hasks hcount hbarred
  obtain ⟨-, hoffered⟩ := hexport
  cases hasked : a.view.slip.asksExport with
  | false =>
    rw [hasked, if_neg Bool.false_ne_true] at hoffered
    have hsame : b.exports = a.exports := hexports.trans (exports_same hoffered.posted)
    have hslip' : c.view.slip = a.view.slip.unasked := hoffered.slip
    rw [hslip'] at hstatus hasks hcount hbarred
    rw [hsame, show b.view.slip.exportStatus = a.view.slip.exportStatus from hstatus, turned_same, List.append_nil]
    exact hs.keep (by rw [hstatus]; rfl) (hasks.trans hasked.symm) hcount hbarred fun hturn =>
      absurd (hasked.symm.trans hturn) Bool.noConfusion
  | true =>
    rw [hasked, if_pos rfl] at hoffered
    obtain ⟨accepted, hqueued, hqueue⟩ := hoffered
    cases hs with
    | asked status asks count none turn since =>
      obtain ⟨hempty, hfree⟩ := Nat.add_eq_zero_iff.mp none
      cases accepted with
      | true =>
        have hslip' : c.view.slip = a.view.slip.unasked := by
          rw [hqueued]
          unfold Slip.exportQueued
          exact if_neg fun hfull => Bool.noConfusion hfull.2
        have hgrown : b.exports = a.exports + 1 := hexports.trans (exports_of_posted hqueue)
        rw [hslip'] at hstatus hasks hcount
        have hgoes : b.view.slip.exportStatus = .Exporting := hstatus.trans status
        rw [hgrown, turned_accepted status hgoes, sinceResolved_append ExportEvent.noConfusion, since]
        exact .waiting hgoes hasks (hcount.trans count) (by rw [hempty, hfree]) rfl
      | false =>
        have hslip' : c.view.slip = { a.view.slip.unasked with exportStatus := .QueueFull } := by
          rw [hqueued]
          unfold Slip.exportQueued
          exact if_pos ⟨status, rfl⟩
        have hsame : b.exports = a.exports := hexports.trans (exports_of_posted hqueue)
        rw [hslip'] at hstatus hasks hcount
        have hover : b.view.slip.exportStatus ≠ .Exporting := by
          rw [hstatus]
          exact nofun
        rw [hsame, turned_resolved status hover, sinceResolved_resolved]
        exact .idle ⟨hover, hasks, hcount.trans count, by rw [hempty, hfree], rfl⟩
    | idle hidle => exact absurd (hasked.symm.trans hidle.asks) Bool.noConfusion
    | shut _ asks => exact absurd (hasked.symm.trans asks) Bool.noConfusion
    | waiting _ asks => exact absurd (hasked.symm.trans asks) Bool.noConfusion
    | exported _ asks => exact absurd (hasked.symm.trans asks) Bool.noConfusion
    | refused _ asks => exact absurd (hasked.symm.trans asks) Bool.noConfusion

theorem Standing.app {i : App.Input} {k : Nat}
    (hs : Standing a.view.slip a.phase (a.exports + k) h (sinceResolved history)) (hw : App.Writes a b i)
    (hpolled : ∀ r, i = .rest r → r.polled = polled h) :
    Standing b.view.slip b.phase (b.exports + k) h (sinceResolved
      (history ++ turned a.view.slip.exportStatus b.view.slip.exportStatus a.exports b.exports)) := by
  cases hw with
  | aside hslip hposted hphase =>
    rw [hslip, exports_same hposted, turned_same, List.append_nil]
    refine hs.keep Iff.rfl rfl rfl rfl fun _ hturn => ?_
    rcases hphase with hsame | ⟨-, hserve⟩ | ⟨hbutton, hserve⟩
    · rw [hsame]
      exact hturn
    · exact .inr hserve
    · exact absurd hturn (not_or.mpr ⟨hbutton, hserve⟩)
  | touch hwishing hphase hturn =>
    rw [hturn] at hs
    rw [hphase, exports_same hwishing.posted]
    exact hs.touch (.of_wished hwishing.slip)
  | serve hexport heject hslip hposted hphase =>
    rw [hphase]
    exact hs.serve hexport heject hslip hposted
  | rest hslip hposted hphase hturn =>
    rw [hturn] at hs
    rw [hphase, exports_same hposted, hslip, hpolled _ rfl]
    exact hs.rest

/-- While the storage task starts there is no card, and nothing can be asked for. -/
structure Dark (x : Slip) (n : Nat) (h : Health) (since : List ExportEvent) : Prop extends Idle x n h since where
  seen : x.barred = true
  barred : h.barred = true
  zero : h.exports = 0

theorem Dark.app {i : App.Input} {k : Nat}
    (hd : Dark a.view.slip (a.exports + k) h (sinceResolved history)) (hw : App.Writes a b i)
    (hpolled : ∀ r, i = .rest r → r.polled = polled h) :
    Dark b.view.slip (b.exports + k) h (sinceResolved
      (history ++ turned a.view.slip.exportStatus b.view.slip.exportStatus a.exports b.exports)) := by
  have hkeeps : ∀ {y : Slip}, b.view.slip = y → b.exports = a.exports →
      (y.exportStatus = .Exporting ↔ a.view.slip.exportStatus = .Exporting) → y.asksExport = false →
      y.exportCount = a.view.slip.exportCount ∨ y.exportCount = h.exports → y.barred = true →
      Dark b.view.slip (b.exports + k) h (sinceResolved
        (history ++ turned a.view.slip.exportStatus b.view.slip.exportStatus a.exports b.exports)) := by
    intro y hy hexports hstatus hasks hcount hbarred
    rw [hy, hexports, turned_quiet hstatus, List.append_nil]
    refine ⟨⟨fun hbusy => hd.status (hstatus.mp hbusy), hasks, ?_, hd.none, hd.fresh⟩, hbarred, hd.barred, hd.zero⟩
    rcases hcount with hcount | hcount
    · exact hcount.trans hd.count
    · exact hcount
  cases hw with
  | aside hslip hposted _ =>
    exact hkeeps hslip (exports_same hposted) Iff.rfl hd.asks (.inl rfl) hd.seen
  | touch hwishing _ _ =>
    have htapped := Tapped.of_wished hwishing.slip
    rcases htapped.asks with ⟨hiff, hasks⟩ | ⟨-, hclear, -⟩
    · exact hkeeps rfl (exports_same hwishing.posted) hiff (hasks.trans hd.asks) (.inl htapped.count)
        (htapped.barred.trans hd.seen)
    · exact absurd (hd.seen.symm.trans hclear) Bool.noConfusion
  | serve hexport heject hslip hposted _ =>
    obtain ⟨hstatus, hasks, hcount, hbarred, hexports⟩ := eject_offered heject
    obtain ⟨-, hoffered⟩ := hexport
    rw [hd.asks, if_neg Bool.false_ne_true] at hoffered
    rw [hoffered.slip] at hstatus hasks hcount hbarred
    exact hkeeps hslip ((exports_same hposted).trans (hexports.trans (exports_same hoffered.posted)))
      (by rw [hstatus]; rfl) hasks (.inl hcount) (hbarred.trans hd.seen)
  | rest hslip hposted _ _ =>
    obtain ⟨hcount, hasks⟩ := poll_count a.view.slip h
    refine hkeeps (hslip.trans (by rw [hpolled _ rfl])) (exports_same hposted) ?_ (hasks.trans hd.asks) (.inr hcount)
      ((poll_barred _ h).trans hd.barred)
    rw [poll_idle hd.status]

end App

/-! ## The steps of the storage task -/

section Work

variable {x : Slip} {q : Phase} {n : Nat} {w w' : Worker} {since : List ExportEvent}

theorem Standing.onward (hs : Standing x q n w.health since) (hw : w.Marked) (ho : Worker.Onward w w') :
    Standing x q n w'.health since := by
  cases hs with
  | idle hidle => exact .idle ⟨hidle.status, hidle.asks, hidle.count.trans ho.exports.symm, hidle.none, hidle.fresh⟩
  | shut status asks count one seen barred =>
    exact .shut status asks (count.trans ho.exports.symm) one seen (ho.barred hw barred)
  | asked status asks count none turn since => exact .asked status asks (count.trans ho.exports.symm) none turn since
  | waiting status asks count one since => exact .waiting status asks (count.trans ho.exports.symm) one since
  | exported status asks moved none since =>
    exact .exported status asks (by rw [ho.exports]; exact moved) none (by rw [ho.exportRows]; exact since)
  | refused status asks count none barred =>
    exact .refused status asks (count.trans ho.exports.symm) none (ho.barred hw barred)

/-- The export in the storage task's hands is handled. -/
theorem Standing.export' {history : List ExportEvent} {s : Firmware} {a : Answers}
    (hs : Standing x q (n + 1) w.health (sinceResolved history)) :
    Standing x q n (w.exportRows s a).value.health (sinceResolved (history ++ match w.exportResult s a with
      | some rows => [.exported rows]
      | none => [.refused])) := by
  obtain ⟨hbars, hresult⟩ := Worker.exportRows_spec (s := s) w a
  cases hs with
  | idle hidle => exact absurd hidle.none (Nat.succ_ne_zero n)
  | asked _ _ _ none => exact absurd none (Nat.succ_ne_zero n)
  | exported _ _ _ none => exact absurd none (Nat.succ_ne_zero n)
  | refused _ _ _ none => exact absurd none (Nat.succ_ne_zero n)
  | shut status asks count one seen barred =>
    have hn : n ≤ 1 := (Nat.le_succ n).trans one
    generalize w.exportResult s a = result at hresult
    cases result with
    | some rows => exact absurd (barred.symm.trans hresult.1) Bool.noConfusion
    | none => exact .shut status asks (count.trans hresult.2.symm) hn seen hresult.1
  | waiting status asks count one since =>
    have hn : n = 0 := Nat.succ.inj one
    generalize w.exportResult s a = result at hresult
    cases result with
    | some rows =>
      obtain ⟨-, hexports, hrows⟩ := hresult
      have hmoved : (w.exportRows s a).value.health.exports ≠ x.exportCount := by
        rw [hexports, count]
        intro heq
        simp at heq
      refine .exported status asks hmoved hn ?_
      rw [hrows, sinceResolved_append ExportEvent.noConfusion, since]
      rfl
    | none => exact .refused status asks (count.trans hresult.2.symm) hn hresult.1

end Work

/-! ## The run -/

structure Sure (t : Traced) : Prop where
  marked : t.1.worker.Marked
  standing : Standing t.1.app.view.slip t.1.app.phase t.1.outstanding t.1.worker.health (sinceResolved t.2)
  dark : t.1.stage = .starting → Dark t.1.app.view.slip t.1.outstanding t.1.worker.health (sinceResolved t.2)

variable {p : Platform} {s : Firmware} {t : Traced}

theorem app_sure (h : Sure t) {i : App.Input} (htask : i ≠ .taken) : Sure (next p s t (.app i)) := by
  have hstep : step p s t.1 (.app i) = { t.1 with app := t.1.app.step p (look t.1.worker.health i) } := by
    cases i with
    | taken => exact absurd rfl htask
    | _ => rfl
  have hwrites := App.step_writes (p := p) t.1.app (look_taken (h := t.1.worker.health) htask)
  have hpolled : ∀ r, look t.1.worker.health i = .rest r → r.polled = polled t.1.worker.health :=
    fun r => polled_of_look
  unfold next events
  rw [hstep]
  exact ⟨h.marked, h.standing.app hwrites hpolled, fun hstage => (h.dark hstage).app hwrites hpolled⟩

/-- A step of the storage task that handles no export. -/
theorem onward_sure (h : Sure t) {d : Device} (happ : d.app.view = t.1.app.view) (hphase : d.app.phase = t.1.app.phase)
    (hout : d.outstanding = t.1.outstanding) (ho : Worker.Onward t.1.worker d.worker) (hstage : d.stage ≠ .starting) :
    Sure (d, t.2) := by
  refine ⟨ho.marked h.marked, ?_, fun hstarting => absurd hstarting hstage⟩
  dsimp only
  rw [happ, hphase, hout]
  exact h.standing.onward h.marked ho

theorem boot_health (a : BootAnswers) : (Worker.boot a).value.health.exports = 0 ∧ (Worker.boot a).value.Marked := by
  unfold Worker.boot
  dsimp only
  split
  · exact ⟨rfl, nofun⟩
  · simp only [Logged.value_bind]
    split
    · exact ⟨rfl, nofun⟩
    · exact ⟨rfl, nofun⟩

theorem receive_sure (h : Sure t) (hstage : t.1.stage = .receiving) : Sure (t.1.receive, t.2) := by
  have hheld : t.1.outstanding = t.1.app.exports + 0 := by
    unfold outstanding
    rw [hstage]
    rfl
  unfold receive
  split
  · exact onward_sure h rfl rfl hheld.symm (.refl _) nofun
  · rename_i m queue hqueue
    refine onward_sure h rfl rfl ?_ (.refl _) nofun
    rw [hheld]
    change queue.countP Message.isExport + m.isExport.toNat = t.1.app.queue.countP Message.isExport + 0
    rw [hqueue, List.countP_cons]
    cases m <;> rfl

theorem handled_sure (h : Sure t) {m : Message} (hstage : t.1.stage = .handling m) (a : Answers) :
    Sure (t.1.handled s m a, t.2 ++ t.1.reported s a) := by
  have hheld : t.1.outstanding = t.1.app.exports + m.isExport.toNat := by
    unfold outstanding
    rw [hstage]
    rfl
  have hidles : ∀ asleep : Bool, (if asleep then Stage.asleep else .idling).exports = 0 ∧
      (if asleep then Stage.asleep else .idling) ≠ .starting := by
    intro asleep
    cases asleep with
    | true => exact ⟨rfl, nofun⟩
    | false => exact ⟨rfl, nofun⟩
  obtain ⟨hfree, hgoes⟩ := hidles (t.1.worker.handle s m a).value.asleep
  have hout : (t.1.handled s m a).outstanding = t.1.app.exports := congrArg (t.1.app.exports + ·) hfree
  by_cases hm : m = .Export
  · subst hm
    have hreports : t.1.reported s a = match t.1.worker.exportResult s a with
        | some rows => [.exported rows]
        | none => [.refused] := by
      unfold reported
      rw [hstage]
    have hstanding := h.standing
    rw [hheld] at hstanding
    have hspace := Worker.Onward.still (Worker.spaceStatus_still (t.1.worker.exportRows s a).value a.space)
    have hexported := hstanding.export' (s := s) (a := a)
    have hbars := (Worker.exportRows_spec (s := s) t.1.worker a).1
    refine ⟨hspace.marked (hbars.marked h.marked), ?_, fun hstarting => absurd hstarting hgoes⟩
    change Standing t.1.app.view.slip t.1.app.phase (t.1.handled s .Export a).outstanding _ _
    rw [hout, hreports]
    exact hexported.onward (hbars.marked h.marked) hspace
  · have hreports : t.1.reported s a = [] := by
      unfold reported
      rw [hstage]
      cases m with
      | Export => exact absurd rfl hm
      | _ => rfl
    have hnone : m.isExport = false := by
      cases m with
      | Export => exact absurd rfl hm
      | _ => rfl
    rw [hreports, List.append_nil]
    refine onward_sure h rfl rfl ?_ (Worker.handle_onward t.1.worker hm a) hgoes
    rw [hout, hheld, hnone]
    rfl

theorem mount_sure (h : Sure t) (hstage : t.1.stage = .starting) (a : BootAnswers) :
    Sure ({ t.1 with worker := (Worker.boot a).value, stage := .preparing }, t.2) := by
  have hdark := h.dark hstage
  obtain ⟨hexports, hmarked⟩ := boot_health a
  have hout : t.1.outstanding = t.1.app.exports + 0 := by
    unfold outstanding
    rw [hstage]
    rfl
  refine ⟨hmarked, .idle ⟨hdark.status, hdark.asks, ?_, hout.symm.trans hdark.none, hdark.fresh⟩, nofun⟩
  rw [hdark.count, hdark.zero]
  exact hexports.symm

theorem work_sure (h : Sure t) {i : Input} (hi : ∀ j, i ≠ .app j) :
    Sure (t.1.work s i, t.2 ++ match i with | .handle a => t.1.reported s a | _ => []) := by
  have hkeeps : ∀ {d : Device} {stage : Stage}, t.1.stage = stage → stage.exports = 0 → d.app = t.1.app →
      d.stage.exports = 0 → d.outstanding = t.1.outstanding := by
    intro d stage hstage hnone happ hfree
    unfold outstanding
    rw [happ, hfree, hstage, hnone]
  cases i with
  | app j => exact absurd rfl (hi j)
  | mount a =>
    rw [List.append_nil]
    unfold work
    cases hstage : t.1.stage with
    | starting => exact mount_sure h hstage a
    | _ => exact h
  | prepare turn =>
    rw [List.append_nil]
    unfold work
    cases hstage : t.1.stage with
    | preparing =>
      exact onward_sure h rfl rfl (hkeeps hstage rfl rfl rfl) (Worker.prepare_onward t.1.worker turn) nofun
    | _ => exact h
  | receive =>
    rw [List.append_nil]
    unfold work
    cases hstage : t.1.stage with
    | receiving => exact receive_sure h hstage
    | _ => exact h
  | handle a =>
    have hsilent : (∀ m, t.1.stage ≠ .handling m) → t.2 ++ t.1.reported s a = t.2 := by
      intro hother
      unfold reported
      split
      · rename_i hstage
        exact absurd hstage (hother _)
      · exact List.append_nil _
    unfold work
    cases hstage : t.1.stage with
    | handling m => exact handled_sure h hstage a
    | _ =>
      dsimp only
      rw [hsilent (fun m hm => Stage.noConfusion (hstage.symm.trans hm))]
      exact h
  | idle turn =>
    rw [List.append_nil]
    unfold work
    cases hstage : t.1.stage with
    | idling => exact onward_sure h rfl rfl (hkeeps hstage rfl rfl rfl) (Worker.idle_onward t.1.worker turn) nofun
    | _ => exact h

theorem next_sure (h : Sure t) (i : Input) : Sure (next p s t i) := by
  cases i with
  | app j =>
    by_cases htask : j = .taken
    · subst htask
      have hsame : next p s t (.app .taken) = t := by
        unfold next events
        dsimp only [step]
        rw [turned_same, List.append_nil]
      rw [hsame]
      exact h
    · exact app_sure h htask
  | _ =>
    unfold next events step
    dsimp only
    cases hstarted : t.1.app.started with
    | false =>
      simp only [Bool.false_eq_true, if_false, List.append_nil]
      exact h
    | true =>
      simp only [if_true]
      exact work_sure h fun _ hi => Input.noConfusion hi

theorem power_sure (p : Platform) (state : State) (b : App.Boot) : Sure (power p state b, []) := by
  obtain ⟨hslip, hposted, -⟩ := App.boot_slip p state b
  have hout : (power p state b).outstanding = 0 := by
    change (App.boot p state b).value.exports + 0 = 0
    rw [exports_posted, hposted]
    rfl
  have hhealth : ∀ {h : Health}, (power p state b).worker.health = h → h.exports = 0 ∧ h.readOnly = false ∧
      h.barred = true := by
    intro h hh
    rw [← hh]
    unfold power
    split <;> exact ⟨rfl, rfl, rfl⟩
  obtain ⟨hexports, hread, hbarred⟩ := hhealth rfl
  have hdark : Dark (power p state b).app.view.slip (power p state b).outstanding (power p state b).worker.health [] := by
    rw [show (power p state b).app.view.slip = ({} : View).slip from hslip, hout]
    exact ⟨⟨nofun, rfl, hexports.symm, rfl, rfl⟩, rfl, hbarred, hexports⟩
  exact ⟨fun hup => Bool.noConfusion (hread.symm.trans hup), .idle hdark.toIdle, fun _ => hdark⟩

theorem traced_sure (p : Platform) (s : Firmware) (state : State) (b : App.Boot) (inputs : List Input) :
    Sure (traced p s state b inputs) :=
  Runs.invariant Sure (fun _ i h => next_sure h i) (power_sure p state b) inputs

/-- Only a poll tells that an export is complete, and it is the one that was asked for. -/
theorem complete_of_writes (hs : Sure t) {a b : App} {i : App.Input} (ha : a = t.1.app) (hw : App.Writes a b i)
    (hpolled : ∀ r, i = .rest r → r.polled = polled t.1.worker.health)
    (hbefore : a.view.exportStatus ≠ .Complete) (hafter : b.view.exportStatus = .Complete) :
    sinceResolved t.2 = [.asked, .accepted, .exported b.view.exportedRows] := by
  subst ha
  have hstanding := hs.standing
  cases hw with
  | aside hslip _ _ => exact absurd ((congrArg Slip.exportStatus hslip).symm.trans hafter) hbefore
  | touch hwishing _ _ => exact absurd ((Tapped.of_wished hwishing.slip).complete hafter) hbefore
  | @serve _ c _ hexport heject hslip _ _ =>
    have hstatus : c.view.slip.exportStatus = .Complete :=
      (eject_offered heject).1.symm.trans ((congrArg Slip.exportStatus hslip).symm.trans hafter)
    obtain ⟨-, hoffered⟩ := hexport
    split at hoffered
    · obtain ⟨accepted, hqueued, -⟩ := hoffered
      rw [hqueued] at hstatus
      unfold Slip.exportQueued at hstatus
      split at hstatus
      · exact ExportStatus.noConfusion hstatus
      · exact absurd hstatus hbefore
    · rw [hoffered.slip] at hstatus
      exact absurd hstatus hbefore
  | rest hslip _ _ hturn =>
    rw [hpolled _ rfl] at hslip
    have hstatus : (t.1.app.view.slip.poll (polled t.1.worker.health)).exportStatus = .Complete :=
      (congrArg Slip.exportStatus hslip).symm.trans hafter
    cases hstanding with
    | idle hidle => exact absurd ((poll_idle hidle.status).symm.trans hstatus) hbefore
    | shut status => exact absurd ((poll_idle status).symm.trans hstatus) hbefore
    | asked _ _ _ _ turn _ =>
      rw [hturn] at turn
      rcases turn with hq | hq <;> exact Phase.noConfusion hq
    | waiting status _ count => exact absurd hstatus (poll_still status count).1
    | refused status _ count => exact absurd hstatus (poll_still status count).1
    | exported status _ moved _ since =>
      have hrows : b.view.exportedRows = t.1.worker.health.exportRows :=
        (congrArg Slip.exportedRows hslip).trans (poll_moved status moved).2
      rw [hrows]
      exact since

/-- A poll that finds no export on its way moves the status on. -/
theorem polls_over (hs : Sure t) (r : Readings) (hturn : t.1.app.phase = .rest) (hnone : t.1.outstanding = 0) :
    (step p s t.1 (.app (.rest r))).app.view.exportStatus ≠ .Exporting := by
  have hstanding := hs.standing
  have hslip := rest_slip (p := p) (s := s) hturn r
  change (step p s t.1 (.app (.rest r))).app.view.slip.exportStatus ≠ .Exporting
  rw [hslip]
  cases hstanding with
  | idle hidle =>
    rw [poll_idle hidle.status]
    exact hidle.status
  | shut status =>
    rw [poll_idle status]
    exact status
  | asked _ _ _ _ turn _ =>
    rw [hturn] at turn
    rcases turn with hq | hq <;> exact Phase.noConfusion hq
  | waiting _ _ _ one _ => exact absurd (hnone.symm.trans one) Nat.zero_ne_one
  | exported status _ moved _ _ =>
    rw [(poll_moved status moved).1]
    exact nofun
  | refused status _ count _ barred =>
    exact fun hgoes => Bool.noConfusion (((poll_still status count).2.mp hgoes).symm.trans barred)

/-- The poll after an export that went through shows it complete, with its rows. -/
theorem exported_shown (hs : Sure t) (hstarted : t.1.app.started = true) (hheld : t.1.stage.exports ≠ 0)
    (hturn : t.1.app.phase = .rest) (hgoes : t.1.app.view.exportStatus = .Exporting) {a : Answers} {rows : UInt32}
    (hdone : t.1.worker.exportResult s a = some rows) (r : Readings) :
    (step p s (step p s t.1 (.handle a)) (.app (.rest r))).app.view.exportStatus = .Complete ∧
      (step p s (step p s t.1 (.handle a)) (.app (.rest r))).app.view.exportedRows = rows := by
  have hstage := Stage.handling_of_exports hheld
  have hflight : t.1.outstanding ≠ 0 := fun hnone => hheld (Nat.eq_zero_of_add_eq_zero_left hnone)
  have hcount : t.1.app.view.slip.exportCount = t.1.worker.health.exports := by
    cases hs.standing with
    | idle hidle => exact hidle.count
    | shut _ _ count _ _ _ => exact count
    | waiting _ _ count _ _ => exact count
    | asked _ _ _ none _ _ => exact absurd none hflight
    | exported _ _ _ none _ => exact absurd none hflight
    | refused _ _ _ none _ => exact absurd none hflight
  have hspec := (Worker.exportRows_spec (s := s) t.1.worker a).2
  rw [hdone] at hspec
  obtain ⟨-, hexports, hrows⟩ := hspec
  have hspace := Worker.Onward.still (Worker.spaceStatus_still (t.1.worker.exportRows s a).value a.space)
  have hmoved : (t.1.handled s .Export a).worker.health.exports ≠ t.1.app.view.slip.exportCount := by
    change ((t.1.worker.exportRows s a).value.spaceStatus a.space).value.health.exports ≠ _
    rw [hspace.exports, hexports, hcount]
    intro heq
    simp at heq
  have hhandled : step p s t.1 (.handle a) = t.1.handled s .Export a := by
    unfold step work
    dsimp only
    rw [if_pos hstarted, hstage]
  have hslip := rest_slip (p := p) (s := s) (d := t.1.handled s .Export a) hturn r
  obtain ⟨hcomplete, hshown⟩ := poll_moved (x := (t.1.handled s .Export a).app.view.slip) hgoes hmoved
  rw [hhandled]
  rw [← hslip] at hcomplete hshown
  exact ⟨hcomplete, hshown.trans (hspace.exportRows.trans hrows)⟩

/-- The status of an export moves on once the storage task has handled it, Complete is
what the export of that request came to, and there is no second one on its way. -/
theorem export_status_resolves (p : Platform) (s : Firmware) (state : State) (b : App.Boot) (inputs : List Input) :
    (run p s state b inputs).outstanding ≤ 1 ∧
      (∀ r, (run p s state b inputs).app.phase = .rest → (run p s state b inputs).outstanding = 0 →
        (run p s state b (inputs ++ [.app (.rest r)])).app.view.exportStatus ≠ .Exporting) ∧
      ∀ i, (run p s state b inputs).app.view.exportStatus ≠ .Complete →
        (run p s state b (inputs ++ [i])).app.view.exportStatus = .Complete →
        sinceResolved (traced p s state b inputs).2 =
          [.asked, .accepted, .exported (run p s state b (inputs ++ [i])).app.view.exportedRows] := by
  have hsure := traced_sure p s state b inputs
  have hlast : ∀ i, run p s state b (inputs ++ [i]) = step p s (traced p s state b inputs).1 i := by
    intro i
    rw [traced_run]
    exact Runs.run_concat _ _ _ _
  rw [← traced_run]
  refine ⟨hsure.standing.single, fun r hturn hnone => ?_, fun i hbefore hafter => ?_⟩
  · rw [hlast]
    exact polls_over hsure r hturn hnone
  · rw [hlast] at hafter ⊢
    cases i with
    | app j =>
      by_cases htask : j = .taken
      · subst htask
        exact absurd hafter hbefore
      · have hstep : step p s (traced p s state b inputs).1 (.app j) = { (traced p s state b inputs).1 with
            app := (traced p s state b inputs).1.app.step p (look (traced p s state b inputs).1.worker.health j) } := by
          cases j with
          | taken => exact absurd rfl htask
          | _ => rfl
        rw [hstep] at hafter ⊢
        exact complete_of_writes hsure rfl (App.step_writes _ (look_taken htask)) (fun r => polled_of_look) hbefore hafter
    | _ =>
      rw [step_view fun j hi => Input.noConfusion hi] at hafter
      exact absurd hafter hbefore

/-! ## An export of one row -/

/-- On the fourth page an export is asked for, and the storage task holds the message when the poll comes. -/
def request : List Input :=
  mounting ++ rowTapped 115 ++ [.prepare {}, .receive] ++ ((App.iteration 9000 none).dropLast).map .app

section Row

open HistoryExport

/-- A card with one log, of this line only. -/
def oneLog (line : Bytes) : List FileAnswers :=
  [{ entry := .entry (ascii "00000000.JSONL"), lines := [{ line }] }, { entry := .done }]

variable {hmac : Hmac} {key line : Bytes}

theorem exportFiles_row (hline : OnCard.Exportable hmac key line) :
    (exportFiles hmac key {} (oneLog line)).value = { files := 1, rows := 1 } := by
  obtain ⟨hstring, hends⟩ := cString_whole hline.whole
  have hrows : (exportLines hmac key { files := 1 } [{ line }]).value = { files := 1, rows := 1 } := by
    unfold exportLines
    simp only [hstring, hends, Logged.value_bind, bne_self_eq_false, Bool.false_eq_true, if_false, Bool.not_true]
    rw [if_neg (by simpa using hline.exported)]
    rfl
  unfold oneLog exportFiles
  simp only [Logged.value_bind, Bool.false_eq_true, if_false, Bool.not_true]
  rw [if_neg (by decide), if_neg (by decide)]
  unfold exportFile
  simp only [Logged.value_bind, Bool.false_eq_true, if_false, Bool.not_true]
  rw [hrows]
  rfl

theorem exportHistoryFiles_row (hline : OnCard.Exportable hmac key line) :
    (exportHistoryFiles hmac key true { write.files := oneLog line }).value = (true, true, 1) := by
  have hwritten : (HistoryExport.writeExport hmac key { files := oneLog line }).value = (true, 1) := by
    unfold HistoryExport.writeExport
    simp only [Logged.value_bind, if_true]
    rw [exportFiles_row hline]
    rfl
  have hclosed : (closeLog true {}).value.1 = true := rfl
  unfold exportHistoryFiles
  simp only [Logged.value_bind, Logged.value_relabel, hclosed, hwritten, Bool.not_true, Bool.false_eq_true, if_false, if_true]
  rfl

end Row

/-- The log of the card has this line. -/
def exporting (line : Bytes) : Answers := { exportKey := countingKey, exporting.write.files := oneLog line }

theorem exporting_row {w : Worker} (hbarred : w.health.barred = false) (hfile : w.file = true) {line : Bytes}
    (hline : OnCard.Exportable s.hmac countingKey line) : w.exportResult s (exporting line) = some 1 := by
  have hexported := exportHistoryFiles_row hline
  unfold Worker.exportResult Worker.flush exporting
  simp only [hbarred, hfile, Bool.not_true, Bool.false_eq_true, if_false, Logged.value_bind, Logged.value_pure,
    Bool.and_self, if_true, hexported]

def polling : Readings := { polled := polled {}, manualBackups := 0, clears := 0 }

/-- Both tasks after these inputs. -/
def rowRun (inputs : List Input) : Device := run App.bare OnCard.rowFirmware App.welcomed {} inputs

/-- The message of a tap is handled, and the next poll shows what it came to. -/
theorem row_shown_complete :
    (rowRun (request ++ [.handle (exporting quotingLine)] ++ [.app (.rest polling)])).app.view.exportStatus = .Complete ∧
      (rowRun (request ++ [.handle (exporting quotingLine)] ++ [.app (.rest polling)])).app.view.exportedRows = 1 ∧
      sinceResolved (traced App.bare OnCard.rowFirmware App.welcomed {} (request ++ [.handle (exporting quotingLine)])).2 =
        [.asked, .accepted, .exported 1] := by
  have hgood := OnCard.quotingLine_good
  generalize quotingLine = line at hgood ⊢
  have hline : OnCard.Exportable OnCard.rowFirmware.hmac countingKey line :=
    OnCard.exportable_of_good hgood (by decide) (OnCard.quotingHmac_works countingKey)
  have hworker : (rowRun request).worker.health.barred = false ∧ (rowRun request).worker.file = true := by decide +kernel
  have hasked : (rowRun request).app.started = true ∧ (rowRun request).stage.exports ≠ 0 ∧
      (rowRun request).app.phase = .rest ∧ (rowRun request).app.view.exportStatus = .Exporting := by decide +kernel
  have hsure := traced_sure App.bare OnCard.rowFirmware App.welcomed {} request
  have htraced : (traced App.bare OnCard.rowFirmware App.welcomed {} request).1 = rowRun request := traced_run _ _ _ _ _
  have hdone := exporting_row hworker.1 hworker.2 hline
  obtain ⟨hstarted, hheld, hturn, hgoes⟩ := hasked
  have hlast : ∀ inputs i, step App.bare OnCard.rowFirmware (rowRun inputs) i = rowRun (inputs ++ [i]) := fun inputs i =>
    (Runs.run_concat _ _ _ _).symm
  rw [← htraced] at hstarted hheld hturn hgoes hdone
  obtain ⟨hcomplete, hshown⟩ := exported_shown (p := App.bare) hsure hstarted hheld hturn hgoes hdone polling
  rw [htraced, hlast, hlast] at hcomplete hshown
  rw [htraced] at hgoes
  have hbefore : (rowRun (request ++ [.handle (exporting line)])).app.view.exportStatus ≠ .Complete := by
    rw [← hlast, step_view fun j hi => Input.noConfusion hi, hgoes]
    exact nofun
  have hhistory := (export_status_resolves App.bare OnCard.rowFirmware App.welcomed {}
    (request ++ [.handle (exporting line)])).2.2 (.app (.rest polling))
  have hrun : ∀ inputs, run App.bare OnCard.rowFirmware App.welcomed {} inputs = rowRun inputs := fun _ => rfl
  rw [hrun, hrun, hshown] at hhistory
  exact ⟨hcomplete, hshown, hhistory hbefore hcomplete⟩

end Device

end Hound
