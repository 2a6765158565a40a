import Hound.Lib.Runs
import Hound.Storage.BackupAcks
import Hound.Storage.EjectSafety

/-!
# Requests for a manual backup

The app and the worker take their steps in any order. A tap on the button is sent
with the next save that the queue takes; the button is blocked until the worker's
counter has moved. An iteration of the worker is two steps here: up to the queue,
and from there.
-/

namespace Hound

namespace Worker

open Logged

/-- The app and the worker, with the queue between them. -/
structure Desk where
  worker : Worker
  /-- The worker is at its queue. -/
  ready : Bool := false
  queue : List Message := []
  /-- `saves.backup_requested` -/
  requested : Bool := false
  /-- `view.backup_pending` -/
  pending : Bool := false
  /-- `view.manual_backup_count` -/
  count : UInt32 := 0

/-- What the app and the worker do. A save finds a free snapshot slot or not. -/
inductive Action where
  | tap (state : State) (claimed : Bool)
  | save (state : State) (claimed : Bool)
  | send (m : Message)
  | work (t : Turn)
  | poll

namespace Desk

def start (a : BootAnswers) : Desk := { worker := (boot a).value }

/-- `save`: a request is asked for until the queue has taken it. -/
def save (d : Desk) (state : State) (claimed : Bool) : Desk :=
  if claimed && decide (d.queue.length < 8) then
    { d with
      queue := d.queue ++ [if d.requested then .BackupIgnores state else .Save state]
      requested := false }
  else d

/-- The button, and the save that the app makes of it. -/
def tap (d : Desk) (state : State) (claimed : Bool) : Desk :=
  if d.pending then d else { d with pending := true, requested := true }.save state claimed

/-- Any other message. Only `save` asks for a manual backup. -/
def send (d : Desk) (m : Message) : Desk :=
  if m.backups = 0 && decide (d.queue.length < 8) then { d with queue := d.queue ++ [m] } else d

/-- Take the next message and handle it. -/
def handle (s : Firmware) (d : Desk) (t : Turn) : Worker :=
  let w := (d.worker.receive s { t with message := d.queue.head? }).value
  if w.asleep then w else (w.idle t).value

def work (s : Firmware) (d : Desk) (t : Turn) : Desk :=
  if d.worker.asleep then d
  else if d.ready then { d with worker := d.handle s t, ready := false, queue := d.queue.tail }
  else { d with worker := (d.worker.prepare s t).value, ready := true }

/-- `backup_progress` -/
def poll (d : Desk) : Desk :=
  { d with
    pending := d.pending && d.worker.health.manualBackups == d.count
    count := d.worker.health.manualBackups }

def act (s : Firmware) (d : Desk) : Action → Desk
  | .tap state claimed => d.tap state claimed
  | .save state claimed => d.save state claimed
  | .send m => d.send m
  | .work t => d.work s t
  | .poll => d.poll

/-- The two steps of the worker make an iteration. -/
theorem work_work (s : Firmware) (d : Desk) (t : Turn) (hready : d.ready = false) :
    ((d.work s t).work s t).worker = (d.worker.iterate s { t with message := d.queue.head? }).value := by
  unfold iterate
  cases hasleep : d.worker.asleep with
  | true => simp only [work, hasleep, if_true, value_pure]
  | false =>
    have hawake : (d.worker.prepare s t).value.asleep = false := (prepare_asleep d.worker t).trans hasleep
    simp only [work, hasleep, hready, hawake, Bool.false_eq_true, if_false, if_true, value_bind, handle]
    rw [apply_ite value]
    rfl

/-! ## Requests -/

/-- The requests that wait: for the queue, in it, or for the recovery. -/
def requests (d : Desk) : Nat :=
  d.requested.toNat + (d.queue.map Message.backups).sum + d.worker.manual.toNat

/-- A request that waits, or an answer not looked at, for each button that is blocked. -/
structure Sure (d : Desk) : Prop where
  held : d.worker.Held
  balance : d.worker.asleep = false → ∃ unseen,
    d.worker.health.manualBackups = d.count + UInt32.ofNat unseen ∧ d.requests + unseen = d.pending.toNat

/-- A deferred manual backup is dropped by a `Sleep` that does not go through. -/
def strands (d : Desk) : Action → Bool
  | .work t => !d.worker.asleep && (d.ready && d.worker.strands d.queue.head? t.answers)
  | _ => false

/-- The counter of manual backups moves. -/
def Counts (s : Firmware) (d : Desk) (i : Action) : Prop :=
  (d.act s i).worker.health.manualBackups = d.worker.health.manualBackups + 1

instance (s : Firmware) (d : Desk) (i : Action) : Decidable (d.Counts s i) :=
  inferInstanceAs (Decidable (_ = _))

section Requests

variable {s : Firmware} {d : Desk}

/-- The app puts something in the queue, or finds it full. -/
structure Posts (d d' : Desk) : Prop where
  worker : d'.worker = d.worker
  pending : d'.pending = d.pending
  count : d'.count = d.count
  requests : d'.requests = d.requests
  queue : (d.queue.map Message.backups).sum ≤ (d'.queue.map Message.backups).sum

theorem Posts.refl (d : Desk) : Posts d d := ⟨rfl, rfl, rfl, rfl, Nat.le_refl _⟩

theorem save_posts (d : Desk) (state : State) (claimed : Bool) : Posts d (d.save state claimed) := by
  unfold save
  split
  · refine ⟨rfl, rfl, rfl, ?_, ?_⟩
    · cases hrequested : d.requested with
      | false => simp [requests, hrequested, Message.backups]
      | true =>
        simp [requests, hrequested, Message.backups]
        omega
    · simp only [List.map_append, List.sum_append]
      omega
  · exact .refl d

theorem send_posts (d : Desk) (m : Message) : Posts d (d.send m) := by
  unfold send
  split
  · rename_i h
    have hm : m.backups = 0 := by simpa using (Bool.and_eq_true_iff.mp h).1
    refine ⟨rfl, rfl, rfl, ?_, ?_⟩
    · simp [requests, hm]
    · simp [hm]
  · exact .refl d

theorem Sure.posts {d' : Desk} (h : Sure d) (hposts : Posts d d') : Sure d' := by
  refine ⟨?_, fun hawake => ?_⟩
  · rw [hposts.worker]
    exact h.held
  · rw [hposts.worker] at hawake ⊢
    rw [hposts.count, hposts.requests, hposts.pending]
    exact h.balance hawake

theorem tap_sure (h : Sure d) (state : State) (claimed : Bool) : Sure (d.tap state claimed) := by
  unfold tap
  cases hpending : d.pending with
  | true =>
    rw [if_pos rfl]
    exact h
  | false =>
    rw [if_neg (by decide)]
    let d' := { d with pending := true, requested := true }
    refine Sure.posts (d := d') ⟨h.held, fun hawake => ?_⟩ (save_posts d' state claimed)
    obtain ⟨unseen, hcount, hsum⟩ := h.balance hawake
    rw [hpending] at hsum
    have hnone : d.requests = 0 ∧ unseen = 0 := by
      change d.requests + unseen = 0 at hsum
      omega
    refine ⟨0, ?_, ?_⟩
    · rw [hcount, hnone.2]
    · have hparts := hnone.1
      unfold requests at hparts ⊢
      change 1 + (d.queue.map Message.backups).sum + d.worker.manual.toNat + 0 = 1
      omega

/-- The view clears the button where the counter has moved. -/
theorem poll_sure (h : Sure d) : Sure d.poll := by
  refine ⟨h.held, fun hawake => ⟨0, (add_zero _).symm, ?_⟩⟩
  obtain ⟨unseen, hcount, hsum⟩ := h.balance hawake
  have hsmall : unseen ≤ 1 := by
    have := Bool.toNat_le d.pending
    omega
  change d.requests + 0 = (d.pending && d.worker.health.manualBackups == d.count).toNat
  rcases Nat.le_one_iff_eq_zero_or_eq_one.mp hsmall with rfl | rfl
  · have hsame : d.worker.health.manualBackups = d.count := hcount.trans (add_zero _)
    simp only [hsame, beq_self_eq_true, Bool.and_true]
    exact hsum
  · have hmoved : (d.worker.health.manualBackups == d.count) = false := by
      rw [hcount]
      simp
    rw [hmoved, Bool.and_false]
    have := Bool.toNat_le d.pending
    change d.requests + 0 = 0
    omega

/-- What the worker does with the requests that reach it. -/
theorem advances_sure {w : Worker} {queue : List Message} {ready : Bool} {asked : Nat} (h : Sure d)
    (hadvances : Advances d.worker w (d.worker.manual.toNat + asked)) (hawake : d.worker.asleep = false)
    (hqueue : (d.queue.map Message.backups).sum = asked + (queue.map Message.backups).sum) :
    Sure { d with worker := w, ready, queue } := by
  refine ⟨hadvances.held, fun hstill => ?_⟩
  obtain ⟨unseen, hcount, hsum⟩ := h.balance hawake
  have hpending := Bool.toNat_le d.pending
  unfold requests at hsum
  cases hadvances.answered hstill with
  | counted hcounted hleft =>
    refine ⟨unseen + 1, ?_, ?_⟩
    · change w.health.manualBackups = d.count + UInt32.ofNat (unseen + 1)
      rw [hcounted, hcount, UInt32.ofNat_add, add_assoc]
      rfl
    · change d.requested.toNat + (queue.map Message.backups).sum + w.manual.toNat + (unseen + 1) =
        d.pending.toNat
      omega
  | held hsame hleft hheld =>
    refine ⟨unseen, hsame.trans hcount, ?_⟩
    change d.requested.toNat + (queue.map Message.backups).sum + w.manual.toNat + unseen = d.pending.toNat
    rcases Nat.eq_zero_or_pos (d.worker.manual.toNat + asked) with hnone | hasked
    · omega
    · rw [hheld hasked]
      change d.requested.toNat + (queue.map Message.backups).sum + 1 + unseen = d.pending.toNat
      omega

theorem handle_advances (hheld : d.worker.Held) (t : Turn)
    (hkept : d.worker.strands d.queue.head? t.answers = false) :
    Advances d.worker (d.handle s t)
      (d.worker.manual.toNat + d.queue.head?.elim 0 Message.backups) := by
  have hreceived := hheld.receive (s := s) { t with message := d.queue.head? } hkept
  unfold handle
  dsimp only
  split
  · exact hreceived
  · exact hreceived.still (idle_still _ t)

theorem sum_backups (queue : List Message) :
    (queue.map Message.backups).sum =
      queue.head?.elim 0 Message.backups + (queue.tail.map Message.backups).sum := by
  cases queue with
  | nil => rfl
  | cons m queue => exact List.sum_cons

theorem work_sure (h : Sure d) (t : Turn) (hkept : d.strands (.work t) = false) : Sure (d.work s t) := by
  unfold work
  split
  · exact h
  · rename_i hawake
    have hawake : d.worker.asleep = false := by simpa using hawake
    split
    · rename_i hready
      have hkept : d.worker.strands d.queue.head? t.answers = false := by
        simpa [strands, hawake, hready] using hkept
      have hadvances := handle_advances (s := s) h.held t hkept
      exact advances_sure h hadvances hawake (sum_backups d.queue)
    · have hprepared : Advances d.worker (d.worker.prepare s t).value (d.worker.manual.toNat + 0) :=
        h.held.prepare t
      exact advances_sure h hprepared hawake (Nat.zero_add _).symm

theorem act_sure (s : Firmware) (d : Desk) (i : Action) (hkept : d.strands i = false) (h : Sure d) :
    Sure (d.act s i) := by
  cases i with
  | tap state claimed => exact tap_sure h state claimed
  | save state claimed => exact h.posts (save_posts d state claimed)
  | send m => exact h.posts (send_posts d m)
  | work t => exact work_sure h t hkept
  | poll => exact poll_sure h

theorem boot_held (a : BootAnswers) : Held (boot a).value ∧ (boot a).value.manual = false ∧
    (boot a).value.health.manualBackups = 0 := by
  have hblank : ∀ w : Worker, w.deferred = none → w.manual = false → w.initialized = false → Held w :=
    fun w hdeferred hmanual hinitialized => ⟨fun _ => hmanual, fun h => absurd hdeferred h,
      fun h => absurd (hinitialized.symm.trans h) (by decide)⟩
  unfold boot
  dsimp only
  split
  · exact ⟨hblank _ rfl rfl rfl, rfl, rfl⟩
  · simp only [value_bind]
    split
    · exact ⟨hblank _ rfl rfl rfl, rfl, rfl⟩
    · exact ⟨hblank _ rfl rfl rfl, rfl, rfl⟩

theorem start_sure (a : BootAnswers) : Sure (start a) := by
  obtain ⟨hheld, hmanual, hcount⟩ := boot_held a
  refine ⟨hheld, fun _ => ⟨0, hcount, ?_⟩⟩
  change false.toNat + 0 + (boot a).value.manual.toNat + 0 = false.toNat
  rw [hmanual]
  rfl

/-! ## Runs -/

/-- The queue is empty, the recovery over and the board awake. -/
structure AtRest (d : Desk) : Prop where
  empty : d.queue = []
  settled : d.worker.recovery.active = false
  awake : d.worker.asleep = false

/-- A request has reached the queue or the worker, and waits for its answer. -/
structure Waits (d : Desk) : Prop where
  held : d.worker.Held
  waits : d.worker.asleep = false → 0 < (d.queue.map Message.backups).sum + d.worker.manual.toNat

theorem Waits.posts {d' : Desk} (h : Waits d) (hposts : Posts d d') : Waits d' := by
  refine ⟨?_, fun hawake => ?_⟩
  · rw [hposts.worker]
    exact h.held
  · rw [hposts.worker] at hawake ⊢
    have hwaits := h.waits hawake
    have hqueue := hposts.queue
    omega

theorem advances_waits {w : Worker} {queue : List Message} {ready : Bool} {asked : Nat} (h : Waits d)
    (hadvances : Advances d.worker w (d.worker.manual.toNat + asked)) (hawake : d.worker.asleep = false)
    (hqueue : (d.queue.map Message.backups).sum = asked + (queue.map Message.backups).sum)
    (hcount : w.health.manualBackups ≠ d.worker.health.manualBackups + 1) :
    Waits { d with worker := w, ready, queue } := by
  refine ⟨hadvances.held, fun hstill => ?_⟩
  have hwaits := h.waits hawake
  change 0 < (queue.map Message.backups).sum + w.manual.toNat
  cases hadvances.answered hstill with
  | counted hcounted hleft => exact absurd hcounted hcount
  | held hsame hleft hheld =>
    rcases Nat.eq_zero_or_pos (d.worker.manual.toNat + asked) with hnone | hasked
    · omega
    · rw [hheld hasked]
      exact Nat.succ_pos _

/-- Until the counter moves a request keeps waiting. -/
theorem act_waits (s : Firmware) (d : Desk) (i : Action) (hkept : d.strands i = false ∧ ¬d.Counts s i)
    (h : Waits d) : Waits (d.act s i) := by
  obtain ⟨hkept, hcount⟩ := hkept
  cases i with
  | tap state claimed =>
    change Waits (d.tap state claimed)
    unfold tap
    split
    · exact h
    · let d' := { d with pending := true, requested := true }
      exact Waits.posts (d := d') ⟨h.held, h.waits⟩ (save_posts d' state claimed)
  | save state claimed => exact h.posts (save_posts d state claimed)
  | send m => exact h.posts (send_posts d m)
  | poll => exact ⟨h.held, h.waits⟩
  | work t =>
    change (d.work s t).worker.health.manualBackups ≠ _ at hcount
    change Waits (d.work s t)
    unfold work at hcount ⊢
    split at hcount
    · rename_i hasleep
      rw [if_pos hasleep]
      exact h
    · rename_i hawake
      rw [if_neg hawake]
      have hawake : d.worker.asleep = false := by simpa using hawake
      split at hcount
      · rename_i hready
        rw [if_pos hready]
        have hkept : d.worker.strands d.queue.head? t.answers = false := by
          simpa [strands, hawake, hready] using hkept
        have hadvances := handle_advances (s := s) h.held t hkept
        exact advances_waits h hadvances hawake (sum_backups d.queue) hcount
      · rename_i hready
        rw [if_neg hready]
        have hprepared : Advances d.worker (d.worker.prepare s t).value (d.worker.manual.toNat + 0) :=
          h.held.prepare t
        exact advances_waits h hprepared hawake (Nat.zero_add _).symm hcount

theorem AtRest.unheld (h : AtRest d) (hheld : d.worker.Held) : d.worker.manual = false := by
  by_contra hmanual
  have hreading := hheld.active (by simpa using hmanual)
  rw [h.settled] at hreading
  exact absurd hreading (by decide)

theorem AtRest.not_waits (h : AtRest d) (hwaits : Waits d) : False := by
  have hsome := hwaits.waits h.awake
  rw [h.empty, h.unheld hwaits.held] at hsome
  exact absurd hsome (by decide)

/-- At rest, a blocked button has an answer that the view has not looked at. -/
theorem AtRest.cleared (h : AtRest d) (hsure : Sure d) (hrequested : d.requested = false) :
    d.poll.pending = false := by
  obtain ⟨unseen, hcount, hsum⟩ := hsure.balance h.awake
  rw [requests, h.empty, h.unheld hsure.held, hrequested] at hsum
  change (d.pending && d.worker.health.manualBackups == d.count) = false
  cases hpending : d.pending with
  | false => rfl
  | true =>
    have hone : unseen = 1 := by
      rw [hpending] at hsum
      simpa using hsum
    rw [hcount, hone]
    simp

theorem sum_pos_of_mem {queue : List Message} {state : State} (h : .BackupIgnores state ∈ queue) :
    0 < (queue.map Message.backups).sum := by
  have hmem : 1 ∈ queue.map Message.backups := List.mem_map.mpr ⟨_, h, rfl⟩
  have hle := List.single_le_sum (fun n _ => Nat.zero_le n) 1 hmem
  omega

/-- A run in which no `Sleep` drops a manual backup and then fails: once the queue
is empty, the recovery over and the board awake, each request the queue had taken
has been counted since, and a look of the view clears the button. -/
theorem backup_acknowledged {a : BootAnswers} {before after : List Action}
    (hkept : ∀ v ∈ Runs.visited (act s) (start a) (before ++ after), v.1.strands v.2 = false)
    (hqueued : ∃ state, .BackupIgnores state ∈ (Runs.run (act s) (start a) before).queue)
    (hrest : AtRest (Runs.run (act s) (start a) (before ++ after))) :
    (∃ v ∈ Runs.visited (act s) (Runs.run (act s) (start a) before) after, v.1.Counts s v.2) ∧
      ((Runs.run (act s) (start a) (before ++ after)).requested = false →
        (Runs.run (act s) (start a) (before ++ after)).poll.pending = false) := by
  have hsure : ∀ inputs, (∀ v ∈ Runs.visited (act s) (start a) inputs, v.1.strands v.2 = false) →
      Sure (Runs.run (act s) (start a) inputs) := fun inputs hinputs =>
    Runs.invariant_of_guard Sure (fun d i => d.strands i = false) (act_sure s) (start_sure a) hinputs
  rw [Runs.visited_append] at hkept
  have hbefore : ∀ v ∈ Runs.visited (act s) (start a) before, v.1.strands v.2 = false :=
    fun v hv => hkept v (List.mem_append_left _ hv)
  constructor
  · by_contra hnone
    have hcounts : ∀ v ∈ Runs.visited (act s) (Runs.run (act s) (start a) before) after,
        ¬v.1.Counts s v.2 := fun v hv hcount => hnone ⟨v, hv, hcount⟩
    obtain ⟨state, hmem⟩ := hqueued
    have hwaiting : Waits (Runs.run (act s) (start a) before) := by
      refine ⟨(hsure before hbefore).held, fun _ => ?_⟩
      have hpos := sum_pos_of_mem hmem
      omega
    have hwaits : Waits (Runs.run (act s) (start a) (before ++ after)) := by
      rw [Runs.run_append]
      refine Runs.invariant_of_guard Waits (fun d i => d.strands i = false ∧ ¬d.Counts s i) (act_waits s)
        hwaiting fun v hv => ⟨hkept v (List.mem_append_right _ hv), hcounts v hv⟩
    exact hrest.not_waits hwaits
  · intro hrequested
    refine hrest.cleared (hsure (before ++ after) ?_) hrequested
    rw [Runs.visited_append]
    exact hkept

/-! ## A request that is dropped -/

/-- The button is blocked and nothing is left that could answer. -/
structure Blocked (d : Desk) : Prop where
  held : d.worker.Held
  blocked : d.worker.asleep = false → d.pending = true ∧ d.requests = 0 ∧
    d.worker.health.manualBackups = d.count

theorem unanswered {w w' : Worker} (h : Answered w w' 0) :
    w'.health.manualBackups = w.health.manualBackups ∧ w'.manual = false := by
  cases h with
  | counted h hleft => exact absurd hleft (Nat.not_lt_zero _)
  | held h hleft hheld => exact ⟨h, Bool.toNat_eq_zero.mp (Nat.le_zero.mp hleft)⟩

theorem advances_blocked {w : Worker} {queue : List Message} {ready : Bool} {asked : Nat} (h : Blocked d)
    (hadvances : Advances d.worker w (d.worker.manual.toNat + asked)) (hawake : d.worker.asleep = false)
    (hqueue : (d.queue.map Message.backups).sum = asked + (queue.map Message.backups).sum) :
    Blocked { d with worker := w, ready, queue } := by
  refine ⟨hadvances.held, fun hstill => ?_⟩
  obtain ⟨hpending, hnone, hcount⟩ := h.blocked hawake
  unfold requests at hnone
  have hasked : d.worker.manual.toNat + asked = 0 := by omega
  have hanswered := hadvances.answered hstill
  rw [hasked] at hanswered
  obtain ⟨hsame, hmanual⟩ := unanswered hanswered
  refine ⟨hpending, ?_, hsame.trans hcount⟩
  change d.requested.toNat + (queue.map Message.backups).sum + w.manual.toNat = 0
  rw [hmanual]
  change d.requested.toNat + (queue.map Message.backups).sum + 0 = 0
  omega

theorem Blocked.posts {d' : Desk} (h : Blocked d) (hposts : Posts d d') : Blocked d' := by
  refine ⟨?_, fun hawake => ?_⟩
  · rw [hposts.worker]
    exact h.held
  · rw [hposts.worker] at hawake ⊢
    rw [hposts.count, hposts.requests, hposts.pending]
    exact h.blocked hawake

theorem Blocked.unheld (h : Blocked d) (hawake : d.worker.asleep = false) : d.worker.manual = false := by
  have hnone := (h.blocked hawake).2.1
  unfold requests at hnone
  exact Bool.toNat_eq_zero.mp (by omega)

theorem strands_of_unheld {w : Worker} (h : w.manual = false) (m : Option Message) (a : Answers) :
    w.strands m a = false := by
  unfold Worker.strands
  split
  · rw [h, Bool.false_and]
  · rfl

/-- Nothing unblocks the button before the next boot. -/
theorem act_blocked (s : Firmware) (d : Desk) (i : Action) (h : Blocked d) : Blocked (d.act s i) := by
  cases i with
  | tap state claimed =>
    change Blocked (d.tap state claimed)
    unfold tap
    cases hpending : d.pending with
    | true => exact h
    | false =>
      let d' := { d with pending := true, requested := true }
      refine Blocked.posts (d := d') ⟨h.held, fun hawake => ?_⟩ (save_posts d' state claimed)
      rw [(h.blocked hawake).1] at hpending
      exact absurd hpending (by decide)
  | save state claimed => exact h.posts (save_posts d state claimed)
  | send m => exact h.posts (send_posts d m)
  | poll =>
    refine ⟨h.held, fun hawake => ?_⟩
    obtain ⟨hpending, hnone, hcount⟩ := h.blocked hawake
    refine ⟨?_, hnone, rfl⟩
    change (d.pending && d.worker.health.manualBackups == d.count) = true
    rw [hpending, hcount]
    simp
  | work t =>
    change Blocked (d.work s t)
    unfold work
    split
    · exact h
    · rename_i hawake
      have hawake : d.worker.asleep = false := by simpa using hawake
      split
      · rename_i hready
        have hkept := strands_of_unheld (h.unheld hawake) d.queue.head? t.answers
        have hadvances := handle_advances (s := s) h.held t hkept
        exact advances_blocked h hadvances hawake (sum_backups d.queue)
      · exact advances_blocked h (h.held.prepare t) hawake (Nat.zero_add _).symm

theorem strands_sleep {w : Worker} {m : Option Message} {b : Answers} (h : w.strands m b = true) :
    ∃ state, m = some (.Sleep state) ∧ w.manual = true ∧ w.sleeps b = false := by
  unfold Worker.strands at h
  split at h
  · rename_i state
    exact ⟨state, rfl, by simpa using h⟩
  · exact absurd h (by decide)

/-- Such a `Sleep` blocks the button. -/
theorem strands_blocks (h : Sure d) {i : Action} (hstrands : d.strands i = true) : Blocked (d.act s i) := by
  cases i with
  | work t =>
    obtain ⟨hawake, hready, hstrands⟩ : d.worker.asleep = false ∧ d.ready = true ∧
        d.worker.strands d.queue.head? t.answers = true := by simpa [strands] using hstrands
    obtain ⟨state, hhead, hmanual, hfails⟩ := strands_sleep hstrands
    obtain ⟨hheld, hdropped, hcount, hasleep⟩ := sleep_strands (s := s) h.held state hmanual hfails
    let w := (d.worker.sleep s state t.answers).value
    have hstill : Still w (d.handle s t) := by
      have hvalue : (d.worker.receive s { t with message := d.queue.head? }).value = w := by
        rw [receive, hhead]
        rfl
      unfold handle
      rw [hvalue]
      dsimp only
      split
      · exact .refl w
      · exact idle_still w t
    obtain ⟨unseen, hseen, hsum⟩ := h.balance hawake
    have hpending := Bool.toNat_le d.pending
    have hqueue := sum_backups d.queue
    rw [hhead] at hqueue
    have hhead : (some (Message.Sleep state)).elim 0 Message.backups = 0 := rfl
    rw [requests, hmanual, Bool.toNat_true] at hsum
    change Blocked (d.work s t)
    rw [work, if_neg (by simp [hawake]), if_pos hready]
    refine ⟨hheld.of_backups hstill.backups, fun _ => ⟨?_, ?_, ?_⟩⟩
    · apply pos_of_manual
      change 0 < d.pending.toNat
      omega
    · have hmanual' : (d.handle s t).manual = false := hstill.manual.trans hdropped
      change d.requested.toNat + (d.queue.tail.map Message.backups).sum + (d.handle s t).manual.toNat = 0
      rw [hmanual', Bool.toNat_false]
      omega
    · have hnone : unseen = 0 := by omega
      change (d.handle s t).health.manualBackups = d.count
      rw [hstill.manualBackups, hcount, hseen, hnone]
      exact add_zero _
  | _ => exact absurd hstrands (by simp [strands])

/-- Every run that goes on from such a `Sleep` finds the button blocked. -/
theorem stranded_for_good {a : BootAnswers} {before after : List Action} {i : Action}
    (hkept : ∀ v ∈ Runs.visited (act s) (start a) before, v.1.strands v.2 = false)
    (hstrands : (Runs.run (act s) (start a) before).strands i = true)
    (hawake : (Runs.run (act s) (start a) (before ++ i :: after)).worker.asleep = false) :
    (Runs.run (act s) (start a) (before ++ i :: after)).pending = true := by
  have hsure := Runs.invariant_of_guard Sure (fun d i => d.strands i = false) (act_sure s) (start_sure a) hkept
  have hblocked := Runs.invariant Blocked (act_blocked s) (strands_blocks (s := s) hsure hstrands) after
  rw [Runs.run_append, Runs.run_cons] at hawake ⊢
  exact (hblocked.blocked hawake).1

end Requests

/-! ## Two runs -/

/-- The recovery reads on: none of its sixteen passes finds a log. -/
def reading : Turn := { passes := List.replicate 16 { entry := .entry (ascii "README.TXT") } }

/-- The backup is deferred, and done once the recovery is over. -/
theorem backup_acknowledged_deferred :
    let before := [.tap {} true]
    let after := [.work reading, .work reading, .work recovered, .work {}]
    let run := Runs.run (act plainFirmware) (start {})
    (∃ v ∈ Runs.visited (act plainFirmware) (run before) after, v.1.Counts plainFirmware v.2) ∧
      ((run (before ++ after)).requested = false → (run (before ++ after)).poll.pending = false) :=
  backup_acknowledged (by decide) ⟨{}, List.mem_singleton_self _⟩ ⟨by decide, by decide, by decide⟩

/-- A `Sleep` for a low battery drops the deferred backup, and its State cannot be
saved: the worker rests, nothing was counted and the button is blocked. -/
theorem backup_stranded :
    let before := [.tap {} true]
    let after := [.work reading, .work reading, .send (.Sleep {}), .work reading,
      .work { answers.persisted := false }]
    let run := Runs.run (act plainFirmware) (start {})
    .BackupIgnores {} ∈ (run before).queue ∧ AtRest (run (before ++ after)) ∧
      (∀ v ∈ Runs.visited (act plainFirmware) (run before) after, ¬v.1.Counts plainFirmware v.2) ∧
      (run (before ++ after)).requested = false ∧ (run (before ++ after)).poll.pending = true :=
  ⟨List.mem_singleton_self _, ⟨by decide, by decide, by decide⟩, by decide, by decide, by decide⟩

end Desk

end Worker

end Hound
