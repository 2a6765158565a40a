import Hound.Storage.Handoff

/-!
# No slot has two owners

Every busy slot has exactly one owner: the call that claimed it, the message in
the queue, the message the task works on, or the deferred backup. The States in
the queue are therefore the States of the calls, in order, and a slot is free
when nobody owns it.
-/

namespace Hound

namespace Handoff

variable {σ : Type}

/-! ## Owners -/

def App.slots : App σ → List (Fin 2)
  | .idle | .claiming _ _ _ => []
  | .storing _ _ slot | .sending _ _ slot | .refused slot => [slot]

def Worker.slots : Worker → List (Fin 2)
  | .persisting _ slot | .settling _ slot _ | .backingUp slot | .releasing slot | .cancelling slot
  | .sleepSaving slot _ | .sleepBackingUp slot | .sleepReleasing slot => [slot]
  | .recovering | .completing | .backingDeferred | .releasingDeferred | .receiving | .ejecting
  | .asleep => []

def Message.slots : Message → List (Fin 2)
  | .snapshot _ slot => [slot]
  | .eject | .other => []

def queued (queue : List Message) : List (Fin 2) := queue.flatMap Message.slots

@[simp] theorem queued_nil : queued [] = [] := rfl

@[simp] theorem queued_cons (m : Message) (queue : List Message) :
    queued (m :: queue) = m.slots ++ queued queue := rfl

@[simp] theorem queued_concat (queue : List Message) (m : Message) :
    queued (queue ++ [m]) = queued queue ++ m.slots := by
  simp [queued]

/-- How often a slot is owned. -/
def owners (s : State σ) (slot : Fin 2) : Nat :=
  s.app.slots.count slot + s.worker.slots.count slot + s.deferred.slot.toList.count slot +
    (queued s.queue).count slot

/-- Every busy slot has one owner, and every free slot none. -/
def Owned (s : State σ) : Prop := ∀ slot, owners s slot = (s.snapshots.busy slot).toNat

theorem Owned.same {s s' : State σ} (h : Owned s) (hbusy : s'.snapshots.busy = s.snapshots.busy)
    (howners : ∀ i, owners s' i = owners s i) : Owned s' := by
  intro i
  rw [howners i, hbusy]
  exact h i

theorem Owned.take {s s' : State σ} {slot : Fin 2} (h : Owned s) (hfree : s.snapshots.busy slot = false)
    (hbusy : s'.snapshots = s.snapshots.take slot)
    (howners : ∀ i, owners s' i = owners s i + [slot].count i) : Owned s' := by
  intro i
  have hi := h i
  rw [howners i, hbusy, hi]
  by_cases heq : i = slot
  · subst heq
    simp [Snapshots.take, hfree]
  · have hne : ¬ slot = i := fun hs => heq hs.symm
    simp [Snapshots.take, heq, hne]

theorem Owned.release {s s' : State σ} {slot : Fin 2} (h : Owned s)
    (hbusy : s'.snapshots = s.snapshots.release slot)
    (howners : ∀ i, owners s i = owners s' i + [slot].count i) : Owned s' := by
  intro i
  have hi := h i
  have hone := howners i
  rw [hbusy]
  by_cases heq : i = slot
  · subst heq
    have hle := Bool.toNat_le (s.snapshots.busy i)
    simp only [List.count_singleton_self] at hone
    simp [Snapshots.release]
    omega
  · have hne : ¬ slot = i := fun hs => heq hs.symm
    simp only [List.count_singleton, beq_iff_eq, hne, if_false] at hone
    simp [Snapshots.release, heq]
    omega

theorem Owned.drop {s s' : State σ} (h : Owned s) (hbusy : s'.snapshots = s.deferred.drop s.snapshots)
    (howners : ∀ i, owners s i = owners s' i + s.deferred.slot.toList.count i) : Owned s' := by
  cases hslot : s.deferred.slot with
  | none =>
    rw [DeferredBackup.drop, hslot] at hbusy
    refine h.same (by rw [hbusy]) fun i => ?_
    have hone := howners i
    rw [hslot] at hone
    simpa using hone.symm
  | some slot =>
    rw [DeferredBackup.drop, hslot] at hbusy
    refine h.release hbusy fun i => ?_
    have hone := howners i
    rw [hslot] at hone
    exact hone

theorem owned_stepApp {s : State σ} (h : Owned s) (accepted : Bool) : Owned (stepApp s accepted).1 := by
  cases happ : s.app with
  | idle => simpa only [stepApp, happ] using h
  | claiming op state slot =>
    simp only [stepApp, happ]
    split
    · refine h.same rfl fun i => ?_
      split <;> simp [owners, happ, App.slots]
    · rename_i hfree
      refine h.take (by simpa using hfree) rfl fun i => ?_
      simp only [owners, happ, App.slots, List.count_nil]
      omega
  | storing op state slot =>
    simp only [stepApp, happ]
    exact h.same rfl fun i => by simp [owners, happ, App.slots]
  | sending op state slot =>
    simp only [stepApp, happ]
    split
    · refine h.same rfl fun i => ?_
      simp only [owners, happ, App.slots, queued_concat, Message.slots, List.count_append, List.count_nil]
      omega
    · exact h.same rfl fun i => by simp [owners, happ, App.slots]
  | refused slot =>
    simp only [stepApp, happ]
    refine h.release rfl fun i => ?_
    simp only [owners, happ, App.slots, List.count_nil]
    omega

theorem owned_receive {s : State σ} (h : Owned s) (hworker : s.worker = .receiving) : Owned (receive s).1 := by
  unfold receive
  split
  · exact h.same rfl fun i => by simp [owners, hworker, Worker.slots]
  · rename_i hqueue
    refine h.same rfl fun i => ?_
    simp only [owners, hworker, hqueue, Worker.slots, queued_cons, Message.slots, List.count_append,
      List.count_nil]
    omega
  · rename_i hqueue
    refine h.same rfl fun i => ?_
    simp only [owners, hworker, hqueue, Worker.slots, queued_cons, Message.slots, List.count_append,
      List.count_nil]
    omega
  · rename_i hqueue
    refine h.same rfl fun i => ?_
    simp only [owners, hworker, hqueue]
    split <;> simp [Worker.slots, Message.slots]
  · rename_i hqueue
    exact h.same rfl fun i => by simp [owners, hworker, hqueue, Worker.slots, Message.slots]

theorem owned_settle {s : State σ} (h : Owned s) {op : SnapshotOp} {slot : Fin 2} {ok : Bool}
    (hworker : s.worker = .settling op slot ok) : Owned (settle s op slot ok).1 := by
  unfold settle
  split
  · -- the deferred backup takes the slot over
    refine h.drop rfl fun i => ?_
    simp only [owners, hworker, Worker.slots, DeferredBackup.retain, Option.toList_some, List.count_nil]
    omega
  · refine h.same rfl fun i => ?_
    cases ok <;> simp [owners, hworker, Worker.slots]

theorem owned_stepWorker {s : State σ} (h : Owned s) (ok goesOn sleeps : Bool) :
    Owned (stepWorker s ok goesOn sleeps).1 := by
  cases hworker : s.worker with
  | recovering =>
    simp only [stepWorker, hworker]
    exact h.same rfl fun i => by simp [owners, hworker, Worker.slots]
  | completing =>
    simp only [stepWorker, hworker]
    split
    · refine h.same rfl fun i => ?_
      cases hslot : s.deferred.slot <;> simp [owners, hworker, hslot, Worker.slots]
    · exact h.same rfl fun i => by simp [owners, hworker, Worker.slots]
  | backingDeferred =>
    simp only [stepWorker, hworker]
    exact h.same rfl fun i => by simp [owners, hworker, Worker.slots]
  | releasingDeferred =>
    simp only [stepWorker, hworker]
    refine h.drop rfl fun i => ?_
    simp only [owners, hworker, Worker.slots, releaseDeferred, DeferredBackup.release, Option.toList_none,
      List.count_nil]
    omega
  | receiving =>
    simp only [stepWorker, hworker]
    exact owned_receive h hworker
  | persisting op slot =>
    simp only [stepWorker, hworker]
    exact h.same rfl fun i => by simp [owners, hworker, Worker.slots]
  | settling op slot ok =>
    simp only [stepWorker, hworker]
    exact owned_settle h hworker
  | backingUp slot =>
    simp only [stepWorker, hworker]
    exact h.same rfl fun i => by simp [owners, hworker, Worker.slots]
  | releasing slot =>
    simp only [stepWorker, hworker]
    refine h.release rfl fun i => ?_
    simp only [owners, hworker, Worker.slots, List.count_nil]
    omega
  | cancelling slot =>
    simp only [stepWorker, hworker]
    refine h.drop rfl fun i => ?_
    simp only [owners, hworker, Worker.slots, releaseDeferred, DeferredBackup.release, Option.toList_none,
      List.count_nil]
    omega
  | sleepSaving slot wasChecking =>
    simp only [stepWorker, hworker]
    refine h.same rfl fun i => ?_
    split <;> simp [owners, hworker, Worker.slots]
  | sleepBackingUp slot =>
    simp only [stepWorker, hworker]
    exact h.same rfl fun i => by simp [owners, hworker, Worker.slots]
  | sleepReleasing slot =>
    simp only [stepWorker, hworker]
    refine h.release rfl fun i => ?_
    simp only [owners, hworker]
    split <;> simp only [Worker.slots, List.count_nil] <;> omega
  | ejecting =>
    simp only [stepWorker, hworker]
    refine h.drop rfl fun i => ?_
    simp only [owners, hworker, Worker.slots, releaseDeferred, DeferredBackup.release, Option.toList_none,
      List.count_nil]
    omega
  | asleep =>
    simp only [stepWorker, hworker]
    exact h

theorem owned_step {s : State σ} (h : Owned s) (i : Input σ) : Owned (step s i).1 := by
  cases i with
  | call op state =>
    simp only [step, stepCall]
    split
    · rename_i happ
      exact h.same rfl fun i => by simp [owners, happ, App.slots]
    · exact h
  | post message =>
    simp only [step, stepPost]
    split
    · exact h.same rfl fun i => by simp [owners, Message.slots]
    · exact h.same rfl fun i => by simp [owners, Message.slots]
    · exact h
  | app accepted => exact owned_stepApp h accepted
  | worker ok goesOn sleeps => exact owned_stepWorker h ok goesOn sleeps

/-! ## The loop's own bookkeeping -/

/-- What `initialized`, recovery and the deferred backup say about each other. -/
structure Phased (s : State σ) : Prop where
  checking : s.active = true → s.initialized = false
  checked : s.active = false → s.worker ≠ .recovering → s.worker ≠ .completing → s.initialized = true
  holding : s.initialized = true →
    s.worker = .backingDeferred ∨ s.worker = .releasingDeferred ∨ s.deferred.slot = none
  backing : s.worker = .backingDeferred → s.initialized = true ∧ s.deferred.slot ≠ none
  releasing : s.worker = .releasingDeferred → s.initialized = true
  sleeping : ∀ slot was, s.worker = .sleepSaving slot was → s.initialized = true

/-- The task is past the completion block of this turn. -/
def Worker.serving : Worker → Bool
  | .recovering | .completing | .backingDeferred | .releasingDeferred => false
  | _ => true

/-- A step that leaves the bookkeeping alone. -/
theorem Phased.serve {s s' : State σ} (h : Phased s) (hserving : s.worker.serving = true)
    (hactive : s'.active = s.active) (hinitialized : s'.initialized = s.initialized)
    (hslot : s'.deferred.slot = s.deferred.slot) (hworker : s'.worker = .recovering ∨ s'.worker.serving = true)
    (hsleep : ∀ slot was, s'.worker ≠ .sleepSaving slot was) : Phased s' := by
  refine ⟨?_, fun hstopped _ _ => ?_, fun hinit => ?_, fun hback => ?_, fun hrelease => ?_,
    fun slot was hsaving => absurd hsaving (hsleep slot was)⟩
  · rw [hactive, hinitialized]
    exact h.checking
  · rw [hactive] at hstopped
    rw [hinitialized]
    refine h.checked hstopped ?_ ?_ <;> intro hw <;> rw [hw] at hserving <;> exact nomatch hserving
  · rw [hinitialized] at hinit
    rw [hslot]
    rcases h.holding hinit with hw | hw | hnone
    · rw [hw] at hserving
      exact nomatch hserving
    · rw [hw] at hserving
      exact nomatch hserving
    · exact .inr (.inr hnone)
  · rcases hworker with hw | hw <;> rw [hback] at hw <;> exact nomatch hw
  · rcases hworker with hw | hw <;> rw [hrelease] at hw <;> exact nomatch hw

/-- Recovery is over and nothing is deferred. -/
theorem phased_closed {s : State σ} (hactive : s.active = false) (hinitialized : s.initialized = true)
    (hslot : s.deferred.slot = none) (hworker : s.worker ≠ .backingDeferred) : Phased s where
  checking h := by rw [hactive] at h; exact nomatch h
  checked _ _ _ := hinitialized
  holding _ := .inr (.inr hslot)
  backing h := absurd h hworker
  releasing _ := hinitialized
  sleeping _ _ _ := hinitialized

/-- Recovery goes on, or the completion block comes next. -/
theorem phased_open {s : State σ} (hinitialized : s.initialized = false)
    (hactive : s.active = true ∨ s.worker = .completing) (hworker : s.worker = .recovering ∨
      s.worker = .completing ∨ s.worker = .receiving) : Phased s where
  checking _ := hinitialized
  checked h _ hcompleting := by
    rcases hactive with ha | ha
    · rw [h] at ha
      exact nomatch ha
    · exact absurd ha hcompleting
  holding h := by rw [hinitialized] at h; exact nomatch h
  backing h := by rw [h] at hworker; simp at hworker
  releasing h := by rw [h] at hworker; simp at hworker
  sleeping _ _ h := by rw [h] at hworker; simp at hworker

theorem Phased.deferred_none {s : State σ} (h : Phased s) (hinitialized : s.initialized = true)
    (hback : s.worker ≠ .backingDeferred) (hrelease : s.worker ≠ .releasingDeferred) :
    s.deferred.slot = none := by
  rcases h.holding hinitialized with hw | hw | hnone
  · exact absurd hw hback
  · exact absurd hw hrelease
  · exact hnone

theorem phased_receive {s : State σ} (h : Phased s) (hworker : s.worker = .receiving) :
    Phased (receive s).1 := by
  have hserving : s.worker.serving = true := by rw [hworker]; rfl
  unfold receive
  split
  · exact h.serve hserving rfl rfl rfl (.inl rfl) nofun
  · exact h.serve hserving rfl rfl rfl (.inr rfl) nofun
  · exact h.serve hserving rfl rfl rfl (.inr rfl) nofun
  · cases hejected : s.ejected with
    | true => exact h.serve hserving rfl rfl rfl (.inl rfl) nofun
    | false => exact h.serve hserving rfl rfl rfl (.inr rfl) nofun
  · exact h.serve hserving rfl rfl rfl (.inl rfl) nofun

theorem phased_settle {s : State σ} (h : Phased s) {op : SnapshotOp} {slot : Fin 2} {ok : Bool}
    (hworker : s.worker = .settling op slot ok) : Phased (settle s op slot ok).1 := by
  have hserving : s.worker.serving = true := by rw [hworker]; rfl
  unfold settle
  split
  · rename_i hretained
    simp only [Bool.and_eq_true] at hretained
    exact phased_open (h.checking hretained.2) (.inl hretained.2) (.inl rfl)
  · cases ok with
    | true => exact h.serve hserving rfl rfl rfl (.inr rfl) nofun
    | false => exact h.serve hserving rfl rfl rfl (.inr rfl) nofun

theorem phased_completing {s : State σ} (h : Phased s) (hworker : s.worker = .completing)
    (ok goesOn sleeps : Bool) : Phased (stepWorker s ok goesOn sleeps).1 := by
  simp only [stepWorker, hworker]
  split
  · rename_i hdone
    simp only [Bool.and_eq_true, Bool.not_eq_true'] at hdone
    cases hslot : s.deferred.slot with
    | none => exact phased_closed hdone.2 rfl hslot nofun
    | some slot =>
      refine ⟨fun hactive => ?_, fun _ _ _ => rfl, fun _ => .inl rfl, fun _ => ⟨rfl, ?_⟩, nofun, nofun⟩
      · simp only at hactive
        rw [hdone.2] at hactive
        exact nomatch hactive
      · simp only
        rw [hslot]
        exact Option.some_ne_none slot
  · rename_i hdone
    cases hinitialized : s.initialized with
    | true =>
      have hactive : s.active = false := by
        cases ha : s.active with
        | false => rfl
        | true =>
          rw [h.checking ha] at hinitialized
          exact nomatch hinitialized
      have hnone := h.deferred_none hinitialized (by rw [hworker]; nofun) (by rw [hworker]; nofun)
      exact phased_closed hactive rfl hnone nofun
    | false =>
      have hactive : s.active = true := by simpa [hinitialized] using hdone
      exact phased_open rfl (.inl hactive) (.inr (.inr rfl))

theorem phased_stepWorker {s : State σ} (h : Phased s) (ok goesOn sleeps : Bool) :
    Phased (stepWorker s ok goesOn sleeps).1 := by
  cases hworker : s.worker with
  | recovering =>
    simp only [stepWorker, hworker]
    cases hinitialized : s.initialized with
    | true =>
      have hactive : s.active = false := by
        cases ha : s.active with
        | false => rfl
        | true =>
          rw [h.checking ha] at hinitialized
          exact nomatch hinitialized
      have hnone := h.deferred_none hinitialized (by rw [hworker]; nofun) (by rw [hworker]; nofun)
      exact phased_closed (by simp [hactive]) rfl hnone nofun
    | false => exact phased_open rfl (.inr rfl) (.inr (.inl rfl))
  | completing => exact phased_completing h hworker ok goesOn sleeps
  | backingDeferred =>
    obtain ⟨hinitialized, -⟩ := h.backing hworker
    simp only [stepWorker, hworker]
    refine ⟨h.checking, fun _ _ _ => hinitialized, fun _ => .inr (.inl rfl), nofun, fun _ => hinitialized,
      nofun⟩
  | releasingDeferred =>
    have hinitialized := h.releasing hworker
    simp only [stepWorker, hworker]
    exact ⟨h.checking, fun _ _ _ => hinitialized, fun _ => .inr (.inr rfl), nofun, nofun, nofun⟩
  | receiving =>
    simp only [stepWorker, hworker]
    exact phased_receive h hworker
  | settling op slot ok =>
    simp only [stepWorker, hworker]
    exact phased_settle h hworker
  | cancelling slot =>
    simp only [stepWorker, hworker]
    exact phased_closed rfl rfl rfl nofun
  | ejecting =>
    simp only [stepWorker, hworker]
    exact phased_closed rfl rfl rfl nofun
  | sleepSaving slot wasChecking =>
    have hserving : s.worker.serving = true := by rw [hworker]; rfl
    simp only [stepWorker, hworker]
    cases hsaved : ok && !wasChecking with
    | true => exact h.serve hserving rfl rfl rfl (.inr rfl) nofun
    | false => exact h.serve hserving rfl rfl rfl (.inr rfl) nofun
  | sleepReleasing slot =>
    have hserving : s.worker.serving = true := by rw [hworker]; rfl
    simp only [stepWorker, hworker]
    cases sleeps with
    | true => exact h.serve hserving rfl rfl rfl (.inr rfl) nofun
    | false => exact h.serve hserving rfl rfl rfl (.inl rfl) nofun
  | releasing slot =>
    have hserving : s.worker.serving = true := by rw [hworker]; rfl
    simp only [stepWorker, hworker]
    exact h.serve hserving rfl rfl rfl (.inl rfl) nofun
  | persisting _ slot =>
    have hserving : s.worker.serving = true := by rw [hworker]; rfl
    simp only [stepWorker, hworker]
    exact h.serve hserving rfl rfl rfl (.inr rfl) nofun
  | backingUp slot =>
    have hserving : s.worker.serving = true := by rw [hworker]; rfl
    simp only [stepWorker, hworker]
    exact h.serve hserving rfl rfl rfl (.inr rfl) nofun
  | sleepBackingUp slot =>
    have hserving : s.worker.serving = true := by rw [hworker]; rfl
    simp only [stepWorker, hworker]
    exact h.serve hserving rfl rfl rfl (.inr rfl) nofun
  | asleep =>
    simp only [stepWorker, hworker]
    exact h

/-- The app does not touch the task's bookkeeping. -/
theorem app_frame (s : State σ) (i : Input σ) (hi : ∀ ok goesOn sleeps, i ≠ .worker ok goesOn sleeps) :
    (step s i).1.worker = s.worker ∧ (step s i).1.deferred = s.deferred ∧
      (step s i).1.active = s.active ∧ (step s i).1.initialized = s.initialized := by
  cases i with
  | call op state =>
    simp only [step, stepCall]
    split <;> exact ⟨rfl, rfl, rfl, rfl⟩
  | post message =>
    simp only [step, stepPost]
    split <;> exact ⟨rfl, rfl, rfl, rfl⟩
  | app accepted =>
    simp only [step, stepApp]
    split
    · exact ⟨rfl, rfl, rfl, rfl⟩
    · split <;> exact ⟨rfl, rfl, rfl, rfl⟩
    · exact ⟨rfl, rfl, rfl, rfl⟩
    · split <;> exact ⟨rfl, rfl, rfl, rfl⟩
    · exact ⟨rfl, rfl, rfl, rfl⟩
  | worker ok goesOn sleeps => exact absurd rfl (hi ok goesOn sleeps)

theorem Phased.congr {s s' : State σ} (h : Phased s) (hworker : s'.worker = s.worker)
    (hdeferred : s'.deferred = s.deferred) (hactive : s'.active = s.active)
    (hinitialized : s'.initialized = s.initialized) : Phased s' := by
  refine ⟨?_, ?_, ?_, ?_, ?_, ?_⟩
  · rw [hactive, hinitialized]
    exact h.checking
  · rw [hactive, hinitialized, hworker]
    exact h.checked
  · rw [hinitialized, hworker, hdeferred]
    exact h.holding
  · rw [hinitialized, hworker, hdeferred]
    exact h.backing
  · rw [hinitialized, hworker]
    exact h.releasing
  · rw [hinitialized, hworker]
    exact h.sleeping

theorem phased_step {s : State σ} (h : Phased s) (i : Input σ) : Phased (step s i).1 := by
  cases i with
  | worker ok goesOn sleeps => exact phased_stepWorker h ok goesOn sleeps
  | call op state =>
    obtain ⟨hworker, hdeferred, hactive, hinitialized⟩ := app_frame s (.call op state) nofun
    exact h.congr hworker hdeferred hactive hinitialized
  | post message =>
    obtain ⟨hworker, hdeferred, hactive, hinitialized⟩ := app_frame s (.post message) nofun
    exact h.congr hworker hdeferred hactive hinitialized
  | app accepted =>
    obtain ⟨hworker, hdeferred, hactive, hinitialized⟩ := app_frame s (.app accepted) nofun
    exact h.congr hworker hdeferred hactive hinitialized

/-! ## States in flight -/

/-- The slot whose State is still to be persisted. -/
def Worker.waiting : Worker → List (Fin 2)
  | .persisting _ slot | .cancelling slot | .sleepSaving slot _ => [slot]
  | _ => []

theorem Worker.waiting_subset (w : Worker) : w.waiting ⊆ w.slots := by
  cases w <;> simp [waiting, slots]

def sentStates (events : List (Event σ)) : List σ :=
  events.filterMap fun e => match e with
    | .sent state => some state
    | _ => none

def persistedStates (events : List (Event σ)) : List σ :=
  events.filterMap fun e => match e with
    | .persisted state _ _ => some state
    | _ => none

@[simp] theorem sentStates_append (before after : List (Event σ)) :
    sentStates (before ++ after) = sentStates before ++ sentStates after := List.filterMap_append

@[simp] theorem persistedStates_append (before after : List (Event σ)) :
    persistedStates (before ++ after) = persistedStates before ++ persistedStates after :=
  List.filterMap_append

@[simp] theorem sentStates_dropEvents (d : DeferredBackup) :
    sentStates (dropEvents d : List (Event σ)) = [] := by
  unfold dropEvents
  split <;> rfl

@[simp] theorem persistedStates_dropEvents (d : DeferredBackup) :
    persistedStates (dropEvents d : List (Event σ)) = [] := by
  unfold dropEvents
  split <;> rfl

/-- The States the task has still to persist, as its slots hold them now. -/
def pending (s : State σ) : List σ := (s.worker.waiting ++ queued s.queue).map s.snapshots.state

/-- What was sent is what was persisted and what is pending, in order. -/
structure Delivered (t : Traced σ) : Prop where
  order : sentStates t.2 = persistedStates t.2 ++ pending t.1
  stored : ∀ op state slot, t.1.app = .sending op state slot → t.1.snapshots.state slot = state

@[simp] theorem drop_state (d : DeferredBackup) (s : Snapshots σ) : (d.drop s).state = s.state := by
  unfold DeferredBackup.drop
  split <;> rfl

/-- The slot the app writes to belongs to nobody else. -/
theorem Owned.storing {s : State σ} (h : Owned s) {op : SnapshotOp} {state : σ} {slot : Fin 2}
    (happ : s.app = .storing op state slot) :
    slot ∉ s.worker.slots ∧ s.deferred.slot ≠ some slot ∧ slot ∉ queued s.queue := by
  have hone := h slot
  have hle := Bool.toNat_le (s.snapshots.busy slot)
  simp only [owners, happ, App.slots, List.count_singleton_self] at hone
  refine ⟨List.count_eq_zero.mp (by omega), fun hdeferred => ?_, List.count_eq_zero.mp (by omega)⟩
  rw [hdeferred] at hone
  simp only [Option.toList_some, List.count_singleton_self] at hone
  omega

/-- A step that neither sends nor persists, and keeps what is pending. -/
theorem Delivered.quiet {t : Traced σ} (h : Delivered t) {s' : State σ} {events : List (Event σ)}
    (hsent : sentStates events = []) (hpersisted : persistedStates events = [])
    (hpending : pending s' = pending t.1)
    (hstored : ∀ op state slot, s'.app = .sending op state slot → s'.snapshots.state slot = state) :
    Delivered (s', t.2 ++ events) := by
  refine ⟨?_, hstored⟩
  rw [sentStates_append, persistedStates_append, hsent, hpersisted, List.append_nil, List.append_nil,
    hpending]
  exact h.order

theorem delivered_stepApp {t : Traced σ} (howned : Owned t.1) (h : Delivered t) (accepted : Bool) :
    Delivered ((stepApp t.1 accepted).1, t.2 ++ (stepApp t.1 accepted).2) := by
  cases happ : t.1.app with
  | idle =>
    simp only [stepApp, happ]
    exact h.quiet rfl rfl rfl h.stored
  | claiming op state slot =>
    simp only [stepApp, happ]
    split
    · refine h.quiet rfl rfl rfl fun op' state' slot' hsend => ?_
      simp only at hsend
      split at hsend <;> exact nomatch hsend
    · exact h.quiet rfl rfl rfl nofun
  | storing op state slot =>
    obtain ⟨hworker, -, hqueue⟩ := howned.storing happ
    have hwaiting : slot ∉ t.1.worker.waiting := fun hmem => hworker (t.1.worker.waiting_subset hmem)
    have hother : slot ∉ t.1.worker.waiting ++ queued t.1.queue := by
      simp [hwaiting, hqueue]
    simp only [stepApp, happ]
    refine h.quiet rfl rfl ?_ fun op' state' slot' hsend => ?_
    · refine List.map_congr_left fun j hj => ?_
      have hne : j ≠ slot := fun heq => hother (heq ▸ hj)
      exact Function.update_of_ne hne _ _
    · obtain ⟨-, rfl, rfl⟩ := App.sending.inj hsend
      exact Function.update_self _ _ _
  | sending op state slot =>
    have hstate := h.stored op state slot happ
    simp only [stepApp, happ]
    split
    · refine ⟨?_, nofun⟩
      have hqueue : pending { t.1 with queue := t.1.queue ++ [.snapshot op slot], app := .idle } =
          pending t.1 ++ [state] := by
        simp [pending, Message.slots, hstate]
      rw [sentStates_append, persistedStates_append, hqueue, h.order]
      simp [sentStates, persistedStates]
    · exact h.quiet rfl rfl rfl nofun
  | refused slot =>
    simp only [stepApp, happ]
    exact h.quiet rfl rfl rfl nofun

theorem delivered_receive {t : Traced σ} (h : Delivered t) (hworker : t.1.worker = .receiving) :
    Delivered ((receive t.1).1, t.2 ++ (receive t.1).2) := by
  unfold receive
  split
  · exact h.quiet rfl rfl (by simp [pending, hworker, Worker.waiting]) h.stored
  · rename_i hqueue
    exact h.quiet rfl rfl (by simp [pending, hworker, hqueue, Worker.waiting, Message.slots]) h.stored
  · rename_i hqueue
    exact h.quiet rfl rfl (by simp [pending, hworker, hqueue, Worker.waiting, Message.slots]) h.stored
  · rename_i hqueue
    refine h.quiet rfl rfl ?_ h.stored
    cases hejected : t.1.ejected <;> simp [pending, hworker, hqueue, Worker.waiting, Message.slots]
  · rename_i hqueue
    exact h.quiet rfl rfl (by simp [pending, hworker, hqueue, Worker.waiting, Message.slots]) h.stored

/-- The State given to `persist` is the first one pending. -/
theorem Delivered.persist {t : Traced σ} (h : Delivered t) {slot : Fin 2} {worker : Worker}
    (hwaiting : t.1.worker.waiting = [slot]) (hdone : worker.waiting = []) (ok checking : Bool) :
    Delivered ({ t.1 with worker }, t.2 ++ [.persisted (t.1.snapshots.get slot) ok checking]) := by
  refine ⟨?_, h.stored⟩
  have hbefore : pending t.1 = t.1.snapshots.get slot :: pending { t.1 with worker } := by
    simp [pending, hwaiting, hdone, Snapshots.get]
  rw [sentStates_append, persistedStates_append, h.order, hbefore]
  simp [sentStates, persistedStates]

theorem delivered_stepWorker {t : Traced σ} (h : Delivered t) (ok goesOn sleeps : Bool) :
    Delivered ((stepWorker t.1 ok goesOn sleeps).1, t.2 ++ (stepWorker t.1 ok goesOn sleeps).2) := by
  cases hworker : t.1.worker with
  | recovering =>
    simp only [stepWorker, hworker]
    exact h.quiet rfl rfl (by simp [pending, hworker, Worker.waiting]) h.stored
  | completing =>
    simp only [stepWorker, hworker]
    split
    · refine h.quiet rfl rfl ?_ h.stored
      cases hslot : t.1.deferred.slot <;> simp [pending, hworker, Worker.waiting]
    · exact h.quiet rfl rfl (by simp [pending, hworker, Worker.waiting]) h.stored
  | backingDeferred =>
    simp only [stepWorker, hworker]
    split
    · exact h.quiet rfl rfl (by simp [pending, hworker, Worker.waiting]) h.stored
    · exact h.quiet rfl rfl (by simp [pending, hworker, Worker.waiting]) h.stored
  | releasingDeferred =>
    simp only [stepWorker, hworker, releaseDeferred, DeferredBackup.release]
    refine h.quiet (by simp) (by simp) ?_ ?_
    · simp [pending, hworker, Worker.waiting]
    · simpa using h.stored
  | receiving =>
    simp only [stepWorker, hworker]
    exact delivered_receive h hworker
  | persisting op slot =>
    simp only [stepWorker, hworker]
    exact h.persist (by rw [hworker]; rfl) rfl ok t.1.active
  | settling op slot ok =>
    simp only [stepWorker, hworker]
    unfold settle
    split
    · simp only [DeferredBackup.retain]
      refine h.quiet (by simp) (by simp) ?_ ?_
      · simp [pending, hworker, Worker.waiting]
      · simpa using h.stored
    · refine h.quiet rfl rfl ?_ h.stored
      cases ok <;> simp [pending, hworker, Worker.waiting]
  | backingUp slot =>
    simp only [stepWorker, hworker]
    exact h.quiet rfl rfl (by simp [pending, hworker, Worker.waiting]) h.stored
  | releasing slot =>
    simp only [stepWorker, hworker]
    exact h.quiet rfl rfl (by simp [pending, hworker, Worker.waiting, Snapshots.release]) h.stored
  | cancelling slot =>
    simp only [stepWorker, hworker, releaseDeferred, DeferredBackup.release]
    refine h.quiet (by simp) (by simp) ?_ ?_
    · simp [pending, hworker, Worker.waiting]
    · simpa using h.stored
  | sleepSaving slot wasChecking =>
    simp only [stepWorker, hworker]
    refine h.persist (by rw [hworker]; rfl) ?_ ok t.1.active
    split <;> rfl
  | sleepBackingUp slot =>
    simp only [stepWorker, hworker]
    exact h.quiet rfl rfl (by simp [pending, hworker, Worker.waiting]) h.stored
  | sleepReleasing slot =>
    simp only [stepWorker, hworker]
    refine h.quiet rfl rfl ?_ h.stored
    cases sleeps <;> simp [pending, hworker, Worker.waiting, Snapshots.release]
  | ejecting =>
    simp only [stepWorker, hworker, releaseDeferred, DeferredBackup.release]
    refine h.quiet (by simp) (by simp) ?_ ?_
    · simp [pending, hworker, Worker.waiting]
    · simpa using h.stored
  | asleep =>
    simp only [stepWorker, hworker]
    exact h.quiet rfl rfl rfl h.stored

theorem delivered_next {t : Traced σ} (howned : Owned t.1) (h : Delivered t) (i : Input σ) :
    Delivered (next t i) := by
  unfold next
  cases i with
  | call op state =>
    simp only [step, stepCall]
    split
    · exact h.quiet rfl rfl rfl nofun
    · exact h.quiet rfl rfl rfl h.stored
  | post message =>
    simp only [step, stepPost]
    split
    · exact h.quiet rfl rfl (by simp [pending, Message.slots]) h.stored
    · exact h.quiet rfl rfl (by simp [pending, Message.slots]) h.stored
    · exact h.quiet rfl rfl rfl h.stored
  | app accepted => exact delivered_stepApp howned h accepted
  | worker ok goesOn sleeps => exact delivered_stepWorker h ok goesOn sleeps

/-! ## The deferred backup -/

/-- The State of the last successful `persist` while recovery was active. -/
def latest (events : List (Event σ)) : Option σ :=
  events.foldl (fun last e => match e with
    | .persisted state true true => some state
    | _ => last) none

theorem latest_append (before after : List (Event σ)) :
    latest (before ++ after) = after.foldl (fun last e => match e with
      | .persisted state true true => some state
      | _ => last) (latest before) := List.foldl_append

theorem latest_dropEvents (events : List (Event σ)) (d : DeferredBackup) :
    latest (events ++ dropEvents d) = latest events := by
  rw [latest_append]
  unfold dropEvents
  split <;> rfl

/-- The State that a completion of recovery would hand to the SD backup, once
the task has settled the snapshot it works on. -/
def deferredState (s : State σ) : Option σ :=
  match s.worker with
  | .settling _ slot true =>
    if s.active then some (s.snapshots.state slot) else s.deferred.slot.map s.snapshots.state
  | _ => s.deferred.slot.map s.snapshots.state

/-- Until recovery completes, the deferred backup is the last successful save. -/
def Current (t : Traced σ) : Prop :=
  t.1.initialized = false ∨ t.1.worker = .backingDeferred → latest t.2 = deferredState t.1

theorem current_of_initialized {t : Traced σ} (h : t.1.initialized = true)
    (hworker : t.1.worker ≠ .backingDeferred) : Current t := by
  intro hcase
  rcases hcase with hcase | hcase
  · rw [h] at hcase
    exact nomatch hcase
  · exact absurd hcase hworker

/-- A step that changes neither the deferred backup nor a State in a slot. -/
theorem Current.quiet {t : Traced σ} (h : Current t) {s' : State σ} {events : List (Event σ)}
    (hlatest : latest (t.2 ++ events) = latest t.2) (hinitialized : s'.initialized = t.1.initialized)
    (hworker : s'.worker ≠ .backingDeferred) (hstate : deferredState s' = deferredState t.1) :
    Current (s', t.2 ++ events) := by
  intro hcase
  rw [hlatest, hstate]
  refine h (hcase.imp (fun hi => ?_) fun hw => absurd hw hworker)
  rw [← hinitialized]
  exact hi

theorem deferredState_of {s : State σ} (h : ∀ op slot, s.worker ≠ .settling op slot true) :
    deferredState s = s.deferred.slot.map s.snapshots.state := by
  unfold deferredState
  split
  · rename_i hw
    exact absurd hw (h _ _)
  · rfl

theorem current_settle {t : Traced σ} (hphased : Phased t.1) (h : Current t) {op : SnapshotOp}
    {slot : Fin 2} {ok : Bool} (hworker : t.1.worker = .settling op slot ok) :
    Current ((settle t.1 op slot ok).1, t.2 ++ (settle t.1 op slot ok).2) := by
  unfold settle
  split
  · rename_i hretained
    simp only [Bool.and_eq_true] at hretained
    have hbefore := h (.inl (hphased.checking hretained.2))
    intro _
    simp only [latest_dropEvents]
    rw [hbefore]
    simp [deferredState, hworker, hretained.1, hretained.2, DeferredBackup.retain]
  · rename_i hdropped
    refine h.quiet (by rw [List.append_nil]) rfl (by cases ok <;> nofun) ?_
    have hafter : deferredState { t.1 with worker := if ok then .backingUp slot else .releasing slot } =
        t.1.deferred.slot.map t.1.snapshots.state := by
      refine deferredState_of fun op' slot' => ?_
      cases ok <;> nofun
    rw [hafter]
    unfold deferredState
    rw [hworker]
    cases ok with
    | false => rfl
    | true =>
      have hactive : t.1.active = false := by simpa using hdropped
      simp [hactive]

theorem current_persist {t : Traced σ} (h : Current t) {op : SnapshotOp} {slot : Fin 2}
    (hworker : t.1.worker = .persisting op slot) (ok : Bool) :
    Current ({ t.1 with worker := .settling op slot ok },
      t.2 ++ [.persisted (t.1.snapshots.get slot) ok t.1.active]) := by
  have hbefore : deferredState t.1 = t.1.deferred.slot.map t.1.snapshots.state :=
    deferredState_of (by rw [hworker]; nofun)
  intro hcase
  have hlatest := h (hcase.imp id nofun)
  rw [latest_append, List.foldl_cons, List.foldl_nil]
  cases ok with
  | false =>
    rw [hlatest, hbefore]
    rfl
  | true =>
    cases hactive : t.1.active with
    | false =>
      simp only
      rw [hlatest, hbefore]
      simp [deferredState, hactive]
    | true => simp [deferredState, hactive, Snapshots.get]

theorem current_receive {t : Traced σ} (h : Current t) (hworker : t.1.worker = .receiving) :
    Current ((receive t.1).1, t.2 ++ (receive t.1).2) := by
  have hbefore : deferredState t.1 = t.1.deferred.slot.map t.1.snapshots.state :=
    deferredState_of (by rw [hworker]; nofun)
  unfold receive
  split
  · exact h.quiet (by rw [List.append_nil]) rfl nofun hbefore.symm
  · exact h.quiet (by rw [List.append_nil]) rfl nofun hbefore.symm
  · exact h.quiet (by rw [List.append_nil]) rfl nofun hbefore.symm
  · refine h.quiet (by rw [List.append_nil]) rfl (by cases t.1.ejected <;> nofun) ?_
    rw [hbefore]
    refine deferredState_of fun op slot => ?_
    cases t.1.ejected <;> nofun
  · exact h.quiet (by rw [List.append_nil]) rfl nofun hbefore.symm

theorem current_completing {t : Traced σ} (h : Current t)
    (hworker : t.1.worker = .completing) (ok goesOn sleeps : Bool) :
    Current ((stepWorker t.1 ok goesOn sleeps).1, t.2 ++ (stepWorker t.1 ok goesOn sleeps).2) := by
  have hbefore : deferredState t.1 = t.1.deferred.slot.map t.1.snapshots.state :=
    deferredState_of (by rw [hworker]; nofun)
  simp only [stepWorker, hworker]
  split
  · rename_i hdone
    simp only [Bool.and_eq_true, Bool.not_eq_true'] at hdone
    intro _
    rw [List.append_nil, h (.inl hdone.1), hbefore]
    cases hslot : t.1.deferred.slot <;> simp [deferredState, hslot]
  · exact h.quiet (by rw [List.append_nil]) rfl nofun hbefore.symm

theorem current_stepWorker {t : Traced σ} (hphased : Phased t.1) (h : Current t)
    (ok goesOn sleeps : Bool) :
    Current ((stepWorker t.1 ok goesOn sleeps).1, t.2 ++ (stepWorker t.1 ok goesOn sleeps).2) := by
  cases hworker : t.1.worker with
  | recovering =>
    simp only [stepWorker, hworker]
    exact h.quiet (by rw [List.append_nil]) rfl nofun (by simp [deferredState, hworker])
  | completing => exact current_completing h hworker ok goesOn sleeps
  | backingDeferred =>
    obtain ⟨hinitialized, -⟩ := hphased.backing hworker
    simp only [stepWorker, hworker]
    exact current_of_initialized hinitialized nofun
  | releasingDeferred =>
    have hinitialized := hphased.releasing hworker
    simp only [stepWorker, hworker]
    exact current_of_initialized hinitialized nofun
  | receiving =>
    simp only [stepWorker, hworker]
    exact current_receive h hworker
  | persisting op slot =>
    simp only [stepWorker, hworker]
    exact current_persist h hworker ok
  | settling op slot ok =>
    simp only [stepWorker, hworker]
    exact current_settle hphased h hworker
  | backingUp slot =>
    simp only [stepWorker, hworker]
    exact h.quiet (latest_append _ _) rfl nofun (by simp [deferredState, hworker])
  | releasing slot =>
    simp only [stepWorker, hworker]
    exact h.quiet (latest_append _ _) rfl nofun (by simp [deferredState, hworker, Snapshots.release])
  | cancelling slot =>
    simp only [stepWorker, hworker]
    exact current_of_initialized rfl nofun
  | sleepSaving slot wasChecking =>
    have hinitialized := hphased.sleeping slot wasChecking hworker
    simp only [stepWorker, hworker]
    refine current_of_initialized hinitialized ?_
    split <;> nofun
  | sleepBackingUp slot =>
    simp only [stepWorker, hworker]
    exact h.quiet (latest_append _ _) rfl nofun (by simp [deferredState, hworker])
  | sleepReleasing slot =>
    simp only [stepWorker, hworker]
    refine h.quiet (latest_append _ _) rfl (by cases sleeps <;> nofun) ?_
    cases sleeps <;> simp [deferredState, hworker, Snapshots.release]
  | ejecting =>
    simp only [stepWorker, hworker]
    exact current_of_initialized rfl nofun
  | asleep =>
    simp only [stepWorker, hworker]
    refine h.quiet (by rw [List.append_nil]) rfl (by rw [hworker]; nofun) rfl

/-- A step of the app, which leaves the task's bookkeeping alone. -/
theorem Current.frame {t : Traced σ} (h : Current t) {s' : State σ} {events : List (Event σ)}
    (hlatest : latest (t.2 ++ events) = latest t.2) (hworker : s'.worker = t.1.worker)
    (hdeferred : s'.deferred = t.1.deferred) (hactive : s'.active = t.1.active)
    (hinitialized : s'.initialized = t.1.initialized)
    (hstate : ∀ slot, slot ∈ t.1.worker.slots ∨ t.1.deferred.slot = some slot →
      s'.snapshots.state slot = t.1.snapshots.state slot) : Current (s', t.2 ++ events) := by
  intro hcase
  simp only [hworker, hinitialized] at hcase
  rw [hlatest, h hcase]
  have hslot : s'.deferred.slot.map s'.snapshots.state = t.1.deferred.slot.map t.1.snapshots.state := by
    rw [hdeferred]
    cases hslot : t.1.deferred.slot with
    | none => rfl
    | some slot => exact congrArg some (hstate slot (.inr hslot))
  unfold deferredState
  rw [hworker, hactive, hslot]
  split
  · rename_i hsettling
    rw [hstate _ (.inl (by rw [hsettling]; exact List.mem_cons_self))]
  · rfl

theorem current_next {t : Traced σ} (howned : Owned t.1) (hphased : Phased t.1) (h : Current t)
    (i : Input σ) : Current (next t i) := by
  unfold next
  cases i with
  | worker ok goesOn sleeps => exact current_stepWorker hphased h ok goesOn sleeps
  | call op state =>
    simp only [step, stepCall]
    split
    · exact h.frame (by rw [List.append_nil]) rfl rfl rfl rfl fun _ _ => rfl
    · exact h.frame (by rw [List.append_nil]) rfl rfl rfl rfl fun _ _ => rfl
  | post message =>
    simp only [step, stepPost]
    split
    · exact h.frame (by rw [List.append_nil]) rfl rfl rfl rfl fun _ _ => rfl
    · exact h.frame (by rw [List.append_nil]) rfl rfl rfl rfl fun _ _ => rfl
    · exact h.frame (by rw [List.append_nil]) rfl rfl rfl rfl fun _ _ => rfl
  | app accepted =>
    simp only [step]
    cases happ : t.1.app with
    | idle =>
      simp only [stepApp, happ]
      exact h.frame (by rw [List.append_nil]) rfl rfl rfl rfl fun _ _ => rfl
    | claiming op state slot =>
      simp only [stepApp, happ]
      split
      · exact h.frame (by rw [List.append_nil]) rfl rfl rfl rfl fun _ _ => rfl
      · exact h.frame (by rw [List.append_nil]) rfl rfl rfl rfl fun _ _ => rfl
    | storing op state slot =>
      obtain ⟨hworker, hdeferred, -⟩ := howned.storing happ
      simp only [stepApp, happ]
      refine h.frame (by rw [List.append_nil]) rfl rfl rfl rfl fun other hother => ?_
      have hne : other ≠ slot := by
        rintro rfl
        exact hother.elim hworker hdeferred
      exact Function.update_of_ne hne _ _
    | sending op state slot =>
      simp only [stepApp, happ]
      split
      · exact h.frame (latest_append _ _) rfl rfl rfl rfl fun _ _ => rfl
      · exact h.frame (by rw [List.append_nil]) rfl rfl rfl rfl fun _ _ => rfl
    | refused slot =>
      simp only [stepApp, happ]
      exact h.frame (latest_append _ _) rfl rfl rfl rfl fun _ _ => rfl

/-! ## All interleavings -/

structure Sound (t : Traced σ) : Prop where
  owned : Owned t.1
  phased : Phased t.1
  delivered : Delivered t
  current : Current t

theorem sound_start (states : Fin 2 → σ) (active : Bool) : Sound (start states active) where
  owned _ := rfl
  phased :=
    { checking _ := rfl
      checked _ h _ := absurd rfl h
      holding := nofun
      backing := nofun
      releasing := nofun
      sleeping := nofun }
  delivered := ⟨rfl, nofun⟩
  current _ := rfl

theorem sound_next {t : Traced σ} (h : Sound t) (i : Input σ) : Sound (next t i) where
  owned := owned_step h.owned i
  phased := phased_step h.phased i
  delivered := delivered_next h.owned h.delivered i
  current := current_next h.owned h.phased h.current i

theorem sound_run (states : Fin 2 → σ) (active : Bool) (inputs : List (Input σ)) :
    Sound (run states active inputs) :=
  Runs.invariant Sound (fun _ i h => sound_next h i) (sound_start states active) inputs

/-- Only the app's own store writes to a slot. -/
theorem state_of_step (s : State σ) (i : Input σ) (slot : Fin 2)
    (hidle : ∀ op state, s.app ≠ .storing op state slot) :
    (step s i).1.snapshots.state slot = s.snapshots.state slot := by
  cases i with
  | call op state =>
    simp only [step, stepCall]
    split <;> rfl
  | post message =>
    simp only [step, stepPost]
    split <;> rfl
  | app accepted =>
    simp only [step, stepApp]
    split
    · rfl
    · split <;> rfl
    · rename_i op state other happ
      have hne : slot ≠ other := by
        rintro rfl
        exact hidle op state happ
      exact Function.update_of_ne hne _ _
    · split <;> rfl
    · rfl
  | worker ok goesOn sleeps =>
    simp only [step, stepWorker]
    split
    · rfl
    · split <;> rfl
    · rfl
    · simp [releaseDeferred, DeferredBackup.release]
    · unfold receive
      split <;> rfl
    · rfl
    · unfold settle
      split
      · simp [DeferredBackup.retain]
      · rfl
    · rfl
    · rfl
    · simp [releaseDeferred, DeferredBackup.release]
    · rfl
    · rfl
    · rfl
    · simp [releaseDeferred, DeferredBackup.release]
    · rfl

theorem free_of_release (s : Snapshots σ) (slot : Fin 2) : (s.release slot).busy slot = false :=
  Function.update_self _ _ _

theorem free_of_drop {d : DeferredBackup} {s : Snapshots σ} {slot : Fin 2}
    (h : (.released slot : Event σ) ∈ dropEvents d) : (d.drop s).busy slot = false := by
  unfold dropEvents at h
  unfold DeferredBackup.drop
  cases hslot : d.slot with
  | none =>
    rw [hslot] at h
    exact nomatch h
  | some held =>
    rw [hslot] at h
    obtain rfl := Event.released.inj (List.mem_singleton.mp h)
    exact free_of_release s slot

/-- What is released is free, so that nobody owns it. -/
theorem free_of_released {s : State σ} {i : Input σ} {slot : Fin 2} (h : .released slot ∈ (step s i).2) :
    (step s i).1.snapshots.busy slot = false := by
  cases i with
  | call op state =>
    simp only [step, stepCall] at h
    split at h <;> exact nomatch h
  | post message =>
    simp only [step, stepPost] at h
    split at h <;> exact nomatch h
  | app accepted =>
    simp only [step] at h ⊢
    cases happ : s.app with
    | idle => simp [stepApp, happ] at h
    | claiming op state other =>
      simp only [stepApp, happ] at h
      split at h <;> exact nomatch h
    | storing op state other => simp [stepApp, happ] at h
    | sending op state other =>
      simp only [stepApp, happ] at h
      split at h <;> simp at h
    | refused other =>
      simp only [stepApp, happ] at h ⊢
      obtain rfl := Event.released.inj (List.mem_singleton.mp h)
      exact free_of_release _ _
  | worker ok goesOn sleeps =>
    simp only [step] at h ⊢
    cases hworker : s.worker with
    | recovering => simp [stepWorker, hworker] at h
    | completing =>
      simp only [stepWorker, hworker] at h
      split at h <;> exact nomatch h
    | backingDeferred =>
      simp only [stepWorker, hworker] at h
      split at h <;> simp at h
    | releasingDeferred =>
      simp only [stepWorker, hworker] at h ⊢
      exact free_of_drop h
    | receiving =>
      simp only [stepWorker, hworker] at h
      unfold receive at h
      split at h <;> exact nomatch h
    | persisting op other => simp [stepWorker, hworker] at h
    | settling op other saved =>
      simp only [stepWorker, hworker] at h ⊢
      unfold settle at h ⊢
      split at h
      · rename_i hretained
        rw [if_pos hretained]
        exact free_of_drop h
      · exact nomatch h
    | backingUp other => simp [stepWorker, hworker] at h
    | releasing other =>
      simp only [stepWorker, hworker] at h ⊢
      obtain rfl := Event.released.inj (List.mem_singleton.mp h)
      exact free_of_release _ _
    | cancelling other =>
      simp only [stepWorker, hworker] at h ⊢
      exact free_of_drop h
    | sleepSaving other wasChecking => simp [stepWorker, hworker] at h
    | sleepBackingUp other => simp [stepWorker, hworker] at h
    | sleepReleasing other =>
      simp only [stepWorker, hworker] at h ⊢
      obtain rfl := Event.released.inj (List.mem_singleton.mp h)
      exact free_of_release _ _
    | ejecting =>
      simp only [stepWorker, hworker] at h ⊢
      exact free_of_drop h
    | asleep => simp [stepWorker, hworker] at h

theorem Owned.free {s : State σ} (h : Owned s) {slot : Fin 2} (hfree : s.snapshots.busy slot = false) :
    slot ∉ s.app.slots ∧ slot ∉ s.worker.slots ∧ s.deferred.slot ≠ some slot ∧ slot ∉ queued s.queue := by
  have hnone := h slot
  rw [hfree] at hnone
  simp only [owners, Bool.toNat_false] at hnone
  refine ⟨List.count_eq_zero.mp (by omega), List.count_eq_zero.mp (by omega), fun hdeferred => ?_,
    List.count_eq_zero.mp (by omega)⟩
  rw [hdeferred] at hnone
  simp at hnone

/-- The task hands on the State that recovery's completion calls for. -/
theorem completed_spec {s : State σ} {i : Input σ} {state : σ} (h : .completed state ∈ (step s i).2) :
    s.worker = .backingDeferred ∧ s.deferred.slot.map s.snapshots.state = some state := by
  cases i with
  | call op state =>
    simp only [step, stepCall] at h
    split at h <;> exact nomatch h
  | post message =>
    simp only [step, stepPost] at h
    split at h <;> exact nomatch h
  | app accepted =>
    simp only [step, stepApp] at h
    split at h
    · exact nomatch h
    · split at h <;> exact nomatch h
    · exact nomatch h
    · split at h <;> simp at h
    · simp at h
  | worker ok goesOn sleeps =>
    simp only [step] at h
    have hdrop : ∀ d : DeferredBackup, (.completed state : Event σ) ∉ dropEvents d := by
      intro d hmem
      unfold dropEvents at hmem
      split at hmem <;> simp at hmem
    cases hworker : s.worker with
    | backingDeferred =>
      simp only [stepWorker, hworker] at h
      cases hslot : s.deferred.slot with
      | none => simp [hslot] at h
      | some slot =>
        simp only [hslot, List.mem_singleton, Event.completed.injEq] at h
        exact ⟨rfl, by rw [h]; rfl⟩
    | releasingDeferred =>
      simp only [stepWorker, hworker] at h
      exact absurd h (hdrop _)
    | cancelling other =>
      simp only [stepWorker, hworker] at h
      exact absurd h (hdrop _)
    | ejecting =>
      simp only [stepWorker, hworker] at h
      exact absurd h (hdrop _)
    | settling op other saved =>
      simp only [stepWorker, hworker] at h
      unfold settle at h
      split at h
      · exact absurd h (hdrop _)
      · exact nomatch h
    | receiving =>
      simp only [stepWorker, hworker] at h
      unfold receive at h
      split at h <;> exact nomatch h
    | completing =>
      simp only [stepWorker, hworker] at h
      split at h <;> exact nomatch h
    | recovering => simp [stepWorker, hworker] at h
    | persisting op other => simp [stepWorker, hworker] at h
    | backingUp other => simp [stepWorker, hworker] at h
    | releasing other => simp [stepWorker, hworker] at h
    | sleepSaving other wasChecking => simp [stepWorker, hworker] at h
    | sleepBackingUp other => simp [stepWorker, hworker] at h
    | sleepReleasing other => simp [stepWorker, hworker] at h
    | asleep => simp [stepWorker, hworker] at h

/-- Nothing is queued, no call is under way and the task is back at the queue. -/
def Quiescent (s : State σ) : Prop :=
  s.queue = [] ∧ s.app = .idle ∧ s.active = false ∧ s.worker = .receiving

theorem free_of_quiescent {t : Traced σ} (h : Sound t) (hquiet : Quiescent t.1) (slot : Fin 2) :
    t.1.snapshots.busy slot = false := by
  obtain ⟨hqueue, happ, hactive, hworker⟩ := hquiet
  have hinitialized := h.phased.checked hactive (by rw [hworker]; nofun) (by rw [hworker]; nofun)
  have hnone := h.phased.deferred_none hinitialized (by rw [hworker]; nofun) (by rw [hworker]; nofun)
  have howners := h.owned slot
  simp only [owners, hqueue, happ, hworker, hnone, App.slots, Worker.slots, queued_nil, Option.toList_none,
    List.count_nil] at howners
  cases hbusy : t.1.snapshots.busy slot with
  | false => rfl
  | true =>
    rw [hbusy] at howners
    exact nomatch howners

/-- The hand-off in every interleaving of the app and the storage task. -/
theorem snapshots_handed_off (states : Fin 2 → σ) (active : Bool) (inputs : List (Input σ)) (i : Input σ) :
    (∀ slot, (run states active inputs).1.snapshots.busy slot = true →
      (∀ op state, (run states active inputs).1.app ≠ .storing op state slot) →
      (step (run states active inputs).1 i).1.snapshots.state slot =
        (run states active inputs).1.snapshots.state slot) ∧
    (∀ slot, .released slot ∈ (step (run states active inputs).1 i).2 →
      slot ∉ queued (step (run states active inputs).1 i).1.queue ∧
      slot ∉ (step (run states active inputs).1 i).1.worker.slots ∧
      (step (run states active inputs).1 i).1.deferred.slot ≠ some slot) ∧
    persistedStates (run states active inputs).2 <+: sentStates (run states active inputs).2 ∧
    (Quiescent (run states active inputs).1 → ∀ slot,
      (run states active inputs).1.snapshots.busy slot = false) ∧
    (∀ state, .completed state ∈ (step (run states active inputs).1 i).2 →
      latest (run states active inputs).2 = some state) ∧
    ((run states active inputs).1.worker = .completing →
      (run states active inputs).1.initialized = false → (run states active inputs).1.active = false →
      ∀ state, latest (run states active inputs).2 = some state → ∀ ok goesOn sleeps,
        (step (run states active inputs).1 (.worker ok goesOn sleeps)).1.worker = .backingDeferred) := by
  have h := sound_run states active inputs
  generalize run states active inputs = t at h ⊢
  refine ⟨fun slot _ hidle => state_of_step t.1 i slot hidle, fun slot hreleased => ?_, ?_,
    fun hquiet slot => free_of_quiescent h hquiet slot, fun state hcompleted => ?_,
    fun hworker hinitialized hactive state hlatest ok goesOn sleeps => ?_⟩
  · obtain ⟨-, hworker, hdeferred, hqueue⟩ := (owned_step h.owned i).free (free_of_released hreleased)
    exact ⟨hqueue, hworker, hdeferred⟩
  · exact ⟨_, h.delivered.order.symm⟩
  · obtain ⟨hworker, hstate⟩ := completed_spec hcompleted
    rw [h.current (.inr hworker), deferredState_of (by rw [hworker]; nofun)]
    exact hstate
  · have hdeferred := h.current (.inl hinitialized)
    rw [hlatest, deferredState_of (by rw [hworker]; nofun)] at hdeferred
    cases hslot : t.1.deferred.slot with
    | none =>
      rw [hslot] at hdeferred
      exact nomatch hdeferred
    | some slot => simp [step, stepWorker, hworker, hinitialized, hactive, hslot]

/-- A save during recovery, which then completes. -/
def savedWhileChecking : List (Input Nat) :=
  [.call .Save 5, .app true, .app true, .app true, .worker true true false, .worker true true false,
    .worker true true false, .worker true true false, .worker true true false, .worker true false false]

theorem snapshots_handed_off_deferred :
    (step (run (fun _ => 0) true savedWhileChecking).1 (.worker true false false)).1.worker =
      .backingDeferred :=
  (snapshots_handed_off (fun _ => 0) true savedWhileChecking (.worker true false false)).2.2.2.2.2 rfl rfl rfl
    5 rfl true false false

end Handoff

end Hound
