import Hound.Lib.Runs
import Hound.Lib.Slots

/-!
# Snapshot hand-off

`Snapshots`, `DeferredBackup`, `send_snapshot` and the part of the storage
task's loop that touches a snapshot slot. The app and the task take turns one
step at a time, a step being at most one operation on a slot, in any order.
What the task's other calls report is the input of its step.
-/

namespace Hound

/-! ## Slots -/

structure Snapshots (σ : Type) where
  busy : Fin 2 → Bool := fun _ => false
  state : Fin 2 → σ

namespace Snapshots

variable {σ : Type}

/-- `compare_exchange_strong(expected, true)` on a free slot. -/
def take (s : Snapshots σ) (slot : Fin 2) : Snapshots σ :=
  { s with busy := Function.update s.busy slot true }

/-- The assignment in `claim`. -/
def store (s : Snapshots σ) (slot : Fin 2) (state : σ) : Snapshots σ :=
  { s with state := Function.update s.state slot state }

def get (s : Snapshots σ) (slot : Fin 2) : σ := s.state slot

def release (s : Snapshots σ) (slot : Fin 2) : Snapshots σ :=
  { s with busy := Function.update s.busy slot false }

end Snapshots

structure DeferredBackup where
  slot : Option (Fin 2) := none
  manual : Bool := false

namespace DeferredBackup

variable {σ : Type}

def drop (d : DeferredBackup) (s : Snapshots σ) : Snapshots σ :=
  match d.slot with
  | some slot => s.release slot
  | none => s

def retain (d : DeferredBackup) (s : Snapshots σ) (next : Fin 2) (requested : Bool) :
    DeferredBackup × Snapshots σ :=
  ({ slot := some next, manual := d.manual || requested }, d.drop s)

def release (d : DeferredBackup) (s : Snapshots σ) : DeferredBackup × Snapshots σ := ({}, d.drop s)

end DeferredBackup

/-! ## The two tasks -/

namespace Handoff

inductive SnapshotOp where
  | Save
  | BackupIgnores
  | Sleep
  deriving DecidableEq

/-- The other messages touch no slot. -/
inductive Message where
  | snapshot (op : SnapshotOp) (slot : Fin 2)
  | eject
  | other
  deriving DecidableEq

/-- Where `send_snapshot` is: trying slots, storing the State, sending, or
releasing the slot of a message that was refused. -/
inductive App (σ : Type) where
  | idle
  | claiming (op : SnapshotOp) (state : σ) (slot : Fin 2)
  | storing (op : SnapshotOp) (state : σ) (slot : Fin 2)
  | sending (op : SnapshotOp) (state : σ) (slot : Fin 2)
  | refused (slot : Fin 2)

/-- Where the loop of the storage task is. -/
inductive Worker where
  | recovering
  | completing
  | backingDeferred
  | releasingDeferred
  | receiving
  | persisting (op : SnapshotOp) (slot : Fin 2)
  | settling (op : SnapshotOp) (slot : Fin 2) (ok : Bool)
  | backingUp (slot : Fin 2)
  | releasing (slot : Fin 2)
  | cancelling (slot : Fin 2)
  | sleepSaving (slot : Fin 2) (wasChecking : Bool)
  | sleepBackingUp (slot : Fin 2)
  | sleepReleasing (slot : Fin 2)
  | ejecting
  | asleep

inductive Event (σ : Type) where
  /-- A message with this State is in the queue. -/
  | sent (state : σ)
  | released (slot : Fin 2)
  /-- `persist` was given this State. -/
  | persisted (state : σ) (ok checking : Bool)
  /-- The SD backup was given this State. -/
  | backedUp (state : σ)
  /-- The SD backup was given this State because recovery completed. -/
  | completed (state : σ)

structure State (σ : Type) where
  snapshots : Snapshots σ
  deferred : DeferredBackup := {}
  queue : List Message := []
  app : App σ := .idle
  worker : Worker := .recovering
  /-- `recovery.active()` -/
  active : Bool
  initialized : Bool := false
  ejected : Bool := false

inductive Input (σ : Type) where
  /-- The app calls `save` or `sleep`. -/
  | call (op : SnapshotOp) (state : σ)
  /-- The app sends a message without a slot. -/
  | post (message : Message)
  /-- The next step of the call; whether `xQueueSend` takes its message. -/
  | app (accepted : Bool)
  /-- The next step of the task; whether its call succeeds, recovery goes on and
  the board sleeps. -/
  | worker (ok goesOn sleeps : Bool)

variable {σ : Type}

def stepCall (s : State σ) (op : SnapshotOp) (state : σ) : State σ × List (Event σ) :=
  match s.app with
  | .idle => ({ s with app := .claiming op state 0 }, [])
  | _ => (s, [])

def stepPost (s : State σ) (message : Message) : State σ × List (Event σ) :=
  match s.app, message with
  | .idle, .eject => ({ s with queue := s.queue ++ [.eject] }, [])
  | .idle, .other => ({ s with queue := s.queue ++ [.other] }, [])
  | _, _ => (s, [])

def stepApp (s : State σ) (accepted : Bool) : State σ × List (Event σ) :=
  match s.app with
  | .idle => (s, [])
  | .claiming op state slot =>
    if s.snapshots.busy slot then
      ({ s with app := if slot = 0 then .claiming op state 1 else .idle }, [])
    else ({ s with snapshots := s.snapshots.take slot, app := .storing op state slot }, [])
  | .storing op state slot =>
    ({ s with snapshots := s.snapshots.store slot state, app := .sending op state slot }, [])
  | .sending op state slot =>
    if accepted then
      ({ s with queue := s.queue ++ [.snapshot op slot], app := .idle }, [.sent state])
    else ({ s with app := .refused slot }, [])
  | .refused slot => ({ s with snapshots := s.snapshots.release slot, app := .idle }, [.released slot])

def dropEvents (d : DeferredBackup) : List (Event σ) :=
  match d.slot with
  | some slot => [.released slot]
  | none => []

def releaseDeferred (s : State σ) : State σ :=
  let (deferred, snapshots) := s.deferred.release s.snapshots
  { s with deferred, snapshots }

def receive (s : State σ) : State σ × List (Event σ) :=
  match s.queue with
  | [] => ({ s with worker := .recovering }, [])
  | .snapshot .Sleep slot :: queue => ({ s with queue, worker := .cancelling slot }, [])
  | .snapshot op slot :: queue => ({ s with queue, worker := .persisting op slot }, [])
  | .eject :: queue =>
    ({ s with queue, worker := if s.ejected then .recovering else .ejecting }, [])
  | .other :: queue => ({ s with queue, worker := .recovering }, [])

/-- After `persist` in the branch of `Save` and `BackupIgnores`. -/
def settle (s : State σ) (op : SnapshotOp) (slot : Fin 2) (ok : Bool) : State σ × List (Event σ) :=
  if ok && s.active then
    let (deferred, snapshots) := s.deferred.retain s.snapshots slot (op == .BackupIgnores)
    ({ s with deferred, snapshots, worker := .recovering }, dropEvents s.deferred)
  else ({ s with worker := if ok then .backingUp slot else .releasing slot }, [])

def stepWorker (s : State σ) (ok goesOn sleeps : Bool) : State σ × List (Event σ) :=
  match s.worker with
  | .recovering => ({ s with active := s.active && goesOn, worker := .completing }, [])
  | .completing =>
    if !s.initialized && !s.active then
      ({ s with
          initialized := true
          worker := if s.deferred.slot.isSome then .backingDeferred else .receiving }, [])
    else ({ s with worker := .receiving }, [])
  | .backingDeferred =>
    ({ s with worker := .releasingDeferred },
      match s.deferred.slot with
      | some slot => [.completed (s.snapshots.get slot)]
      | none => [])
  | .releasingDeferred => ({ releaseDeferred s with worker := .receiving }, dropEvents s.deferred)
  | .receiving => receive s
  | .persisting op slot =>
    ({ s with worker := .settling op slot ok }, [.persisted (s.snapshots.get slot) ok s.active])
  | .settling op slot ok => settle s op slot ok
  | .backingUp slot => ({ s with worker := .releasing slot }, [.backedUp (s.snapshots.get slot)])
  | .releasing slot =>
    ({ s with snapshots := s.snapshots.release slot, worker := .recovering }, [.released slot])
  | .cancelling slot =>
    ({ releaseDeferred s with active := false, initialized := true, worker := .sleepSaving slot s.active },
      dropEvents s.deferred)
  | .sleepSaving slot wasChecking =>
    ({ s with worker := if ok && !wasChecking then .sleepBackingUp slot else .sleepReleasing slot },
      [.persisted (s.snapshots.get slot) ok s.active])
  | .sleepBackingUp slot => ({ s with worker := .sleepReleasing slot }, [.backedUp (s.snapshots.get slot)])
  | .sleepReleasing slot =>
    ({ s with
        snapshots := s.snapshots.release slot
        worker := if sleeps then .asleep else .recovering }, [.released slot])
  | .ejecting =>
    ({ releaseDeferred s with active := false, initialized := true, ejected := true, worker := .recovering },
      dropEvents s.deferred)
  | .asleep => (s, [])

def step (s : State σ) : Input σ → State σ × List (Event σ)
  | .call op state => stepCall s op state
  | .post message => stepPost s message
  | .app accepted => stepApp s accepted
  | .worker ok goesOn sleeps => stepWorker s ok goesOn sleeps

/-! ## Runs -/

/-- A state with the events that led to it. -/
abbrev Traced (σ : Type) := State σ × List (Event σ)

def next (t : Traced σ) (i : Input σ) : Traced σ := ((step t.1 i).1, t.2 ++ (step t.1 i).2)

/-- The task's first turn, with recovery begun or not. -/
def start (states : Fin 2 → σ) (active : Bool) : Traced σ :=
  ({ snapshots := { state := states }, active }, [])

def run (states : Fin 2 → σ) (active : Bool) (inputs : List (Input σ)) : Traced σ :=
  Runs.run next (start states active) inputs

end Handoff

end Hound
