import Mathlib

/-!
# The display's appearance record

Three frozen layouts of one preference record. The second and the third have
equal size, so only their version field tells them apart.
-/

namespace Hound

structure AppearanceV1 where
  version : UInt32 := 1
  theme : UInt8 := 0
  scene : UInt8 := 0
  speech : UInt8 := 1
  compact : UInt8 := 0

structure AppearanceV2 where
  version : UInt32 := 2
  theme : UInt8 := 0
  scene : UInt8 := 0
  speech : UInt8 := 1
  compact : UInt8 := 0
  inverted : UInt8 := 0

structure Appearance where
  version : UInt32 := 3
  theme : UInt8 := 0
  scene : UInt8 := 0
  speech : UInt8 := 1
  compact : UInt8 := 0
  inverted : UInt8 := 0
  dimMinutes : UInt8 := 2
  saverMinutes : UInt8 := 5
  offMinutes : UInt8 := 15
  deriving DecidableEq, Repr

def idleTimeouts : List UInt8 := [0, 1, 2, 5, 10, 15, 30, 60]

def validTimeout (minutes : UInt8) : Bool := idleTimeouts.contains minutes

def nextTimeout (minutes : UInt8) : UInt8 :=
  match idleTimeouts.idxOf? minutes with
  | some i => (idleTimeouts[(i + 1) % idleTimeouts.length]?).getD 0
  | none => 0

def validAppearance (a : Appearance) : Bool :=
  a.version == 3 && decide (a.theme < 3) && decide (a.scene < 3) && decide (a.speech < 3) &&
    decide (a.compact < 2) && decide (a.inverted < 2) && validTimeout a.dimMinutes &&
    validTimeout a.saverMinutes && validTimeout a.offMinutes

def migrateAppearanceV1 (old : AppearanceV1) : Option Appearance :=
  if old.version != 1 || decide (3 ≤ old.theme) || decide (3 ≤ old.scene) ||
      decide (3 ≤ old.speech) || decide (2 ≤ old.compact) then none
  else some { theme := old.theme, scene := old.scene, speech := old.speech, compact := old.compact }

def migrateAppearanceV2 (old : AppearanceV2) : Option Appearance :=
  if old.version != 2 || decide (2 ≤ old.inverted) then none
  else
    (migrateAppearanceV1
      { theme := old.theme, scene := old.scene, speech := old.speech, compact := old.compact }).map
      fun next => { next with inverted := old.inverted }

/-- A tap on a timeout leaves a timeout the record accepts. -/
theorem validTimeout_nextTimeout (minutes : UInt8) : validTimeout (nextTimeout minutes) = true := by
  unfold nextTimeout
  cases idleTimeouts.idxOf? minutes with
  | none => rfl
  | some i =>
    have hlt : (i + 1) % idleTimeouts.length < 8 := Nat.mod_lt _ (by decide)
    dsimp only
    generalize (i + 1) % idleTimeouts.length = k at hlt
    interval_cases k <;> rfl

end Hound
