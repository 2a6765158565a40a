import Hound.Core.Types
import Hound.Lib.Slots

/-!
# The pet and its meals

`Pet` and `MealGuard`. Saved meal stamps hold remaining time; in RAM the same
field holds the time at which the stamp expires.
-/

namespace Hound

structure Pet where
  xp : UInt32 := 0
  meals : UInt32 := 0
  unique : UInt32 := 0
  categoryMask : UInt32 := 0
  lifetimeMeals : Vector UInt32 19 := Vector.replicate 19 0
  fullness : UInt8 := 70
  mood : UInt8 := 70
  decayMs : UInt64 := 0
  deriving DecidableEq, Repr

namespace Pet

def needsIntervalMs : UInt64 := 300000

/-- Unsigned, like the `1 + xp / 100` it is. -/
def level (p : Pet) : UInt32 := 1 + p.xp / 100

/-- What `decay_needs` takes and gives back by reference. -/
structure Needs where
  clock : UInt64
  fullness : UInt8
  mood : UInt8
  deriving DecidableEq, Repr

/-- `need > steps * rate ? need - steps * rate : 0`. -/
def lessened (need : UInt8) (loss : UInt64) : UInt8 :=
  if loss < need.toUInt64 then (need.toUInt64 - loss).toUInt8 else 0

def decayNeeds (now : UInt64) (n : Needs) : Needs :=
  let clock := if now < n.clock then now else n.clock
  let steps := (now - clock) / needsIntervalMs
  if steps = 0 then { n with clock }
  else
    { clock := clock + steps * needsIntervalMs
      fullness := lessened n.fullness (steps * 3)
      mood := lessened n.mood (steps * 2) }

def tick (p : Pet) (now : UInt64) : Pet :=
  let n := decayNeeds now ⟨p.decayMs, p.fullness, p.mood⟩
  { p with decayMs := n.clock, fullness := n.fullness, mood := n.mood }

/-- `std::clamp<int>` of a need and what a meal adds. -/
def fed (need gain least : Nat) : UInt8 := (min (max (need + gain) least) 100).toUInt8

/-- `nourish`: fullness and mood after a meal of this score. -/
def nourish (score fullness mood : UInt8) : UInt8 × UInt8 :=
  (fed fullness.toNat (if 80 ≤ score then 20 else if 50 ≤ score then 14 else 6) 35,
    fed mood.toNat (if 80 ≤ score then 15 else if 50 ≤ score then 12 else 6) 40)

/-- `std::min<int>(100, mood + 2)`. -/
def stroked (mood : UInt8) : UInt8 := (min 100 (mood.toNat + 2)).toUInt8

def stroke (p : Pet) : Pet := { p with mood := stroked p.mood }

/-- `feed`; a `Category` always indexes `lifetime_meals`. -/
def feed (p : Pet) (d : Detection) (low : Bool) : Pet :=
  if d.demo || !d.meal || decide (d.score < if low then 20 else 50) || decide (100 < d.score) then p
  else
    let c : Fin 19 := ⟨d.category.code, d.category.code_lt⟩
    let bonus : UInt32 := if hasCategory p.categoryMask d.category then 0 else 3
    let needs := nourish d.score p.fullness p.mood
    { p with
      categoryMask := p.categoryMask ||| d.category.bit
      xp := p.xp + (if 80 ≤ d.score then 10 else if 50 ≤ d.score then 5 else 1) + bonus
      fullness := needs.1, mood := needs.2, decayMs := d.lastMs
      meals := p.meals + 1
      lifetimeMeals := Slots.put p.lifetimeMeals c (p.lifetimeMeals.get c + 1) }

end Pet

structure MealStamp where
  hash : UInt64 := 0
  remainingMs : UInt64 := 0
  deriving DecidableEq, Repr

end Hound
