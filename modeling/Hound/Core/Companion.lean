import Hound.Core.Types
import Hound.Lib.Layout

/-!
# The scent book and the ignore list

`Companion` keeps what was seen of every category, the unlocked outfits and the
ignored devices. Stored categories are raw bytes: flash can hold any value, and
`valid_ignores` is what rejects those that name no category.
-/

namespace Hound

structure ScentEntry where
  firstUtc : UInt64 := 0
  lastUtc : UInt64 := 0
  observations : UInt32 := 0
  bestScore : UInt8 := 0
  lastScore : UInt8 := 0
  strongest : Int8 := -127
  deriving DecidableEq, Repr

structure IgnoredScent where
  digest : Vector UInt8 8 := Vector.replicate 8 0
  category : UInt8 := 0
  deriving DecidableEq, Repr

namespace IgnoredScent

/-- `hash()`: the digest as a little-endian number. -/
def hash (s : IgnoredScent) : UInt64 := UInt64.ofNat (fromLittleEndian 8 s.digest.toList)

/-- The constructor from a hash. -/
def ofHash (value : UInt64) (category : UInt8) : IgnoredScent :=
  { digest := Vector.ofFn fun i => UInt8.ofNat (value.toNat / 256 ^ i.val), category }

theorem toList_ofFn_littleEndian (n v : Nat) :
    (Vector.ofFn fun i : Fin n => UInt8.ofNat (v / 256 ^ i.val)).toList = littleEndian n v := by
  rw [Vector.toList_ofFn]
  induction n generalizing v with
  | zero => rfl
  | succ n ih =>
    rw [List.ofFn_succ, littleEndian, ← ih (v / 256)]
    simp only [Fin.val_zero, pow_zero, Nat.div_one, Fin.val_succ]
    congr 2
    funext i
    rw [pow_succ', Nat.div_div_eq_div_mul]

@[simp] theorem hash_ofHash (value : UInt64) (category : UInt8) :
    (ofHash value category).hash = value := by
  have h : value.toNat % 256 ^ 8 = value.toNat := Nat.mod_eq_of_lt value.toNat_lt
  unfold hash ofHash
  rw [toList_ofFn_littleEndian, ← List.append_nil (littleEndian _ _),
    fromLittleEndian_littleEndian, h, UInt64.ofNat_toNat]

@[simp] theorem hash_default : ({} : IgnoredScent).hash = 0 := by decide

end IgnoredScent

abbrev IgnoreList := Vector IgnoredScent 64

/-- Every category named, every stored hash once. -/
def validIgnores (list : IgnoreList) : Bool :=
  (List.finRange 64).all fun i =>
    decide ((list.get i).category.toNat < categoryCount) &&
      ((list.get i).hash == 0 ||
        (List.finRange 64).all fun j => !decide (j < i) || (list.get j).hash != (list.get i).hash)

abbrev Scents := Vector ScentEntry 19

/-- `CompanionV1::Entry`. -/
structure IgnoredV1 where
  hash : UInt64 := 0
  category : UInt8 := 0
  deriving DecidableEq, Repr

structure CompanionV1 where
  version : UInt32 := 1
  scents : Scents := Vector.replicate 19 {}
  ignored : Vector IgnoredV1 16 := Vector.replicate 16 {}
  equipped : UInt8 := 0
  unlocked : UInt8 := 1

structure Companion where
  version : UInt32 := 2
  scents : Scents := Vector.replicate 19 {}
  ignored : IgnoreList := Vector.replicate 64 {}
  equipped : UInt8 := 0
  unlocked : UInt8 := 1
  deriving DecidableEq

namespace Companion

def discoveries (c : Companion) : Nat :=
  c.scents.toList.countP fun s => s.observations != 0

def observeEntry (d : Detection) (s : ScentEntry) : ScentEntry :=
  { firstUtc := if s.observations == 0 then d.unixSeconds else s.firstUtc
    observations := if s.observations < 0xffffffff then s.observations + 1 else s.observations
    lastUtc := d.unixSeconds
    lastScore := d.score
    bestScore := if s.bestScore < d.score then d.score else s.bestScore
    strongest := if s.strongest < d.rssiMax then d.rssiMax else s.strongest }

/-- `observe`; a `Category` always indexes `scents`. -/
def observe (c : Companion) (d : Detection) : Companion :=
  { c with scents := Vector.ofFn fun i =>
      if i.val = d.category.code then observeEntry d (c.scents.get i) else c.scents.get i }

def earned (c : Companion) (xp : UInt32) : UInt8 :=
  1 ||| (if 25 ≤ xp then 2 else 0) ||| (if 100 ≤ xp then 4 else 0) |||
    (if 5 ≤ c.discoveries then 8 else 0) ||| (if 300 ≤ xp then 16 else 0) |||
    (if 10 ≤ c.discoveries then 32 else 0)

/-- `unlock`, with the outfits it adds. -/
def unlock (c : Companion) (xp : UInt32) : UInt8 × Companion :=
  (c.earned xp &&& ~~~c.unlocked, { c with unlocked := c.unlocked ||| c.earned xp })

def isIgnored (c : Companion) (hash : UInt64) : Bool :=
  hash != 0 && c.ignored.toList.any fun e => e.hash == hash

/-- Never silently evict another ignored device. -/
def ignore (c : Companion) (hash : UInt64) (category : Category) : Bool × Companion :=
  if hash == 0 then (false, c)
  else if c.isIgnored hash then (true, c)
  else match Fin.find? fun i => (c.ignored.get i).hash == 0 with
    | none => (false, c)
    | some i =>
      (true, { c with ignored := Vector.ofFn fun j =>
        if j = i then .ofHash hash category.code.toUInt8 else c.ignored.get j })

end Companion

def outfitCount : Nat := 6

/-- `unlocked & (1U << equipped)`. -/
def wears (unlocked equipped : UInt8) : Bool := unlocked.toNat.testBit equipped.toNat

def validScent (s : ScentEntry) : Bool :=
  !(decide (100 < s.bestScore) || decide (s.bestScore < s.lastScore) ||
    decide (4102444799 < s.firstUtc) || decide (4102444799 < s.lastUtc))

def validCompanion (c : Companion) : Bool :=
  !(c.version != 2 || decide (outfitCount ≤ c.equipped.toNat) || (c.unlocked &&& 1) == 0 ||
    (c.unlocked >>> 6) != 0 || !wears c.unlocked c.equipped) &&
  c.scents.toList.all validScent && validIgnores c.ignored

/-- Migration never changes an existing keyed identity. -/
def migrateCompanion (old : CompanionV1) : Option Companion :=
  if old.version != 1 then none
  else
    let next : Companion :=
      { scents := old.scents, equipped := old.equipped, unlocked := old.unlocked
        ignored := Vector.ofFn fun i =>
          match old.ignored[i.val]? with
          | some e => .ofHash e.hash e.category
          | none => {} }
    if validCompanion next then some next else none

end Hound
