import Hound.Core.Types
import Hound.Lib.Runs
import Hound.Lib.Slots

/-!
# Travel Watch

`TagWatch` of `tag_watch.hpp`: sixteen windows keyed by identity, each kept as
its first and last sighting and a count of occupied minutes.
-/

namespace Hound

namespace TagWatch

def duration : UInt64 := 600000
def gap : UInt64 := 120000
def requiredMinutes : UInt16 := 8

/-- `TagWatch::Entry`. -/
structure Entry where
  hash : UInt64 := 0
  first : UInt64 := 0
  last : UInt64 := 0
  minutes : UInt16 := 0
  category : Category := .FLOCK
  score : UInt8 := 0
  acknowledged : Bool := false
  deriving DecidableEq

def Entry.fresh (e : Entry) (now : UInt64) : Bool :=
  e.hash != 0 && decide (e.last ≤ now) && decide (now - e.last ≤ gap)

def Entry.ready (e : Entry) (now : UInt64) : Bool :=
  e.fresh now && decide (e.first ≤ e.last) && decide (duration ≤ e.last - e.first) &&
    decide (requiredMinutes ≤ e.minutes)

abbrev Slot := Fin 16

end TagWatch

structure TagWatch where
  entries : TagWatch.Slot → TagWatch.Entry := fun _ => {}
  started : UInt64 := 0
  gapResets : UInt32 := 0
  filterResets : UInt32 := 0
  clockSkips : UInt32 := 0
  armed : Bool := false
  demo : Bool := false

namespace TagWatch

def tag : Category → Bool
  | .AIRTAG | .SAMSUNG_TAG | .TILE | .GOOGLE_TAG => true
  | _ => false

/-- `if (counter != UINT32_MAX) ++counter`. -/
def bump (counter : UInt32) : UInt32 := if counter != 0xffffffff then counter + 1 else counter

def set (w : TagWatch) (i : Slot) (e : Entry) : TagWatch :=
  { w with entries := Function.update w.entries i e }

def start (w : TagWatch) (now : UInt64) (synthetic : Bool) : TagWatch :=
  { w with
    entries := fun _ => {}, started := now, demo := synthetic, armed := true
    gapResets := 0, filterResets := 0, clockSkips := 0 }

def clear (w : TagWatch) : TagWatch := { w with entries := fun _ => {}, armed := false }

def find (w : TagWatch) (hash : UInt64) : Option Slot :=
  Slots.first (fun e => hash != 0 && e.hash == hash) w.entries

def drop (w : TagWatch) (i : Slot) (gapExpired : Bool) : TagWatch :=
  if (w.entries i).hash == 0 then w
  else
    let w := if gapExpired then { w with gapResets := bump w.gapResets }
      else { w with filterResets := bump w.filterResets }
    w.set i {}

/-- `observe` past the lookup: a new window, or one more sighting in the old. -/
def sight (w : TagWatch) (i : Slot) (hash : UInt64) (d : Detection) : TagWatch :=
  let e := w.entries i
  if e.hash == 0 || decide (gap < d.lastMs - e.last) then
    let w := if e.hash != 0 then w.drop i true else w
    w.set i { hash, first := d.lastMs, last := d.lastMs, minutes := 1, category := d.category,
              score := d.score }
  else
    let minutes := if (d.lastMs - e.first) / 60000 != (e.last - e.first) / 60000 then
      (min 65535 (e.minutes.toNat + 1)).toUInt16 else e.minutes
    w.set i { e with minutes, last := d.lastMs, score := d.score }

/-- The first guard of `observe`. -/
def eligible (w : TagWatch) (hash : UInt64) (d : Detection) : Bool :=
  w.armed && hash != 0 && tag d.category && d.radio == .Ble && d.demo == w.demo &&
    decide (50 ≤ d.score) && decide (d.score ≤ 100) && decide (w.started ≤ d.lastMs)

/-- The first slot not in use by a present identity. -/
def spare (w : TagWatch) (now : UInt64) : Option Slot :=
  Slots.first (fun candidate => !candidate.fresh now) w.entries

def observe (w : TagWatch) (hash : UInt64) (d : Detection) (now : UInt64) : TagWatch :=
  if !w.eligible hash d then w
  else if now < d.lastMs then { w with clockSkips := bump w.clockSkips }
  else if gap < now - d.lastMs then w
  else
    match w.find hash with
    | some i =>
      if samsungConnected d then
        if (w.entries i).last ≤ d.lastMs then w.drop i false else w
      else if d.lastMs ≤ (w.entries i).last then w
      else w.sight i hash d
    | none =>
      if samsungConnected d then w
      else
        match w.spare now with
        | some i => (w.set i {}).sight i hash d
        | none => w

def warning (w : TagWatch) (now : UInt64) : Option Entry :=
  if w.armed then
    (Slots.first (fun e => e.ready now && !e.acknowledged) w.entries).map w.entries
  else none

/-- The calls of the user interface; `acknowledge` is its write to the entry under review. -/
inductive Call where
  | start (now : UInt64) (synthetic : Bool)
  | clear
  | drop (i : Slot) (gapExpired : Bool)
  | acknowledge (i : Slot)
  | observe (hash : UInt64) (d : Detection) (now : UInt64)

def step (w : TagWatch) : Call → TagWatch
  | .start now synthetic => w.start now synthetic
  | .clear => w.clear
  | .drop i gapExpired => w.drop i gapExpired
  | .acknowledge i => w.set i { w.entries i with acknowledged := true }
  | .observe hash d now => w.observe hash d now

def run (w : TagWatch) (calls : List Call) : TagWatch := Runs.run step w calls

end TagWatch

end Hound
