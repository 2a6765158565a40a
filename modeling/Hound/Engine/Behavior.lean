import Hound.Core.Matches
import Hound.Lib.Slots

/-!
# The engine's state and its behavior rules

`Engine` holds the evidence cache, the per-source burst windows and the access
point summaries. A behavior rule reads and updates the last two while it is
evaluated, so its evaluation returns the engine it leaves behind.
-/

namespace Hound

structure Evidence where
  rule : Option Rule := none
  at' : UInt32 := 0
  deriving DecidableEq

structure Entry where
  detection : Detection := {}
  emitted : UInt64 := 0
  emittedSamsungState : SamsungState := .Unavailable
  evidence : Vector Evidence 9 := Vector.replicate 9 {}
  deriving DecidableEq

/-- `seen_count == 0` marks an unused entry. -/
def Entry.occupied (e : Entry) : Bool := e.detection.seenCount != 0

structure Burst where
  used : Bool := false
  address : Address := Vector.replicate 6 0
  channel : UInt8 := 0
  times : Vector UInt64 20 := Vector.replicate 20 0
  count : Nat := 0
  next : Fin 20 := 0
  last : UInt64 := 0

def Burst.unused : Burst := {}

/-- `AccessPoint::Summary`. -/
structure Summary where
  ms : UInt64 := 0
  address : Address := Vector.replicate 6 0
  ssid : Bytes := []
  protectedNetwork : Bool := false
  rsnCaps : UInt16 := 0
  rssi : Int8 := 0
  channel : UInt8 := 0
  vendorFingerprint : UInt32 := 0

structure AccessPoint where
  used : Bool := false
  obs : Summary := {}

abbrev Slot := Fin 128
abbrev Cache := Slot → Entry

structure Engine where
  rules : List Rule
  cache : Cache := fun _ => {}
  bursts : Fin 16 → Burst := fun _ => .unused
  aps : Fin 24 → AccessPoint := fun _ => {}
  nextEmit : UInt64 := 0

namespace Engine

/-! ## Deauthentication bursts -/

def burstSlot (e : Engine) (o : Observation) : Option (Fin 16) :=
  Slots.first (fun x => x.used && x.address == o.address && x.channel == o.channel) e.bursts

def burstVictim (e : Engine) : Fin 16 :=
  (Slots.first (fun x => !x.used) e.bursts).getD
    (Slots.minElement (fun a z => decide (a.last < z.last)) e.bursts)

/-- Append this frame's time to the ring. -/
def Burst.record (b : Burst) (ms : UInt64) : Burst :=
  { b with
    times := b.times.set b.next ms
    next := b.next + 1
    count := min 20 (b.count + 1)
    last := ms }

def Burst.full (b : Burst) (ms : UInt64) : Bool :=
  b.count == 20 && decide (b.times[b.next] ≤ ms) && decide (ms - b.times[b.next] ≤ 10000)

def deauthBurst (e : Engine) (o : Observation) : Bool × Engine :=
  if o.subtype != 10 && o.subtype != 12 then (false, e)
  else
    let (i, b) := match e.burstSlot o with
      | some i => (i, e.bursts i)
      | none =>
          (e.burstVictim, { used := true, address := o.address, channel := o.channel : Burst })
    let b := Burst.record b o.ms
    (Burst.full b o.ms, { e with bursts := Function.update e.bursts i b })

/-! ## Access point differences -/

/-- The corroborating differences between two networks of one name. -/
def clues (a : Summary) (o : Observation) : Nat :=
  (if a.address.toList.take 3 != o.address.toList.take 3 then 1 else 0) +
  (if (a.rsnCaps &&& 0xc0) != (o.rsnCaps &&& 0xc0) then 1 else 0) +
  (if a.vendorFingerprint != 0 && o.vendorFingerprint != 0 &&
      a.vendorFingerprint != o.vendorFingerprint then 1 else 0) +
  (if a.channel != o.channel && decide (20 ≤ (a.rssi.toInt - o.rssi.toInt).natAbs) then 1 else 0)

def rival (o : Observation) (a : AccessPoint) : Bool :=
  a.used && decide (a.obs.ms ≤ o.ms) && decide (o.ms - a.obs.ms ≤ 30000) &&
    a.obs.address != o.address && o.ssid == a.obs.ssid &&
    o.protectedNetwork != a.obs.protectedNetwork

def securityDifference (e : Engine) (corroborated : Bool) (o : Observation) : Bool :=
  if (o.subtype != 8 && o.subtype != 5) || o.ssid.isEmpty then false
  else (List.finRange 24).any fun i =>
    rival o (e.aps i) && (!corroborated || decide (2 ≤ clues (e.aps i).obs o))

/-- `Engine::behavior`. -/
def behavior (e : Engine) (r : Rule) (o : Observation) : Bool × Engine :=
  if o.radio != .Wifi then (false, e)
  else if r.value == ascii "deauth_burst" then e.deauthBurst o
  else if r.value == ascii "security_downgrade" then (e.securityDifference false o, e)
  else if r.value == ascii "security_corroborated" then (e.securityDifference true o, e)
  else (false, e)

def rememberAp (e : Engine) (o : Observation) : Engine :=
  if o.radio != .Wifi || (o.subtype != 8 && o.subtype != 5) || o.ssid.isEmpty || o.pwnagotchi then e
  else
    let dest := (Slots.first (fun a => a.used && a.obs.address == o.address) e.aps).getD
      ((Slots.first (fun a => !a.used) e.aps).getD
        (Slots.minElement (fun a b => decide (a.obs.ms < b.obs.ms)) e.aps))
    let obs : Summary :=
      { ms := o.ms, address := o.address, ssid := o.ssid, protectedNetwork := o.protectedNetwork,
        rsnCaps := o.rsnCaps, rssi := o.rssi, channel := o.channel,
        vendorFingerprint := o.vendorFingerprint }
    { e with aps := Function.update e.aps dest { used := true, obs } }

/-! ## Frames

Neither behavior evaluation nor the access point table touches the cache, the
rules or the rate limiter. -/

theorem behavior_frame (e : Engine) (r : Rule) (o : Observation) :
    (e.behavior r o).2 = { e with bursts := (e.behavior r o).2.bursts } := by
  unfold behavior deauthBurst
  split
  · rfl
  · split
    · split <;> rfl
    · split
      · rfl
      · split <;> rfl

@[simp] theorem behavior_cache (e : Engine) (r : Rule) (o : Observation) :
    (e.behavior r o).2.cache = e.cache := by
  rw [behavior_frame]

@[simp] theorem behavior_rules (e : Engine) (r : Rule) (o : Observation) :
    (e.behavior r o).2.rules = e.rules := by
  rw [behavior_frame]

@[simp] theorem behavior_nextEmit (e : Engine) (r : Rule) (o : Observation) :
    (e.behavior r o).2.nextEmit = e.nextEmit := by
  rw [behavior_frame]

theorem rememberAp_frame (e : Engine) (o : Observation) :
    e.rememberAp o = { e with aps := (e.rememberAp o).aps } := by
  unfold rememberAp
  split <;> rfl

@[simp] theorem rememberAp_cache (e : Engine) (o : Observation) :
    (e.rememberAp o).cache = e.cache := by
  rw [rememberAp_frame]

@[simp] theorem rememberAp_rules (e : Engine) (o : Observation) :
    (e.rememberAp o).rules = e.rules := by
  rw [rememberAp_frame]

@[simp] theorem rememberAp_nextEmit (e : Engine) (o : Observation) :
    (e.rememberAp o).nextEmit = e.nextEmit := by
  rw [rememberAp_frame]

end Engine

end Hound
