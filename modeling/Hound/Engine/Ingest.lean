import Hound.Engine.Behavior

/-!
# One observation through the engine

`ingest` walks the rules once, touching at most one cache slot per category,
then walks the touched slots in category order, fuses their evidence and emits
what is due. The helpers below are the pieces of `Engine::ingest` in the order
the source runs them; `sort` stands for `std::sort`, which leaves the order of
equal elements open.
-/

namespace Hound

/-! ## The cache lookup -/

/-- The `same` test: broadcast ID when both sides have one, address otherwise. -/
def sameIdentity (o : Observation) (d : Detection) : Bool :=
  if samsungIdentity d && o.samsung.valid then d.samsung.id == o.samsung.id
  else d.address == o.address && d.addressType == o.addressType

def candidate (c : Category) (o : Observation) (e : Entry) : Bool :=
  e.occupied && sameIdentity o e.detection && e.detection.category == c &&
    e.detection.radio == o.radio

def lookup (cache : Cache) (c : Category) (o : Observation) : Option Slot :=
  Slots.first (candidate c o) cache

/-- An unused slot, or else the one seen longest ago. -/
def victim (cache : Cache) : Slot :=
  (Slots.first (fun e => !e.occupied) cache).getD
    (Slots.minElement (fun a b => decide (a.detection.lastMs < b.detection.lastMs)) cache)

def freshEntry (c : Category) (o : Observation) : Entry :=
  { detection :=
      { category := c, radio := o.radio, address := o.address, addressType := o.addressType,
        firstMs := o.ms, rssiMin := o.rssi, rssiMax := o.rssi } }

/-- The broadcast ID an entry of this category keeps from the packet. -/
def packetTag (c : Category) (o : Observation) : SamsungTag :=
  if c == .SAMSUNG_TAG && o.radio == .Ble then o.samsung else {}

/-- `std::min` and `std::max` on `int8_t`. -/
def minInt8 (a b : Int8) : Int8 := if b < a then b else a
def maxInt8 (a b : Int8) : Int8 := if a < b then b else a

def refreshDetection (o : Observation) (d : Detection) : Detection :=
  let d := { d with
    lastMs := o.ms, address := o.address, addressType := o.addressType,
    samsung := packetTag d.category o, channel := o.channel,
    rssiMin := minInt8 d.rssiMin o.rssi, rssiMax := maxInt8 d.rssiMax o.rssi }
  if d.seenCount != 0xffffffff then
    { d with seenCount := d.seenCount + 1, rssiSum := d.rssiSum + o.rssi.toInt }
  else d

def refresh (o : Observation) (e : Entry) : Entry :=
  { e with
    evidence := if o.ms < e.detection.lastMs ∨ 30000 < o.ms - e.detection.lastMs then
        Vector.replicate 9 {}
      else e.evidence
    detection := refreshDetection o e.detection }

/-- The entry this packet updates in category `c`: its slot, and the entry
before the update (a fresh one when no slot matched). -/
def locate (cache : Cache) (c : Category) (o : Observation) : Slot × Entry :=
  match lookup cache c o with
  | some s => (s, cache s)
  | none => (victim cache, freshEntry c o)

/-! ## The rule walk -/

/-- Keep a live, stronger rule of the group; replace anything else. -/
def replaces (rule : Rule) (o : Observation) (ev : Evidence) : Bool :=
  match ev.rule with
  | none => true
  | some held => decide (30000 < o.ms.toUInt32 - ev.at') || decide (held.score ≤ rule.score)

def noteEvidence (rule : Rule) (o : Observation) (e : Entry) : Entry :=
  if replaces rule o e.evidence[group rule.kind] then
    { e with evidence := e.evidence.set (group rule.kind) ⟨some rule, o.ms.toUInt32⟩ }
  else e

structure Pass where
  engine : Engine
  touched : Category → Option Slot := fun _ => none

/-- The slot a matched rule adds its evidence to, touching it on first use. -/
def Pass.touch (p : Pass) (c : Category) (o : Observation) : Slot × Pass :=
  match p.touched c with
  | some s => (s, p)
  | none =>
    let (s, e) := locate p.engine.cache c o
    (s, { engine := { p.engine with cache := Function.update p.engine.cache s (refresh o e) }
          touched := Function.update p.touched c (some s) })

def Pass.note (p : Pass) (s : Slot) (rule : Rule) (o : Observation) : Pass :=
  { p with engine := { p.engine with
      cache := Function.update p.engine.cache s (noteEvidence rule o (p.engine.cache s)) } }

def Engine.evaluate (e : Engine) (rule : Rule) (o : Observation) : Bool × Engine :=
  if rule.kind == .Behavior then e.behavior rule o else (ruleMatches rule o, e)

/-- The body of the loop over `rules_`. -/
def Pass.apply (settings : Settings) (o : Observation) (p : Pass) (rule : Rule) : Pass :=
  if !hasCategory settings.enabledCategories rule.category then p
  else
    let (hit, engine) := p.engine.evaluate rule o
    let p := { p with engine }
    if !hit then p
    else
      let (s, p) := p.touch rule.category o
      p.note s rule o

/-! ## Fusion and emission -/

/-- The rules still inside their 30 seconds, in group order. -/
def activeRules (o : Observation) (e : Entry) : List Rule :=
  e.evidence.toList.filterMap fun ev =>
    if decide (o.ms.toUInt32 - ev.at' ≤ 30000) then ev.rule else none

/-- The comparator of `std::sort`: higher effective score first. -/
def stronger (o : Observation) (a b : Rule) : Bool :=
  decide (min b.score (cap b o) < min a.score (cap a o))

/-- The score of rules already sorted strongest first. An additional generic
clue is not independent product evidence. -/
def fusedScore (o : Observation) (active : List Rule) : Nat :=
  let effective (r : Rule) : Nat := (min r.score (cap r o)).toNat
  let score := match active with
    | [] => 0
    | [r] => effective r
    | r :: second :: _ =>
        if !r.generic && !second.generic then effective r + effective second / 4 else effective r
  let ceiling := (active.map fun r => (cap r o).toNat).foldl max 0
  let score := min score ceiling
  if o.contradiction then (if 20 < score then score - 20 else 1) else score

def fuse (sort : SortFn Rule) (o : Observation) (e : Entry) : Entry :=
  let active := sort.run (stronger o) (activeRules o e)
  { e with detection := { e.detection with
      ruleCount := (min active.length 4).toUInt8
      rules := Vector.ofFn fun i => active[i]?
      score := (fusedScore o active).toUInt8 } }

/-- First sighting, thirty seconds, a new Samsung state or a higher band. The
band is compared with the score the previous ingest left, `oldScore`. -/
def due (o : Observation) (oldScore : UInt8) (e : Entry) : Bool :=
  e.emitted == 0 || decide (30000 ≤ o.ms - e.emitted) ||
    e.detection.samsung.state != e.emittedSamsungState ||
    decide (band oldScore < band e.detection.score)

def markEmitted (o : Observation) (e : Entry) : Entry :=
  { e with emitted := max 1 o.ms, emittedSamsungState := e.detection.samsung.state }

/-- One element of `out`, with the slot it was copied from. -/
structure Emission where
  slot : Slot
  detection : Detection
  deriving DecidableEq

/-- The body of the loop over `touched`; `room` is `out.size()`. -/
def settle (sort : SortFn Rule) (o : Observation) (room : Nat) (touched : Category → Option Slot)
    (st : Engine × List Emission) (c : Category) : Engine × List Emission :=
  match touched c with
  | none => st
  | some s =>
    let (engine, out) := st
    let e := fuse sort o (engine.cache s)
    if due o (engine.cache s).detection.score e && decide (engine.nextEmit ≤ o.ms) &&
        decide (out.length < room) then
      ({ engine with
          cache := Function.update engine.cache s (markEmitted o e), nextEmit := o.ms + 100 },
        out ++ [⟨s, e.detection⟩])
    else ({ engine with cache := Function.update engine.cache s e }, out)

/-- The engine and the touched slots after the loop over `rules_`. -/
def Engine.walk (engine : Engine) (o : Observation) (settings : Settings) : Pass :=
  engine.rules.foldl (Pass.apply settings o) { engine }

/-- `Engine::ingest`, keeping the slot of each emitted detection. -/
def Engine.ingest (sort : SortFn Rule) (engine : Engine) (o : Observation) (settings : Settings)
    (room : Nat) : Engine × List Emission :=
  let p := engine.walk o settings
  Category.all.foldl (settle sort o room p.touched) (p.engine.rememberAp o, [])

end Hound
