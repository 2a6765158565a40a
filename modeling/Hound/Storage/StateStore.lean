import Hound.Lib.Faults
import Hound.Storage.Layouts

/-!
# The state store

Five blobs in one of two slots, and a counter that publishes a slot by its
parity. `persist` writes the slot the counter does not name and publishes it
last; a second copy of the counter lives in RAM. `load` reads the published
slot back through the layouts, then persists what it read.
-/

namespace Hound

open Faults

/-! ## Flash -/

/-- The namespaces `hound_settings`, `hound_pet`, `hound_system`,
`hound_companion` and `hound_look`. -/
inductive Space where
  | settings | pet | system | companion | look
  deriving DecidableEq, Repr

/-- In the order `persist` writes them. -/
def Space.all : List Space := [.settings, .pet, .system, .companion, .look]

@[simp] theorem Space.mem_all (space : Space) : space ∈ Space.all := by
  cases space <;> decide

/-- The keys of the namespace `system` are `generation`, `stateV2` and `stateV1`. -/
structure Flash where
  blob : Space → Bool → Option Bytes := fun _ _ => none
  generation : Option UInt32 := none
  stateV2 : Option Bytes := none
  stateV1 : Option Bytes := none

/-- `gen % 2 ? "slot1" : "slot0"`. -/
def slot (gen : UInt32) : Bool := gen % 2 == 1

def Flash.setBlob (space : Space) (key : Bool) (bytes : Bytes) (f : Flash) : Flash :=
  { f with blob := Function.update f.blob space (Function.update (f.blob space) key (some bytes)) }

def Flash.publish (gen : UInt32) (f : Flash) : Flash := { f with generation := some gen }

/-! ## Envelopes -/

/-- `crc = (crc >> 1) ^ (0xedb88320U & -(crc & 1U))`. -/
def crcBit (crc : UInt32) : UInt32 := (crc >>> 1) ^^^ (0xedb88320 &&& (0 - (crc &&& 1)))

def checksum (bytes : Bytes) : UInt32 :=
  ~~~ bytes.foldl (fun crc b => Nat.iterate crcBit 8 (crc ^^^ b.toUInt32)) 0xffffffff

/-- A record with its namespace; `header` is the offset of `value` in `Envelope<T>`. -/
structure Part (α : Type) where
  space : Space
  layout : Layout α
  header : Nat

/-- The bytes of `Envelope<T>{1, gen, crc, value}`. -/
def Part.envelope {α : Type} (p : Part α) (gen : UInt32) (value : α) : Bytes :=
  Layout.u32.write 1 ++ (Layout.u32.write gen ++
    (Layout.u32.write (checksum (p.layout.write value)) ++
      (List.replicate (p.header - 12) 0 ++ p.layout.write value)))

/-- What `read_part` accepts of the bytes `nvs_get_blob` returns. -/
def Part.accepts {α : Type} (p : Part α) (gen : UInt32) (bytes : Bytes) : Bool :=
  bytes.length == p.header + p.layout.size && Layout.u32.read bytes == 1 &&
    Layout.u32.read (bytes.drop 4) == gen &&
    Layout.u32.read (bytes.drop 8) == checksum (bytes.drop p.header)

/-- `read_part`. -/
def Flash.readPart {α : Type} (f : Flash) (p : Part α) (gen : UInt32) : Option α :=
  ((f.blob p.space (slot gen)).filter (p.accepts gen)).map fun bytes =>
    p.layout.read (bytes.drop p.header)

structure ConfigRecord where
  settings : Settings
  calibration : Calibration
  battery : BatteryCalibration

structure PetRecord where
  pet : Pet
  recent : Recent
  key : MealKey

structure BootRecordV3 where
  boots : UInt32
  reason : UInt32

structure BootRecord where
  boots : UInt32
  reason : UInt32
  version : UInt32 := 5

namespace Layouts

open Layout

def config : Layout ConfigRecord :=
  (settings.seq <| calibration.seq <| battery.padded 2).record
    (fun c => (c.settings, c.calibration, c.battery)) (fun (s, c, b) => ⟨s, c, b⟩) fun _ => rfl

def petRecord : Layout PetRecord :=
  (pet.seq <| recent.seq <| bytes 32).record
    (fun p => (p.pet, p.recent, p.key)) (fun (p, r, k) => ⟨p, r, k⟩) fun _ => rfl

def bootV3 : Layout BootRecordV3 :=
  (u32.seq u32).record (fun b => (b.boots, b.reason)) (fun (b, r) => ⟨b, r⟩) fun _ => rfl

def boot : Layout BootRecord :=
  (u32.seq <| u32.seq u32).record
    (fun b => (b.boots, b.reason, b.version)) (fun (b, r, v) => ⟨b, r, v⟩) fun _ => rfl

end Layouts

def configPart : Part ConfigRecord := ⟨.settings, Layouts.config, 12⟩
def petPart : Part PetRecord := ⟨.pet, Layouts.petRecord, 16⟩
def bootPart : Part BootRecord := ⟨.system, Layouts.boot, 12⟩
def bootV3Part : Part BootRecordV3 := ⟨.system, Layouts.bootV3, 12⟩
def companionPart : Part Companion := ⟨.companion, Layouts.companion, 16⟩
def companionV1Part : Part CompanionV1 := ⟨.companion, Layouts.companionV1, 16⟩
def lookPart : Part Appearance := ⟨.look, Layouts.appearance, 12⟩
def lookV2Part : Part AppearanceV2 := ⟨.look, Layouts.appearanceV2, 12⟩
def lookV1Part : Part AppearanceV1 := ⟨.look, Layouts.appearanceV1, 12⟩

/-! ## Reading a generation -/

/-- The companion record, or an older one that migrates. -/
def Flash.readCompanion (f : Flash) (gen : UInt32) : Option Companion :=
  match f.readPart companionPart gen with
  | some c => some c
  | none => (f.readPart companionV1Part gen).bind migrateCompanion

def Flash.readLook (f : Flash) (gen : UInt32) : Option Appearance :=
  match (f.readPart lookPart gen).filter validAppearance with
  | some a => some a
  | none =>
    match (f.readPart lookV2Part gen).bind migrateAppearanceV2 with
    | some a => some a
    | none => (f.readPart lookV1Part gen).bind migrateAppearanceV1

/-- The boot record with the parts its version requires. -/
def Flash.readBoot (f : Flash) (gen : UInt32) (xp : UInt32) :
    Option (BootRecordV3 × Companion × Appearance) :=
  match f.readPart bootPart gen with
  | some b =>
    if b.version != 4 && b.version != 5 then none
    else match f.readCompanion gen with
      | none => none
      | some companion =>
        if b.version == 5 then
          (f.readLook gen).map fun look => (⟨b.boots, b.reason⟩, companion, look)
        else some (⟨b.boots, b.reason⟩, companion, {})
  | none =>
    (f.readPart bootV3Part gen).map fun legacy =>
      (legacy, (({} : Companion).unlock xp).2, {})

/-- `read_generation`. -/
def Flash.readGeneration (f : Flash) (gen : UInt32) : Option State :=
  match f.readPart configPart gen, f.readPart petPart gen with
  | some c, some p =>
    match f.readBoot gen p.pet.xp with
    | none => none
    | some (boot, companion, appearance) =>
      let loaded : State :=
        { settings := c.settings, calibration := c.calibration, battery := c.battery, pet := p.pet,
          recent := p.recent, mealKey := p.key, boots := boot.boots, resetReason := boot.reason,
          companion, appearance }
      if validCurrent loaded then some loaded else none
  | _, _ => none

/-- `ESP_OK`, `ESP_ERR_NVS_NOT_FOUND` or any other error of `read_legacy`. -/
inductive Legacy where
  | ok (loaded : State)
  | notFound
  | failed

def readLegacy {α : Type} (layout : Layout α) (migrate : α → Option State) :
    Option Bytes → Legacy
  | none => .notFound
  | some bytes =>
    if bytes.length != layout.size then .failed
    else match migrate (layout.read bytes) with
      | some loaded => .ok loaded
      | none => .failed

/-! ## Persisting and loading -/

/-- The device and the generation counter in RAM. -/
structure Nvs where
  device : Device Flash
  generation : UInt32 := 0

/-- The envelope `persist` writes to each namespace. -/
def State.blob (s : State) (gen : UInt32) : Space → Bytes
  | .settings => configPart.envelope gen ⟨s.settings, s.calibration, s.battery⟩
  | .pet => petPart.envelope gen ⟨s.pet, s.recent, s.mealKey⟩
  | .system => bootPart.envelope gen { boots := s.boots, reason := s.resetReason }
  | .companion => companionPart.envelope gen s.companion
  | .look => lookPart.envelope gen s.appearance

/-- The five writes of the parts. -/
def State.parts (s : State) (gen : UInt32) : List (Flash → Flash) :=
  Space.all.map fun space => Flash.setBlob space (slot gen) (s.blob gen space)

/-- `detail::persist`. -/
def Nvs.persist (buffered : Bool) (n : Nvs) (s : State) : Status × Nvs :=
  if !validCurrent s then (.failed, n)
  else
    let next := n.generation + 1
    if next == 0 then (.failed, n)
    else
      let (status, device) := n.device.writeAll buffered (s.parts next ++ [Flash.publish next])
      (status, { device, generation := if status = .ok then next else n.generation })

/-- What `load` does with the state it has read. -/
def State.booted (s : State) (reason : UInt32) : State :=
  { s with boots := s.boots + 1, resetReason := reason }

/-- `pet.decay_ms` counts powered-on time and restarts at zero. -/
def State.rested (s : State) : State := { s with pet := { s.pet with decayMs := 0 } }

/-- The legacy records, newest first. -/
def Flash.readOld (f : Flash) : Legacy :=
  match readLegacy Layouts.stateV2 migrateV2 f.stateV2 with
  | .notFound => readLegacy Layouts.stateV1 migrateV1 f.stateV1
  | result => result

/-- `load`, with `state` the caller's, `reason` the hardware's reset reason and
`random` the bytes `esp_fill_random` returns. -/
def Nvs.load (buffered : Bool) (reason : UInt32) (random : MealKey) (state : State) (n : Nvs) :
    Status × State × Nvs :=
  let boot (s : State) (n : Nvs) : Status × State × Nvs :=
    let (status, n) := n.persist buffered (s.booted reason)
    (status, s.booted reason, n)
  match n.device.store.generation with
  | some gen =>
    let n := { n with generation := gen }
    match n.device.store.readGeneration gen with
    | none => (.failed, state, n)
    | some loaded => boot loaded.rested n
  | none =>
    match n.device.store.readOld with
    | .ok loaded =>
      if validCurrent loaded then boot loaded.rested n else (.failed, state, n)
    | .notFound => boot { state with mealKey := random } n
    | .failed => (.failed, state, n)

end Hound
