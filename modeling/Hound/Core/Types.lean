import Mathlib

/-!
# Core data of the detector

The records `core.hpp` declares, field by field. Fixed-width integers keep
their width. A bounded C array with its own length field is the list of its
used entries, and a C string is the list of the bytes before its terminator.
-/

namespace Hound

abbrev Bytes := List UInt8

/-- The bytes of a source string literal. -/
def ascii (s : String) : Bytes := s.toList.map fun c => c.toNat.toUInt8

/-- The text of a buffer: the bytes before its terminator. -/
def cString (s : Bytes) : Bytes := s.takeWhile (· != 0)

/-- One byte of storage holding a C++ `bool`. Flash contents can hold any value. -/
structure Flag where
  byte : UInt8
  deriving DecidableEq, Repr

namespace Flag

def ofBool (b : Bool) : Flag := ⟨if b then 1 else 0⟩

def isSet (f : Flag) : Bool := f.byte != 0

def toggle (f : Flag) : Flag := ofBool (!f.isSet)

/-- The byte test `valid_state` makes through `reinterpret_cast`. -/
def valid (f : Flag) : Bool := !(decide (1 < f.byte))

@[simp] theorem valid_ofBool (b : Bool) : (ofBool b).valid = true := by
  cases b <;> rfl

@[simp] theorem valid_toggle (f : Flag) : f.toggle.valid = true := valid_ofBool _

@[simp] theorem isSet_ofBool (b : Bool) : (ofBool b).isSet = b := by
  cases b <;> rfl

end Flag

/-! ## Categories and rules -/

inductive Category where
  | FLOCK | AXON | GLASSES | SKIMMER | RAVEN | AIRTAG | TILE | SAMSUNG_TAG | GOOGLE_TAG | DRONE
  | ALPR | CAMERA | RING | IBEACON | FLIPPER | PWNAGOTCHI | PINEAPPLE | DEAUTH | EVIL_TWIN
  deriving DecidableEq, Repr

namespace Category

/-- The enumerator's value. -/
def code (c : Category) : Nat := c.ctorIdx

/-- Every category, in enumerator order: the order `Engine::ingest` walks `touched`. -/
def all : List Category :=
  [FLOCK, AXON, GLASSES, SKIMMER, RAVEN, AIRTAG, TILE, SAMSUNG_TAG, GOOGLE_TAG, DRONE,
    ALPR, CAMERA, RING, IBEACON, FLIPPER, PWNAGOTCHI, PINEAPPLE, DEAUTH, EVIL_TWIN]

@[simp] theorem mem_all (c : Category) : c ∈ all := by
  cases c <;> decide

theorem all_nodup : all.Nodup := by decide

instance : Fintype Category := ⟨⟨all, all_nodup⟩, mem_all⟩

/-- The entry of `categories[]`. -/
def name : Category → Bytes
  | FLOCK => ascii "FLOCK"
  | AXON => ascii "AXON"
  | GLASSES => ascii "GLASSES"
  | SKIMMER => ascii "SKIMMER"
  | RAVEN => ascii "RAVEN"
  | AIRTAG => ascii "AIRTAG"
  | TILE => ascii "TILE"
  | SAMSUNG_TAG => ascii "SAMSUNG_TAG"
  | GOOGLE_TAG => ascii "GOOGLE_TAG"
  | DRONE => ascii "DRONE"
  | ALPR => ascii "ALPR"
  | CAMERA => ascii "CAMERA"
  | RING => ascii "RING"
  | IBEACON => ascii "IBEACON"
  | FLIPPER => ascii "FLIPPER"
  | PWNAGOTCHI => ascii "PWNAGOTCHI"
  | PINEAPPLE => ascii "PINEAPPLE"
  | DEAUTH => ascii "DEAUTH"
  | EVIL_TWIN => ascii "EVIL_TWIN"

end Category

def categoryCount : Nat := 19

theorem Category.code_lt (c : Category) : c.code < categoryCount := by
  cases c <;> decide

/-- The mask bit `1U << category`. -/
def Category.bit (c : Category) : UInt32 := 1 <<< c.code.toUInt32

inductive Radio where
  | Wifi | Ble
  deriving DecidableEq, Repr

inductive Kind where
  | Oui | SsidExact | SsidPrefix | NameExact | NamePrefix | Uuid16 | Uuid128 | Company | Payload
  | Protocol | Behavior
  deriving DecidableEq, Repr

abbrev Address := Vector UInt8 6

inductive SamsungState where
  | Unavailable | Unknown | RecentlySeparated | Offline | LongOffline | Connected
  deriving DecidableEq, Repr

structure SamsungTag where
  id : Vector UInt8 8 := Vector.replicate 8 0
  state : SamsungState := .Unavailable
  deriving DecidableEq, Repr

def SamsungTag.valid (t : SamsungTag) : Bool := t.state != .Unavailable

structure Rule where
  id : Bytes
  category : Category
  kind : Kind
  value : Bytes
  score : UInt8
  cap : UInt8
  generic : Bool
  label : Bytes
  reason : Bytes
  deriving DecidableEq, Repr

/-! ## Observations and detections -/

/-- `ssid`, `name`, `manufacturer`, `service`, `vendor` and the UUID arrays hold
their used prefix; the separate length fields are those lists' lengths. -/
structure Observation where
  ms : UInt64 := 0
  address : Address := Vector.replicate 6 0
  radio : Radio := .Wifi
  addressType : UInt8 := 0
  channel : UInt8 := 0
  subtype : UInt8 := 0
  rssi : Int8 := 0
  protectedNetwork : Bool := false
  rsn : Bool := false
  contradiction : Bool := false
  rsnCaps : UInt16 := 0
  ssid : Bytes := []
  name : Bytes := []
  uuids : List UInt16 := []
  uuids128 : List Bytes := []
  pwnagotchi : Bool := false
  vendorFingerprint : UInt32 := 0
  manufacturer : Bytes := []
  service : Bytes := []
  vendor : Bytes := []
  samsung : SamsungTag := {}
  deriving DecidableEq, Repr

/-- `rules[i]` is `none` where the source holds a null pointer. -/
structure Detection where
  firstMs : UInt64 := 0
  lastMs : UInt64 := 0
  unixSeconds : UInt64 := 0
  rssiSum : Int := 0
  rules : Vector (Option Rule) 4 := Vector.replicate 4 none
  seenCount : UInt32 := 0
  samsung : SamsungTag := {}
  address : Address := Vector.replicate 6 0
  category : Category := .FLOCK
  radio : Radio := .Wifi
  addressType : UInt8 := 0
  channel : UInt8 := 0
  score : UInt8 := 0
  ruleCount : UInt8 := 0
  rssiMin : Int8 := 0
  rssiMax : Int8 := 0
  meal : Bool := false
  demo : Bool := false
  deriving DecidableEq

def samsungIdentity (d : Detection) : Bool :=
  d.category == .SAMSUNG_TAG && d.radio == .Ble && d.samsung.valid

def samsungConnected (d : Detection) : Bool :=
  samsungIdentity d && d.samsung.state == .Connected

/-! ## Settings -/

/-- `(1U << category_count) - 1U`. -/
def allCategories : UInt32 := 0x7ffff

/-- `{'S', 'C', 'O', 'U', 'T', 0}`. -/
def scout : Vector UInt8 13 := #v[83, 67, 79, 85, 84, 0, 0, 0, 0, 0, 0, 0, 0]

structure Settings where
  version : UInt32 := 2
  enabledCategories : UInt32 := allCategories
  threshold : UInt8 := 50
  region : UInt8 := 0
  brightness : UInt8 := 70
  character : UInt8 := 0
  sound : Flag := .ofBool false
  lowFeeding : Flag := .ofBool false
  reducedAnimation : Flag := .ofBool false
  research : Flag := .ofBool false
  rawSsid : Flag := .ofBool false
  onboarded : Flag := .ofBool false
  ibeaconAlerts : Flag := .ofBool false
  name : Vector UInt8 13 := scout
  portrait : Flag := .ofBool false
  rotationLocked : Flag := .ofBool true
  alertCategories : UInt32 := allCategories &&& ~~~Category.IBEACON.bit
  deriving DecidableEq, Repr

/-- `mask & (1U << category)` as a condition. -/
def hasCategory (mask : UInt32) (c : Category) : Bool := (mask &&& c.bit) != 0

def shouldAlert (s : Settings) (d : Detection) : Bool :=
  decide (d.category.code < categoryCount) && hasCategory s.alertCategories d.category &&
    decide (s.threshold ≤ d.score) && !samsungConnected d

end Hound
