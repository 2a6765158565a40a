import Hound.Core.Types

/-!
# Rule matching

`parse_remote_id` and `matches`: the stateless half of rule evaluation. The
stateful half, `Engine::behavior`, is in `Hound.Engine.Behavior`.
-/

namespace Hound

/-- `data[i]`; every use below is inside a checked length. -/
def byteAt (data : Bytes) (i : Nat) : UInt8 := data.getD i 0

def le16 (data : Bytes) (i : Nat) : UInt16 :=
  (byteAt data i).toUInt16 ||| (byteAt data (i + 1)).toUInt16 <<< 8

def le32s (data : Bytes) (i : Nat) : Int32 :=
  ((byteAt data i).toUInt32 ||| (byteAt data (i + 1)).toUInt32 <<< 8 |||
    (byteAt data (i + 2)).toUInt32 <<< 16 ||| (byteAt data (i + 3)).toUInt32 <<< 24).toInt32

/-! ## Remote ID messages -/

structure RemoteId where
  type : UInt8 := 0
  latitudeE7 : Int32 := 0
  longitudeE7 : Int32 := 0
  locationValid : Bool := false
  id : Bytes := List.replicate 20 0
  idType : UInt8 := 0
  aircraftType : UInt8 := 0
  status : UInt8 := 0
  altitudeDm : Int := 0
  altitudeValid : Bool := false
  deriving DecidableEq, Repr

/-- The `coordinates` lambda: latitude and longitude in range, and whether they are set. -/
def RemoteId.coordinates (m : Bytes) (at' : Nat) (r : RemoteId) : Option RemoteId :=
  let latitude := le32s m at'
  let longitude := le32s m (at' + 4)
  if latitude < -900000000 || 900000000 < latitude || longitude < -1800000000 ||
      1800000000 < longitude then none
  else some { r with
    latitudeE7 := latitude, longitudeE7 := longitude,
    locationValid := latitude != 0 || longitude != 0 }

/-- A printable prefix followed by zero bytes only. -/
def endsInZeros : Bytes → Bool
  | [] => true
  | b :: rest => if b == 0 then rest.all (· == 0) else 32 ≤ b && b ≤ 126 && endsInZeros rest

def RemoteId.basic (m : Bytes) (r : RemoteId) : Option RemoteId :=
  let r := { r with idType := byteAt m 1 >>> 4, aircraftType := byteAt m 1 &&& 15 }
  if r.idType < 1 || 4 < r.idType then none
  else
    let r := { r with id := (m.drop 2).take 20 }
    if r.id.all (· == 0) then none
    else if r.idType ≤ 2 && !endsInZeros r.id then none
    else if byteAt m 22 != 0 || byteAt m 23 != 0 || byteAt m 24 != 0 then none
    else some r

def RemoteId.altitude (m : Bytes) (at' : Nat) (r : RemoteId) : RemoteId :=
  let alt := le16 m at'
  { r with altitudeValid := alt != 0, altitudeDm := (alt.toNat : Int) * 5 - 10000 }

def RemoteId.location (m : Bytes) (r : RemoteId) : Option RemoteId :=
  let r := { r with status := byteAt m 1 >>> 4 }
  if 3 < r.status || (byteAt m 1 &&& 8) != 0 || 180 < byteAt m 2 || (byteAt m 23 &&& 0xf0) != 0 ||
      byteAt m 24 != 0 then none
  else match r.coordinates m 5 with
    | none => none
    | some r =>
      let time := le16 m 21
      if time != 0xffff && 36000 < time then none else some (r.altitude m 15)

def RemoteId.system (m : Bytes) (r : RemoteId) : Option RemoteId :=
  if (byteAt m 1 &&& 0xe0) != 0 || (2 : UInt8) < byteAt m 1 &&& 3 ||
      (1 : UInt8) < byteAt m 1 >>> 2 &&& 7 ||
      byteAt m 24 != 0 then none
  else match r.coordinates m 2 with
    | none => none
    | some r => some (r.altitude m 18)

def parseRemoteId (p : Bytes) : Option RemoteId :=
  if p.length != 29 || byteAt p 0 != 0xfa || byteAt p 1 != 0xff || byteAt p 2 != 0x0d then none
  else
    let m := p.drop 4
    let type := byteAt m 0 >>> 4
    let r : RemoteId := { type := type }
    if (byteAt m 0 &&& 15) != 2 then none
    else if type == 0 then r.basic m
    else if type == 1 then r.location m
    else if type == 4 then r.system m
    else none

/-! ## Matchers -/

/-- `hex`: an uppercase hexadecimal digit's value, or `-1`. -/
def hex (c : UInt8) : Option Nat :=
  if 48 ≤ c && c ≤ 57 then some (c.toNat - 48)
  else if 65 ≤ c && c ≤ 70 then some (c.toNat - 65 + 10)
  else none

/-- The comparison loop of `hex_prefix`, two digits an octet. -/
def hexDigits : Bytes → Bytes → Bool
  | [], _ => true
  | a :: b :: value, byte :: data =>
      match hex a, hex b with
      | some x, some y => byte.toNat == x * 16 + y && hexDigits value data
      | _, _ => false
  | _, _ => false

def hexPrefix (value data : Bytes) : Bool :=
  if value.isEmpty || value.length % 2 != 0 || data.length < value.length / 2 then false
  else hexDigits value data

/-- The big-endian octets `matches` builds from a UUID. -/
def bigEndian (u : UInt16) : Bytes := [(u >>> 8).toUInt8, u.toUInt8]

def matchesProtocol (v : Bytes) (o : Observation) : Bool :=
  if v == ascii "pwnagotchi" then o.radio == .Wifi && o.pwnagotchi
  else if o.radio != .Ble then false
  else if v == ascii "apple_find_my" then
    o.manufacturer.length == 29 && hexPrefix (ascii "4C001219") o.manufacturer
  else if v == ascii "ibeacon" then
    o.manufacturer.length == 25 && hexPrefix (ascii "4C000215") o.manufacturer &&
      decide (-126 ≤ (byteAt o.manufacturer 24).toInt8) &&
      decide ((byteAt o.manufacturer 24).toInt8 ≤ 20)
  else if v == ascii "find_hub" then
    (o.service.length == 23 || o.service.length == 24) && hexPrefix (ascii "AAFE") o.service &&
      (byteAt o.service 2 == 0x40 || byteAt o.service 2 == 0x41)
  else if v == ascii "fast_pair_model" then
    o.service.length == 5 && hexPrefix (ascii "2CFE") o.service
  else if v == ascii "remote_id" then (parseRemoteId o.service).isSome
  else false

def ruleMatches (r : Rule) (o : Observation) : Bool :=
  let v := r.value
  let advertises := o.radio == .Wifi && (o.subtype == 8 || o.subtype == 5)
  match r.kind with
  | .Oui =>
      o.radio == .Wifi && (byteAt o.address.toList 0 &&& 0x03) == 0 && hexPrefix v o.address.toList
  -- Probe requests name a network sought by a client, not one it hosts.
  | .SsidExact => advertises && o.ssid == v
  | .SsidPrefix => advertises && v.isPrefixOf o.ssid
  | .NameExact => o.radio == .Ble && o.name == v
  | .NamePrefix => o.radio == .Ble && v.isPrefixOf o.name
  | .Uuid16 => o.radio == .Ble && v.length == 4 && o.uuids.any fun u => hexPrefix v (bigEndian u)
  | .Uuid128 =>
      o.radio == .Ble && v.length == 32 && !o.uuids128.isEmpty && hexPrefix v (o.uuids128.headD [])
  | .Company =>
      o.radio == .Ble && decide (2 ≤ o.manufacturer.length) &&
        hexPrefix v [byteAt o.manufacturer 1, byteAt o.manufacturer 0]
  | .Payload => if o.radio == .Wifi then hexPrefix v o.vendor else hexPrefix v o.manufacturer
  | .Protocol => matchesProtocol v o
  | .Behavior => false

/-! ## Grades and caps -/

/-- The band a score falls in, as `ingest` compares them: 20, 50 and 80. -/
def band (score : UInt8) : Nat :=
  if 80 ≤ score then 3 else if 50 ≤ score then 2 else if 20 ≤ score then 1 else 0

def grade (score : UInt8) : Bytes :=
  if 80 ≤ score then ascii "high"
  else if 50 ≤ score then ascii "medium"
  else if 20 ≤ score then ascii "low"
  else ascii "informational"

/-- The evidence group: exact and prefix rules of one field share it. -/
def group : Kind → Fin 9
  | .Oui => 0
  | .SsidExact => 1
  | .SsidPrefix => 1
  | .NameExact => 2
  | .NamePrefix => 2
  | .Uuid16 => 3
  | .Uuid128 => 4
  | .Company => 5
  | .Payload => 6
  | .Protocol => 7
  | .Behavior => 8

/-- The highest score a rule can support for this observation. -/
def cap (rule : Rule) (o : Observation) : UInt8 :=
  let limit := rule.cap
  let locallyAdministered := (byteAt o.address.toList 0 &&& 2) != 0
  let limit := if rule.generic || (rule.kind == .Oui && locallyAdministered) then
    min limit 49 else limit
  if rule.kind == .NameExact || rule.kind == .NamePrefix || rule.kind == .SsidExact ||
      rule.kind == .SsidPrefix then min limit 79 else limit

end Hound
