import Hound.Core.Matches

/-!
# BLE advertisements

`sanitize`, `parse_samsung_tag` and `parse_ble`. The loop over AD structures
takes the unread bytes; its fuel is their number, and every structure uses at
least one.
-/

namespace Hound

/-- Printable bytes of at most `room` characters. -/
def sanitize (room : Nat) (bytes : Bytes) : Bytes :=
  (bytes.take room).map fun b => if 32 ≤ b && b ≤ 126 then b else 63

def samsungState (header : UInt8) : SamsungState :=
  match (header &&& 7).toNat with
  | 1 => .RecentlySeparated
  | 2 => .Offline
  | 3 => .LongOffline
  | 5 => .Connected
  | _ => .Unknown

/-- FD5A and the documented 20-byte v1/type-0 payload. -/
def parseSamsungTag (service : Bytes) : Option SamsungTag :=
  if service.length != 22 || byteAt service 0 != 0x5a || byteAt service 1 != 0xfd ||
      (byteAt service 2 &&& 0xf8) != 0x10 then none
  else
    let id : Vector UInt8 8 := Vector.ofFn fun i => byteAt service (6 + i)
    if id.all (· == 0) || id.all (· == 0xff) then none
    else some { id, state := samsungState (byteAt service 2) }

structure Advert where
  o : Observation
  fullName : Bool := false

/-- The 16-bit UUIDs of a type 2 or 3 list, as long as the array has room. -/
def Advert.uuids16 (a : Advert) : Bytes → Advert
  | low :: high :: rest =>
      let uuid := low.toUInt16 ||| high.toUInt16 <<< 8
      let a := if a.o.uuids.length < 8 then
          { a with o := { a.o with uuids := a.o.uuids ++ [uuid] } } else a
      a.uuids16 rest
  | _ => a

/-- `uuids128` holds one UUID, so the loop of the source stops after the first. -/
def Advert.uuid128 (a : Advert) (v : Bytes) : Advert :=
  if a.o.uuids128.isEmpty && decide (16 ≤ v.length) then
    { a with o := { a.o with uuids128 := [(v.take 16).reverse] } }
  else a

/-- One AD structure of the given type and value. -/
def Advert.structure (a : Advert) (type : UInt8) (v : Bytes) : Option Advert :=
  if type == 2 || type == 3 then
    if v.length % 2 != 0 then none else some (a.uuids16 v)
  else if type == 6 || type == 7 || type == 0x21 then
    if (if type == 0x21 then decide (v.length < 16) else v.length % 16 != 0) then none
    else some (a.uuid128 v)
  else if type == 8 || type == 9 then
    let a := if type == 9 || !a.fullName then { a with o := { a.o with name := sanitize 32 v } }
      else a
    some { a with fullName := a.fullName || type == 9 }
  else if type == 0xff then
    if v.length < 2 || !a.o.manufacturer.isEmpty then none
    else some { a with o := { a.o with manufacturer := v } }
  else if type == 0x16 then
    if v.length < 2 || !a.o.service.isEmpty then none
    else
      let a := { a with o := { a.o with service := v } }
      some (a.uuids16 (v.take 2))
  else some a

def Advert.read : Nat → Advert → Bytes → Option Advert
  | _, a, [] => some a
  | 0, _, _ :: _ => none
  | fuel + 1, a, n :: rest =>
      if n == 0 then (if rest.all (· == 0) then some a else none)
      else if rest.length < n.toNat then none
      else match a.structure (byteAt rest 0) ((rest.drop 1).take (n.toNat - 1)) with
        | none => none
        | some a => a.read fuel (rest.drop n.toNat)

/-- `parse_ble`; `none` leaves the caller's observation untouched. -/
def parseBle (data : Bytes) (output : Observation) : Option Observation :=
  if 31 < data.length then none
  else
    let o : Observation :=
      { ms := output.ms, rssi := output.rssi, address := output.address,
        addressType := output.addressType, radio := .Ble }
    (Advert.read data.length { o } data).map fun a =>
      { a.o with samsung := (parseSamsungTag a.o.service).getD {} }

end Hound
