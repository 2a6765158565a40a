import Hound.Core.ParseBle
import Hound.Json.Reader

/-!
# Wi-Fi management frames

`rsn_valid`, `parse_pwnagotchi` and `parse_wifi`. The loop over elements takes
the unread bytes; its fuel is their number, and every element uses at least two.
-/

namespace Hound

/-! ## Robust security bodies -/

/-- A count of suites at `pos` and the suites, four bytes each: the position after them. -/
def rsnGroup (v : Bytes) (pos : Nat) : Option Nat :=
  if v.length < pos + 2 then none
  else
    let n := (le16 v pos).toNat
    if n == 0 || (v.length - (pos + 2)) / 4 < n then none else some (pos + 2 + n * 4)

/-- The capabilities of a valid body. -/
def rsnValid (v : Bytes) : Option UInt16 :=
  if v.length < 8 || le16 v 0 != 1 then none
  else match (rsnGroup v 6).bind (rsnGroup v) with
    | none => none
    | some pos =>
      if pos == v.length then some 0
      else if v.length - pos < 2 then none
      else some (le16 v pos)

/-! ## Pwnagotchi payloads -/

/-- The loop of `string`, writing to `out` from `j` on: whether it finished, and the buffer. -/
def Json.unescapeInto : Bytes → Nat → Bytes → Bool × Bytes
  | [], j, out => (true, out.set j 0)
  | 92 :: 117 :: a :: b :: c :: d :: rest, j, out =>
      let n := unicode a b c d
      if n == 0 || decide (127 < n) || decide (out.length ≤ j + 1) then (false, out)
      else unescapeInto rest (j + 1) (out.set j (UInt8.ofNat n))
  | 92 :: e :: rest, j, out =>
      if decide (out.length ≤ j + 1) || escaped e == 0 then (false, out)
      else unescapeInto rest (j + 1) (out.set j (escaped e))
  -- `parse` lets no string end in a backslash
  | [92], _, out => (false, out)
  | c :: rest, j, out =>
      if decide (out.length ≤ j + 1) || c == 0 then (false, out)
      else unescapeInto rest (j + 1) (out.set j c)

/-- `string(t, out)`, with what it leaves in `out` when it fails. -/
def Json.stringInto (j : Json) (t : Option Nat) (out : Bytes) : Bool × Bytes :=
  match t.bind (j.tokens[·]?) with
  | some tok =>
    if tok.kind == .string && !out.isEmpty then
      Json.unescapeInto (j.raw t).tail.dropLast 0 out
    else (false, out)
  | none => (false, out)

/-- `parse_pwnagotchi(data, name)`: its result, and the buffer of the name after it. -/
def parsePwnagotchi (data name : Bytes) : Bool × Bytes :=
  match Json.parse data with
  | none => (false, name)
  | some j =>
    if (j.tokens[0]?.map JsonTree.Token.kind) != some .object then (false, name)
    else match j.integer (j.member 0 (ascii "pwnd_tot")) with
      | none => (false, name)
      | some count =>
        if count < 0 || 0xffffffff < count then (false, name)
        else
          let r := j.stringInto (j.member 0 (ascii "name")) name
          if !r.1 || (cString r.2).isEmpty || (cString r.2).any (fun c => c < 32 || 126 < c) then
            (false, r.2)
          else match j.string (j.member 0 (ascii "version")) 33 with
            | none => (false, r.2)
            | some version => (!version.isEmpty, r.2)

/-! ## Elements -/

/-- FNV-1a over the first four bytes. -/
def vendorFingerprint (v : Bytes) : UInt32 :=
  (v.take 4).foldl (fun f b => (f ^^^ b.toUInt32) * 16777619) 2166136261

structure Elements where
  o : Observation
  pwn : Bytes := []
  ssidSeen : Bool := false

/-- One element of the given type and value. -/
def Elements.element (e : Elements) (type : UInt8) (v : Bytes) : Option Elements :=
  if type == 0 then
    if e.ssidSeen || 32 < v.length then none
    else some { e with o := { e.o with ssid := v, name := sanitize 32 v }, ssidSeen := true }
  else if type == 48 then
    if e.o.rsn then none
    else match rsnValid v with
      | none => none
      | some caps =>
        some { e with o := { e.o with rsn := true, rsnCaps := caps, protectedNetwork := true } }
  else if type == 222 then
    if 472 < e.pwn.length + v.length then none else some { e with pwn := e.pwn ++ v }
  else if type == 221 && decide (3 ≤ v.length) && e.o.vendor.isEmpty then
    some { e with o := { e.o with
      vendorFingerprint := vendorFingerprint v, vendor := v.take 128 } }
  else some e

def Elements.read : Nat → Elements → Bytes → Option Elements
  | _, e, [] => some e
  | fuel + 1, e, type :: n :: rest =>
      if rest.length < n.toNat then none
      else match e.element type (rest.take n.toNat) with
        | none => none
        | some e => e.read fuel (rest.drop n.toNat)
  | _, _, _ => none

/-! ## Frames -/

def meshAddress : Address := #v[0xde, 0xad, 0xbe, 0xef, 0xde, 0xad]

def addressAt (frame : Bytes) (i : Nat) : Address := Vector.ofFn fun k => byteAt frame (i + k)

/-- The beacon check after the elements. -/
def Elements.finish (e : Elements) (frame : Bytes) : Elements :=
  if !e.pwn.isEmpty && e.o.subtype == 8 then
    if e.o.address == meshAddress then
      let name := e.o.name ++ List.replicate (33 - e.o.name.length) 0
      let r := parsePwnagotchi e.pwn name
      { e with o := { e.o with
        pwnagotchi := r.1, name := cString r.2,
        address := if r.1 then addressAt frame 16 else e.o.address } }
    else { e with o := { e.o with pwnagotchi := false } }
  else e

/-- `parse_wifi`; `none` leaves the caller's observation untouched. -/
def parseWifi (frame : Bytes) (output : Observation) : Option Observation :=
  if frame.length < 24 || (byteAt frame 0 &&& 0x0f) != 0 || (byteAt frame 1 &&& 0x03) != 0 then none
  else
    let o : Observation :=
      { ms := output.ms, channel := output.channel, rssi := output.rssi, radio := .Wifi,
        subtype := byteAt frame 0 >>> 4, address := addressAt frame 10 }
    if o.subtype == 10 || o.subtype == 12 then
      if frame.length < 26 || (byteAt frame 1 &&& 0x40) != 0 then none else some o
    else if (o.subtype != 8 && o.subtype != 5 && o.subtype != 4) ||
        frame.length < (if o.subtype == 4 then 24 else 36) then none
    else
      let o := { o with
        protectedNetwork := o.subtype != 4 && (le16 frame 34 &&& 0x10) != 0 }
      let start := if o.subtype == 4 then 24 else 36
      match Elements.read frame.length { o } (frame.drop start) with
      | none => none
      | some e =>
        let e := e.finish frame
        if !e.ssidSeen && !e.o.pwnagotchi then none else some e.o

end Hound
