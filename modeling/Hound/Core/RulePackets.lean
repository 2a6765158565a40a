import Hound.Core.CompileSignatures
import Hound.Core.UuidRules
import Hound.Core.WifiGrammar

/-!
# A packet for every rule

For a value the signature compiler accepts, a frame or a payload the parsers
accept whose observation the rule matches. The packets are built from the
grammars: a dismissal for an address, a beacon with one network name, an
advertisement with one structure.
-/

namespace Hound

/-! ## Packets -/

/-- What the radio callbacks pass on of a packet. -/
inductive Packet where
  | wifi (ms : UInt64) (channel : UInt8) (rssi : Int8) (frame : Bytes)
  | ble (ms : UInt64) (rssi : Int8) (address : Address) (addressType : UInt8) (data : Bytes)

/-- The observation of an accepted packet; the callbacks drop frames of more than 512 bytes. -/
def Packet.observed : Packet → Option Observation
  | .wifi ms channel rssi frame =>
      if 512 < frame.length then none else parseWifi frame { ms, channel, rssi }
  | .ble ms rssi address addressType data => parseBle data { ms, rssi, address, addressType }

/-- Some accepted packet's observation satisfies `p`. -/
def Heard (p : Observation → Prop) : Prop := ∃ packet o, Packet.observed packet = some o ∧ p o

/-! ## Frames -/

/-- A management frame from the address that begins with `a`, `b`, `c`. -/
def wifiFrom (control a b c : UInt8) (tail : Bytes) : Bytes :=
  control :: 0 :: 0 :: 0 :: 0 :: 0 :: 0 :: 0 :: 0 :: 0 :: a :: b :: c :: 0 :: 0 :: 0 :: 0 :: 0 :: 0 ::
    0 :: 0 :: 0 :: 0 :: 0 :: tail

/-- A disassociation in the clear. -/
def dismissalFrom (a b c : UInt8) : Bytes := wifiFrom 0xa0 a b c [0, 0]

/-- A beacon with the capabilities `caps` and the elements `es`. -/
def beaconFrom (a b c caps : UInt8) (es : List Element) : Bytes :=
  wifiFrom 0x80 a b c (0 :: 0 :: 0 :: 0 :: 0 :: 0 :: 0 :: 0 :: 0 :: 0 :: caps :: 0 ::
    es.flatMap elementBytes)

section Frames

variable (control a b c : UInt8) (tail : Bytes)

theorem length_wifiFrom : (wifiFrom control a b c tail).length = tail.length + 24 := rfl

theorem control_wifiFrom : byteAt (wifiFrom control a b c tail) 0 = control := rfl

theorem flags_wifiFrom : byteAt (wifiFrom control a b c tail) 1 = 0 := rfl

theorem subtype_wifiFrom : subtypeOf (wifiFrom control a b c tail) = control >>> 4 := rfl

theorem address_wifiFrom : addressAt (wifiFrom control a b c tail) 10 = #v[a, b, c, 0, 0, 0] := rfl

theorem parse_dismissal (output : Observation) :
    parseWifi (dismissalFrom a b c) output = some (wifiHeader (dismissalFrom a b c) output) := by
  have hlong : 24 ≤ (dismissalFrom a b c).length := Nat.le_add_left 24 2
  have hversion : byteAt (dismissalFrom a b c) 0 &&& 0x0f = 0 := by
    rw [dismissalFrom, control_wifiFrom]
    decide
  have hdirection : byteAt (dismissalFrom a b c) 1 &&& 0x03 = 0 := by
    rw [dismissalFrom, flags_wifiFrom]
    decide
  have hsubtype : (subtypeOf (dismissalFrom a b c) == 10 || subtypeOf (dismissalFrom a b c) == 12) =
      true := by
    rw [dismissalFrom, subtype_wifiFrom]
    decide
  have hgood : ¬ (decide ((dismissalFrom a b c).length < 26) ||
      (byteAt (dismissalFrom a b c) 1 &&& 0x40) != 0) = true := by
    rw [dismissalFrom, length_wifiFrom, flags_wifiFrom]
    decide
  rw [parseWifi_of_header hlong hversion hdirection, if_pos hsubtype, if_neg hgood]

theorem bodyStart_beacon (caps : UInt8) (es : List Element) :
    bodyStart (beaconFrom a b c caps es) = 36 := by
  rw [bodyStart, beaconFrom, subtype_wifiFrom]
  decide

theorem beacon_body {es : List Element} (caps : UInt8) (h : ElementsOk es)
    (hsmall : ∀ e ∈ es, e.value.length ≤ 255) : FrameBody (beaconFrom a b c caps es) es := by
  refine ⟨?_, hsmall, h⟩
  rw [bodyStart_beacon]
  rfl

/-- Without Pwnagotchi elements a beacon says what its elements say. -/
theorem parse_beacon {es : List Element} (caps : UInt8) (h : ElementsOk es)
    (hsmall : ∀ e ∈ es, e.value.length ≤ 255) (hname : valuesOf 0 es ≠ [])
    (hplain : valuesOf 222 es = []) (output : Observation) :
    parseWifi (beaconFrom a b c caps es) output =
      some (described (wifiBase (beaconFrom a b c caps es) output) es) := by
  have hlen : (beaconFrom a b c caps es).length = (es.flatMap elementBytes).length + 36 := rfl
  have hversion : byteAt (beaconFrom a b c caps es) 0 &&& 0x0f = 0 := by
    rw [beaconFrom, control_wifiFrom]
    decide
  have hdirection : byteAt (beaconFrom a b c caps es) 1 &&& 0x03 = 0 := by
    rw [beaconFrom, flags_wifiFrom]
    decide
  have hdismissal : ¬ (subtypeOf (beaconFrom a b c caps es) == 10 ||
      subtypeOf (beaconFrom a b c caps es) == 12) = true := by
    rw [beaconFrom, subtype_wifiFrom]
    decide
  have hgood : ¬ ((subtypeOf (beaconFrom a b c caps es) != 8 &&
      subtypeOf (beaconFrom a b c caps es) != 5 && subtypeOf (beaconFrom a b c caps es) != 4) ||
        decide ((beaconFrom a b c caps es).length < bodyStart (beaconFrom a b c caps es))) = true := by
    rw [bodyStart_beacon, decide_eq_false (by omega), beaconFrom, subtype_wifiFrom]
    decide
  have hseen : (Elements.of (wifiBase (beaconFrom a b c caps es) output) es).ssidSeen = true := by
    simpa [Elements.of] using hname
  have hpwn : (Elements.of (wifiBase (beaconFrom a b c caps es) output) es).pwn = [] := by
    simp [Elements.of, hplain]
  have hfinish : (Elements.of (wifiBase (beaconFrom a b c caps es) output) es).finish
      (beaconFrom a b c caps es) = Elements.of (wifiBase (beaconFrom a b c caps es) output) es := by
    unfold Elements.finish
    rw [hpwn]
    rfl
  rw [parseWifi_of_header (by omega) hversion hdirection, if_neg hdismissal, if_neg hgood,
    read_body (beacon_body a b c caps h hsmall), Option.bind_some]
  unfold Elements.accepted
  rw [hfinish, hseen]
  rfl

end Frames

/-- One network name and, after it, one vendor element. -/
def named (ssid vendor : Bytes) : List Element := [⟨0, ssid⟩, ⟨221, vendor⟩]

theorem named_ok {ssid : Bytes} (vendor : Bytes) (h : ssid.length ≤ 32) : ElementsOk (named ssid vendor) where
  ssidOnce := Nat.le_refl 1
  ssidShort := by
    intro v hv
    obtain rfl : v = ssid := by simpa [named, valuesOf] using hv
    exact h
  rsnOnce := Nat.zero_le 1
  rsnBody := by
    intro v hv
    simp [named, valuesOf] at hv
  pwnShort := Nat.zero_le 472

theorem named_heard {ssid vendor : Bytes} (h : ssid.length ≤ 32) (hvendor : vendor.length ≤ 128) :
    Heard fun o => o.radio = .Wifi ∧ o.subtype = 8 ∧ o.ssid = ssid ∧
      (3 ≤ vendor.length → o.vendor = vendor) := by
  have hsmall : ∀ e ∈ named ssid vendor, e.value.length ≤ 255 := by
    intro e he
    rcases List.mem_cons.mp he with rfl | he
    · exact Nat.le_trans h (by decide)
    · obtain rfl : e = ⟨221, vendor⟩ := by simpa using he
      exact Nat.le_trans hvendor (by decide)
  have hparse := parse_beacon 0 0 0 0 (named_ok vendor h) hsmall (by simp [named, valuesOf]) rfl {}
  have hlen : ¬ 512 < (beaconFrom 0 0 0 0 (named ssid vendor)).length := by
    simp only [beaconFrom, length_wifiFrom, named, List.flatMap_cons, List.flatMap_nil, elementBytes,
      List.length_append, List.length_cons, List.length_nil]
    omega
  refine ⟨.wifi 0 0 0 (beaconFrom 0 0 0 0 (named ssid vendor)),
    described (wifiBase (beaconFrom 0 0 0 0 (named ssid vendor)) {}) (named ssid vendor), ?_, rfl, ?_,
    rfl, ?_⟩
  · rw [Packet.observed, if_neg hlen]
    exact hparse
  · change subtypeOf (beaconFrom 0 0 0 0 (named ssid vendor)) = 8
    rw [beaconFrom, subtype_wifiFrom]
    decide
  · intro hlong
    have hfirst : vendorOf (named ssid vendor) = vendor := by
      simp [vendorOf, named, valuesOf, hlong]
    change (vendorOf (named ssid vendor)).take 128 = vendor
    rw [hfirst]
    exact List.take_of_length_le hvendor

/-! ## Payloads -/

theorem single_heard {ad : Ad} (hsized : ad.sized = true) (hshort : ad.value.length ≤ 29) :
    Heard fun o => ∃ output, o = heard output [ad] := by
  have hlen : ad.bytes.length = ad.value.length + 2 := rfl
  have hone : ∀ type, (valuesOf type [ad]).length ≤ 1 := by
    intro type
    unfold valuesOf
    rw [List.length_map]
    exact List.length_filter_le _ _
  have hpayload : Payload ad.bytes [ad] := by
    refine ⟨by omega, ⟨0, by simp⟩, ?_, hone _, hone _⟩
    intro ad' had
    obtain rfl : ad' = ad := by simpa using had
    exact hsized
  exact ⟨.ble 0 0 (Vector.replicate 6 0) 0 ad.bytes, heard {} [ad],
    parseBle_eq_some.mpr ⟨[ad], hpayload, rfl⟩, {}, rfl⟩

theorem sanitize_printable {v : Bytes} (hlen : v.length ≤ 32) (h : ∀ b ∈ v, 32 ≤ b ∧ b ≤ 126) :
    sanitize 32 v = v := by
  unfold sanitize
  rw [List.take_of_length_le hlen]
  have hsame : ∀ b ∈ v, (if 32 ≤ b && b ≤ 126 then b else 63) = id b := by
    intro b hb
    obtain ⟨hlow, hhigh⟩ := h b hb
    simp [hlow, hhigh]
  rw [List.map_congr_left hsame, List.map_id]

/-! ## Hexadecimal values -/

/-- An even number of digits spells octets. -/
theorem exists_hexOf {v : Bytes} (h : ∀ c ∈ v, (hex c).isSome = true) {n : Nat} (hlen : v.length = 2 * n) :
    ∃ bytes, bytes.length = n ∧ v = hexOf bytes := by
  induction n generalizing v with
  | zero =>
    obtain rfl : v = [] := List.length_eq_zero_iff.mp hlen
    exact ⟨[], rfl, rfl⟩
  | succ n ih =>
    obtain ⟨a, v, rfl⟩ := List.exists_cons_of_length_pos (l := v) (by omega)
    simp only [List.length_cons] at hlen
    obtain ⟨b, v, rfl⟩ := List.exists_cons_of_length_pos (l := v) (by omega)
    simp only [List.length_cons] at hlen
    obtain ⟨bytes, hbytes, rfl⟩ := ih
      (fun c hc => h c (List.mem_cons_of_mem a (List.mem_cons_of_mem b hc))) (by omega)
    obtain ⟨x, hx⟩ := Option.isSome_iff_exists.mp (h a List.mem_cons_self)
    obtain ⟨y, hy⟩ := Option.isSome_iff_exists.mp (h b (List.mem_cons_of_mem a List.mem_cons_self))
    obtain ⟨rfl, hx'⟩ := hexDigitOf_hex hx
    obtain ⟨rfl, hy'⟩ := hexDigitOf_hex hy
    obtain ⟨byte, hbyte⟩ : ∃ byte : UInt8, byte.toNat = x * 16 + y :=
      ⟨UInt8.ofNat (x * 16 + y), by rw [UInt8.toNat_ofNat']; omega⟩
    have hdiv : byte.toNat / 16 = x := by omega
    have hmod : byte.toNat % 16 = y := by omega
    have hcons : hexOf (byte :: bytes) =
        hexDigitOf (byte.toNat / 16) :: hexDigitOf (byte.toNat % 16) :: hexOf bytes := rfl
    exact ⟨byte :: bytes, by rw [List.length_cons, hbytes], by rw [hcons, hdiv, hmod]⟩

theorem hexDigits_hexOf {bytes data : Bytes} : hexDigits (hexOf bytes) data = true ↔ bytes <+: data := by
  induction bytes generalizing data with
  | nil =>
    have hnil : hexDigits (hexOf []) data = true := by cases data <;> rfl
    simp [hnil]
  | cons b bytes ih =>
    have hbyte := b.toNat_lt
    have hcons : hexOf (b :: bytes) =
        hexDigitOf (b.toNat / 16) :: hexDigitOf (b.toNat % 16) :: hexOf bytes := rfl
    rw [hcons]
    cases data with
    | nil => simp [hexDigits]
    | cons d data =>
      have hvalue : (d.toNat == b.toNat / 16 * 16 + b.toNat % 16) = decide (b = d) := by
        have hsplit : b.toNat / 16 * 16 + b.toNat % 16 = b.toNat := by omega
        rw [hsplit]
        by_cases hsame : b = d
        · simp [hsame]
        · have hne : d.toNat ≠ b.toNat := fun h => hsame (UInt8.toNat_inj.mp h.symm)
          simp [hsame, hne]
      rw [hexDigits, hex_hexDigitOf (by omega), hex_hexDigitOf (by omega)]
      simp only [hvalue, Bool.and_eq_true, decide_eq_true_eq, ih, List.cons_prefix_cons]

/-- A value matches the buffers that begin with the octets it spells. -/
theorem hexPrefix_hexOf {bytes : Bytes} (h : bytes ≠ []) {data : Bytes} :
    hexPrefix (hexOf bytes) data = true ↔ bytes <+: data := by
  have hlen := length_hexOf bytes
  have hpos : 0 < bytes.length := List.length_pos_iff.mpr h
  have hempty : (hexOf bytes).isEmpty = false := by
    rw [List.isEmpty_eq_false_iff, ← List.length_pos_iff]
    omega
  have heven : ((hexOf bytes).length % 2 != 0) = false := by
    rw [bne_eq_false_iff_eq]
    omega
  unfold hexPrefix
  rw [hempty, heven]
  by_cases hroom : data.length < (hexOf bytes).length / 2
  · rw [decide_eq_true hroom]
    constructor
    · intro hno
      cases hno
    · intro hprefix
      have hle := hprefix.length_le
      omega
  · rw [decide_eq_false hroom]
    exact hexDigits_hexOf

theorem bigEndian_word (low high : UInt8) :
    bigEndian (low.toUInt16 ||| high.toUInt16 <<< 8) = [high, low] := by
  have hlow := low.toNat_lt
  have hhigh := high.toNat_lt
  have hword := toNat_le16 low high
  have hshift : ((low.toUInt16 ||| high.toUInt16 <<< 8) >>> 8).toNat = high.toNat := by
    rw [UInt16.toNat_shiftRight, hword, Nat.shiftRight_eq_div_pow]
    have height : UInt16.toNat 8 % 16 = 8 := rfl
    rw [height]
    omega
  unfold bigEndian
  congr 1
  · refine UInt8.toNat_inj.mp ?_
    rw [UInt16.toNat_toUInt8, hshift]
    omega
  · congr 1
    refine UInt8.toNat_inj.mp ?_
    rw [UInt16.toNat_toUInt8, hword]
    omega

/-! ## Rules -/

section Rules

variable {r : Rule}

theorem oui_heard (hkind : r.kind = .Oui) {a b c : UInt8} (hvalue : r.value = hexOf [a, b, c])
    (hglobal : a &&& 0x03 = 0) : Heard fun o => ruleMatches r o = true := by
  refine ⟨.wifi 0 0 0 (dismissalFrom a b c), _, parse_dismissal a b c {}, ?_⟩
  have haddress : (wifiHeader (dismissalFrom a b c) {}).address = #v[a, b, c, 0, 0, 0] :=
    address_wifiFrom _ _ _ _ _
  have hprefix : hexPrefix r.value [a, b, c, 0, 0, 0] = true := by
    rw [hvalue, hexPrefix_hexOf (by simp)]
    exact ⟨[0, 0, 0], rfl⟩
  have hdef : ruleMatches r (wifiHeader (dismissalFrom a b c) {}) =
      ((a &&& 0x03 == 0) && hexPrefix r.value [a, b, c, 0, 0, 0]) := by
    unfold ruleMatches
    rw [hkind, haddress]
    rfl
  show ruleMatches r (wifiHeader (dismissalFrom a b c) {}) = true
  rw [hdef, hglobal, hprefix]
  rfl

/-- An address with the local bit set names no manufacturer. -/
theorem oui_local (hkind : r.kind = .Oui) {a b c : UInt8} (hvalue : r.value = hexOf [a, b, c])
    (hlocal : a &&& 0x03 ≠ 0) (o : Observation) : ruleMatches r o = false := by
  by_contra hmatch
  have hdef : ruleMatches r o = (o.radio == .Wifi && (byteAt o.address.toList 0 &&& 0x03) == 0 &&
      hexPrefix r.value o.address.toList) := by
    unfold ruleMatches
    rw [hkind]
  rw [Bool.not_eq_false, hdef, hvalue] at hmatch
  simp only [Bool.and_eq_true, beq_iff_eq,
    @hexPrefix_hexOf [a, b, c] (by simp)] at hmatch
  obtain ⟨⟨-, hglobal⟩, rest, hrest⟩ := hmatch
  rw [← hrest] at hglobal
  exact hlocal hglobal

theorem ssid_heard (hkind : r.kind = .SsidExact ∨ r.kind = .SsidPrefix) (hlen : r.value.length ≤ 32) :
    Heard fun o => ruleMatches r o = true := by
  obtain ⟨packet, o, ho, hradio, hsubtype, hssid, -⟩ := @named_heard r.value [] hlen (by simp)
  refine ⟨packet, o, ho, ?_⟩
  rcases hkind with hkind | hkind <;> simp [ruleMatches, hkind, hradio, hsubtype, hssid]

theorem vendor_heard (hkind : r.kind = .Payload) {bytes : Bytes} (hvalue : r.value = hexOf bytes)
    (hne : bytes ≠ []) (hlen : bytes.length ≤ 64) : Heard fun o => ruleMatches r o = true := by
  obtain ⟨packet, o, ho, hradio, -, -, hvendor⟩ := @named_heard [] (bytes ++ [0, 0, 0]) (by simp)
    (by rw [List.length_append]; simp; omega)
  have hlong : 3 ≤ (bytes ++ [0, 0, 0]).length := by
    rw [List.length_append]
    exact Nat.le_add_left 3 _
  have hprefix : hexPrefix r.value o.vendor = true := by
    rw [hvendor hlong, hvalue, hexPrefix_hexOf hne]
    exact List.prefix_append bytes _
  exact ⟨packet, o, ho, by simp [ruleMatches, hkind, hradio, hprefix]⟩

theorem name_heard (hkind : r.kind = .NameExact ∨ r.kind = .NamePrefix) (hlen : r.value.length ≤ 29)
    (hprintable : ∀ b ∈ r.value, 32 ≤ b ∧ b ≤ 126) : Heard fun o => ruleMatches r o = true := by
  obtain ⟨packet, o, ho, output, rfl⟩ := @single_heard ⟨9, r.value⟩ (by simp [Ad.sized]) hlen
  have hname : (heard output [⟨9, r.value⟩]).name = r.value :=
    sanitize_printable (Nat.le_trans hlen (by decide)) hprintable
  have hradio : (heard output [⟨9, r.value⟩]).radio = .Ble := rfl
  refine ⟨packet, _, ho, ?_⟩
  rcases hkind with hkind | hkind <;> simp [ruleMatches, hkind, hradio, hname]

theorem uuid16_heard (hkind : r.kind = .Uuid16) {high low : UInt8} (hvalue : r.value = hexOf [high, low]) :
    Heard fun o => ruleMatches r o = true := by
  obtain ⟨packet, o, ho, output, rfl⟩ := @single_heard ⟨3, [low, high]⟩ (by simp [Ad.sized]) (by simp)
  refine ⟨packet, _, ho, (matches_uuid16 hkind rfl).mpr ?_⟩
  exact ⟨low.toUInt16 ||| high.toUInt16 <<< 8, List.mem_singleton.mpr rfl, by rw [bigEndian_word, hvalue]⟩

theorem uuid128_heard (hkind : r.kind = .Uuid128) {bytes : Bytes} (hvalue : r.value = hexOf bytes)
    (hlen : bytes.length = 16) : Heard fun o => ruleMatches r o = true := by
  have hrev : bytes.reverse.length = 16 := by rw [List.length_reverse, hlen]
  obtain ⟨packet, o, ho, output, rfl⟩ := @single_heard ⟨0x21, bytes.reverse⟩
    (by simp [Ad.sized, hrev]) (by rw [hrev]; decide)
  have huuids : (heard output [⟨0x21, bytes.reverse⟩]).uuids128 = [bytes] := by
    have hall : (heard output [⟨0x21, bytes.reverse⟩]).uuids128 = [(bytes.reverse.take 16).reverse] := rfl
    rw [hall, List.take_of_length_le (by omega), List.reverse_reverse]
  refine ⟨packet, _, ho, (matches_uuid128 hkind rfl ?_ ?_).mpr ⟨bytes, ?_, hvalue⟩⟩
  · simp [huuids]
  · simp [huuids, hlen]
  · simp [huuids]

theorem company_heard (hkind : r.kind = .Company) {high low : UInt8} (hvalue : r.value = hexOf [high, low]) :
    Heard fun o => ruleMatches r o = true := by
  obtain ⟨packet, o, ho, output, rfl⟩ := @single_heard ⟨0xff, [low, high]⟩ (by simp [Ad.sized]) (by simp)
  have hprefix : hexPrefix r.value [high, low] = true := by
    rw [hvalue, hexPrefix_hexOf (by simp)]
  have hmanufacturer : (heard output [⟨0xff, [low, high]⟩]).manufacturer = [low, high] := rfl
  have hradio : (heard output [⟨0xff, [low, high]⟩]).radio = .Ble := rfl
  refine ⟨packet, _, ho, ?_⟩
  simp [ruleMatches, hkind, hradio, hmanufacturer, byteAt, hprefix]

end Rules

/-! ## Protocols -/

/-- A beacon from the signature address with one payload element. -/
def signatureBeacon : Bytes :=
  [0x80, 0, 0, 0, 0, 0, 0, 0, 0, 0, 0xde, 0xad, 0xbe, 0xef, 0xde, 0xad, 0, 0, 0, 0, 0, 0, 0, 0,
    0, 0, 0, 0, 0, 0, 0, 0, 0, 0, 0, 0] ++
  elementBytes ⟨222, ascii "\x7b\"pwnd_tot\":0,\"name\":\"a\",\"version\":\"1\"\x7d"⟩

/-- A packet of each protocol. -/
def protocolPacket (v : String) : Packet :=
  let service (bytes : Bytes) : Packet := .ble 0 0 (Vector.replicate 6 0) 0 (Ad.bytes ⟨0x16, bytes⟩)
  let manufacturer (bytes : Bytes) : Packet := .ble 0 0 (Vector.replicate 6 0) 0 (Ad.bytes ⟨0xff, bytes⟩)
  if v == "pwnagotchi" then .wifi 0 0 0 signatureBeacon
  else if v == "apple_find_my" then manufacturer ([0x4c, 0, 0x12, 0x19] ++ List.replicate 25 0)
  else if v == "ibeacon" then manufacturer ([0x4c, 0, 2, 0x15] ++ List.replicate 21 0)
  else if v == "find_hub" then service ([0xaa, 0xfe, 0x40] ++ List.replicate 20 0)
  else if v == "fast_pair_model" then service [0x2c, 0xfe, 0, 0, 0]
  else service ([0xfa, 0xff, 0x0d, 0, 2, 0x10, 65] ++ List.replicate 22 0)

theorem protocolPacket_heard {v : String} (h : v ∈ protocols) :
    (protocolPacket v).observed.any (matchesProtocol (ascii v)) = true := by
  have hall : ∀ v ∈ protocols, (protocolPacket v).observed.any (matchesProtocol (ascii v)) = true := by
    decide +kernel
  exact hall v h

theorem protocol_heard {r : Rule} (hkind : r.kind = .Protocol) {v : String} (hvalue : r.value = ascii v)
    (h : v ∈ protocols) : Heard fun o => ruleMatches r o = true := by
  obtain ⟨o, ho, hmatch⟩ := (Option.any_eq_true _ _).mp (protocolPacket_heard h)
  refine ⟨protocolPacket v, o, ho, ?_⟩
  rw [← hvalue] at hmatch
  show ruleMatches r o = true
  unfold ruleMatches
  rw [hkind]
  exact hmatch

/-! ## Accepted values -/

theorem kind_name {name : String} {kind : Kind} (h : kinds.lookup name = some kind) :
    (name, kind) ∈ kinds := by
  obtain ⟨front, rest, hsplit, -⟩ := List.lookup_eq_some_iff.mp h
  rw [hsplit]
  exact List.mem_append_right _ List.mem_cons_self

namespace SignatureEntry

variable {s : SignatureEntry} {r : Rule}

theorem length_ascii (text : String) : (ascii text).length = text.length := by
  rw [ascii, List.length_map, String.length_toList]

theorem ascii_printable {text : String} (h : printable text = true) :
    ∀ b ∈ ascii text, 32 ≤ b ∧ b ≤ 126 := by
  intro b hb
  obtain ⟨c, hc, rfl⟩ := List.mem_map.mp hb
  have hrange := List.all_eq_true.mp h c hc
  simp only [Bool.and_eq_true, decide_eq_true_eq] at hrange
  have hbyte : c.toNat.toUInt8.toNat = c.toNat := by
    rw [Nat.toUInt8_eq, UInt8.toNat_ofNat']
    omega
  rw [UInt8.le_iff_toNat_le, UInt8.le_iff_toNat_le, hbyte]
  exact hrange

/-- The value's first octet has the bit of a locally administered address. -/
def Local (s : SignatureEntry) : Prop := s.evidenceKind = "wifi_oui" ∧ s.firstOctet &&& 2 ≠ 0

/-- A network name fits an SSID element, a device name an advertising payload. -/
def Fits (s : SignatureEntry) : Prop :=
  ((s.evidenceKind = "wifi_ssid_exact" ∨ s.evidenceKind = "wifi_ssid_prefix") → s.value.length ≤ 32) ∧
  ((s.evidenceKind = "ble_name_exact" ∨ s.evidenceKind = "ble_name_prefix") → s.value.length ≤ 29)

/-- What the checks of the matcher say, one by one. -/
structure Checked (s : SignatureEntry) : Prop where
  nonempty : 1 ≤ s.value.length
  short : s.value.length ≤ 64
  printable : printable s.value = true
  hex : s.evidenceKind ∈ hexKinds → s.hexOk = true
  protocol : s.evidenceKind = "protocol" → s.value ∈ protocols
  behavior : s.evidenceKind = "behavior" → s.value ∈ behaviors
  individual : s.evidenceKind = "wifi_oui" → s.firstOctet &&& 1 = 0

theorem matcherOk_checked {cap : Nat} (h : s.matcherOk cap = true) : s.Checked := by
  unfold matcherOk textOk at h
  simp only [Bool.and_eq_true, Bool.or_eq_true, Bool.not_eq_true', decide_eq_true_eq,
    Bool.or_eq_false_iff, Bool.and_eq_false_iff, beq_eq_false_iff_ne, bne_eq_false_iff_eq,
    Bool.not_eq_false', List.elem_eq_mem] at h
  obtain ⟨⟨⟨⟨⟨⟨⟨hnonempty, hshort⟩, hprintable⟩, hhex⟩, hprotocol, hbehavior⟩, hindividual⟩, -⟩, -⟩ := h
  refine ⟨hnonempty, hshort, hprintable, ?_, ?_, ?_, ?_⟩
  · intro hkind
    exact hhex.resolve_left (by simpa using hkind)
  · intro hkind
    simpa using hprotocol.resolve_left (fun hne => hne hkind)
  · intro hkind
    simpa using hbehavior.resolve_left (fun hne => hne hkind)
  · intro hkind
    exact hindividual.resolve_left (fun hne => hne hkind)

theorem hexOk_width (h : s.hexOk = true) :
    s.value.length % 2 = 0 ∧ (s.evidenceKind = "wifi_oui" → s.value.length = 6) ∧
    (s.evidenceKind = "ble_uuid16" ∨ s.evidenceKind = "ble_company_id" → s.value.length = 4) ∧
    (s.evidenceKind = "ble_uuid128" → s.value.length = 32) := by
  unfold hexOk at h
  simp only [Bool.and_eq_true, beq_iff_eq, Bool.not_eq_true', Bool.or_eq_false_iff,
    Bool.and_eq_false_iff, beq_eq_false_iff_ne, bne_eq_false_iff_eq] at h
  obtain ⟨⟨-, heven⟩, ⟨houi, hshort⟩, hlong⟩ := h
  refine ⟨heven, ?_, ?_, ?_⟩
  · intro hkind
    exact houi.resolve_left (fun hne => hne hkind)
  · intro hkind
    refine hshort.resolve_left ?_
    rintro ⟨hno, hno'⟩
    exact hkind.elim hno hno'
  · intro hkind
    exact hlong.resolve_left (fun hne => hne hkind)

/-- The octets of an accepted hexadecimal value. -/
theorem hexOk_octets {width : Nat} (h : s.hexOk = true) (hlen : s.value.length = 2 * width) :
    ∃ bytes, bytes.length = width ∧ ascii s.value = hexOf bytes := by
  unfold hexOk at h
  simp only [Bool.and_eq_true] at h
  exact exists_hexOf (fun c hc => List.all_eq_true.mp h.1.1 c hc) (by rw [length_ascii, hlen])

theorem firstOctet_hexOf {a : UInt8} {rest : Bytes} (h : ascii s.value = hexOf (a :: rest)) :
    s.firstOctet = a.toNat := by
  have hbyte := a.toNat_lt
  have hcons : (hexOf (a :: rest)).take 2 = [hexDigitOf (a.toNat / 16), hexDigitOf (a.toNat % 16)] := rfl
  unfold firstOctet
  rw [h, hcons]
  simp only [hex_hexDigitOf (n := a.toNat / 16) (by omega), hex_hexDigitOf (n := a.toNat % 16) (by omega),
    Option.getD_some]
  omega

theorem low_bits (a : UInt8) : a &&& 0x03 = 0 ↔ a.toNat &&& 1 = 0 ∧ a.toNat &&& 2 = 0 := by
  have hboth : (a &&& 0x03).toNat = (a.toNat &&& 1) ||| (a.toNat &&& 2) := by
    rw [← Nat.and_or_distrib_left]
    rfl
  rw [← UInt8.toNat_inj, hboth]
  exact Nat.or_eq_zero_iff

theorem Accepted.checked (h : s.Accepted r) : s.Checked := by
  obtain ⟨cap, hcap⟩ := h.cap
  exact matcherOk_checked hcap

/-- The octets of an accepted manufacturer prefix. -/
theorem Accepted.oui (h : s.Accepted r) (hkind : s.evidenceKind = "wifi_oui") :
    ∃ a b c, r.value = hexOf [a, b, c] ∧ (a &&& 0x03 = 0 ↔ ¬ s.Local) := by
  have hchecked := h.checked
  have hhex := hchecked.hex (by rw [hkind]; decide)
  obtain ⟨bytes, hlen, hvalue⟩ := @hexOk_octets s 3 hhex ((hexOk_width hhex).2.1 hkind)
  obtain ⟨a, b, c, rfl⟩ := List.length_eq_three.mp hlen
  refine ⟨a, b, c, by rw [h.value, hvalue], ?_⟩
  have hindividual := hchecked.individual hkind
  unfold Local
  rw [firstOctet_hexOf hvalue] at hindividual ⊢
  rw [low_bits]
  simp [hkind, hindividual]

/-- Every accepted rule that is no behavior has its packet, but for local prefixes. -/
theorem Accepted.heard (h : s.Accepted r) (hkind : r.kind ≠ .Behavior) (hglobal : ¬ s.Local)
    (hfits : s.Fits) : Heard fun o => ruleMatches r o = true := by
  have hchecked := h.checked
  have hname := kind_name h.kind
  have hlength : r.value.length = s.value.length := by rw [h.value, length_ascii]
  have hprintable : ∀ b ∈ r.value, 32 ≤ b ∧ b ≤ 126 := by
    rw [h.value]
    exact ascii_printable hchecked.printable
  simp only [kinds, List.mem_cons, List.not_mem_nil, or_false, Prod.mk.injEq] at hname
  rcases hname with ⟨hn, hk⟩ | ⟨hn, hk⟩ | ⟨hn, hk⟩ | ⟨hn, hk⟩ | ⟨hn, hk⟩ | ⟨hn, hk⟩ | ⟨hn, hk⟩ |
    ⟨hn, hk⟩ | ⟨hn, hk⟩ | ⟨hn, hk⟩ | ⟨hn, hk⟩
  · obtain ⟨a, b, c, hvalue, hbits⟩ := h.oui hn
    exact oui_heard hk hvalue (hbits.mpr hglobal)
  · exact ssid_heard (.inl hk) (by rw [hlength]; exact hfits.1 (.inl hn))
  · exact ssid_heard (.inr hk) (by rw [hlength]; exact hfits.1 (.inr hn))
  · exact name_heard (.inl hk) (by rw [hlength]; exact hfits.2 (.inl hn)) hprintable
  · exact name_heard (.inr hk) (by rw [hlength]; exact hfits.2 (.inr hn)) hprintable
  · have hhex := hchecked.hex (by rw [hn]; decide)
    obtain ⟨bytes, hlen, hvalue⟩ := @hexOk_octets s 2 hhex ((hexOk_width hhex).2.2.1 (.inl hn))
    obtain ⟨high, low, rfl⟩ := List.length_eq_two.mp hlen
    exact uuid16_heard hk (h.value.trans hvalue)
  · have hhex := hchecked.hex (by rw [hn]; decide)
    obtain ⟨bytes, hlen, hvalue⟩ := @hexOk_octets s 16 hhex ((hexOk_width hhex).2.2.2 hn)
    exact uuid128_heard hk (h.value.trans hvalue) hlen
  · have hhex := hchecked.hex (by rw [hn]; decide)
    obtain ⟨bytes, hlen, hvalue⟩ := @hexOk_octets s 2 hhex ((hexOk_width hhex).2.2.1 (.inr hn))
    obtain ⟨high, low, rfl⟩ := List.length_eq_two.mp hlen
    exact company_heard hk (h.value.trans hvalue)
  · have hhex := hchecked.hex (by rw [hn]; decide)
    have heven := (hexOk_width hhex).1
    have hshort := hchecked.short
    have hnonempty := hchecked.nonempty
    obtain ⟨bytes, hlen, hvalue⟩ := @hexOk_octets s (s.value.length / 2) hhex (by omega)
    refine vendor_heard hk (h.value.trans hvalue) ?_ (by omega)
    rintro rfl
    simp only [List.length_nil] at hlen
    omega
  · exact protocol_heard hk h.value (hchecked.protocol hn)
  · exact absurd hk hkind

end SignatureEntry

end Hound
