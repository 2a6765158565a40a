import Hound.Core.BleGrammar

/-!
# Which UUIDs a rule sees

A `Uuid16` or `Uuid128` rule against the observation of a payload. The array of
16-bit UUIDs holds eight, a payload may carry up to fourteen; of 128-bit UUIDs
a payload carries at most the one the array holds.
-/

namespace Hound

/-! ## Hexadecimal values -/

def hexDigitOf (n : Nat) : UInt8 := if n < 10 then (48 + n).toUInt8 else (55 + n).toUInt8

/-- The uppercase digits of `bytes`, two an octet. -/
def hexOf (bytes : Bytes) : Bytes :=
  bytes.flatMap fun b => [hexDigitOf (b.toNat / 16), hexDigitOf (b.toNat % 16)]

theorem hex_hexDigitOf {n : Nat} (h : n < 16) : hex (hexDigitOf n) = some n := by
  interval_cases n <;> decide

theorem hexDigitOf_hex {c : UInt8} {n : Nat} (h : hex c = some n) : c = hexDigitOf n ∧ n < 16 := by
  unfold hex at h
  split at h
  · rename_i hrange
    simp only [Bool.and_eq_true, decide_eq_true_eq, UInt8.le_iff_toNat_le] at hrange
    obtain ⟨hlow, hhigh⟩ : 48 ≤ c.toNat ∧ c.toNat ≤ 57 := hrange
    obtain rfl : c.toNat - 48 = n := by simpa using h
    refine ⟨UInt8.toNat_inj.mp ?_, by omega⟩
    rw [hexDigitOf, if_pos (by omega)]
    simp only [Nat.toUInt8_eq, UInt8.toNat_ofNat']
    omega
  · split at h
    · rename_i hrange
      simp only [Bool.and_eq_true, decide_eq_true_eq, UInt8.le_iff_toNat_le] at hrange
      obtain ⟨hlow, hhigh⟩ : 65 ≤ c.toNat ∧ c.toNat ≤ 70 := hrange
      obtain rfl : c.toNat - 65 + 10 = n := by simpa using h
      refine ⟨UInt8.toNat_inj.mp ?_, by omega⟩
      rw [hexDigitOf, if_neg (by omega)]
      simp only [Nat.toUInt8_eq, UInt8.toNat_ofNat']
      omega
    · cases h

/-- A value of full length matches the octets it spells, and only those. -/
theorem hexDigits_iff {v data : Bytes} (hlen : v.length = 2 * data.length) :
    hexDigits v data = true ↔ v = hexOf data := by
  induction data generalizing v with
  | nil =>
    obtain rfl : v = [] := List.length_eq_zero_iff.mp hlen
    simp [hexDigits, hexOf]
  | cons byte data ih =>
    simp only [List.length_cons] at hlen
    obtain ⟨a, v, rfl⟩ := List.exists_cons_of_length_pos (l := v) (by omega)
    simp only [List.length_cons] at hlen
    obtain ⟨b, v, rfl⟩ := List.exists_cons_of_length_pos (l := v) (by omega)
    simp only [List.length_cons] at hlen
    have hrest := ih (v := v) (by omega)
    have hbyte := byte.toNat_lt
    unfold hexDigits
    constructor
    · intro h
      split at h
      · rename_i x y hx hy
        rw [Bool.and_eq_true, hrest] at h
        obtain ⟨hvalue, htail⟩ := h
        obtain ⟨rfl, hx'⟩ := hexDigitOf_hex hx
        obtain ⟨rfl, hy'⟩ := hexDigitOf_hex hy
        have hsum : byte.toNat = x * 16 + y := by simpa using hvalue
        have hdiv : byte.toNat / 16 = x := by omega
        have hmod : byte.toNat % 16 = y := by omega
        simp [hexOf, hdiv, hmod, htail]
      · cases h
    · intro h
      simp only [hexOf, List.flatMap_cons, List.cons_append, List.nil_append, List.cons.injEq] at h
      obtain ⟨rfl, rfl, htail⟩ := h
      rw [hex_hexDigitOf (by omega), hex_hexDigitOf (by omega)]
      have hvalue : byte.toNat = byte.toNat / 16 * 16 + byte.toNat % 16 := by omega
      simp only [Bool.and_eq_true, beq_iff_eq]
      exact ⟨hvalue, hrest.mpr htail⟩

theorem length_hexOf (bytes : Bytes) : (hexOf bytes).length = 2 * bytes.length := by
  induction bytes with
  | nil => rfl
  | cons b bytes ih =>
    simp only [hexOf, List.flatMap_cons, List.length_append, List.length_cons, List.length_nil]
      at ih ⊢
    omega

theorem hexPrefix_iff {v data : Bytes} (hlen : v.length = 2 * data.length) (hdata : data ≠ []) :
    hexPrefix v data = true ↔ v = hexOf data := by
  have hpos : 0 < data.length := List.length_pos_iff.mpr hdata
  have hempty : v.isEmpty = false := by
    cases v with
    | nil => simp only [List.length_nil] at hlen; omega
    | cons c v => rfl
  have heven : (v.length % 2 != 0) = false := by
    rw [bne_eq_false_iff_eq]
    omega
  unfold hexPrefix
  rw [hempty, heven, decide_eq_false (by omega)]
  exact hexDigits_iff hlen

/-! ## UUIDs in a payload -/

theorem length_blocks (fuel : Nat) (v : Bytes) :
    16 * (Ad.blocks fuel v).length ≤ v.length ∧ ∀ u ∈ Ad.blocks fuel v, u.length = 16 := by
  induction fuel generalizing v with
  | zero => simp [Ad.blocks]
  | succ fuel ih =>
    unfold Ad.blocks
    split
    · rename_i hlong
      obtain ⟨hlen, hblocks⟩ := ih (v.drop 16)
      simp only [List.length_cons, List.length_drop] at hlen ⊢
      refine ⟨by omega, fun u hu => ?_⟩
      rcases List.mem_cons.mp hu with rfl | hu
      · rw [List.length_reverse, List.length_take]
        omega
      · exact hblocks u hu
    · simp

/-- A structure's 128-bit UUIDs fill 16 bytes each. -/
theorem length_uuids128 {ad : Ad} (h : ad.sized = true) :
    16 * ad.uuids128.length ≤ ad.value.length ∧ ∀ u ∈ ad.uuids128, u.length = 16 := by
  unfold Ad.uuids128
  split
  · exact length_blocks _ _
  · rename_i hlist
    split
    · rename_i htype
      have hsixteen : 16 ≤ ad.value.length := by
        have hone : ad.type = 0x21 := by simpa using htype
        simpa [Ad.sized, hone] using h
      refine ⟨by simpa using hsixteen, fun u hu => ?_⟩
      obtain rfl : u = (ad.value.take 16).reverse := by simpa using hu
      rw [List.length_reverse, List.length_take]
      omega
    · simp

theorem length_all128 {ads : List Ad} (h : ∀ ad ∈ ads, ad.sized = true) :
    16 * (ads.flatMap Ad.uuids128).length ≤ (ads.flatMap Ad.bytes).length := by
  induction ads with
  | nil => simp
  | cons ad ads ih =>
    have hone := (length_uuids128 (h ad List.mem_cons_self)).1
    have hrest := ih fun ad' had => h ad' (List.mem_cons_of_mem _ had)
    simp only [List.flatMap_cons, List.length_append, Ad.bytes, List.length_cons]
    omega

/-- A payload has no room for a second 128-bit UUID. -/
theorem one_uuid128 {data : Bytes} {ads : List Ad} (h : Payload data ads) :
    (ads.flatMap Ad.uuids128).take 1 = ads.flatMap Ad.uuids128 := by
  obtain ⟨zeros, hdata⟩ := h.split
  have hshort := h.short
  have hall := length_all128 h.advertising.sized
  rw [hdata, List.length_append] at hshort
  exact List.take_of_length_le (by omega)

/-! ## Rules -/

theorem matches_uuid16 {r : Rule} {o : Observation} (hkind : r.kind = .Uuid16) (hradio : o.radio = .Ble) :
    ruleMatches r o = true ↔ ∃ u ∈ o.uuids, r.value = hexOf (bigEndian u) := by
  have hdef : ruleMatches r o =
      (r.value.length == 4 && o.uuids.any fun u => hexPrefix r.value (bigEndian u)) := by
    simp [ruleMatches, hkind, hradio]
  rw [hdef, Bool.and_eq_true, beq_iff_eq, List.any_eq_true]
  constructor
  · rintro ⟨hlen, u, hu, hvalue⟩
    exact ⟨u, hu, (hexPrefix_iff (by simpa [bigEndian] using hlen) (by simp [bigEndian])).mp hvalue⟩
  · rintro ⟨u, hu, hvalue⟩
    have hlen : r.value.length = 4 := by
      rw [hvalue, length_hexOf]
      rfl
    exact ⟨hlen, u, hu,
      (hexPrefix_iff (by simpa [bigEndian] using hlen) (by simp [bigEndian])).mpr hvalue⟩

theorem matches_uuid128 {r : Rule} {o : Observation} (hkind : r.kind = .Uuid128)
    (hradio : o.radio = .Ble) (hone : o.uuids128.length ≤ 1) (hsize : ∀ u ∈ o.uuids128, u.length = 16) :
    ruleMatches r o = true ↔ ∃ u ∈ o.uuids128, r.value = hexOf u := by
  have hdef : ruleMatches r o =
      (r.value.length == 32 && !o.uuids128.isEmpty && hexPrefix r.value (o.uuids128.headD [])) := by
    simp [ruleMatches, hkind, hradio]
  rw [hdef]
  cases hus : o.uuids128 with
  | nil => simp
  | cons u us =>
    rw [hus] at hone hsize
    obtain rfl : us = [] := by simpa using hone
    have hu : u.length = 16 := hsize u List.mem_cons_self
    have hne : u ≠ [] := by
      rintro rfl
      cases hu
    simp only [List.isEmpty_cons, Bool.not_false, Bool.and_true, List.headD_cons, Bool.and_eq_true,
      beq_iff_eq, List.mem_singleton, exists_eq_left]
    constructor
    · rintro ⟨hlen, hvalue⟩
      exact (hexPrefix_iff (by omega) hne).mp hvalue
    · intro hvalue
      have hlen : r.value.length = 32 := by
        rw [hvalue, length_hexOf, hu]
      exact ⟨hlen, (hexPrefix_iff (by omega) hne).mpr hvalue⟩

/-- A `Uuid16` rule sees the first eight UUIDs of a payload, a `Uuid128` rule every one. -/
theorem uuid_rules_see {data : Bytes} {output o : Observation} {ads : List Ad}
    (hpayload : Payload data ads) (hparse : parseBle data output = some o) (r : Rule) :
    (r.kind = .Uuid16 → (ruleMatches r o = true ↔
      ∃ u ∈ (ads.flatMap Ad.uuids16).take 8, r.value = hexOf (bigEndian u))) ∧
    (r.kind = .Uuid128 → (ruleMatches r o = true ↔
      ∃ u ∈ ads.flatMap Ad.uuids128, r.value = hexOf u)) := by
  have hheard : parseBle data output = some (heard output ads) :=
    parseBle_eq_some.mpr ⟨ads, hpayload, rfl⟩
  rw [hparse] at hheard
  obtain rfl : o = heard output ads := by simpa using hheard
  constructor
  · intro hkind
    exact matches_uuid16 hkind rfl
  · intro hkind
    have hone := one_uuid128 hpayload
    have hkept : (heard output ads).uuids128 = ads.flatMap Ad.uuids128 := hone
    rw [matches_uuid128 hkind rfl, hkept]
    · rw [hkept, ← hone, List.length_take]
      omega
    · intro u hu
      rw [hkept] at hu
      obtain ⟨ad, had, hin⟩ := List.mem_flatMap.mp hu
      exact (length_uuids128 (hpayload.advertising.sized ad had)).2 u hin

/-! ## A ninth UUID -/

/-- A complete list of nine 16-bit UUIDs, 0001 to 0009. -/
def nineUuids : Ad := ⟨3, [1, 0, 2, 0, 3, 0, 4, 0, 5, 0, 6, 0, 7, 0, 8, 0, 9, 0]⟩

def uuidRule (value : Bytes) : Rule :=
  { id := ascii "test.uuid", category := .RAVEN, kind := .Uuid16, value, score := 40, cap := 49,
    generic := true, label := ascii "UUID", reason := ascii "Advertises a service UUID" }

theorem payload_nineUuids : Payload nineUuids.bytes [nineUuids] where
  short := by decide
  split := ⟨0, by decide⟩
  advertising := ⟨by decide, by decide, by decide⟩

theorem uuid_rules_see_nine :
    ∃ o, parseBle nineUuids.bytes {} = some o ∧ ruleMatches (uuidRule (ascii "0008")) o = true := by
  obtain ⟨o, ho⟩ : ∃ o, parseBle nineUuids.bytes {} = some o :=
    ⟨_, parseBle_eq_some.mpr ⟨_, payload_nineUuids, rfl⟩⟩
  refine ⟨o, ho, ((uuid_rules_see payload_nineUuids ho (uuidRule (ascii "0008"))).1 rfl).mpr ?_⟩
  exact ⟨8, by decide, by decide⟩

/-- The ninth UUID is advertised and no rule sees it. -/
theorem ninth_uuid_unseen :
    ¬ ∀ (data : Bytes) (output o : Observation) (ads : List Ad) (r : Rule), Payload data ads →
      parseBle data output = some o → r.kind = .Uuid16 →
        (ruleMatches r o = true ↔ ∃ u ∈ ads.flatMap Ad.uuids16, r.value = hexOf (bigEndian u)) := by
  intro hall
  have hparse : parseBle nineUuids.bytes {} = some (heard {} [nineUuids]) :=
    parseBle_eq_some.mpr ⟨_, payload_nineUuids, rfl⟩
  have hseen := (hall _ _ _ _ (uuidRule (ascii "0009")) payload_nineUuids hparse rfl).mpr
    ⟨9, by decide, by decide⟩
  exact absurd hseen (by decide)

end Hound
