import Hound.Core.ParseBle

/-!
# The advertising grammar

A payload is a list of AD structures, then zero bytes. `parse_ble` accepts
exactly the payloads of at most 31 bytes whose structures are `Advertising`, and
what it fills in is a function of that list.
-/

namespace Hound

/-! ## AD structures -/

structure Ad where
  type : UInt8
  value : Bytes
  deriving DecidableEq, Repr

namespace Ad

/-- A length byte, the type, and the value; the length counts the type. -/
def bytes (ad : Ad) : Bytes := UInt8.ofNat (ad.value.length + 1) :: ad.type :: ad.value

/-- The lengths a value of each type may have. -/
def sized (ad : Ad) : Bool :=
  if ad.type == 2 || ad.type == 3 then ad.value.length % 2 == 0
  else if ad.type == 6 || ad.type == 7 then ad.value.length % 16 == 0
  else if ad.type == 0x21 then decide (16 ≤ ad.value.length)
  else if ad.type == 0xff || ad.type == 0x16 then decide (2 ≤ ad.value.length)
  else true

/-- Little-endian 16-bit words. -/
def words : Bytes → List UInt16
  | low :: high :: rest => (low.toUInt16 ||| high.toUInt16 <<< 8) :: words rest
  | _ => []

/-- Runs of 16 bytes, each one reversed. -/
def blocks : Nat → Bytes → List Bytes
  | 0, _ => []
  | fuel + 1, v => if 16 ≤ v.length then (v.take 16).reverse :: blocks fuel (v.drop 16) else []

/-- The 16-bit UUIDs of a list, or the one service data begins with. -/
def uuids16 (ad : Ad) : List UInt16 :=
  if ad.type == 2 || ad.type == 3 then words ad.value
  else if ad.type == 0x16 then words (ad.value.take 2)
  else []

/-- The 128-bit UUIDs of a list, or the one service data begins with. -/
def uuids128 (ad : Ad) : List Bytes :=
  if ad.type == 6 || ad.type == 7 then blocks ad.value.length ad.value
  else if ad.type == 0x21 then [(ad.value.take 16).reverse]
  else []

end Ad

/-- The values of the structures of one type, in order. -/
def valuesOf (type : UInt8) (ads : List Ad) : List Bytes := (ads.filter (·.type == type)).map Ad.value

/-- The payload's structures before the zero bytes at its end. -/
structure Advertising (ads : List Ad) : Prop where
  sized : ∀ ad ∈ ads, ad.sized = true
  manufacturer : (valuesOf 0xff ads).length ≤ 1
  service : (valuesOf 0x16 ads).length ≤ 1

/-- The last complete name, or else the last shortened one. -/
def advertisedName (ads : List Ad) : Bytes :=
  match (valuesOf 9 ads).getLast? with
  | some v => sanitize 32 v
  | none => match (valuesOf 8 ads).getLast? with
    | some v => sanitize 32 v
    | none => []

/-- What an advertisement says, over the observation it was heard with. -/
def advertised (o : Observation) (ads : List Ad) : Observation :=
  { o with
    uuids := (ads.flatMap Ad.uuids16).take 8
    uuids128 := (ads.flatMap Ad.uuids128).take 1
    name := advertisedName ads
    manufacturer := (valuesOf 0xff ads).headD []
    service := (valuesOf 0x16 ads).headD [] }

/-- A payload with the structures `ads` and zero bytes after them. -/
structure Payload (data : Bytes) (ads : List Ad) : Prop where
  short : data.length ≤ 31
  split : ∃ zeros, data = ads.flatMap Ad.bytes ++ List.replicate zeros 0
  advertising : Advertising ads

/-! ## One structure -/

section Structure

variable (o : Observation)

/-- The state of the loop after the structures `ads`. -/
def Advert.of (ads : List Ad) : Advert :=
  { o := advertised o ads, fullName := ads.any (·.type == 9) }

def Advert.withUuids (a : Advert) (us : List UInt16) : Advert := { a with o := { a.o with uuids := us } }

theorem uuids16_cons (a : Advert) (low high : UInt8) (rest : Bytes) :
    a.uuids16 (low :: high :: rest) =
      (a.withUuids (if a.o.uuids.length < 8 then
        a.o.uuids ++ [low.toUInt16 ||| high.toUInt16 <<< 8] else a.o.uuids)).uuids16 rest := by
  rw [Advert.uuids16]
  split <;> rfl

/-- A list of UUIDs adds as many as the array has room for. -/
theorem uuids16_eq (a : Advert) (v : Bytes) :
    a.uuids16 v = a.withUuids (a.o.uuids ++ (Ad.words v).take (8 - a.o.uuids.length)) := by
  induction v using Ad.words.induct generalizing a with
  | case1 low high rest ih =>
    rw [uuids16_cons, ih, Ad.words]
    by_cases hroom : a.o.uuids.length < 8
    · have htake : 8 - a.o.uuids.length = (8 - (a.o.uuids.length + 1)) + 1 := by omega
      rw [if_pos hroom, htake, List.take_succ_cons]
      simp [Advert.withUuids]
    · have hfull : 8 - a.o.uuids.length = 0 := by omega
      rw [if_neg hroom, hfull]
      simp [Advert.withUuids, hfull]
  | case2 v hshort =>
    have hwords : Ad.words v = [] := by
      unfold Ad.words
      split
      · exact (hshort _ _ _ rfl).elim
      · rfl
    have hsame : a.uuids16 v = a := by
      unfold Advert.uuids16
      split
      · exact (hshort _ _ _ rfl).elim
      · rfl
    rw [hsame, hwords, List.take_nil, List.append_nil]
    rfl

/-- A full or nearly full array, after more UUIDs. -/
theorem take_append_take {α : Type} (n : Nat) (us vs : List α) :
    us.take n ++ vs.take (n - (us.take n).length) = (us ++ vs).take n := by
  rw [List.take_append, List.length_take]
  congr 2
  omega

theorem valuesOf_append (type : UInt8) (seen : List Ad) (ad : Ad) :
    valuesOf type (seen ++ [ad]) =
      valuesOf type seen ++ if ad.type == type then [ad.value] else [] := by
  unfold valuesOf
  rw [List.filter_append, List.map_append]
  by_cases h : (ad.type == type) = true
  · simp [h]
  · simp [h]

theorem valuesOf_eq_nil {type : UInt8} {ads : List Ad} :
    valuesOf type ads = [] ↔ ads.any (·.type == type) = false := by
  simp [valuesOf, List.filter_eq_nil_iff]

/-- A complete name replaces any other, a shortened one no complete name. -/
theorem advertisedName_append (seen : List Ad) (ad : Ad) :
    advertisedName (seen ++ [ad]) =
      if ad.type == 9 || (ad.type == 8 && !seen.any (·.type == 9)) then sanitize 32 ad.value
      else advertisedName seen := by
  unfold advertisedName
  rw [valuesOf_append, valuesOf_append]
  by_cases h9 : ad.type = 9
  · have h8 : (ad.type == 8) = false := by rw [h9]; decide
    simp [h9]
  · have hno9 : (ad.type == 9) = false := by simpa using h9
    rw [hno9, if_neg Bool.false_ne_true, List.append_nil]
    cases hfull : (valuesOf 9 seen).getLast? with
    | some v =>
      have hany : seen.any (·.type == 9) = true := by
        by_contra hnot
        have hnil : valuesOf 9 seen = [] := valuesOf_eq_nil.mpr (by simpa using hnot)
        rw [hnil] at hfull
        cases hfull
      simp [hany]
    | none =>
      have hany : seen.any (·.type == 9) = false :=
        valuesOf_eq_nil.mp (List.getLast?_eq_none_iff.mp hfull)
      by_cases h8 : ad.type = 8
      · simp [h8, hany]
      · have hno8 : (ad.type == 8) = false := by simpa using h8
        simp [hno8]

theorem any_append (seen : List Ad) (ad : Ad) (type : UInt8) :
    (seen ++ [ad]).any (·.type == type) = (seen.any (·.type == type) || ad.type == type) := by
  simp

theorem of_append (seen : List Ad) (ad : Ad) :
    Advert.of o (seen ++ [ad]) = {
      o := { o with
        uuids := ((seen.flatMap Ad.uuids16) ++ ad.uuids16).take 8
        uuids128 := ((seen.flatMap Ad.uuids128) ++ ad.uuids128).take 1
        name := if ad.type == 9 || (ad.type == 8 && !seen.any (·.type == 9)) then
          sanitize 32 ad.value else advertisedName seen
        manufacturer := (valuesOf 0xff seen ++ if ad.type == 0xff then [ad.value] else []).headD []
        service := (valuesOf 0x16 seen ++ if ad.type == 0x16 then [ad.value] else []).headD [] }
      fullName := seen.any (·.type == 9) || ad.type == 9 } := by
  unfold Advert.of advertised
  rw [advertisedName_append, valuesOf_append, valuesOf_append, any_append, List.flatMap_append,
    List.flatMap_append, List.flatMap_singleton, List.flatMap_singleton]

def Advert.withUuids128 (a : Advert) (us : List Bytes) : Advert :=
  { a with o := { a.o with uuids128 := us } }

/-- At most one 128-bit UUID is kept: the first. -/
theorem uuid128_eq (a : Advert) (v : Bytes) (us : List Bytes)
    (hus : us.head? = if 16 ≤ v.length then some (v.take 16).reverse else none)
    (hkept : a.o.uuids128.length ≤ 1) :
    a.uuid128 v = a.withUuids128 ((a.o.uuids128 ++ us).take 1) := by
  unfold Advert.uuid128
  cases hold : a.o.uuids128 with
  | cons u rest =>
    rw [hold] at hkept
    obtain rfl : rest = [] := by simpa using hkept
    have hsame : ([u] ++ us).take 1 = a.o.uuids128 := by rw [hold]; rfl
    rw [hsame]
    rfl
  | nil =>
    by_cases hlong : 16 ≤ v.length
    · rw [if_pos hlong] at hus
      have htake : ([] ++ us).take 1 = [(v.take 16).reverse] := by
        cases us with
        | nil => cases hus
        | cons u us =>
          obtain rfl : u = (v.take 16).reverse := by simpa using hus
          rfl
      rw [htake, decide_eq_true hlong]
      rfl
    · rw [if_neg hlong] at hus
      obtain rfl : us = [] := List.head?_eq_none_iff.mp hus
      have hsame : ([] ++ [] : List Bytes).take 1 = a.o.uuids128 := by rw [hold]; rfl
      rw [decide_eq_false hlong, hsame]
      rfl

theorem head_blocks (v : Bytes) :
    (Ad.blocks v.length v).head? = if 16 ≤ v.length then some (v.take 16).reverse else none := by
  cases hlen : v.length with
  | zero => rfl
  | succ n =>
    unfold Ad.blocks
    rw [hlen]
    split <;> rfl

theorem kept16 (seen : List Ad) (v : Bytes) :
    (Advert.of o seen).uuids16 v = (Advert.of o seen).withUuids
      ((seen.flatMap Ad.uuids16 ++ Ad.words v).take 8) := by
  rw [uuids16_eq, ← take_append_take]
  rfl

theorem kept128 (seen : List Ad) (v : Bytes) (us : List Bytes)
    (hus : us.head? = if 16 ≤ v.length then some (v.take 16).reverse else none) :
    (Advert.of o seen).uuid128 v = (Advert.of o seen).withUuids128
      ((seen.flatMap Ad.uuids128 ++ us).take 1) := by
  have hone : (Advert.of o seen).o.uuids128.length ≤ 1 := by
    change ((seen.flatMap Ad.uuids128).take 1).length ≤ 1
    rw [List.length_take]
    omega
  rw [uuid128_eq _ _ us hus hone]
  congr 1
  change (((seen.flatMap Ad.uuids128).take 1) ++ us).take 1 = _
  cases seen.flatMap Ad.uuids128 with
  | nil => rfl
  | cons u rest => rfl

/-- A structure that keeps the grammar is read into the state of the longer list. -/
theorem structure_some {seen : List Ad} {ad : Ad} (h : Advertising (seen ++ [ad])) :
    (Advert.of o seen).structure ad.type ad.value = some (Advert.of o (seen ++ [ad])) := by
  have hsized := h.sized ad (by simp)
  have hman := h.manufacturer
  have hser := h.service
  rw [valuesOf_append] at hman hser
  rw [of_append]
  obtain ⟨type, v⟩ := ad
  by_cases hlist : type = 2 ∨ type = 3
  · have heven : v.length % 2 = 0 := by
      rcases hlist with rfl | rfl <;> simpa [Ad.sized] using hsized
    have hread : (Advert.of o seen).structure type v = some ((Advert.of o seen).uuids16 v) := by
      rcases hlist with rfl | rfl <;> simp [Advert.structure, heven]
    rw [hread, kept16]
    rcases hlist with rfl | rfl <;>
      simp [Advert.of, Advert.withUuids, advertised, Ad.uuids16, Ad.uuids128]
  by_cases hlong : type = 6 ∨ type = 7
  · have hwhole : v.length % 16 = 0 := by
      rcases hlong with rfl | rfl <;> simpa [Ad.sized] using hsized
    have hread : (Advert.of o seen).structure type v = some ((Advert.of o seen).uuid128 v) := by
      rcases hlong with rfl | rfl <;> simp [Advert.structure, hwhole]
    rw [hread, kept128 o seen v _ (head_blocks v)]
    rcases hlong with rfl | rfl <;>
      simp [Advert.of, Advert.withUuids128, advertised, Ad.uuids16, Ad.uuids128]
  by_cases hservice : type = 0x21
  · subst hservice
    have hsixteen : 16 ≤ v.length := by simpa [Ad.sized] using hsized
    have hread : (Advert.of o seen).structure 0x21 v = some ((Advert.of o seen).uuid128 v) := by
      simp [Advert.structure, hsixteen]
    rw [hread, kept128 o seen v [(v.take 16).reverse] (by simp [hsixteen])]
    simp [Advert.of, Advert.withUuids128, advertised, Ad.uuids16, Ad.uuids128]
  by_cases hfull : type = 9
  · subst hfull
    simp [Advert.structure, Advert.of, advertised, Ad.uuids16, Ad.uuids128]
  by_cases hshort : type = 8
  · subst hshort
    cases hany : seen.any (·.type == 9) <;>
      simp [Advert.structure, Advert.of, advertised, Ad.uuids16, Ad.uuids128, hany]
  by_cases hmanufacturer : type = 0xff
  · subst hmanufacturer
    have htwo : 2 ≤ v.length := by simpa [Ad.sized] using hsized
    have hnone : valuesOf 0xff seen = [] := by
      simp only [beq_self_eq_true, if_true, List.length_append, List.length_singleton] at hman
      exact List.length_eq_zero_iff.mp (by omega)
    have hsize : ¬ v.length < 2 := by omega
    simp [Advert.structure, Advert.of, advertised, Ad.uuids16, Ad.uuids128, hnone, hsize]
  by_cases hdata : type = 0x16
  · subst hdata
    have htwo : 2 ≤ v.length := by simpa [Ad.sized] using hsized
    have hnone : valuesOf 0x16 seen = [] := by
      simp only [beq_self_eq_true, if_true, List.length_append, List.length_singleton] at hser
      exact List.length_eq_zero_iff.mp (by omega)
    have hempty : (Advert.of o seen).o.service = [] := by
      simp [Advert.of, advertised, hnone]
    have hsize : ¬ v.length < 2 := by omega
    have hread : (Advert.of o seen).structure 0x16 v =
        some (({ Advert.of o seen with
          o := { (Advert.of o seen).o with service := v } } : Advert).uuids16 (v.take 2)) := by
      simp [Advert.structure, hempty, hsize]
    have hkept := take_append_take 8 (seen.flatMap Ad.uuids16) (Ad.words (v.take 2))
    rw [hread, uuids16_eq]
    simp only [Advert.withUuids, Advert.of, advertised, hkept]
    simp [Ad.uuids16, Ad.uuids128, hnone]
  simp only [not_or] at hlist hlong
  simp [Advert.structure, Advert.of, advertised, Ad.uuids16, Ad.uuids128, hlist, hlong, hservice,
    hfull, hshort, hmanufacturer, hdata]

/-- Nothing of a type whose values are never empty was kept, so there was none. -/
theorem valuesOf_of_headD {seen : List Ad} (h : Advertising seen) {type : UInt8}
    (htype : type = 0xff ∨ type = 0x16) (hempty : (valuesOf type seen).headD [] = []) :
    valuesOf type seen = [] := by
  cases hvalues : valuesOf type seen with
  | nil => rfl
  | cons v rest =>
    rw [hvalues] at hempty
    obtain rfl : v = [] := hempty
    have hmem : ([] : Bytes) ∈ valuesOf type seen := by
      rw [hvalues]
      exact List.mem_cons_self
    obtain ⟨ad, had, hvalue⟩ := List.mem_map.mp hmem
    obtain ⟨hin, hkind⟩ := List.mem_filter.mp had
    have hsized := h.sized ad hin
    have hkind' : ad.type = type := by simpa using hkind
    rcases htype with rfl | rfl <;> simp [Ad.sized, hkind', hvalue] at hsized

/-- A structure the loop takes keeps the grammar. -/
theorem structure_sound {seen : List Ad} (h : Advertising seen) {ad : Ad} {a : Advert}
    (hread : (Advert.of o seen).structure ad.type ad.value = some a) :
    Advertising (seen ++ [ad]) := by
  obtain ⟨type, v⟩ := ad
  have hman : (Advert.of o seen).o.manufacturer = (valuesOf 0xff seen).headD [] := rfl
  have hser : (Advert.of o seen).o.service = (valuesOf 0x16 seen).headD [] := rfl
  have hlast : Ad.sized ⟨type, v⟩ = true ∧ (type = 0xff → valuesOf 0xff seen = []) ∧
      (type = 0x16 → valuesOf 0x16 seen = []) := by
    by_cases hlist : type = 2 ∨ type = 3
    · have heven : v.length % 2 = 0 := by
        by_contra hodd
        rcases hlist with rfl | rfl <;> simp [Advert.structure, hodd] at hread
      rcases hlist with rfl | rfl <;> simp [Ad.sized, heven]
    by_cases hlong : type = 6 ∨ type = 7
    · have hwhole : v.length % 16 = 0 := by
        by_contra hrest
        rcases hlong with rfl | rfl <;> simp [Advert.structure, hrest] at hread
      rcases hlong with rfl | rfl <;> simp [Ad.sized, hwhole]
    by_cases hservice : type = 0x21
    · subst hservice
      have hsixteen : 16 ≤ v.length := by
        by_contra hfew
        simp [Advert.structure, Nat.lt_of_not_le hfew] at hread
      simp [Ad.sized, hsixteen]
    by_cases hmanufacturer : type = 0xff
    · subst hmanufacturer
      have hboth : 1 < v.length ∧ (Advert.of o seen).o.manufacturer = [] := by
        simp [Advert.structure] at hread
        exact hread.1
      rw [hman] at hboth
      have htwo : 2 ≤ v.length := by omega
      exact ⟨by simp [Ad.sized, htwo], fun _ => valuesOf_of_headD h (.inl rfl) hboth.2,
        fun hother => absurd hother (by decide)⟩
    by_cases hdata : type = 0x16
    · subst hdata
      have hboth : 1 < v.length ∧ (Advert.of o seen).o.service = [] := by
        simp [Advert.structure] at hread
        exact hread.1
      rw [hser] at hboth
      have htwo : 2 ≤ v.length := by omega
      exact ⟨by simp [Ad.sized, htwo], fun hother => absurd hother (by decide),
        fun _ => valuesOf_of_headD h (.inr rfl) hboth.2⟩
    simp only [not_or] at hlist hlong
    exact ⟨by simp [Ad.sized, hlist, hlong, hservice, hmanufacturer, hdata],
      fun hother => absurd hother hmanufacturer, fun hother => absurd hother hdata⟩
  obtain ⟨hsized, honeman, honeser⟩ := hlast
  constructor
  · intro ad' hmem
    rcases List.mem_append.mp hmem with hold | hnew
    · exact h.sized ad' hold
    · obtain rfl : ad' = ⟨type, v⟩ := by simpa using hnew
      exact hsized
  · rw [valuesOf_append]
    by_cases htype : type = 0xff
    · simp [honeman htype, htype]
    · simpa [htype] using h.manufacturer
  · rw [valuesOf_append]
    by_cases htype : type = 0x16
    · simp [honeser htype, htype]
    · simpa [htype] using h.service

/-! ## The loop -/

theorem advertising_front {seen more : List Ad} (h : Advertising (seen ++ more)) : Advertising seen := by
  have hman := h.manufacturer
  have hser := h.service
  simp only [valuesOf, List.filter_append, List.map_append, List.length_append] at hman hser
  refine ⟨fun ad had => h.sized ad (List.mem_append_left _ had), ?_, ?_⟩
  · unfold valuesOf
    omega
  · unfold valuesOf
    omega

theorem advertising_nil : Advertising [] := ⟨fun _ h => absurd h List.not_mem_nil, by decide, by decide⟩

theorem all_zero {rest : Bytes} (h : rest.all (· == 0) = true) :
    rest = List.replicate rest.length 0 := by
  rw [List.eq_replicate_iff]
  refine ⟨rfl, fun b hb => ?_⟩
  simpa using List.all_eq_true.mp h b hb

theorem read_sound {fuel : Nat} {data : Bytes} {seen : List Ad} {a : Advert} (h : Advertising seen)
    (hread : Advert.read fuel (Advert.of o seen) data = some a) :
    ∃ ads zeros, data = ads.flatMap Ad.bytes ++ List.replicate zeros 0 ∧
      Advertising (seen ++ ads) ∧ a = Advert.of o (seen ++ ads) := by
  induction fuel generalizing data seen with
  | zero =>
    cases data with
    | nil =>
      obtain rfl : Advert.of o seen = a := by simpa [Advert.read] using hread
      exact ⟨[], 0, rfl, by simpa using h, by simp⟩
    | cons n rest => simp [Advert.read] at hread
  | succ fuel ih =>
    cases data with
    | nil =>
      obtain rfl : Advert.of o seen = a := by simpa [Advert.read] using hread
      exact ⟨[], 0, rfl, by simpa using h, by simp⟩
    | cons n rest =>
      unfold Advert.read at hread
      split at hread
      · rename_i hn
        split at hread
        · rename_i hzeros
          obtain rfl : Advert.of o seen = a := by simpa using hread
          obtain rfl : n = 0 := by simpa using hn
          refine ⟨[], rest.length + 1, ?_, by simpa using h, by simp⟩
          rw [List.flatMap_nil, List.nil_append, List.replicate_succ, ← all_zero hzeros]
        · simp at hread
      · rename_i hn
        split at hread
        · simp at hread
        · rename_i hlong
          have hpos : 0 < n.toNat := by
            have hne : n ≠ 0 := by simpa using hn
            have : n.toNat ≠ 0 := fun h0 => hne (UInt8.toNat_inj.mp h0)
            omega
          cases rest with
          | nil =>
            simp only [List.length_nil] at hlong
            omega
          | cons type rest =>
            simp only [List.length_cons] at hlong
            have hvalue : ((type :: rest).drop 1).take (n.toNat - 1) = rest.take (n.toNat - 1) := rfl
            rw [hvalue] at hread
            have htype : byteAt (type :: rest) 0 = type := rfl
            rw [htype] at hread
            split at hread
            · simp at hread
            · rename_i a₁ hstructure
              have hnext := @structure_sound o seen h ⟨type, rest.take (n.toNat - 1)⟩ _ hstructure
              have hstate := structure_some o hnext
              rw [hstructure] at hstate
              obtain rfl : a₁ = Advert.of o (seen ++ [⟨type, rest.take (n.toNat - 1)⟩]) := by
                simpa using hstate
              obtain ⟨ads, zeros, hdata, hads, rfl⟩ := ih hnext hread
              refine ⟨⟨type, rest.take (n.toNat - 1)⟩ :: ads, zeros, ?_, by simpa using hads, by simp⟩
              have hlen : (rest.take (n.toNat - 1)).length = n.toNat - 1 := by
                rw [List.length_take]
                omega
              have hback : UInt8.ofNat ((rest.take (n.toNat - 1)).length + 1) = n := by
                rw [hlen, Nat.sub_add_cancel hpos, UInt8.ofNat_toNat]
              have hdrop : (type :: rest).drop n.toNat = rest.drop (n.toNat - 1) := by
                obtain ⟨m, hm⟩ : ∃ m, n.toNat = m + 1 := ⟨n.toNat - 1, by omega⟩
                rw [hm]
                rfl
              rw [hdrop] at hdata
              rw [List.flatMap_cons, List.append_assoc, ← hdata]
              simp only [Ad.bytes, hback, List.cons_append, List.take_append_drop]

theorem read_complete {ads : List Ad} {zeros fuel : Nat} {seen : List Ad}
    (h : Advertising (seen ++ ads)) (hsmall : ∀ ad ∈ ads, ad.value.length < 255)
    (hfuel : (ads.flatMap Ad.bytes ++ List.replicate zeros 0).length ≤ fuel) :
    Advert.read fuel (Advert.of o seen) (ads.flatMap Ad.bytes ++ List.replicate zeros 0) =
      some (Advert.of o (seen ++ ads)) := by
  induction ads generalizing fuel seen with
  | nil =>
    cases zeros with
    | zero => simp [Advert.read]
    | succ zeros =>
      obtain ⟨fuel, rfl⟩ : ∃ n, fuel = n + 1 := ⟨fuel - 1, by simp at hfuel; omega⟩
      simp [Advert.read, List.replicate_succ]
  | cons ad ads ih =>
    have hone : Advertising (seen ++ [ad]) := @advertising_front _ ads (by simpa using h)
    have hlt := hsmall ad List.mem_cons_self
    have hn : (UInt8.ofNat (ad.value.length + 1)).toNat = ad.value.length + 1 := by
      rw [UInt8.toNat_ofNat']
      omega
    have hne : (UInt8.ofNat (ad.value.length + 1) == 0) = false := by
      rw [beq_eq_false_iff_ne]
      intro h0
      rw [h0] at hn
      simp at hn
    have hbytes : (ad :: ads).flatMap Ad.bytes ++ List.replicate zeros 0 =
        UInt8.ofNat (ad.value.length + 1) :: ad.type :: (ad.value ++
          (ads.flatMap Ad.bytes ++ List.replicate zeros 0)) := by
      simp [Ad.bytes]
    have htail := fun fuel hfuel => @ih fuel (seen ++ [ad]) (by simpa using h)
      (fun ad' had => hsmall ad' (List.mem_cons_of_mem _ had)) hfuel
    rw [hbytes] at hfuel ⊢
    generalize ads.flatMap Ad.bytes ++ List.replicate zeros 0 = tail at hfuel htail ⊢
    simp only [List.length_cons, List.length_append] at hfuel
    obtain ⟨fuel, rfl⟩ : ∃ n, fuel = n + 1 := ⟨fuel - 1, by omega⟩
    have hroom : ¬ (ad.type :: (ad.value ++ tail)).length < ad.value.length + 1 := by
      simp only [List.length_cons, List.length_append]
      omega
    have hvalue : ((ad.type :: (ad.value ++ tail)).drop 1).take (ad.value.length + 1 - 1) =
        ad.value := by
      simp
    have htype : byteAt (ad.type :: (ad.value ++ tail)) 0 = ad.type := rfl
    have hdrop : (ad.type :: (ad.value ++ tail)).drop (ad.value.length + 1) = tail := by
      rw [List.drop_succ_cons, List.drop_left]
    have hrest := htail fuel (by omega)
    unfold Advert.read
    rw [hn, hne, if_neg Bool.false_ne_true, if_neg hroom, hvalue, htype, structure_some o hone, hdrop]
    simpa using hrest

end Structure

/-! ## Whole payloads -/

/-- The observation `parse_ble` starts from. -/
def bleBase (output : Observation) : Observation :=
  { ms := output.ms, rssi := output.rssi, address := output.address,
    addressType := output.addressType, radio := .Ble }

/-- What `parse_ble` makes of an advertisement. -/
def heard (output : Observation) (ads : List Ad) : Observation :=
  { advertised (bleBase output) ads with
    samsung := (parseSamsungTag ((valuesOf 0x16 ads).headD [])).getD {} }

theorem of_nil (output : Observation) : Advert.of (bleBase output) [] = { o := bleBase output } := rfl

theorem value_small {data : Bytes} {ads : List Ad} (h : Payload data ads) :
    ∀ ad ∈ ads, ad.value.length < 255 := by
  intro ad had
  obtain ⟨zeros, hdata⟩ := h.split
  have hshort := h.short
  have hone : ad.bytes.length ≤ (ads.flatMap Ad.bytes).length :=
    (List.sublist_flatten_of_mem (List.mem_map_of_mem had)).length_le
  rw [hdata, List.length_append] at hshort
  simp only [Ad.bytes, List.length_cons] at hone
  omega

theorem parseBle_eq_some {data : Bytes} {output o : Observation} :
    parseBle data output = some o ↔ ∃ ads, Payload data ads ∧ o = heard output ads := by
  unfold parseBle
  constructor
  · intro h
    split at h
    · simp at h
    · rename_i hshort
      obtain ⟨a, hread, rfl⟩ := Option.map_eq_some_iff.mp h
      have hstart : Advert.read data.length (Advert.of (bleBase output) []) data = some a := hread
      obtain ⟨ads, zeros, hdata, hads, rfl⟩ := read_sound (bleBase output) advertising_nil hstart
      exact ⟨ads, ⟨by omega, ⟨zeros, hdata⟩, hads⟩, rfl⟩
  · rintro ⟨ads, hpayload, rfl⟩
    have hsmall := value_small hpayload
    obtain ⟨zeros, hdata⟩ := hpayload.split
    have hread := @read_complete (bleBase output) ads zeros data.length [] hpayload.advertising
      hsmall (by rw [hdata])
    have hshort := hpayload.short
    rw [if_neg (by omega)]
    rw [← hdata, of_nil] at hread
    refine Option.map_eq_some_iff.mpr ⟨_, hread, rfl⟩

theorem samsungState_available (header : UInt8) : samsungState header ≠ .Unavailable := by
  unfold samsungState
  split <;> decide

/-- The tag is valid exactly when the service data is a finding advertisement. -/
theorem samsung_valid (service : Bytes) :
    ((parseSamsungTag service).getD {}).valid = (parseSamsungTag service).isSome := by
  cases htag : parseSamsungTag service with
  | none => rfl
  | some tag =>
    have hstate : tag.state ≠ .Unavailable := by
      unfold parseSamsungTag at htag
      split at htag
      · cases htag
      · simp only [Option.ite_none_left_eq_some, Option.some.injEq] at htag
        obtain ⟨-, rfl⟩ := htag
        exact samsungState_available _
    simpa [SamsungTag.valid] using hstate

end Hound
