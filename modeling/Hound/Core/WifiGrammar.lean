import Hound.Core.BleGrammar
import Hound.Core.ParseWifi

/-!
# The grammar of management frames

The body of a beacon, a probe response or a probe request is a list of elements.
`parse_wifi` accepts exactly the frames whose elements keep the rules below, and
what it fills in is a function of that list.
-/

namespace Hound

/-! ## Two-byte numbers -/

theorem le16_drop {v : Bytes} {i : Nat} {low high : UInt8} {rest : Bytes}
    (h : v.drop i = low :: high :: rest) : le16 v i = low.toUInt16 ||| high.toUInt16 <<< 8 := by
  have hget : ∀ k, byteAt v (i + k) = (low :: high :: rest).getD k 0 := by
    intro k
    rw [← h, byteAt, List.getD_eq_getElem?_getD, List.getD_eq_getElem?_getD, List.getElem?_drop]
  have hlow := hget 0
  have hhigh := hget 1
  rw [Nat.add_zero] at hlow
  rw [le16, hlow, hhigh]
  rfl

theorem toNat_le16 (low high : UInt8) :
    (low.toUInt16 ||| high.toUInt16 <<< 8).toNat = low.toNat + 256 * high.toNat := by
  have hlow := low.toNat_lt
  have hhigh := high.toNat_lt
  have hshift : (high.toUInt16 <<< 8).toNat = 2 ^ 8 * high.toNat := by
    rw [UInt16.toNat_shiftLeft, UInt8.toNat_toUInt16]
    have height : UInt16.toNat 8 % 16 = 8 := rfl
    rw [height, Nat.shiftLeft_eq]
    omega
  rw [UInt16.toNat_or, UInt8.toNat_toUInt16, hshift, Nat.or_comm,
    ← Nat.two_pow_add_eq_or_of_lt (by omega)]
  omega

/-! ## Robust security bodies -/

/-- A nonzero count and that many suites of four bytes. -/
def Suites (bytes : Bytes) : Prop :=
  ∃ low high suites, bytes = low :: high :: suites ∧ suites ≠ [] ∧
    suites.length = 4 * (low.toNat + 256 * high.toNat)

/-- Version 1, the group cipher, the pairwise ciphers, the key managements, and nothing or
the capabilities and what follows them. -/
def RsnBody (v : Bytes) (caps : UInt16) : Prop :=
  ∃ cipher pairwise keys tail, v = 1 :: 0 :: (cipher ++ (pairwise ++ (keys ++ tail))) ∧
    cipher.length = 4 ∧ Suites pairwise ∧ Suites keys ∧
    (tail = [] ∧ caps = 0 ∨
      ∃ low high more, tail = low :: high :: more ∧ caps = low.toUInt16 ||| high.toUInt16 <<< 8)

theorem Suites.length_ge {bytes : Bytes} (h : Suites bytes) : 6 ≤ bytes.length := by
  obtain ⟨low, high, suites, rfl, hne, hcount⟩ := h
  have hpos : 0 < suites.length := List.length_pos_iff.mpr hne
  simp only [List.length_cons]
  omega

theorem rsnGroup_eq_some {v : Bytes} {pos pos' : Nat} :
    rsnGroup v pos = some pos' ↔
      ∃ group rest, Suites group ∧ v.drop pos = group ++ rest ∧ pos' = pos + group.length := by
  unfold rsnGroup
  constructor
  · intro h
    split at h
    · cases h
    · rename_i hlong
      have hlen : (v.drop pos).length = v.length - pos := List.length_drop
      obtain ⟨low, more, hmore⟩ := List.exists_cons_of_length_pos (l := v.drop pos) (by omega)
      rw [hmore, List.length_cons] at hlen
      obtain ⟨high, rest, rfl⟩ := List.exists_cons_of_length_pos (l := more) (by omega)
      rw [List.length_cons] at hlen
      simp only [le16_drop hmore, toNat_le16] at h
      split at h
      · cases h
      · rename_i hfits
        simp only [Bool.or_eq_true, beq_iff_eq, decide_eq_true_eq, not_or, Nat.not_lt] at hfits
        obtain ⟨hne, hroom⟩ := hfits
        obtain rfl : pos + 2 + (low.toNat + 256 * high.toNat) * 4 = pos' := by simpa using h
        have hcount : (rest.take ((low.toNat + 256 * high.toNat) * 4)).length =
            (low.toNat + 256 * high.toNat) * 4 := by
          rw [List.length_take]
          omega
        refine ⟨low :: high :: rest.take ((low.toNat + 256 * high.toNat) * 4),
          rest.drop ((low.toNat + 256 * high.toNat) * 4), ⟨low, high, _, rfl, ?_, ?_⟩, ?_, ?_⟩
        · intro hnil
          rw [hnil] at hcount
          simp only [List.length_nil] at hcount
          omega
        · omega
        · rw [hmore, List.cons_append, List.cons_append, List.take_append_drop]
        · rw [List.length_cons, List.length_cons, hcount]
          omega
  · rintro ⟨group, rest, ⟨low, high, suites, rfl, hne, hcount⟩, hdrop, rfl⟩
    have hlen := congrArg List.length hdrop
    simp only [List.length_drop, List.length_append, List.length_cons] at hlen
    have hpos : 0 < suites.length := List.length_pos_iff.mpr hne
    have hhead : v.drop pos = low :: high :: (suites ++ rest) := hdrop
    rw [if_neg (by omega)]
    simp only [le16_drop hhead, toNat_le16]
    rw [if_neg]
    · simp only [Option.some.injEq, List.length_cons]
      omega
    · simp only [Bool.or_eq_true, beq_iff_eq, decide_eq_true_eq, not_or, Nat.not_lt]
      exact ⟨by omega, by omega⟩

theorem rsnValid_eq_some {v : Bytes} {caps : UInt16} : rsnValid v = some caps ↔ RsnBody v caps := by
  unfold rsnValid
  constructor
  · intro h
    split at h
    · cases h
    · rename_i hversion
      simp only [Bool.or_eq_true, decide_eq_true_eq, bne_iff_ne, ne_eq, not_or, Nat.not_lt,
        not_not] at hversion
      obtain ⟨hlong, hone⟩ := hversion
      cases hgroups : (rsnGroup v 6).bind (rsnGroup v) with
      | none => simp [hgroups] at h
      | some pos =>
        obtain ⟨mid, hfirst, hsecond⟩ := Option.bind_eq_some_iff.mp hgroups
        obtain ⟨pairwise, rest, hpairwise, hdrop, rfl⟩ := rsnGroup_eq_some.mp hfirst
        obtain ⟨keys, tail, hkeys, hdrop', rfl⟩ := rsnGroup_eq_some.mp hsecond
        have hrest : rest = keys ++ tail := by
          rw [← hdrop', ← List.drop_drop, hdrop, List.drop_left]
        subst hrest
        obtain ⟨low, more, rfl⟩ := List.exists_cons_of_length_pos (l := v) (by omega)
        simp only [List.length_cons] at hlong
        obtain ⟨high, more, rfl⟩ := List.exists_cons_of_length_pos (l := more) (by omega)
        simp only [List.length_cons] at hlong
        have hversion : low.toNat + 256 * high.toNat = 1 := by
          have hnat := congrArg UInt16.toNat hone
          have hzero : (low :: high :: more).drop 0 = low :: high :: more := rfl
          rw [le16_drop hzero, toNat_le16] at hnat
          exact hnat
        obtain rfl : low = 1 := UInt8.toNat_inj.mp (by simp; omega)
        obtain rfl : high = 0 := UInt8.toNat_inj.mp (by simp; omega)
        have hsplit : more = more.take 4 ++ (pairwise ++ (keys ++ tail)) := by
          have hsix : more.drop 4 = pairwise ++ (keys ++ tail) := hdrop
          rw [← hsix, List.take_append_drop]
        refine ⟨more.take 4, pairwise, keys, tail, by rw [← hsplit], ?_, hpairwise, hkeys, ?_⟩
        · rw [List.length_take]
          omega
        · have htail : (1 :: 0 :: more).drop (6 + pairwise.length + keys.length) = tail := by
            rw [← List.drop_drop, hdrop', List.drop_left]
          have hlen := congrArg List.length htail
          have hwhole := congrArg List.length hdrop'
          have hsome := hkeys.length_ge
          rw [List.length_drop] at hlen hwhole
          rw [List.length_append] at hwhole
          simp only [hgroups] at h
          split at h
          · rename_i hend
            have hend' := eq_of_beq hend
            obtain rfl : 0 = caps := by simpa using h
            exact .inl ⟨List.length_eq_zero_iff.mp (by omega), rfl⟩
          · rename_i hend
            have hend' : 6 + pairwise.length + keys.length ≠ (1 :: 0 :: more).length := by
              simpa using hend
            split at h
            · cases h
            · rename_i hmore
              obtain ⟨low, tail', rfl⟩ := List.exists_cons_of_length_pos (l := tail) (by omega)
              simp only [List.length_cons] at hlen hmore hend'
              obtain ⟨high, after, rfl⟩ := List.exists_cons_of_length_pos (l := tail') (by omega)
              rw [le16_drop htail] at h
              obtain rfl : low.toUInt16 ||| high.toUInt16 <<< 8 = caps := by simpa using h
              exact .inr ⟨low, high, after, rfl, rfl⟩
  · rintro ⟨cipher, pairwise, keys, tail, rfl, hcipher, hpairwise, hkeys, hcaps⟩
    have hsome := hpairwise.length_ge
    have hversion : le16 (1 :: 0 :: (cipher ++ (pairwise ++ (keys ++ tail)))) 0 = 1 := by
      have hzero : (1 :: 0 :: (cipher ++ (pairwise ++ (keys ++ tail)))).drop 0 =
          1 :: 0 :: (cipher ++ (pairwise ++ (keys ++ tail))) := rfl
      rw [le16_drop hzero]
      decide
    have hsix : (1 :: 0 :: (cipher ++ (pairwise ++ (keys ++ tail)))).drop 6 =
        pairwise ++ (keys ++ tail) := by
      have hfour : 6 = cipher.length + 1 + 1 := by omega
      rw [hfour, List.drop_succ_cons, List.drop_succ_cons, List.drop_left]
    have hnext : (1 :: 0 :: (cipher ++ (pairwise ++ (keys ++ tail)))).drop (6 + pairwise.length) =
        keys ++ tail := by
      rw [← List.drop_drop, hsix, List.drop_left]
    have htail : (1 :: 0 :: (cipher ++ (pairwise ++ (keys ++ tail)))).drop
        (6 + pairwise.length + keys.length) = tail := by
      rw [← List.drop_drop, hnext, List.drop_left]
    have hfirst := rsnGroup_eq_some.mpr ⟨pairwise, keys ++ tail, hpairwise, hsix, rfl⟩
    have hsecond := rsnGroup_eq_some.mpr ⟨keys, tail, hkeys, hnext, rfl⟩
    have hlength : (1 :: 0 :: (cipher ++ (pairwise ++ (keys ++ tail)))).length =
        6 + pairwise.length + keys.length + tail.length := by
      simp only [List.length_cons, List.length_append]
      omega
    generalize 1 :: 0 :: (cipher ++ (pairwise ++ (keys ++ tail))) = v at *
    have hhead : (decide (v.length < 8) || le16 v 0 != 1) = false := by
      rw [hversion, decide_eq_false (by omega)]
      rfl
    rw [hhead, hfirst]
    simp only [Option.bind_some, hsecond, Bool.false_eq_true, if_false]
    rcases hcaps with ⟨rfl, rfl⟩ | ⟨low, high, more, rfl, rfl⟩
    · rw [if_pos (by simp [hlength])]
    · simp only [List.length_cons] at hlength
      rw [if_neg (by simp [hlength]), if_neg (by omega), le16_drop htail]

/-! ## Elements -/

/-- An element has the parts of an AD structure; its length does not count the type. -/
abbrev Element := Ad

def elementBytes (e : Element) : Bytes := e.type :: UInt8.ofNat e.value.length :: e.value

/-- The rules on the elements of a frame. -/
structure ElementsOk (es : List Element) : Prop where
  ssidOnce : (valuesOf 0 es).length ≤ 1
  ssidShort : ∀ v ∈ valuesOf 0 es, v.length ≤ 32
  rsnOnce : (valuesOf 48 es).length ≤ 1
  rsnBody : ∀ v ∈ valuesOf 48 es, ∃ caps, RsnBody v caps
  pwnShort : (valuesOf 222 es).flatten.length ≤ 472

/-- The first vendor element of at least three bytes. -/
def vendorOf (es : List Element) : Bytes :=
  ((valuesOf 221 es).find? fun v => decide (3 ≤ v.length)).getD []

/-- What the elements say, over the observation from the header. -/
def described (o : Observation) (es : List Element) : Observation :=
  { o with
    ssid := (valuesOf 0 es).headD []
    name := sanitize 32 ((valuesOf 0 es).headD [])
    rsn := !(valuesOf 48 es).isEmpty
    rsnCaps := ((valuesOf 48 es).head?.bind rsnValid).getD o.rsnCaps
    protectedNetwork := o.protectedNetwork || !(valuesOf 48 es).isEmpty
    vendor := (vendorOf es).take 128
    vendorFingerprint :=
      if (vendorOf es).isEmpty then o.vendorFingerprint else vendorFingerprint (vendorOf es) }

/-- The state of the loop after the elements `es`. -/
def Elements.of (o : Observation) (es : List Element) : Elements :=
  { o := described o es, pwn := (valuesOf 222 es).flatten, ssidSeen := !(valuesOf 0 es).isEmpty }

theorem vendorOf_append (seen : List Element) (e : Element) :
    vendorOf (seen ++ [e]) = if (vendorOf seen).isEmpty && e.type == 221 && decide (3 ≤ e.value.length)
      then e.value else vendorOf seen := by
  unfold vendorOf
  rw [valuesOf_append, List.find?_append]
  cases hfound : (valuesOf 221 seen).find? fun v => decide (3 ≤ v.length) with
  | some v =>
    have hlong := List.find?_some hfound
    have hne : v.isEmpty = false := by
      cases v with
      | nil => simp at hlong
      | cons b v => rfl
    simp [hne]
  | none =>
    by_cases htype : e.type = 221
    · by_cases hlong : 3 ≤ e.value.length
      · simp [htype, hlong]
      · simp [htype, hlong]
    · simp [htype]

theorem vendor_isEmpty (seen : List Element) :
    ((vendorOf seen).take 128).isEmpty = (vendorOf seen).isEmpty := by
  cases vendorOf seen <;> rfl

section Elements

variable (o : Observation)

/-- An element that keeps the rules is read into the state of the longer list. -/
theorem element_some {seen : List Element} {e : Element} (h : ElementsOk (seen ++ [e])) :
    (Elements.of o seen).element e.type e.value = some (Elements.of o (seen ++ [e])) := by
  have hssid := h.ssidOnce
  have hshort := h.ssidShort
  have hrsn := h.rsnOnce
  have hbody := h.rsnBody
  have hpwn := h.pwnShort
  rw [valuesOf_append] at hssid hshort hrsn hbody hpwn
  obtain ⟨type, v⟩ := e
  by_cases hname : type = 0
  · subst hname
    have hnone : valuesOf 0 seen = [] := by
      simp only [beq_self_eq_true, if_true, List.length_append, List.length_singleton] at hssid
      exact List.length_eq_zero_iff.mp (by omega)
    have hlen : ¬ 32 < v.length := by
      have := hshort v (by simp)
      omega
    simp [Elements.element, Elements.of, described, valuesOf_append, vendorOf_append, hnone, hlen]
  by_cases hsecure : type = 48
  · subst hsecure
    have hnone : valuesOf 48 seen = [] := by
      simp only [beq_self_eq_true, if_true, List.length_append, List.length_singleton] at hrsn
      exact List.length_eq_zero_iff.mp (by omega)
    obtain ⟨caps, hcaps⟩ := hbody v (by simp)
    have hvalid := rsnValid_eq_some.mpr hcaps
    simp [Elements.element, Elements.of, described, valuesOf_append, vendorOf_append, hnone, hvalid]
  by_cases hpayload : type = 222
  · subst hpayload
    have hroom : ¬ 472 < ((valuesOf 222 seen).flatten).length + v.length := by
      simp only [beq_self_eq_true, if_true, List.flatten_append, List.length_append,
        List.flatten_singleton] at hpwn
      omega
    simp [Elements.element, Elements.of, described, valuesOf_append, vendorOf_append] at hroom ⊢
    omega
  by_cases hvendor : type = 221
  · subst hvendor
    have hkept : (Elements.of o seen).o.vendor.isEmpty = (vendorOf seen).isEmpty := vendor_isEmpty seen
    have hread : (Elements.of o seen).element 221 v =
        some (if decide (3 ≤ v.length) && (vendorOf seen).isEmpty then
          { Elements.of o seen with o := { (Elements.of o seen).o with
            vendorFingerprint := vendorFingerprint v, vendor := v.take 128 } }
          else Elements.of o seen) := by
      rw [← hkept]
      cases hset : decide (3 ≤ v.length) && (Elements.of o seen).o.vendor.isEmpty with
      | true => simp [Elements.element, hset]
      | false => simp [Elements.element, hset]
    rw [hread]
    by_cases hfirst : (vendorOf seen).isEmpty = true ∧ 3 ≤ v.length
    · obtain ⟨hempty, hlong⟩ := hfirst
      have hne : v.isEmpty = false := by
        cases v with
        | nil => simp at hlong
        | cons b v => rfl
      simp [Elements.of, described, valuesOf_append, vendorOf_append, hempty, hlong, hne]
    · have hno : (decide (3 ≤ v.length) && (vendorOf seen).isEmpty) = false := by
        rw [Bool.and_comm]
        simpa using hfirst
      have hno' : ((vendorOf seen).isEmpty && decide (3 ≤ v.length)) = false := by
        rw [Bool.and_comm]
        exact hno
      simp only [hno, Bool.false_eq_true, if_false]
      simp [Elements.of, described, valuesOf_append, vendorOf_append, hno']
  simp [Elements.element, Elements.of, described, valuesOf_append, vendorOf_append, hname, hsecure,
    hpayload, hvendor]

theorem valuesOf_length_le {type : UInt8} {es : List Element} {P : Bytes → Prop}
    (h : ∀ v ∈ valuesOf type es, P v) {e : Element} (he : e.type = type → P e.value) :
    ∀ v ∈ valuesOf type (es ++ [e]), P v := by
  intro v hv
  rw [valuesOf_append] at hv
  rcases List.mem_append.mp hv with hold | hnew
  · exact h v hold
  · split at hnew
    · rename_i htype
      obtain rfl : v = e.value := by simpa using hnew
      exact he (by simpa using htype)
    · simp at hnew

theorem valuesOf_once {type : UInt8} {es : List Element} (h : (valuesOf type es).length ≤ 1)
    {e : Element} (he : e.type = type → valuesOf type es = []) :
    (valuesOf type (es ++ [e])).length ≤ 1 := by
  rw [valuesOf_append]
  split
  · rename_i htype
    rw [he (by simpa using htype)]
    exact Nat.le_refl 1
  · simpa using h

/-- An element the loop takes keeps the rules. -/
theorem element_sound {seen : List Element} (h : ElementsOk seen) {e : Element} {next : Elements}
    (hread : (Elements.of o seen).element e.type e.value = some next) : ElementsOk (seen ++ [e]) := by
  obtain ⟨type, v⟩ := e
  have hssid : type = 0 → valuesOf 0 seen = [] ∧ v.length ≤ 32 := by
    rintro rfl
    simp [Elements.element, Elements.of] at hread
    exact hread.1
  have hrsn : type = 48 → valuesOf 48 seen = [] ∧ ∃ caps, RsnBody v caps := by
    rintro rfl
    have hno : (Elements.of o seen).o.rsn = !(valuesOf 48 seen).isEmpty := rfl
    cases hvalid : rsnValid v with
    | none => simp [Elements.element, hvalid] at hread
    | some caps =>
      simp [Elements.element, hno, hvalid] at hread
      exact ⟨hread.1, caps, rsnValid_eq_some.mp hvalid⟩
  have hpwn : type = 222 → (valuesOf 222 seen).flatten.length + v.length ≤ 472 := by
    rintro rfl
    by_contra hlong
    have hfull : 472 < (Elements.of o seen).pwn.length + v.length := by
      change 472 < (valuesOf 222 seen).flatten.length + v.length
      omega
    simp [Elements.element, hfull] at hread
  refine ⟨valuesOf_once h.ssidOnce fun ht => (hssid ht).1,
    valuesOf_length_le h.ssidShort fun ht => (hssid ht).2,
    valuesOf_once h.rsnOnce fun ht => (hrsn ht).1,
    valuesOf_length_le h.rsnBody fun ht => (hrsn ht).2, ?_⟩
  rw [valuesOf_append]
  split
  · rename_i htype
    have hroom := hpwn (by simpa using htype)
    rw [List.flatten_append, List.length_append, List.flatten_singleton]
    exact hroom
  · simpa using h.pwnShort

/-! ## The loop -/

theorem elementsOk_nil : ElementsOk [] :=
  ⟨by decide, fun v hv => absurd hv List.not_mem_nil, by decide, fun v hv => absurd hv List.not_mem_nil,
    by decide⟩

theorem valuesOf_more (type : UInt8) (seen more : List Element) :
    valuesOf type (seen ++ more) = valuesOf type seen ++ valuesOf type more := by
  simp [valuesOf]

theorem elementsOk_front {seen more : List Element} (h : ElementsOk (seen ++ more)) :
    ElementsOk seen := by
  have hssid := h.ssidOnce
  have hshort := h.ssidShort
  have hrsn := h.rsnOnce
  have hbody := h.rsnBody
  have hpwn := h.pwnShort
  rw [valuesOf_more] at hssid hshort hrsn hbody hpwn
  rw [List.flatten_append, List.length_append] at hpwn
  rw [List.length_append] at hssid hrsn
  exact ⟨by omega, fun v hv => hshort v (List.mem_append_left _ hv), by omega,
    fun v hv => hbody v (List.mem_append_left _ hv), by omega⟩

theorem elements_sound {fuel : Nat} {data : Bytes} {seen : List Element} {last : Elements}
    (h : ElementsOk seen) (hread : Elements.read fuel (Elements.of o seen) data = some last) :
    ∃ es, data = es.flatMap elementBytes ∧ (∀ e ∈ es, e.value.length ≤ 255) ∧
      ElementsOk (seen ++ es) ∧ last = Elements.of o (seen ++ es) := by
  have hnone : ∀ e ∈ ([] : List Element), e.value.length ≤ 255 :=
    fun e he => absurd he List.not_mem_nil
  induction fuel generalizing data seen with
  | zero =>
    cases data with
    | nil =>
      obtain rfl : Elements.of o seen = last := by simpa [Elements.read] using hread
      exact ⟨[], rfl, hnone, by simpa using h, by simp⟩
    | cons type rest => simp [Elements.read] at hread
  | succ fuel ih =>
    match data with
    | [] =>
      obtain rfl : Elements.of o seen = last := by simpa [Elements.read] using hread
      exact ⟨[], rfl, hnone, by simpa using h, by simp⟩
    | [type] => simp [Elements.read] at hread
    | type :: n :: rest =>
      unfold Elements.read at hread
      split at hread
      · cases hread
      · rename_i hlong
        split at hread
        · cases hread
        · rename_i next helement
          have hlen : (rest.take n.toNat).length = n.toNat := by
            rw [List.length_take]
            omega
          have hnext := element_sound o h (e := ⟨type, rest.take n.toNat⟩) helement
          have hstate := element_some o hnext
          rw [helement] at hstate
          obtain rfl : next = Elements.of o (seen ++ [⟨type, rest.take n.toNat⟩]) := by
            simpa using hstate
          obtain ⟨es, hdata, hsmall, hes, rfl⟩ := ih hnext hread
          refine ⟨⟨type, rest.take n.toNat⟩ :: es, ?_, fun e he => ?_, by simpa using hes, by simp⟩
          swap
          · rcases List.mem_cons.mp he with rfl | he
            · have hn := n.toNat_lt
              simp only [hlen]
              omega
            · exact hsmall e he
          have hback : UInt8.ofNat (rest.take n.toNat).length = n := by
            rw [hlen, UInt8.ofNat_toNat]
          rw [List.flatMap_cons, ← hdata]
          simp only [elementBytes, hback, List.cons_append, List.take_append_drop]

theorem elements_complete {es : List Element} {fuel : Nat} {seen : List Element}
    (h : ElementsOk (seen ++ es)) (hsmall : ∀ e ∈ es, e.value.length ≤ 255)
    (hfuel : (es.flatMap elementBytes).length ≤ fuel) :
    Elements.read fuel (Elements.of o seen) (es.flatMap elementBytes) =
      some (Elements.of o (seen ++ es)) := by
  induction es generalizing fuel seen with
  | nil =>
    rw [List.append_nil]
    cases fuel <;> rfl
  | cons e es ih =>
    have hone : ElementsOk (seen ++ [e]) := @elementsOk_front _ es (by simpa using h)
    have hlt := hsmall e List.mem_cons_self
    have hn : (UInt8.ofNat e.value.length).toNat = e.value.length := by
      rw [UInt8.toNat_ofNat']
      omega
    have hbytes : (e :: es).flatMap elementBytes =
        e.type :: UInt8.ofNat e.value.length :: (e.value ++ es.flatMap elementBytes) := rfl
    have htail := fun fuel hfuel => @ih fuel (seen ++ [e]) (by simpa using h)
      (fun e' he => hsmall e' (List.mem_cons_of_mem _ he)) hfuel
    rw [hbytes] at hfuel ⊢
    generalize es.flatMap elementBytes = tail at hfuel htail ⊢
    simp only [List.length_cons, List.length_append] at hfuel
    obtain ⟨fuel, rfl⟩ : ∃ n, fuel = n + 1 := ⟨fuel - 1, by omega⟩
    have hroom : ¬ (e.value ++ tail).length < e.value.length := by
      rw [List.length_append]
      omega
    have hrest := htail fuel (by omega)
    unfold Elements.read
    rw [hn, if_neg hroom, List.take_left, List.drop_left, element_some o hone]
    simpa using hrest

end Elements

/-! ## Frames -/

def subtypeOf (frame : Bytes) : UInt8 := byteAt frame 0 >>> 4

/-- Where the elements begin. -/
def bodyStart (frame : Bytes) : Nat := if subtypeOf frame == 4 then 24 else 36

/-- The frame is its header and the elements `es`. -/
structure FrameBody (frame : Bytes) (es : List Element) : Prop where
  split : frame.drop (bodyStart frame) = es.flatMap elementBytes
  small : ∀ e ∈ es, e.value.length ≤ 255
  ok : ElementsOk es

/-- A beacon from the signature address whose joined payload is a Pwnagotchi's. -/
def Signature (frame : Bytes) (es : List Element) : Prop :=
  subtypeOf frame = 8 ∧ addressAt frame 10 = meshAddress ∧
    (parsePwnagotchi (valuesOf 222 es).flatten (List.replicate 33 0)).1 = true

/-- A deauthentication or disassociation in the clear. -/
def Dismissal (frame : Bytes) : Prop :=
  (subtypeOf frame = 10 ∨ subtypeOf frame = 12) ∧ 26 ≤ frame.length ∧ byteAt frame 1 &&& 0x40 = 0

/-- A beacon, a probe response or a probe request with room for its header. -/
def Advertisement (frame : Bytes) : Prop :=
  (subtypeOf frame = 8 ∨ subtypeOf frame = 5) ∧ 36 ≤ frame.length ∨ subtypeOf frame = 4

/-- The frames `parse_wifi` accepts. -/
structure WifiFrame (frame : Bytes) : Prop where
  long : 24 ≤ frame.length
  version : byteAt frame 0 &&& 0x0f = 0
  direction : byteAt frame 1 &&& 0x03 = 0
  kind : Dismissal frame ∨ (Advertisement frame ∧
    ∃ es, FrameBody frame es ∧ (valuesOf 0 es ≠ [] ∨ Signature frame es))

/-- The observation from a frame's header. -/
def wifiHeader (frame : Bytes) (output : Observation) : Observation :=
  { ms := output.ms, channel := output.channel, rssi := output.rssi, radio := .Wifi,
    subtype := subtypeOf frame, address := addressAt frame 10 }

/-- The same, with the privacy bit of a beacon or a probe response. -/
def wifiBase (frame : Bytes) (output : Observation) : Observation :=
  { wifiHeader frame output with
    protectedNetwork := subtypeOf frame != 4 && (le16 frame 34 &&& 0x10) != 0 }

section Frames

variable {frame : Bytes} {output : Observation}

theorem elements_of_nil : Elements.of (wifiBase frame output) [] = { o := wifiBase frame output } := by
  have hsame : described (wifiBase frame output) [] = wifiBase frame output := by
    simp [described, vendorOf, valuesOf, sanitize, wifiBase, wifiHeader]
  unfold Elements.of
  rw [hsame]
  rfl

theorem parsePwnagotchi_nil (name : Bytes) : parsePwnagotchi [] name = (false, name) := rfl

/-- The checks after the elements change no field but the address, the name and the flag. -/
theorem finish_keeps (e : Elements) (frame : Bytes) :
    (e.finish frame).ssidSeen = e.ssidSeen ∧ ∃ address name pwnagotchi,
      (e.finish frame).o = { e.o with address, name, pwnagotchi } := by
  unfold Elements.finish
  split
  · split
    · exact ⟨rfl, _, _, _, rfl⟩
    · exact ⟨rfl, e.o.address, e.o.name, false, rfl⟩
  · exact ⟨rfl, e.o.address, e.o.name, e.o.pwnagotchi, rfl⟩

/-- Without a network name the frame is kept for its signature only. -/
theorem finish_signature {es : List Element} (hnone : valuesOf 0 es = []) :
    ((Elements.of (wifiBase frame output) es).finish frame).o.pwnagotchi = true ↔
      Signature frame es := by
  have hname : (Elements.of (wifiBase frame output) es).o.name = [] := by
    simp [Elements.of, described, hnone, sanitize]
  have hpwn : (Elements.of (wifiBase frame output) es).pwn = (valuesOf 222 es).flatten := rfl
  have hsubtype : (Elements.of (wifiBase frame output) es).o.subtype = subtypeOf frame := rfl
  have haddress : (Elements.of (wifiBase frame output) es).o.address = addressAt frame 10 := rfl
  unfold Elements.finish Signature
  rw [hname, hpwn, hsubtype, haddress]
  cases hjoined : (valuesOf 222 es).flatten with
  | nil =>
    rw [parsePwnagotchi_nil]
    simp [Elements.of, described, wifiBase, wifiHeader]
  | cons b rest =>
    by_cases hbeacon : subtypeOf frame = 8
    · by_cases hmesh : addressAt frame 10 = meshAddress
      · simp [hbeacon, hmesh]
      · have hno : (addressAt frame 10 == meshAddress) = false := by simpa using hmesh
        simp [hbeacon, hmesh, hno]
    · have hno : (subtypeOf frame == 8) = false := by simpa using hbeacon
      simp [hbeacon, hno, Elements.of, described, wifiBase, wifiHeader]

/-- What is left after the elements of an accepted frame. -/
def Elements.accepted (e : Elements) (frame : Bytes) : Option Observation :=
  if !(e.finish frame).ssidSeen && !(e.finish frame).o.pwnagotchi then none
  else some (e.finish frame).o

theorem parseWifi_of_header (hlong : 24 ≤ frame.length) (hversion : byteAt frame 0 &&& 0x0f = 0)
    (hdirection : byteAt frame 1 &&& 0x03 = 0) :
    parseWifi frame output =
      if subtypeOf frame == 10 || subtypeOf frame == 12 then
        if frame.length < 26 || (byteAt frame 1 &&& 0x40) != 0 then none
        else some (wifiHeader frame output)
      else if (subtypeOf frame != 8 && subtypeOf frame != 5 && subtypeOf frame != 4) ||
          frame.length < bodyStart frame then none
      else (Elements.read frame.length { o := wifiBase frame output }
        (frame.drop (bodyStart frame))).bind (Elements.accepted · frame) := by
  have hheader : ¬ (frame.length < 24 || (byteAt frame 0 &&& 0x0f) != 0 ||
      (byteAt frame 1 &&& 0x03) != 0) = true := by
    have hshort : ¬ frame.length < 24 := by omega
    simp [hversion, hdirection, hshort]
  unfold parseWifi
  rw [if_neg hheader]
  change (if subtypeOf frame == 10 || subtypeOf frame == 12 then _ else _) = _
  split
  · rfl
  · change (if (subtypeOf frame != 8 && subtypeOf frame != 5 && subtypeOf frame != 4) ||
        frame.length < bodyStart frame then _ else _) = _
    split
    · rfl
    · dsimp only
      cases hread : Elements.read frame.length { o := wifiBase frame output }
          (frame.drop (bodyStart frame)) with
      | none =>
        rw [Option.bind_none]
        split
        · rfl
        · rename_i hsome
          cases hread.symm.trans hsome
      | some e =>
        rw [Option.bind_some]
        split
        · rename_i hnone
          cases hnone.symm.trans hread
        · rename_i hsome
          obtain rfl := Option.some.inj (hsome.symm.trans hread)
          rfl

theorem header_of_some {o : Observation} (h : parseWifi frame output = some o) :
    24 ≤ frame.length ∧ byteAt frame 0 &&& 0x0f = 0 ∧ byteAt frame 1 &&& 0x03 = 0 := by
  unfold parseWifi at h
  split at h
  · cases h
  · rename_i hheader
    simp only [Bool.or_eq_true, decide_eq_true_eq, bne_iff_ne, ne_eq, not_or, Nat.not_lt,
      not_not] at hheader
    exact ⟨hheader.1.1, hheader.1.2, hheader.2⟩

theorem dismissal_iff (h : subtypeOf frame = 10 ∨ subtypeOf frame = 12) :
    Dismissal frame ↔ ¬ (frame.length < 26 || (byteAt frame 1 &&& 0x40) != 0) = true := by
  unfold Dismissal
  simp only [Bool.or_eq_true, decide_eq_true_eq, bne_iff_ne, ne_eq, not_or, Nat.not_lt, not_not]
  exact ⟨fun hd => hd.2, fun hd => ⟨h, hd⟩⟩

theorem advertisement_iff (hlong : 24 ≤ frame.length) :
    Advertisement frame ↔ ¬ ((subtypeOf frame != 8 && subtypeOf frame != 5 && subtypeOf frame != 4) ||
      decide (frame.length < bodyStart frame)) = true := by
  unfold Advertisement bodyStart
  by_cases hprobe : subtypeOf frame = 4
  · simp [hprobe]
    omega
  · have hno : (subtypeOf frame == 4) = false := by simpa using hprobe
    simp only [hprobe, hno, or_false, bne_iff_ne, ne_eq, not_false_eq_true, Bool.false_eq_true,
      if_false, Bool.or_eq_true, Bool.and_eq_true, decide_eq_true_eq, and_true, not_or, not_and,
      not_not, Nat.not_lt]
    exact and_congr_left fun _ => Decidable.or_iff_not_imp_left

/-- The elements of a frame, read from its header on. -/
theorem read_body {es : List Element} (h : FrameBody frame es) :
    Elements.read frame.length { o := wifiBase frame output } (frame.drop (bodyStart frame)) =
      some (Elements.of (wifiBase frame output) es) := by
  have hfuel : (es.flatMap elementBytes).length ≤ frame.length := by
    rw [← h.split, List.length_drop]
    omega
  have hread := @elements_complete (wifiBase frame output) es frame.length [] h.ok h.small hfuel
  rw [elements_of_nil] at hread
  rw [h.split]
  exact hread

theorem body_of_read {e : Elements} (hread : Elements.read frame.length
    { o := wifiBase frame output } (frame.drop (bodyStart frame)) = some e) :
    ∃ es, FrameBody frame es ∧ e = Elements.of (wifiBase frame output) es := by
  rw [← elements_of_nil] at hread
  obtain ⟨es, hsplit, hsmall, hok, rfl⟩ := elements_sound (wifiBase frame output) elementsOk_nil hread
  exact ⟨es, ⟨hsplit, hsmall, hok⟩, rfl⟩

theorem accepted_isSome (es : List Element) :
    ((Elements.of (wifiBase frame output) es).accepted frame).isSome = true ↔
      valuesOf 0 es ≠ [] ∨ Signature frame es := by
  have hseen := (finish_keeps (Elements.of (wifiBase frame output) es) frame).1
  have hflag : (Elements.of (wifiBase frame output) es).ssidSeen = !(valuesOf 0 es).isEmpty := rfl
  unfold Elements.accepted
  rw [hseen, hflag]
  by_cases hnone : valuesOf 0 es = []
  · have hsignature := @finish_signature frame output es hnone
    cases hpwn : ((Elements.of (wifiBase frame output) es).finish frame).o.pwnagotchi with
    | false =>
      rw [hpwn] at hsignature
      simpa [hnone] using hsignature
    | true =>
      rw [hpwn] at hsignature
      simpa [hnone] using hsignature
  · have hsome : (valuesOf 0 es).isEmpty = false := by simpa using hnone
    simp [hnone, hsome]

theorem parseWifi_isSome : (parseWifi frame output).isSome = true ↔ WifiFrame frame := by
  by_cases hheader : 24 ≤ frame.length ∧ byteAt frame 0 &&& 0x0f = 0 ∧ byteAt frame 1 &&& 0x03 = 0
  swap
  · constructor
    · intro h
      obtain ⟨o, ho⟩ := Option.isSome_iff_exists.mp h
      exact absurd (header_of_some ho) hheader
    · intro h
      exact absurd ⟨h.long, h.version, h.direction⟩ hheader
  obtain ⟨hlong, hversion, hdirection⟩ := hheader
  have hframe : WifiFrame frame ↔ (Dismissal frame ∨ (Advertisement frame ∧
      ∃ es, FrameBody frame es ∧ (valuesOf 0 es ≠ [] ∨ Signature frame es))) :=
    ⟨fun h => h.kind, fun h => ⟨hlong, hversion, hdirection, h⟩⟩
  rw [hframe, parseWifi_of_header hlong hversion hdirection]
  by_cases hdismissal : subtypeOf frame = 10 ∨ subtypeOf frame = 12
  · have hset : (subtypeOf frame == 10 || subtypeOf frame == 12) = true := by simpa using hdismissal
    have hother : ¬ Advertisement frame := by
      unfold Advertisement
      rcases hdismissal with h | h <;> simp [h]
    rw [if_pos hset, dismissal_iff hdismissal]
    split
    · rename_i hbad
      simp [hbad, hother]
    · rename_i hgood
      simp [hgood]
  · have hset : ¬ (subtypeOf frame == 10 || subtypeOf frame == 12) = true := by simpa using hdismissal
    have hother : ¬ Dismissal frame := fun h => hdismissal h.1
    rw [if_neg hset]
    by_cases hadvertisement : Advertisement frame
    · rw [if_neg ((advertisement_iff hlong).mp hadvertisement)]
      constructor
      · intro h
        obtain ⟨o, ho⟩ := Option.isSome_iff_exists.mp h
        obtain ⟨e, hread, haccepted⟩ := Option.bind_eq_some_iff.mp ho
        obtain ⟨es, hbody, rfl⟩ := body_of_read hread
        refine .inr ⟨hadvertisement, es, hbody, (@accepted_isSome frame output es).mp ?_⟩
        rw [haccepted]
        rfl
      · rintro (h | ⟨-, es, hbody, hkind⟩)
        · exact absurd h hother
        · rw [read_body hbody]
          exact (accepted_isSome es).mpr hkind
    · rw [if_pos (by
        by_contra hnot
        exact hadvertisement ((advertisement_iff hlong).mpr hnot))]
      simp [hother, hadvertisement]

/-- What an accepted frame is read as. -/
theorem parseWifi_fields {o : Observation} (h : parseWifi frame output = some o) :
    o.ms = output.ms ∧ o.channel = output.channel ∧ o.rssi = output.rssi ∧
    ∀ es, Advertisement frame → FrameBody frame es →
      o.ssid = (valuesOf 0 es).headD [] ∧
      o.protectedNetwork = (!(valuesOf 48 es).isEmpty ||
        (subtypeOf frame != 4 && (le16 frame 34 &&& 0x10) != 0)) ∧
      o.vendor = (vendorOf es).take 128 := by
  obtain ⟨hlong, hversion, hdirection⟩ := header_of_some h
  rw [parseWifi_of_header hlong hversion hdirection] at h
  split at h
  · rename_i hset
    split at h
    · cases h
    · obtain rfl : wifiHeader frame output = o := by simpa using h
      refine ⟨rfl, rfl, rfl, fun es hadvertisement _ => ?_⟩
      have hdismissal : subtypeOf frame = 10 ∨ subtypeOf frame = 12 := by simpa using hset
      exfalso
      unfold Advertisement at hadvertisement
      rcases hdismissal with hd | hd <;> simp [hd] at hadvertisement
  · split at h
    · cases h
    · obtain ⟨e, hread, haccepted⟩ := Option.bind_eq_some_iff.mp h
      obtain ⟨es, hbody, rfl⟩ := body_of_read hread
      unfold Elements.accepted at haccepted
      split at haccepted
      · cases haccepted
      · obtain ⟨-, address, name, pwnagotchi, hkeeps⟩ :=
          finish_keeps (Elements.of (wifiBase frame output) es) frame
        rw [hkeeps] at haccepted
        have hfields : o = { described (wifiBase frame output) es with address, name, pwnagotchi } :=
          (Option.some.inj haccepted).symm
        rw [hfields]
        refine ⟨rfl, rfl, rfl, fun es' _ hbody' => ?_⟩
        have hsame : Elements.of (wifiBase frame output) es' =
            Elements.of (wifiBase frame output) es := by
          have hread' := @read_body frame output es' hbody'
          rw [hread] at hread'
          exact (Option.some.inj hread').symm
        have hdescribed : described (wifiBase frame output) es =
            described (wifiBase frame output) es' := congrArg Elements.o hsame.symm
        rw [hdescribed]
        exact ⟨rfl, Bool.or_comm _ _, rfl⟩

end Frames

end Hound
