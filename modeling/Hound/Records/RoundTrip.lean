import Hound.Core.Signatures
import Hound.Records.ValidateLog
import Hound.Records.WriteRecord

/-!
# A written record reads back

Within the limits of the signature compiler and the ranges of the validator, a
record fits its buffer, is one line, is accepted, and every field reads back as
the detection's value.
-/

namespace Hound

open JsonTree Json Writer

/-- The detections a log line can hold. -/
structure Recordable (d : Detection) : Prop where
  real : d.demo = false
  count : 1 ≤ d.ruleCount ∧ d.ruleCount ≤ 4
  present : d.usedRules.length = d.ruleCount.toNat
  legible : ∀ r ∈ d.usedRules, r.Legible
  score : 1 ≤ d.score ∧ d.score ≤ 100
  seen : 1 ≤ d.seenCount
  ordered : d.firstMs ≤ d.lastMs
  recent : d.lastMs < 9007199254740992
  channel : d.channel ≤ 14
  low : -127 ≤ d.rssiMin.toInt
  high : d.rssiMax.toInt ≤ 20
  above : d.rssiMin.toInt ≤ d.rssiSum.tdiv d.seenCount.toNat
  below : d.rssiSum.tdiv d.seenCount.toNat ≤ d.rssiMax.toInt

/-! ## Its texts -/

theorem printable_of_mem {s letters : Bytes} (h : ∀ c ∈ s, c ∈ letters) (hl : Printable letters) :
    Printable s := fun c hc => hl c (h c hc)

theorem IsSession.printable {s : Bytes} (h : IsSession s) : Printable s :=
  printable_of_mem h.2 (by decide)

theorem IsToken.printable {s : Bytes} (h : IsToken s) : Printable s :=
  printable_of_mem h.2 (by decide)

theorem isDigit_printable {c : UInt8} (h : isDigit c = true) : 32 ≤ c ∧ c ≤ 126 := by
  simp only [isDigit, Bool.and_eq_true, decide_eq_true_eq] at h
  grind

theorem natural_printable (n : Nat) : Printable (Decimal.natural n) := fun c hc =>
  isDigit_printable (Decimal.isDigit_natural n c hc)

theorem lowerHex_printable (bytes : Bytes) : Printable (lowerHex bytes) := by
  have hdigit : ∀ n < 16, 32 ≤ hexDigit n ∧ hexDigit n ≤ 126 := by decide
  intro c hc
  obtain ⟨b, -, hb⟩ := List.mem_flatMap.mp hc
  have hlt : b.toNat < 256 := b.toNat_lt
  rcases List.mem_cons.mp hb with rfl | hb
  · exact hdigit _ (by omega)
  · rw [List.mem_singleton.mp hb]
    exact hdigit _ (by omega)

theorem macText_spec (a : Address) : (macText a).length = 17 ∧ Printable (macText a) := by
  have hdigit : ∀ n < 16, 32 ≤ upperHex n ∧ upperHex n ≤ 126 := by decide
  constructor
  · obtain ⟨⟨bytes⟩, hsize⟩ := a
    match bytes, hsize with
    | [a, b, c, d, e, f], _ => rfl
  · intro c hc
    obtain ⟨⟨b, i⟩, -, hb⟩ := List.mem_flatMap.mp hc
    have hlt : b.toNat < 256 := b.toNat_lt
    rcases List.mem_append.mp hb with hb | hb
    · split at hb
      · exact nomatch hb
      · rw [List.mem_singleton.mp hb]
        decide
    · rcases List.mem_cons.mp hb with rfl | hb
      · exact hdigit _ (by omega)
      · rw [List.mem_singleton.mp hb]
        exact hdigit _ (by omega)

theorem formatUtc_spec (seconds : Nat) :
    (formatUtc seconds).length ≤ 20 ∧ Printable (formatUtc seconds) := by
  have hpadded : ∀ width n, Printable (Decimal.padded width n) := fun width n c hc =>
    isDigit_printable (Decimal.isDigit_padded hc)
  have hsep : ∀ c : UInt8, 32 ≤ c ∧ c ≤ 126 → ∀ s, Printable s → Printable (c :: s) := by
    intro c hc s hs b hb
    rcases List.mem_cons.mp hb with rfl | hb
    · exact hc
    · exact hs b hb
  rcases formatUtc_cases seconds with hnil | ⟨-, htext⟩
  · rw [hnil]
    exact ⟨by decide, List.forall_mem_nil _⟩
  · rw [htext]
    constructor
    · simp [strftime]
    · unfold strftime
      exact (hpadded _ _).append (hsep _ (by decide) _ ((hpadded _ _).append (hsep _ (by decide) _
        ((hpadded _ _).append (hsep _ (by decide) _ ((hpadded _ _).append (hsep _ (by decide) _
          ((hpadded _ _).append (hsep _ (by decide) _ ((hpadded _ _).append
            (hsep _ (by decide) _ (List.forall_mem_nil _))))))))))))

/-- An event ID is never cut off. -/
theorem eventId_eq (d : Detection) {session : Bytes} (h : IsSession session) :
    eventId d session = session ++ (45 :: Decimal.natural d.lastMs.toNat ++
      (45 :: Decimal.natural d.category.code ++ (45 :: Decimal.natural d.seenCount.toNat))) := by
  have hsession : cString session = session := by
    refine List.takeWhile_eq_self_iff.mpr fun c hc => ?_
    have hlow := (h.printable c hc).1
    have hne : c ≠ 0 := by grind
    simpa using hne
  have hms := Decimal.length_natural_le (n := d.lastMs.toNat) (k := 20) (by decide)
    (Nat.lt_trans d.lastMs.toNat_lt (by decide))
  have hcode := Decimal.length_natural_le (n := d.category.code) (k := 2) (by decide)
    (Nat.lt_trans d.category.code_lt (by decide))
  have hseen := Decimal.length_natural_le (n := d.seenCount.toNat) (k := 10) (by decide)
    (Nat.lt_trans d.seenCount.toNat_lt (by decide))
  have hlen := h.1
  rw [eventId, snprintf, hsession, List.take_of_length_le]
  simp only [List.length_append, List.length_cons]
  omega

theorem eventId_spec (d : Detection) {session : Bytes} (h : IsSession session) :
    (eventId d session).length ≤ 95 ∧ eventId d session ≠ [] ∧ Printable (eventId d session) := by
  have hsep : ∀ n, Printable (45 :: Decimal.natural n) := by
    intro n c hc
    rcases List.mem_cons.mp hc with rfl | hc
    · decide
    · exact natural_printable n c hc
  refine ⟨List.length_take_le _ _, ?_, ?_⟩
  · rw [eventId_eq d h]
    simp
  · rw [eventId_eq d h]
    exact h.printable.append ((hsep _).append ((hsep _).append (hsep _)))

theorem name_spec (c : Category) : c.name.length ≤ 11 ∧ Printable c.name := by
  cases c <;> decide

theorem grade_spec (score : UInt8) : (grade score).length ≤ 13 ∧ Printable (grade score) := by
  unfold grade
  split
  · decide
  · split
    · decide
    · split <;> decide

theorem regionName_spec (region : UInt8) :
    (regionName region).length ≤ 2 ∧ Printable (regionName region) := by
  unfold regionName
  split <;> decide

theorem qualityName_spec (utc : Bytes) :
    (qualityName utc).length ≤ 11 ∧ Printable (qualityName utc) := by
  unfold qualityName
  split <;> decide

theorem radioName_spec (r : Radio) : (radioName r).length ≤ 4 ∧ Printable (radioName r) := by
  cases r <;> decide

theorem addressTypeName_spec (t : UInt8) :
    (addressTypeName t).length ≤ 6 ∧ Printable (addressTypeName t) := by
  unfold addressTypeName
  split <;> decide

theorem privacyName_spec (research : Bool) :
    (privacyName research).length ≤ 8 ∧ Printable (privacyName research) := by
  cases research <;> decide

theorem signaturePackVersion_spec (pack : Vector UInt8 6) :
    (signaturePackVersion pack).length = 15 ∧ Printable (signaturePackVersion pack) := by
  refine ⟨?_, Printable.append (by decide) (lowerHex_printable _)⟩
  have hversion : (ascii "v1-").length = 3 := by decide
  rw [signaturePackVersion, List.length_append, length_lowerHex, hversion]
  simp

/-! ## Its row -/

def recordKeys (research : Bool) : List Bytes :=
  [ascii "schema_version", ascii "firmware_version", ascii "hardware", ascii "signature_pack",
    ascii "region", ascii "event_id", ascii "session_id", ascii "observed_at",
    ascii "time_quality", ascii "uptime_ms", ascii "first_seen_ms", ascii "category",
    ascii "label", ascii "confidence", ascii "score", ascii "rule_ids", ascii "reason",
    ascii "radio", ascii "channel", ascii "rssi_min", ascii "rssi_max", ascii "rssi_avg",
    ascii "seen_count", ascii "identifier", ascii "address_type", ascii "meal_awarded",
    ascii "privacy_mode"] ++ if research then [ascii "raw_mac"] else []

section Row

variable {pack : Vector UInt8 6} {d : Detection} {session token : Bytes} {research : Bool}
  {region : UInt8}

theorem recordRow_keys :
    (recordRow pack d session token research region).map Prod.fst = recordKeys research := by
  cases research <;> rfl

theorem recordKeys_plain (research : Bool) : ∀ key ∈ recordKeys research, Plain key ∧ key.length < 80 := by
  cases research <;> decide

theorem recordKeys_nodup (research : Bool) : (recordKeys research).Nodup := by
  cases research <;> decide

theorem recordRow_plain :
    ∀ m ∈ recordRow pack d session token research region, Plain m.1 ∧ m.1.length < 80 := by
  intro m hm
  have hkey : m.1 ∈ recordKeys research := by
    have hkeys : (recordRow pack d session token research region).map Prod.fst = recordKeys research :=
      recordRow_keys
    rw [← hkeys]
    exact List.mem_map_of_mem hm
  exact recordKeys_plain research m.1 hkey

theorem fit_timeField (utc : Bytes) : Fit (timeField utc) := by
  unfold timeField
  split
  · exact fit_stringField utc
  · exact fit_nullField

theorem ids_ne_nil (h : Recordable d) : d.usedRules.map Rule.id ≠ [] := by
  intro hnil
  have hlen := h.present
  rw [List.map_eq_nil_iff.mp hnil, List.length_nil] at hlen
  have hpos : 1 ≤ d.ruleCount.toNat := UInt8.le_iff_toNat_le.mp h.count.1
  omega

theorem recordRow_fit (h : Recordable d) :
    ∀ m ∈ recordRow pack d session token research region, Fit m.2 := by
  have hids := fit_stringsField (ids_ne_nil h)
  have hmac : ∀ m ∈ (if research then [(ascii "raw_mac", stringField (macText d.address))] else []),
      Fit m.2 := by
    cases research with
    | false => exact List.forall_mem_nil _
    | true => exact List.forall_mem_singleton.mpr (fit_stringField _)
  unfold recordRow
  refine List.forall_mem_append.mpr ⟨?_, hmac⟩
  simp only [List.forall_mem_cons, fit_stringField, fit_numberField, fit_boolField, fit_timeField,
    hids, true_and]
  exact List.forall_mem_nil _

/-- Something true of every legible rule is true of the first rule. -/
theorem ofFirst_of {f : Rule → Bytes} {P : Bytes → Prop} (h : Recordable d)
    (hP : ∀ r : Rule, r.Legible → P (f r)) : P (d.ofFirst f) := by
  cases hrules : d.usedRules with
  | nil => exact absurd (by rw [hrules]; rfl) (ids_ne_nil h)
  | cons r rules =>
    have hr : r.Legible := h.legible r (hrules ▸ List.mem_cons_self)
    simpa [Detection.ofFirst, hrules] using hP r hr

theorem label_limited (h : Recordable d) : Limited 40 (d.ofFirst Rule.label) :=
  ofFirst_of h fun _ hr => hr.label

theorem reason_limited (h : Recordable d) : Limited 120 (d.ofFirst Rule.reason) :=
  ofFirst_of h fun _ hr => hr.reason

theorem ids_length (h : Recordable d) : (d.usedRules.map Rule.id).length ≤ 4 := by
  have hcount : d.ruleCount.toNat ≤ 4 := UInt8.le_iff_toNat_le.mp h.count.2
  rw [List.length_map, h.present]
  exact hcount

theorem length_ids_le (h : Recordable d) : (stringsField (d.usedRules.map Rule.id)).text.length ≤ 269 := by
  have hfew := ids_length h
  have hone : ∀ s ∈ d.usedRules.map Rule.id, (literal s).length ≤ 66 := by
    intro s hs
    obtain ⟨r, hr, rfl⟩ := List.mem_map.mp hs
    have hid := (h.legible r hr).id
    rw [length_literal_plain (h.legible r hr).plain_id]
    omega
  have hall := length_stringsField_le (ids_ne_nil h) hone
  omega

theorem length_timeField_le (seconds : Nat) : (timeField (formatUtc seconds)).text.length ≤ 42 := by
  obtain ⟨hlen, hprint⟩ := formatUtc_spec seconds
  unfold timeField
  split
  · have := length_literal_le hprint
    rw [text_stringField]
    omega
  · simp [wordNull]

theorem length_literal_le' {s : Bytes} {limit : Nat} (h : s.length ≤ limit ∧ Printable s) :
    (literal s).length ≤ 2 * limit + 2 := by
  have := length_literal_le h.2
  omega

theorem signed_of_lt {n : UInt64} (h : n < 9007199254740992) : signed n = n.toNat := by
  have hlt : n.toNat < 9007199254740992 := UInt64.lt_iff_toNat_lt.mp h
  have hbits : signed n = n.toBitVec.toInt := rfl
  have hnat : n.toBitVec.toNat = n.toNat := rfl
  rw [hbits, BitVec.toInt_eq_toNat_of_lt (by rw [hnat]; omega), hnat]

theorem firstMs_lt (h : Recordable d) : d.firstMs < 9007199254740992 :=
  UInt64.lt_of_le_of_lt h.ordered h.recent

theorem length_integer_natCast {n k : Nat} (hk : 0 < k) (h : n < 10 ^ k) :
    (Decimal.integer n).length ≤ k + 1 :=
  Decimal.length_integer_le hk (by simpa using h)

theorem length_ms_le {n : UInt64} (h : n < 9007199254740992) :
    (Decimal.integer (signed n)).length ≤ 17 := by
  have hlt : n.toNat < 9007199254740992 := UInt64.lt_iff_toNat_lt.mp h
  rw [signed_of_lt h]
  exact length_integer_natCast (by decide) (by omega)

/-- An RSSI, or an average between two of them. -/
theorem length_rssi_le {n : Int} (hlow : -127 ≤ n) (hhigh : n ≤ 20) :
    (Decimal.integer n).length ≤ 4 :=
  Decimal.length_integer_le (k := 3) (by decide) (by omega)

theorem recordRow_size (h : Recordable d) (hs : IsSession session) (ht : IsToken token) :
    (recordRow pack d session token research region).text.length < 2048 := by
  have hkeys : ((recordKeys research).map List.length).sum ≤ 262 := by
    cases research <;> decide
  have hcount : (recordRow pack d session token research region).length ≤ 28 := by
    cases research <;> simp [recordRow]
  have hne : recordRow pack d session token research region ≠ [] := List.cons_ne_nil _ _
  rw [Row.length_text hne, recordRow_keys]
  suffices hvalues : ((recordRow pack d session token research region).map
      fun m => m.2.text.length).sum ≤ 1600 by omega
  have hlow := h.low
  have hhigh := h.high
  have habove := h.above
  have hbelow := h.below
  have hfirmware : (literal firmwareVersion).length = 11 := by decide
  have hhardware : (literal (ascii "E32R40T")).length = 9 := by decide
  have hpack := length_literal_le' ⟨Nat.le_of_eq (signaturePackVersion_spec pack).1,
    (signaturePackVersion_spec pack).2⟩
  have hregion := length_literal_le' (regionName_spec region)
  have hevent := length_literal_le' ⟨(eventId_spec d hs).1, (eventId_spec d hs).2.2⟩
  have hsession := length_literal_le' ⟨Nat.le_of_eq hs.1, hs.printable⟩
  have htime := length_timeField_le d.unixSeconds.toNat
  have hquality := length_literal_le' (qualityName_spec (formatUtc d.unixSeconds.toNat))
  have hlast := length_ms_le h.recent
  have hfirst := length_ms_le (firstMs_lt h)
  have hcategory := length_literal_le' (name_spec d.category)
  have hlabel := length_literal_le' ⟨(label_limited h).2.1, (label_limited h).2.2⟩
  have hconfidence := length_literal_le' (grade_spec d.score)
  have hscore := length_integer_natCast (n := d.score.toNat) (k := 3) (by decide)
    (Nat.lt_trans d.score.toNat_lt (by decide))
  have hids := length_ids_le h
  have hreason := length_literal_le' ⟨(reason_limited h).2.1, (reason_limited h).2.2⟩
  have hradio := length_literal_le' (radioName_spec d.radio)
  have hchannel := length_integer_natCast (n := d.channel.toNat) (k := 3) (by decide)
    (Nat.lt_trans d.channel.toNat_lt (by decide))
  have hmin := length_rssi_le (n := d.rssiMin.toInt) hlow (by omega)
  have hmax := length_rssi_le (n := d.rssiMax.toInt) (by omega) hhigh
  have havg := length_rssi_le (n := d.rssiSum.tdiv d.seenCount.toNat) (by omega) (by omega)
  have hseen := length_integer_natCast (n := d.seenCount.toNat) (k := 10) (by decide)
    (Nat.lt_trans d.seenCount.toNat_lt (by decide))
  have htoken := length_literal_le' ⟨Nat.le_of_eq ht.1, ht.printable⟩
  have haddress := length_literal_le' (addressTypeName_spec d.addressType)
  have hmeal : (boolField d.meal).text.length ≤ 5 := by
    cases d.meal <;> decide
  have hprivacy := length_literal_le' (privacyName_spec research)
  have hmac := length_literal_le' ⟨Nat.le_of_eq (macText_spec d.address).1, (macText_spec d.address).2⟩
  have hone : (Decimal.integer 1).length = 1 := by decide
  have hlast' : ((if research then [(ascii "raw_mac", stringField (macText d.address))] else []).map
      fun m => m.2.text.length).sum ≤ 36 := by
    cases research
    · exact Nat.zero_le _
    · simpa using hmac
  unfold recordRow
  simp only [List.map_append, List.map_cons, List.map_nil, List.sum_append, List.sum_cons, List.sum_nil,
    text_stringField, text_numberField, hfirmware, hhardware, hone]
  omega

theorem count_timeField (utc : Bytes) : (timeField utc).count = 1 := by
  unfold timeField
  split <;> rfl

theorem recordRow_ok (h : Recordable d) (hs : IsSession session) (ht : IsToken token) :
    (recordRow pack d session token research region).Ok where
  nonempty := List.cons_ne_nil _ _
  plain := recordRow_plain
  distinct := by
    rw [recordRow_keys]
    exact recordKeys_nodup research
  fields := fun m hm => (recordRow_fit h m hm).ok
  size := Nat.le_of_lt (recordRow_size h hs ht)
  count := by
    have hfew := ids_length h
    have hmac : ((if research then [(ascii "raw_mac", stringField (macText d.address))] else []).map
        fun m => 1 + m.2.count).sum ≤ 2 := by
      cases research <;> simp
    unfold recordRow
    simp only [List.map_append, List.map_cons, List.map_nil, List.sum_append, List.sum_cons,
      List.sum_nil, count_stringField, count_numberField, count_boolField, count_timeField,
      count_stringsField]
    omega

end Row

/-! ## What is read back -/

/-- `j` holds the detection's values under the record's keys. -/
structure ReadsBack (j : Json) (pack : Vector UInt8 6) (d : Detection) (session token : Bytes)
    (research : Bool) (region : UInt8) : Prop where
  schema : j.integer (j.member 0 (ascii "schema_version")) = some 1
  firmware : j.str (ascii "firmware_version") 160 = some firmwareVersion
  hardware : j.str (ascii "hardware") 160 = some (ascii "E32R40T")
  pack : j.str (ascii "signature_pack") 160 = some (signaturePackVersion pack)
  region : j.str (ascii "region") 160 = some (regionName region)
  event : j.str (ascii "event_id") 160 = some (eventId d session)
  session : j.str (ascii "session_id") 160 = some session
  time : if formatUtc d.unixSeconds.toNat != [] then
      j.str (ascii "observed_at") 24 = some (formatUtc d.unixSeconds.toNat)
    else j.raw (j.member 0 (ascii "observed_at")) = ascii "null"
  quality : j.str (ascii "time_quality") 160 = some (qualityName (formatUtc d.unixSeconds.toNat))
  uptime : j.integer (j.member 0 (ascii "uptime_ms")) = some d.lastMs.toNat
  first : j.integer (j.member 0 (ascii "first_seen_ms")) = some d.firstMs.toNat
  category : j.str (ascii "category") 160 = some d.category.name
  label : j.str (ascii "label") 160 = some (d.ofFirst Rule.label)
  confidence : j.str (ascii "confidence") 160 = some (grade d.score)
  score : j.integer (j.member 0 (ascii "score")) = some d.score.toNat
  rules : ∃ t tok, j.member 0 (ascii "rule_ids") = some t ∧ j.tokens[t]? = some tok ∧
    tok.kind = .array ∧ tok.after = t + 1 + d.usedRules.length ∧
    ∀ i r, d.usedRules[i]? = some r → j.string (some (t + 1 + i)) 65 = some r.id
  reason : j.str (ascii "reason") 160 = some (d.ofFirst Rule.reason)
  radio : j.str (ascii "radio") 160 = some (radioName d.radio)
  channel : j.integer (j.member 0 (ascii "channel")) = some d.channel.toNat
  low : j.integer (j.member 0 (ascii "rssi_min")) = some d.rssiMin.toInt
  high : j.integer (j.member 0 (ascii "rssi_max")) = some d.rssiMax.toInt
  average : j.integer (j.member 0 (ascii "rssi_avg")) = some (d.rssiSum.tdiv d.seenCount.toNat)
  seen : j.integer (j.member 0 (ascii "seen_count")) = some d.seenCount.toNat
  identifier : j.str (ascii "identifier") 160 = some token
  address : j.str (ascii "address_type") 160 = some (addressTypeName d.addressType)
  meal : ∃ t, j.member 0 (ascii "meal_awarded") = some t ∧ j.kindAt t = some .boolean ∧
    j.raw (some t) = if d.meal then ascii "true" else ascii "false"
  privacy : j.str (ascii "privacy_mode") 160 = some (privacyName research)
  mac : if research then j.str (ascii "raw_mac") 160 = some (macText d.address)
    else j.member 0 (ascii "raw_mac") = none

section Reads

variable {row : Row}

theorem str_sized (h : row.Ok) {key s : Bytes} {size : Nat}
    (hfind : row.lookup key = some (stringField s)) (hs : s.length < size ∧ Printable s) :
    row.document.json.str key size = some s := by
  rw [Json.str, Row.string_lookup h, hfind, Option.bind_some]
  exact string_stringField hs.2.readable hs.1

theorem str_stringField (h : row.Ok) {key s : Bytes} (hfind : row.lookup key = some (stringField s))
    (hs : s.length ≤ 159 ∧ Printable s) : row.document.json.str key 160 = some s :=
  str_sized h hfind ⟨by omega, hs.2⟩

theorem integer_field (h : row.Ok) {key : Bytes} {n : Int}
    (hfind : row.lookup key = some (numberField n)) (hlow : -9223372036854775808 ≤ n)
    (hhigh : n ≤ 9223372036854775807) :
    row.document.json.integer (row.document.json.member 0 key) = some n := by
  rw [Row.integer_lookup h, hfind, Option.bind_some]
  exact integer_numberField hlow hhigh

theorem member_field (h : row.Ok) (key : Bytes) {f : Field} (hfind : row.lookup key = some f) :
    ∃ t pos, row.document.json.member 0 key = some t ∧
      Placed fieldGrammar row.document.json pos t f := by
  obtain ⟨-, hnone⟩ | ⟨t, f', pos, hm, hf, hplaced⟩ := Row.member_lookup h key
  · rw [hfind] at hnone
    exact nomatch hnone
  · rw [hfind] at hf
    obtain rfl := Option.some.inj hf
    exact ⟨t, pos, hm, hplaced⟩

end Reads

section Record

variable {pack : Vector UInt8 6} {d : Detection} {session token : Bytes} {research : Bool}
  {region : UInt8}

theorem integer_natCast {row : Row} (h : row.Ok) (key : Bytes) {n : Nat}
    (hfind : row.lookup key = some (numberField n)) (hn : n < 9223372036854775808) :
    row.document.json.integer (row.document.json.member 0 key) = some (n : Int) :=
  integer_field h hfind (by omega) (by omega)

theorem record_rules (h : Recordable d) (hs : IsSession session) (ht : IsToken token) :
    let j := (recordRow pack d session token research region).document.json
    ∃ t tok, j.member 0 (ascii "rule_ids") = some t ∧ j.tokens[t]? = some tok ∧
      tok.kind = .array ∧ tok.after = t + 1 + d.usedRules.length ∧
      ∀ i r, d.usedRules[i]? = some r → j.string (some (t + 1 + i)) 65 = some r.id := by
  intro j
  have ok : (recordRow pack d session token research region).Ok := recordRow_ok h hs ht
  obtain ⟨t, pos, hm, hplaced⟩ := member_field ok (ascii "rule_ids") rfl
  have hcount : t + (stringsField (d.usedRules.map Rule.id)).count = t + 1 + d.usedRules.length := by
    rw [count_stringsField, List.length_map]
    omega
  refine ⟨t, _, hm, Placed.token hplaced, rfl, hcount, fun i r hr => ?_⟩
  have hlegible := h.legible r (List.mem_of_getElem? hr)
  have hid : (d.usedRules.map Rule.id)[i]? = some r.id := by simp [hr]
  rw [string_stringsField hplaced i hid 65]
  exact decode_literal hlegible.plain_id.printable.readable (by have := hlegible.id; omega)

theorem record_readsBack (h : Recordable d) (hs : IsSession session) (ht : IsToken token) :
    ReadsBack (recordRow pack d session token research region).document.json pack d session token
      research region := by
  have ok : (recordRow pack d session token research region).Ok := recordRow_ok h hs ht
  have hlast : d.lastMs.toNat < 9007199254740992 := UInt64.lt_iff_toNat_lt.mp h.recent
  have hfirst : d.firstMs.toNat < 9007199254740992 := UInt64.lt_iff_toNat_lt.mp (firstMs_lt h)
  have hscore := d.score.toNat_lt
  have hchannel := d.channel.toNat_lt
  have hseen := d.seenCount.toNat_lt
  have hlow := h.low
  have hhigh := h.high
  have habove := h.above
  have hbelow := h.below
  exact {
    schema := integer_field ok rfl (by decide) (by decide)
    firmware := str_stringField ok rfl (by decide)
    hardware := str_stringField ok rfl (by decide)
    pack := str_stringField ok rfl
      ⟨by rw [(signaturePackVersion_spec pack).1]; decide, (signaturePackVersion_spec pack).2⟩
    region := str_stringField ok rfl
      ⟨Nat.le_trans (regionName_spec region).1 (by decide), (regionName_spec region).2⟩
    event := str_stringField ok rfl
      ⟨Nat.le_trans (eventId_spec d hs).1 (by decide), (eventId_spec d hs).2.2⟩
    session := str_stringField ok rfl ⟨by rw [hs.1]; decide, hs.printable⟩
    time := by
      split
      · rename_i hutc
        refine str_sized ok ?_ ⟨Nat.lt_of_le_of_lt (formatUtc_spec _).1 (by decide),
          (formatUtc_spec _).2⟩
        have hfield : timeField (formatUtc d.unixSeconds.toNat) =
            stringField (formatUtc d.unixSeconds.toNat) := if_pos hutc
        rw [← hfield]
        rfl
      · rename_i hutc
        have hfield : timeField (formatUtc d.unixSeconds.toNat) = nullField := if_neg hutc
        have hfind : (recordRow pack d session token research region).lookup (ascii "observed_at") =
            some nullField := by
          rw [← hfield]
          rfl
        rw [Row.raw_lookup ok, hfind]
        rfl
    quality := str_stringField ok rfl
      ⟨Nat.le_trans (qualityName_spec _).1 (by decide), (qualityName_spec _).2⟩
    uptime := by
      have hread := integer_natCast ok (ascii "uptime_ms") (n := d.lastMs.toNat)
        (by rw [← signed_of_lt h.recent]; rfl) (by omega)
      exact hread
    first := by
      have hread := integer_natCast ok (ascii "first_seen_ms") (n := d.firstMs.toNat)
        (by rw [← signed_of_lt (firstMs_lt h)]; rfl) (by omega)
      exact hread
    category := str_stringField ok rfl
      ⟨Nat.le_trans (name_spec d.category).1 (by decide), (name_spec d.category).2⟩
    label := str_stringField ok rfl
      ⟨Nat.le_trans (label_limited h).2.1 (by decide), (label_limited h).2.2⟩
    confidence := str_stringField ok rfl
      ⟨Nat.le_trans (grade_spec d.score).1 (by decide), (grade_spec d.score).2⟩
    score := integer_natCast ok _ rfl (by omega)
    rules := record_rules h hs ht
    reason := str_stringField ok rfl
      ⟨Nat.le_trans (reason_limited h).2.1 (by decide), (reason_limited h).2.2⟩
    radio := str_stringField ok rfl
      ⟨Nat.le_trans (radioName_spec d.radio).1 (by decide), (radioName_spec d.radio).2⟩
    channel := integer_natCast ok _ rfl (by omega)
    low := integer_field ok rfl (by omega) (by omega)
    high := integer_field ok rfl (by omega) (by omega)
    average := integer_field ok rfl (by omega) (by omega)
    seen := integer_natCast ok _ rfl (by omega)
    identifier := str_stringField ok rfl ⟨by rw [ht.1]; decide, ht.printable⟩
    address := str_stringField ok rfl
      ⟨Nat.le_trans (addressTypeName_spec d.addressType).1 (by decide),
        (addressTypeName_spec d.addressType).2⟩
    meal := by
      obtain ⟨t, pos, hm, hplaced⟩ := member_field ok (ascii "meal_awarded")
        (f := boolField d.meal) rfl
      refine ⟨t, hm, ?_, ?_⟩
      · rw [Json.kindAt, Placed.token hplaced]
        rfl
      · rw [Placed.raw hplaced]
        rfl
    privacy := str_stringField ok rfl
      ⟨Nat.le_trans (privacyName_spec research).1 (by decide), (privacyName_spec research).2⟩
    mac := by
      cases research with
      | true =>
        rw [if_pos rfl]
        exact str_stringField ok rfl
          ⟨by rw [(macText_spec d.address).1]; decide, (macText_spec d.address).2⟩
      | false =>
        rw [if_neg (by decide)]
        obtain ⟨hm, -⟩ | ⟨t, f, pos, -, hf, -⟩ := Row.member_lookup ok (ascii "raw_mac")
        · exact hm
        · have hnone : (recordRow pack d session token false region).lookup (ascii "raw_mac") =
              none := rfl
          rw [hnone] at hf
          exact nomatch hf }

/-! ## It is accepted -/

theorem validDate_civil {seconds : Nat} {t : Tm} (h : Civil seconds t) :
    validDate (strftime t) = true := by
  have hparse := parseUtc_civil h
  have hten : ∀ n < 10, (Decimal.digit n).toNat = 48 + n := by decide
  have hsecond : byteAt (strftime t) 17 = Decimal.digit (t.second / 10) ∧
      byteAt (strftime t) 18 = Decimal.digit t.second := by
    simp [byteAt, strftime, Decimal.padded]
  have hleft : (48 : UInt8) ≤ Decimal.digit (t.second / 10) ∧ Decimal.digit (t.second / 10) ≤ 53 := by
    have hsmall := h.second
    have hvalue := hten (t.second / 10) (by omega)
    rw [UInt8.le_iff_toNat_le, UInt8.le_iff_toNat_le, hvalue]
    simp only [UInt8.reduceToNat]
    omega
  have hright := Decimal.isDigit_digit t.second
  have hseparators : (strftime t).length = 20 ∧ byteAt (strftime t) 4 = 45 ∧
      byteAt (strftime t) 7 = 45 ∧ byteAt (strftime t) 10 = 84 ∧ byteAt (strftime t) 13 = 58 ∧
      byteAt (strftime t) 16 = 58 ∧ byteAt (strftime t) 19 = 90 := by
    simp [byteAt, strftime, Decimal.padded]
  obtain ⟨hlen, h4, h7, h10, h13, h16, h19⟩ := hseparators
  unfold validDate
  simp [hlen, h4, h7, h10, h13, h16, h19, hparse, hsecond.1, hsecond.2, hleft.1, hleft.2, hright]

theorem record_validTime {j : Json}
    (h : ReadsBack j pack d session token research region) : j.validTime = true := by
  have htime := h.time
  have hquality := h.quality
  unfold Json.validTime
  rcases formatUtc_cases d.unixSeconds.toNat with hnil | ⟨hcivil, htext⟩
  · rw [hnil] at htime hquality
    have hname : qualityName [] = ascii "uptime_only" := rfl
    rw [if_neg (by decide)] at htime
    simp only [hquality, hname, htime, beq_self_eq_true, if_true]
  · have hsome : strftime (gmtime d.unixSeconds.toNat) ≠ [] := by
      intro hnil
      have hlen := congrArg List.length hnil
      simp [strftime] at hlen
    rw [htext] at htime hquality
    have hname : qualityName (strftime (gmtime d.unixSeconds.toNat)) = ascii "manual" := by
      simp [qualityName, hsome]
    have hmanual : (some (ascii "manual") == some (ascii "uptime_only")) = false := by decide
    rw [if_pos (by simpa using hsome), Json.str] at htime
    rw [hname] at hquality
    simp only [hquality, hmanual, htime, Bool.false_eq_true, if_false, Option.any_some]
    exact validDate_civil hcivil

theorem record_validRules {j : Json} (h : Recordable d)
    (hj : ReadsBack j pack d session token research region) : j.validRules = true := by
  obtain ⟨t, tok, hm, htok, hkind, hafter, hids⟩ := hj.rules
  have hcount : 1 ≤ d.usedRules.length ∧ d.usedRules.length ≤ 4 := by
    rw [h.present]
    exact ⟨UInt8.le_iff_toNat_le.mp h.count.1, UInt8.le_iff_toNat_le.mp h.count.2⟩
  unfold Json.validRules
  rw [hm, Option.any_some, htok, Option.any_some, hkind]
  have hall : ((List.range' (t + 1) (tok.after - (t + 1))).all fun i =>
      (j.string (some i) 65).any fun id => !id.isEmpty && id.all ruleChar) = true := by
    rw [List.all_eq_true]
    intro i hi
    rw [List.mem_range'_1] at hi
    obtain ⟨k, rfl⟩ : ∃ k, i = t + 1 + k := ⟨i - (t + 1), by omega⟩
    have hk : k < d.usedRules.length := by omega
    have hget : d.usedRules[k]? = some (d.usedRules.get ⟨k, hk⟩) := by simp [hk]
    have hlegible := h.legible _ (List.mem_of_getElem? hget)
    rw [hids k _ hget, Option.any_some, Bool.and_eq_true]
    exact ⟨by simpa using hlegible.id_ne_nil, List.all_eq_true.mpr hlegible.id.2.2⟩
  rw [hall]
  simp only [beq_self_eq_true, Bool.true_and, Bool.and_true, Bool.and_eq_true, decide_eq_true_eq]
  omega

theorem numberAt_eq {j : Json} {key : Bytes} {n : Int}
    (h : j.integer (j.member 0 key) = some n) : j.numberAt key = n := by
  rw [Json.numberAt, h]
  rfl

theorem record_accepted {j : Json} (h : Recordable d) (hs : IsSession session) (ht : IsToken token)
    (hobject : j.kindAt 0 = some .object)
    (hj : ReadsBack j pack d session token research region) : Accepted j := by
  have hscore : 1 ≤ d.score.toNat ∧ d.score.toNat ≤ 100 :=
    ⟨UInt8.le_iff_toNat_le.mp h.score.1, UInt8.le_iff_toNat_le.mp h.score.2⟩
  have hseen : 1 ≤ d.seenCount.toNat := UInt32.le_iff_toNat_le.mp h.seen
  have hmany := d.seenCount.toNat_lt
  have hchannel : d.channel.toNat ≤ 14 := UInt8.le_iff_toNat_le.mp h.channel
  have hordered : d.firstMs.toNat ≤ d.lastMs.toNat := UInt64.le_iff_toNat_le.mp h.ordered
  have hlast : d.lastMs.toNat < 9007199254740992 := UInt64.lt_iff_toNat_lt.mp h.recent
  have hlow := h.low
  have hhigh := h.high
  have habove := h.above
  have hbelow := h.below
  exact {
    object := hobject
    texts := by
      intro key hkey
      simp only [textKeys, List.mem_cons, List.not_mem_nil, or_false] at hkey
      rcases hkey with rfl | rfl | rfl | rfl | rfl | rfl | rfl | rfl
      · exact ⟨_, hj.event, (eventId_spec d hs).2.1⟩
      · exact ⟨_, hj.firmware, by decide⟩
      · exact ⟨_, hj.hardware, by decide⟩
      · refine ⟨_, hj.identifier, fun hnil => ?_⟩
        rw [hnil] at ht
        exact absurd ht.1 (by decide)
      · exact ⟨_, hj.label, (label_limited h).ne_nil⟩
      · exact ⟨_, hj.reason, (reason_limited h).ne_nil⟩
      · refine ⟨_, hj.session, fun hnil => ?_⟩
        rw [hnil] at hs
        exact absurd hs.1 (by decide)
      · refine ⟨_, hj.pack, fun hnil => ?_⟩
        have hlen := (signaturePackVersion_spec pack).1
        rw [hnil] at hlen
        exact absurd hlen (by decide)
    hardware := hj.hardware
    session := ⟨session, hj.session, hs⟩
    identifier := ⟨token, hj.identifier, ht⟩
    category := ⟨d.category, hj.category⟩
    schema := ⟨1, hj.schema, by decide, by decide⟩
    score := ⟨_, hj.score, by omega, by omega⟩
    seen := ⟨_, hj.seen, by omega, by omega⟩
    channel := ⟨_, hj.channel, by omega, by omega⟩
    first := ⟨_, hj.first, by omega, by omega⟩
    uptime := ⟨_, hj.uptime, by omega, by omega⟩
    ordered := by
      rw [numberAt_eq hj.first, numberAt_eq hj.uptime]
      omega
    confidence := by
      rw [numberAt_eq hj.score, hj.confidence]
      simp
    low := ⟨_, hj.low, by omega, by omega⟩
    high := ⟨_, hj.high, by omega, by omega⟩
    average := ⟨_, hj.average, by omega, by omega⟩
    above := by
      rw [numberAt_eq hj.low, numberAt_eq hj.average]
      exact habove
    below := by
      rw [numberAt_eq hj.average, numberAt_eq hj.high]
      exact hbelow
    radio := by
      have hradio := hj.radio
      unfold radioName at hradio
      split at hradio
      · exact .inl hradio
      · exact .inr hradio
    region := by
      have hregion := hj.region
      unfold regionName at hregion
      split at hregion
      · exact .inl hregion
      · exact .inr hregion
    privacy := by
      have hprivacy := hj.privacy
      unfold privacyName at hprivacy
      split at hprivacy
      · exact .inr hprivacy
      · exact .inl hprivacy
    address := by
      have haddress := hj.address
      unfold addressTypeName at haddress
      split at haddress
      · exact .inr haddress
      · exact .inl haddress
    quality := by
      have hquality := hj.quality
      unfold qualityName at hquality
      split at hquality
      · exact .inr hquality
      · exact .inl hquality
    time := record_validTime hj
    meal := by
      obtain ⟨t, hm, hkind, -⟩ := hj.meal
      exact ⟨t, hm, hkind⟩
    rules := record_validRules h hj }

/-- The written line is the text of the record's row. -/
theorem writeRecord_row (h : Recordable d) (hs : IsSession session) (ht : IsToken token) :
    writeRecord pack d session token research 2048 region =
      (recordRow pack d session token research region).text := by
  have hrules : d.usedRules ≠ [] := fun hnil => ids_ne_nil h (by rw [hnil]; rfl)
  have hcount : d.ruleCount ≠ 0 ∧ d.ruleCount ≤ 4 := by
    refine ⟨fun hzero => ?_, h.count.2⟩
    have hone := h.count.1
    rw [hzero] at hone
    exact absurd hone (by decide)
  have hseen : d.seenCount ≠ 0 := by
    intro hzero
    have hone := h.seen
    rw [hzero] at hone
    exact absurd hone (by decide)
  rw [writeRecord_eq (by decide) h.real hrules hcount hseen, if_pos (recordRow_size h hs ht)]

/-- A record is one line, which a reader with a buffer of 2048 bytes takes whole. -/
theorem record_line (h : Recordable d) (hs : IsSession session) (ht : IsToken token) :
    ∃ body, writeRecord pack d session token research 2048 region = body ++ [10] ∧ (∀ c ∈ body, 32 ≤ c) ∧
      body.length < 2047 := by
  have ok : (recordRow pack d session token research region).Ok := recordRow_ok h hs ht
  have hsize : (recordRow pack d session token research region).text.length < 2048 := recordRow_size h hs ht
  obtain ⟨body, hbody, hlow⟩ := Row.text_low ok.nonempty (fun m hm => (recordRow_plain m hm).1)
    fun m hm => (recordRow_fit h m hm).low
  rw [hbody, List.length_append, List.length_singleton] at hsize
  rw [writeRecord_row h hs ht]
  exact ⟨body, hbody, hlow, Nat.lt_of_succ_lt_succ hsize⟩

theorem record_valid (h : Recordable d) (hs : IsSession session) (ht : IsToken token) :
    validLogRecord (writeRecord pack d session token research 2048 region) = true := by
  have ok : (recordRow pack d session token research region).Ok := recordRow_ok h hs ht
  have hobject : (recordRow pack d session token research region).document.json.kindAt 0 =
      some .object := rfl
  rw [validLogRecord, writeRecord_row h hs ht, Row.parse_text ok]
  exact (validateLog_iff _).mpr (record_accepted h hs ht hobject (record_readsBack h hs ht))

/-- Everything `write_record` can be asked to log is one line that the validator
accepts and that reads back field by field. -/
theorem record_round_trip (pack : Vector UInt8 6) (d : Detection) (session token : Bytes)
    (research : Bool) (region : UInt8) (h : Recordable d) (hs : IsSession session)
    (ht : IsToken token) :
    0 < (writeRecord pack d session token research 2048 region).length ∧
    (∃ body, writeRecord pack d session token research 2048 region = body ++ [10] ∧ 10 ∉ body) ∧
    validLogRecord (writeRecord pack d session token research 2048 region) = true ∧
    ∃ j, Json.parse (writeRecord pack d session token research 2048 region) = some j ∧
      ReadsBack j pack d session token research region := by
  have ok : (recordRow pack d session token research region).Ok := recordRow_ok h hs ht
  refine ⟨?_, ?_, record_valid h hs ht, ?_⟩
  · rw [writeRecord_row h hs ht, Row.length_text ok.nonempty]
    omega
  · rw [writeRecord_row h hs ht]
    exact Row.text_newline ok.nonempty (fun m hm => (recordRow_plain m hm).1)
      fun m hm => (recordRow_fit h m hm).low
  · rw [writeRecord_row h hs ht]
    exact ⟨_, Row.parse_text ok, record_readsBack h hs ht⟩

end Record

/-- A rule with quotes and a backslash in its label, and a detection it made. -/
def quotingRule : Rule :=
  { id := ascii "ble.flipper.3081", category := .FLIPPER, kind := .Uuid16, value := ascii "3081",
    score := 75, cap := 79, generic := false, label := ascii "The \"Flipper\" \\ service",
    reason := ascii "Flipper-associated advertised service" }

def quotingDetection : Detection :=
  { firstMs := 1200, lastMs := 9007199254740991, unixSeconds := 1735689599, rssiSum := -255,
    rules := Vector.ofFn fun i => if i.val = 0 then some quotingRule else none, seenCount := 4,
    category := .FLIPPER, radio := .Ble, score := 75, ruleCount := 1, rssiMin := -127, rssiMax := 20 }

theorem quotingDetection_recordable : Recordable quotingDetection where
  real := rfl
  count := by decide
  present := by decide
  legible := by
    have hrules : quotingDetection.usedRules = [quotingRule] := by decide
    rw [hrules]
    refine List.forall_mem_singleton.mpr ⟨⟨by decide, by decide, ?_⟩, ⟨98, by decide⟩, ?_, ?_⟩
    · exact List.all_eq_true.mp (by decide)
    · exact ⟨by decide, by decide, by decide⟩
    · exact ⟨by decide, by decide, by decide⟩
  score := by decide
  seen := by decide
  ordered := by decide
  recent := by decide
  channel := by decide
  low := by decide
  high := by decide
  above := by decide
  below := by decide

def quotingSession : Bytes := List.replicate 32 97

def quotingToken : Bytes := List.replicate 20 65

def quotingPack : Vector UInt8 6 := Vector.replicate 6 48

theorem record_round_trip_quoting :
    validLogRecord (writeRecord quotingPack quotingDetection quotingSession quotingToken true 2048 0) =
      true :=
  (record_round_trip quotingPack quotingDetection quotingSession quotingToken true 0
    quotingDetection_recordable (by decide) (by decide)).2.2.1

end Hound
