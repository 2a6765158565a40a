import Hound.Core.Matches
import Hound.Core.Privacy
import Hound.Core.Utc
import Hound.Json.Row

/-!
# Writing a log record

`write_record` of `records.cpp`, text by text. The whole line is the text of
one `Row`, which is how the reader's theorems apply to it.
-/

namespace Hound

open JsonTree Json Writer

def firmwareVersion : Bytes := ascii "0.1.0-dev"

/-- `%02x` of each byte. -/
def lowerHex (bytes : Bytes) : Bytes :=
  bytes.flatMap fun b => [hexDigit (b.toNat / 16), hexDigit (b.toNat % 16)]

/-- `signature_pack_version`, generated from the first six bytes of a hash of the rules. -/
def signaturePackVersion (pack : Vector UInt8 6) : Bytes := ascii "v1-" ++ lowerHex pack.toList

/-- What `snprintf` leaves in a buffer of `size`. -/
def snprintf (size : Nat) (s : Bytes) : Bytes := s.take (size - 1)

/-- The rules `rules[0]` to `rules[rule_count - 1]` point to. -/
def Detection.usedRules (d : Detection) : List Rule :=
  (d.rules.toList.take d.ruleCount.toNat).filterMap id

/-- `rules[0]->`. -/
def Detection.ofFirst (d : Detection) (f : Rule → Bytes) : Bytes :=
  (d.usedRules.head?.map f).getD []

/-- `%.*s-%llu-%u-%u`. -/
def eventId (d : Detection) (session : Bytes) : Bytes :=
  snprintf 96 (cString session ++ (45 :: Decimal.natural d.lastMs.toNat ++
    (45 :: Decimal.natural d.category.code ++ (45 :: Decimal.natural d.seenCount.toNat))))

def upperHex (n : Nat) : UInt8 := if n < 10 then (48 + n).toUInt8 else (55 + n).toUInt8

/-- `%02X:%02X:%02X:%02X:%02X:%02X`. -/
def macText (a : Address) : Bytes :=
  (a.toList.zipIdx).flatMap fun (b, i) =>
    (if i == 0 then [] else [58]) ++ [upperHex (b.toNat / 16), upperHex (b.toNat % 16)]

/-- An `int64_t` argument made from a `uint64_t`. -/
def signed (n : UInt64) : Int := n.toInt64.toInt

/-- The body of the loop over `rule_ids`: a string with its index. -/
def Writer.listed (w : Writer) (s : Bytes × Nat) : Writer :=
  (if s.2 == 0 then w else w.text (ascii ",")).string s.1

def Writer.strings (w : Writer) (ss : List Bytes) : Writer := ss.zipIdx.foldl Writer.listed w

def regionName (region : UInt8) : Bytes := if region == 0 then ascii "US" else ascii "EU"

def radioName (r : Radio) : Bytes := if r == .Wifi then ascii "wifi" else ascii "ble"

def addressTypeName (t : UInt8) : Bytes := if t != 0 then ascii "random" else ascii "public"

def privacyName (research : Bool) : Bytes := if research then ascii "research" else ascii "private"

def qualityName (utc : Bytes) : Bytes := if utc != [] then ascii "manual" else ascii "uptime_only"

/-- `out` is the size of the output buffer. The result is the bytes the returned
size counts. -/
def writeRecord (pack : Vector UInt8 6) (d : Detection) (session token : Bytes) (research : Bool)
    (out : Nat) (region : UInt8) : Bytes :=
  if out == 0 || d.demo || d.ruleCount == 0 || 4 < d.ruleCount ||
      decide (categoryCount ≤ d.category.code) || d.seenCount == 0 then []
  else
    let w : Writer := { out }
    let w := w.text (ascii "\x7b\"schema_version\":1,\"firmware_version\":")
    let w := w.string firmwareVersion
    let w := w.text (ascii ",\"hardware\":\"E32R40T\",\"signature_pack\":")
    let w := w.string (signaturePackVersion pack)
    let w := w.text (ascii ",\"region\":")
    let w := w.string (regionName region)
    let w := w.text (ascii ",\"event_id\":")
    let w := w.string (eventId d session)
    let w := w.text (ascii ",\"session_id\":")
    let w := w.string session
    let w := w.text (ascii ",\"observed_at\":")
    let utc := formatUtc d.unixSeconds.toNat
    let w := if utc != [] then w.string utc else w.text (ascii "null")
    let w := w.text (ascii ",\"time_quality\":")
    let w := w.string (qualityName utc)
    let w := w.text (ascii ",\"uptime_ms\":")
    let w := w.number (signed d.lastMs)
    let w := w.text (ascii ",\"first_seen_ms\":")
    let w := w.number (signed d.firstMs)
    let w := w.text (ascii ",\"category\":")
    let w := w.string d.category.name
    let w := w.text (ascii ",\"label\":")
    let w := w.string (d.ofFirst Rule.label)
    let w := w.text (ascii ",\"confidence\":")
    let w := w.string (grade d.score)
    let w := w.text (ascii ",\"score\":")
    let w := w.number d.score.toNat
    let w := w.text (ascii ",\"rule_ids\":[")
    let w := w.strings (d.usedRules.map Rule.id)
    let w := w.text (ascii "],\"reason\":")
    let w := w.string (d.ofFirst Rule.reason)
    let w := w.text (ascii ",\"radio\":")
    let w := w.string (radioName d.radio)
    let w := w.text (ascii ",\"channel\":")
    let w := w.number d.channel.toNat
    let w := w.text (ascii ",\"rssi_min\":")
    let w := w.number d.rssiMin.toInt
    let w := w.text (ascii ",\"rssi_max\":")
    let w := w.number d.rssiMax.toInt
    let w := w.text (ascii ",\"rssi_avg\":")
    let w := w.number (d.rssiSum.tdiv d.seenCount.toNat)
    let w := w.text (ascii ",\"seen_count\":")
    let w := w.number d.seenCount.toNat
    let w := w.text (ascii ",\"identifier\":")
    let w := w.string token
    let w := w.text (ascii ",\"address_type\":")
    let w := w.string (addressTypeName d.addressType)
    let w := w.text (ascii ",\"meal_awarded\":")
    let w := w.text (if d.meal then ascii "true" else ascii "false")
    let w := w.text (ascii ",\"privacy_mode\":")
    let w := w.string (privacyName research)
    let w := if research then (w.text (ascii ",\"raw_mac\":")).string (macText d.address) else w
    (w.text (ascii "\x7d\n")).written

theorem length_lowerHex (bytes : Bytes) : (lowerHex bytes).length = 2 * bytes.length := by
  induction bytes with
  | nil => rfl
  | cons b bytes ih =>
    rw [lowerHex, List.flatMap_cons, List.length_append, ← lowerHex, ih, List.length_cons,
      List.length_cons, List.length_cons, List.length_nil]
    omega

/-! ## The line as a row -/

def timeField (utc : Bytes) : Field := if utc != [] then stringField utc else nullField

/-- The members of a record, in the order they are written. -/
def recordRow (pack : Vector UInt8 6) (d : Detection) (session token : Bytes) (research : Bool)
    (region : UInt8) : Row :=
  let utc := formatUtc d.unixSeconds.toNat
  [(ascii "schema_version", numberField 1),
    (ascii "firmware_version", stringField firmwareVersion),
    (ascii "hardware", stringField (ascii "E32R40T")),
    (ascii "signature_pack", stringField (signaturePackVersion pack)),
    (ascii "region", stringField (regionName region)),
    (ascii "event_id", stringField (eventId d session)),
    (ascii "session_id", stringField session),
    (ascii "observed_at", timeField utc),
    (ascii "time_quality", stringField (qualityName utc)),
    (ascii "uptime_ms", numberField (signed d.lastMs)),
    (ascii "first_seen_ms", numberField (signed d.firstMs)),
    (ascii "category", stringField d.category.name),
    (ascii "label", stringField (d.ofFirst Rule.label)),
    (ascii "confidence", stringField (grade d.score)),
    (ascii "score", numberField d.score.toNat),
    (ascii "rule_ids", stringsField (d.usedRules.map Rule.id)),
    (ascii "reason", stringField (d.ofFirst Rule.reason)),
    (ascii "radio", stringField (radioName d.radio)),
    (ascii "channel", numberField d.channel.toNat),
    (ascii "rssi_min", numberField d.rssiMin.toInt),
    (ascii "rssi_max", numberField d.rssiMax.toInt),
    (ascii "rssi_avg", numberField (d.rssiSum.tdiv d.seenCount.toNat)),
    (ascii "seen_count", numberField d.seenCount.toNat),
    (ascii "identifier", stringField token),
    (ascii "address_type", stringField (addressTypeName d.addressType)),
    (ascii "meal_awarded", boolField d.meal),
    (ascii "privacy_mode", stringField (privacyName research))] ++
  if research then [(ascii "raw_mac", stringField (macText d.address))] else []

theorem foldl_listed (w : Writer) (ss : List Bytes) (n : Nat) (a : Bytes) :
    (ss.zipIdx (n + 1)).foldl Writer.listed (w.text a) =
      w.text (a ++ ss.flatMap fun s => 44 :: literal s) := by
  induction ss generalizing n a with
  | nil => simp
  | cons s ss ih =>
    have hstep : (w.text a).listed (s, n + 1) = w.text (a ++ 44 :: literal s) := by
      have hcomma : ascii "," = [44] := by decide
      simp [Writer.listed, Writer.string_eq, text_text, hcomma]
    rw [List.zipIdx_cons, List.foldl_cons, hstep, ih, List.flatMap_cons, List.append_assoc]

theorem strings_eq (w : Writer) (s : Bytes) (ss : List Bytes) :
    w.strings (s :: ss) = w.text (literal s ++ ss.flatMap fun s => 44 :: literal s) := by
  have hfirst : w.listed (s, 0) = w.text (literal s) := by
    simp [Writer.listed, Writer.string_eq]
  rw [Writer.strings, List.zipIdx_cons, List.foldl_cons, hfirst]
  exact foldl_listed w ss 0 (literal s)

set_option maxRecDepth 20000 in
/-- What the writer is asked to write, for a record it does not refuse. -/
theorem writeRecord_eq {pack : Vector UInt8 6} {d : Detection} {session token : Bytes} {research : Bool}
    {out : Nat} {region : UInt8} (hout : 0 < out) (hdemo : d.demo = false)
    (hrules : d.usedRules ≠ []) (hcount : d.ruleCount ≠ 0 ∧ d.ruleCount ≤ 4)
    (hseen : d.seenCount ≠ 0) :
    writeRecord pack d session token research out region =
      if (recordRow pack d session token research region).text.length < out then
        (recordRow pack d session token research region).text
      else [] := by
  have hguard : (out == 0 || d.demo || d.ruleCount == 0 || 4 < d.ruleCount ||
      decide (categoryCount ≤ d.category.code) || d.seenCount == 0) = false := by
    have hcat := d.category.code_lt
    have hzero : out ≠ 0 := by omega
    have hfour : ¬ 4 < d.ruleCount := UInt8.not_lt.mpr hcount.2
    have hlt : ¬ categoryCount ≤ d.category.code := by omega
    simp [hzero, hdemo, hcount.1, hfour, hlt, hseen]
  have htime : ∀ w : Writer, ∀ a, (if formatUtc d.unixSeconds.toNat != [] then
      w.text (a ++ literal (formatUtc d.unixSeconds.toNat)) else w.text (a ++ ascii "null")) =
        w.text (a ++ (timeField (formatUtc d.unixSeconds.toNat)).text) := by
    intro w a
    unfold timeField
    split <;> rfl
  have hmac : ∀ w : Writer, ∀ a, (if research then
      w.text (a ++ ascii ",\"raw_mac\":" ++ literal (macText d.address)) else w.text a) =
        w.text (a ++ if research then ascii ",\"raw_mac\":" ++ literal (macText d.address) else []) := by
    intro w a
    cases research <;> simp
  obtain ⟨s, ss, hids⟩ : ∃ s ss, d.usedRules.map Rule.id = s :: ss := by
    cases hmap : d.usedRules with
    | nil => exact absurd hmap hrules
    | cons r rules => exact ⟨r.id, rules.map Rule.id, rfl⟩
  unfold writeRecord
  simp only [hguard, Bool.false_eq_true, if_false, htime, Writer.string_eq, Writer.number, text_text, hids,
    strings_eq, hmac]
  refine (congrArg (fun s => (Writer.text { out } s).written) ?_).trans (written_text out _)
  have hmeal : (if d.meal then ascii "true" else ascii "false") = (boolField d.meal).text := rfl
  rw [hmeal]
  -- both sides are the same texts and values, cut at other places
  cases research with
  | false =>
    simp only [recordRow, Row.text_cons, hids, List.cons_append, List.nil_append, List.flatMap_cons,
      List.flatMap_nil, Row.memberText, text_stringField, text_numberField, text_stringsField,
      List.append_assoc, List.append_nil, quoted, if_false, Bool.false_eq_true]
    rfl
  | true =>
    simp only [recordRow, Row.text_cons, hids, List.cons_append, List.nil_append, List.flatMap_cons,
      List.flatMap_nil, Row.memberText, text_stringField, text_numberField, text_stringsField,
      List.append_assoc, List.append_nil, quoted, if_true]
    rfl

end Hound
