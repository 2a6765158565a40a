import Hound.Core.Matches
import Hound.Core.Privacy
import Hound.Core.Utc
import Hound.Json.Fields

/-!
# Validating a log line

`validate_log` of `records.cpp`, check by check, and `Accepted`, what its
checks say together.
-/

namespace Hound

open JsonTree Json

/-- The lambda `str`. -/
def Json.str (j : Json) (key : Bytes) (size : Nat) : Option Bytes := j.string (j.member 0 key) size

/-- The lambda `number`. -/
def Json.numberIn (j : Json) (key : Bytes) (lo hi : Int) : Bool :=
  (j.integer (j.member 0 key)).any fun n => decide (lo ≤ n) && decide (n ≤ hi)

/-- `tokens[t].type`. -/
def Json.kindAt (j : Json) (t : Nat) : Option TokenType := (j.tokens[t]?).map Token.kind

/-- The keys that need some text. -/
def textKeys : List Bytes :=
  [ascii "event_id", ascii "firmware_version", ascii "hardware", ascii "identifier",
    ascii "label", ascii "reason", ascii "session_id", ascii "signature_pack"]

/-- A key that takes one of two values. -/
def Json.choice (j : Json) (key a b : Bytes) : Bool :=
  (j.str key 160).any fun v => v == a || v == b

/-- The checks of a manual time. -/
def validDate (utc : Bytes) : Bool :=
  utc.length == 20 && byteAt utc 4 == 45 && byteAt utc 7 == 45 && byteAt utc 10 == 84 &&
    byteAt utc 13 == 58 && byteAt utc 16 == 58 && byteAt utc 19 == 90 &&
    (parseUtc (dateDigits utc)).isSome && decide (48 ≤ byteAt utc 17) &&
    decide (byteAt utc 17 ≤ 53) && isDigit (byteAt utc 18)

def Json.validTime (j : Json) : Bool :=
  let time := j.member 0 (ascii "observed_at")
  if j.str (ascii "time_quality") 160 == some (ascii "uptime_only") then
    j.raw time == ascii "null"
  else (j.string time 24).any validDate

/-- A rule ID's characters. -/
def ruleChar (c : UInt8) : Bool :=
  (decide (97 ≤ c) && decide (c ≤ 122)) || isDigit c || c == 95 || c == 46

def Json.validRules (j : Json) : Bool :=
  (j.member 0 (ascii "rule_ids")).any fun rules =>
    (j.tokens[rules]?).any fun tok =>
      tok.kind == .array && decide (2 ≤ tok.after - rules) && decide (tok.after - rules ≤ 5) &&
        (List.range' (rules + 1) (tok.after - (rules + 1))).all fun i =>
          (j.string (some i) 65).any fun id => !id.isEmpty && id.all ruleChar

/-- The value of a number already checked. -/
def Json.numberAt (j : Json) (key : Bytes) : Int := (j.integer (j.member 0 key)).getD 0

def validateLog (j : Json) : Bool :=
  j.kindAt 0 == some .object &&
  textKeys.all (fun key => (j.str key 160).any fun s => !s.isEmpty) &&
  j.str (ascii "hardware") 160 == some (ascii "E32R40T") &&
  (j.str (ascii "session_id") 160).any (fun s => s.length == 32 && s.all lowerHexDigits.contains) &&
  (j.str (ascii "identifier") 160).any (fun s => s.length == 20 && s.all alphabet.contains) &&
  (j.str (ascii "category") 160).any (fun s => Category.all.any fun c => s == c.name) &&
  j.numberIn (ascii "schema_version") 1 1 && j.numberIn (ascii "score") 1 100 &&
  j.numberIn (ascii "seen_count") 1 0xffffffff && j.numberIn (ascii "channel") 0 14 &&
  j.numberIn (ascii "first_seen_ms") 0 9007199254740991 &&
  j.numberIn (ascii "uptime_ms") 0 9007199254740991 &&
  decide (j.numberAt (ascii "first_seen_ms") ≤ j.numberAt (ascii "uptime_ms")) &&
  j.str (ascii "confidence") 160 == some (grade (j.numberAt (ascii "score")).toNat.toUInt8) &&
  j.numberIn (ascii "rssi_min") (-127) 20 && j.numberIn (ascii "rssi_max") (-127) 20 &&
  j.numberIn (ascii "rssi_avg") (-127) 20 &&
  decide (j.numberAt (ascii "rssi_min") ≤ j.numberAt (ascii "rssi_avg")) &&
  decide (j.numberAt (ascii "rssi_avg") ≤ j.numberAt (ascii "rssi_max")) &&
  j.choice (ascii "radio") (ascii "wifi") (ascii "ble") &&
  j.choice (ascii "region") (ascii "US") (ascii "EU") &&
  j.choice (ascii "privacy_mode") (ascii "private") (ascii "research") &&
  j.choice (ascii "address_type") (ascii "public") (ascii "random") &&
  j.choice (ascii "time_quality") (ascii "uptime_only") (ascii "manual") &&
  j.validTime &&
  (j.member 0 (ascii "meal_awarded")).any (fun t => j.kindAt t == some .boolean) &&
  j.validRules

def validLogRecord (line : Bytes) : Bool :=
  match Json.parse line with
  | some j => validateLog j
  | none => false

/-! ## What the checks say -/

/-- A number of this name lies in a range. -/
def Json.Within (j : Json) (key : Bytes) (lo hi : Int) : Prop :=
  ∃ n, j.integer (j.member 0 key) = some n ∧ lo ≤ n ∧ n ≤ hi

def Json.OneOf (j : Json) (key a b : Bytes) : Prop :=
  j.str key 160 = some a ∨ j.str key 160 = some b

structure Accepted (j : Json) : Prop where
  object : j.kindAt 0 = some .object
  texts : ∀ key ∈ textKeys, ∃ s, j.str key 160 = some s ∧ s ≠ []
  hardware : j.str (ascii "hardware") 160 = some (ascii "E32R40T")
  session : ∃ s, j.str (ascii "session_id") 160 = some s ∧ IsSession s
  identifier : ∃ s, j.str (ascii "identifier") 160 = some s ∧ IsToken s
  category : ∃ c : Category, j.str (ascii "category") 160 = some c.name
  schema : j.Within (ascii "schema_version") 1 1
  score : j.Within (ascii "score") 1 100
  seen : j.Within (ascii "seen_count") 1 0xffffffff
  channel : j.Within (ascii "channel") 0 14
  first : j.Within (ascii "first_seen_ms") 0 9007199254740991
  uptime : j.Within (ascii "uptime_ms") 0 9007199254740991
  ordered : j.numberAt (ascii "first_seen_ms") ≤ j.numberAt (ascii "uptime_ms")
  confidence : j.str (ascii "confidence") 160 =
    some (grade (j.numberAt (ascii "score")).toNat.toUInt8)
  low : j.Within (ascii "rssi_min") (-127) 20
  high : j.Within (ascii "rssi_max") (-127) 20
  average : j.Within (ascii "rssi_avg") (-127) 20
  above : j.numberAt (ascii "rssi_min") ≤ j.numberAt (ascii "rssi_avg")
  below : j.numberAt (ascii "rssi_avg") ≤ j.numberAt (ascii "rssi_max")
  radio : j.OneOf (ascii "radio") (ascii "wifi") (ascii "ble")
  region : j.OneOf (ascii "region") (ascii "US") (ascii "EU")
  privacy : j.OneOf (ascii "privacy_mode") (ascii "private") (ascii "research")
  address : j.OneOf (ascii "address_type") (ascii "public") (ascii "random")
  quality : j.OneOf (ascii "time_quality") (ascii "uptime_only") (ascii "manual")
  time : j.validTime = true
  meal : ∃ t, j.member 0 (ascii "meal_awarded") = some t ∧ j.kindAt t = some .boolean
  rules : j.validRules = true

theorem numberIn_iff (j : Json) (key : Bytes) (lo hi : Int) :
    j.numberIn key lo hi = true ↔ j.Within key lo hi := by
  unfold Json.numberIn Json.Within
  cases j.integer (j.member 0 key) <;> simp

theorem choice_iff (j : Json) (key a b : Bytes) : j.choice key a b = true ↔ j.OneOf key a b := by
  unfold Json.choice Json.OneOf
  cases j.str key 160 <;> simp

theorem any_iff {α : Type} (o : Option α) (p : α → Bool) :
    o.any p = true ↔ ∃ a, o = some a ∧ p a = true := by
  cases o <;> simp

theorem validateLog_iff (j : Json) : validateLog j = true ↔ Accepted j := by
  have hcategory : (j.str (ascii "category") 160).any (fun s => Category.all.any fun c => s == c.name) =
      true ↔ ∃ c : Category, j.str (ascii "category") 160 = some c.name := by
    rw [any_iff]
    constructor
    · rintro ⟨s, hs, h⟩
      obtain ⟨c, -, hc⟩ := List.any_eq_true.mp h
      exact ⟨c, by rw [hs, beq_iff_eq.mp hc]⟩
    · rintro ⟨c, hc⟩
      exact ⟨c.name, hc, List.any_eq_true.mpr ⟨c, Category.mem_all c, by simp⟩⟩
  have htexts : textKeys.all (fun key => (j.str key 160).any fun s => !s.isEmpty) = true ↔
      ∀ key ∈ textKeys, ∃ s, j.str key 160 = some s ∧ s ≠ [] := by
    simp [List.all_eq_true, any_iff]
  have hsession : (j.str (ascii "session_id") 160).any
      (fun s => s.length == 32 && s.all lowerHexDigits.contains) = true ↔
      ∃ s, j.str (ascii "session_id") 160 = some s ∧ IsSession s := by
    simp [any_iff, IsSession]
  have hidentifier : (j.str (ascii "identifier") 160).any
      (fun s => s.length == 20 && s.all alphabet.contains) = true ↔
      ∃ s, j.str (ascii "identifier") 160 = some s ∧ IsToken s := by
    simp [any_iff, IsToken]
  have hmeal : (j.member 0 (ascii "meal_awarded")).any (fun t => j.kindAt t == some .boolean) = true ↔
      ∃ t, j.member 0 (ascii "meal_awarded") = some t ∧ j.kindAt t = some .boolean := by
    simp [any_iff]
  unfold validateLog
  simp only [Bool.and_eq_true, beq_iff_eq, decide_eq_true_eq, htexts, hsession, hidentifier,
    hcategory, hmeal, numberIn_iff, choice_iff, and_assoc]
  constructor
  · rintro ⟨object, texts, hardware, session, identifier, category, schema, score, seen, channel,
      first, uptime, ordered, confidence, low, high, average, above, below, radio, region, privacy,
      address, quality, time, meal, rules⟩
    exact ⟨object, texts, hardware, session, identifier, category, schema, score, seen, channel,
      first, uptime, ordered, confidence, low, high, average, above, below, radio, region, privacy,
      address, quality, time, meal, rules⟩
  · rintro ⟨object, texts, hardware, session, identifier, category, schema, score, seen, channel,
      first, uptime, ordered, confidence, low, high, average, above, below, radio, region, privacy,
      address, quality, time, meal, rules⟩
    exact ⟨object, texts, hardware, session, identifier, category, schema, score, seen, channel,
      first, uptime, ordered, confidence, low, high, average, above, below, radio, region, privacy,
      address, quality, time, meal, rules⟩

end Hound
