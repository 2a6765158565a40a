import Hound.Core.CompileSignatures
import Hound.Core.Utc
import Hound.Records.TokenLetters

/-!
# Sanitising a row on the host

`sanitize` of `export_logs.py`: what `json.loads` gave is checked field by field
and its tokens are replaced. A Python string is the list of its code points.
-/

namespace Hound.Host

abbrev Str := List Nat

def codes (s : String) : Str := s.toList.map Char.toNat

/-- What `json.loads` gives. A float is its bits. -/
inductive PyValue where
  | none
  | bool (b : Bool)
  | int (n : Int)
  | float (bits : UInt64)
  | str (s : Str)
  | list (items : List PyValue)
  | dict (entries : List (Str × PyValue))

abbrev PyDict := List (Str × PyValue)

namespace PyValue

/-- `value == 1`, which the true Boolean and a float also satisfy. -/
def isOne : PyValue → Bool
  | .bool b => b
  | .int n => n == 1
  | .float bits => bits == 0x3FF0000000000000
  | _ => false

def isStr (s : Str) : PyValue → Bool
  | .str t => t == s
  | _ => false

def oneOf (choices : List Str) : PyValue → Option Str
  | .str s => if choices.contains s then some s else Option.none
  | _ => Option.none

def strings : List PyValue → Option (List Str)
  | [] => some []
  | .str s :: rest => (strings rest).map (s :: ·)
  | _ :: _ => Option.none

end PyValue

namespace PyDict

def getOr (row : PyDict) (key : String) (default : PyValue) : PyValue := (row.lookup (codes key)).getD default

def get (row : PyDict) (key : String) : PyValue := row.getOr key .none

end PyDict

/-! ## Patterns -/

def isLetter (first last : Char) (c : Nat) : Bool := decide (first.toNat ≤ c) && decide (c ≤ last.toNat)

def isDecimal (c : Nat) : Bool := isLetter '0' '9' c

def hexPattern (n : Nat) (s : Str) : Bool := s.length == n && s.all fun c => isLetter 'a' 'f' c || isDecimal c

/-- `[A-Z2-7]{20}` -/
def tokenPattern (s : Str) : Bool := s.length == 20 && s.all fun c => isLetter 'A' 'Z' c || isLetter '2' '7' c

/-- The text after `[0-9]+` and a separator. -/
def afterNumber (separator : Char) (s : Str) : Option Str :=
  match s.span isDecimal with
  | (_ :: _, c :: rest) => if c == separator.toNat then some rest else none
  | _ => none

def suffixPattern : Str → Bool
  | [] => true
  | c :: rest => c == '-'.toNat && !rest.isEmpty && rest.all fun c => isLetter 'a' 'z' c || isDecimal c || c == '.'.toNat

/-- `[0-9]+\.[0-9]+\.[0-9]+(?:-[a-z0-9.]+)?` -/
def firmwarePattern (s : Str) : Bool :=
  ((afterNumber '.' s).bind (afterNumber '.')).any fun rest =>
    !(rest.takeWhile isDecimal).isEmpty && suffixPattern (rest.dropWhile isDecimal)

def packPattern : Str → Bool
  | [] => false
  | c :: rest => c == 'v'.toNat && (afterNumber '-' rest).any (hexPattern 12)

/-- `20[0-9]{2}-[0-9]{2}-[0-9]{2}T[0-9]{2}:[0-9]{2}:[0-9]{2}Z`; a zero stands for a digit. -/
def datePattern (s : Str) : Bool :=
  let shape := codes "2000-00-00T00:00:00Z"
  s.length == shape.length && s.take 2 == codes "20" &&
    (s.zip shape).all fun p => if p.2 == '0'.toNat then isDecimal p.1 else p.1 == p.2

def numberAt (s : Str) (i : Nat) : Nat := ((s.drop i).take 2).foldl (fun n c => n * 10 + (c - '0'.toNat)) 0

/-- What `datetime.datetime.strptime` asks of a text of that pattern. -/
def strptime (s : Str) : Bool :=
  let year := 2000 + numberAt s 2
  let month := numberAt s 5
  let day := numberAt s 8
  decide (1 ≤ month) && decide (month ≤ 12) && decide (1 ≤ day) &&
    decide (day ≤ (monthLengths year).getD (month - 1) 0) &&
    decide (numberAt s 11 ≤ 23) && decide (numberAt s 14 ≤ 59) && decide (numberAt s 17 ≤ 59)

/-! ## The checks -/

namespace PyDict

def integer (row : PyDict) (key : String) (low high : Int) : Except String Int :=
  match row.get key with
  | .int value => if low ≤ value ∧ value ≤ high then .ok value else .error ("Invalid " ++ key)
  | _ => .error ("Invalid " ++ key)

def text (row : PyDict) (key : String) (pattern : Str → Bool) : Except String Str :=
  match row.get key with
  | .str value => if pattern value then .ok value else .error ("Invalid " ++ key)
  | _ => .error ("Invalid " ++ key)

/-- `value not in (…)`, for a value that was read before. -/
def choice (value : PyValue) (choices : List String) (message : String) : Except String Str :=
  match value.oneOf (choices.map codes) with
  | some s => .ok s
  | none => .error message

end PyDict

/-- An ID of a released rule of this category. -/
def releasedRule (catalog : List SignatureEntry) (category : Str) (id : Str) : Bool :=
  (catalog.find? fun r => codes r.id == id).any fun r => !r.experimental && codes r.category == category

def ruleIdsOf (catalog : List SignatureEntry) (row : PyDict) (category : Str) : Except String (List Str) :=
  match row.get "rule_ids" with
  | .list items =>
    match PyValue.strings items with
    | some ids =>
      if 1 ≤ ids.length ∧ ids.length ≤ 4 then
        if ids.all (releasedRule catalog category) then .ok ids
        else .error "Unverified or mismatched rule IDs; demo records are not exportable"
      else .error "Invalid rule IDs"
    | none => .error "Invalid rule IDs"
  | _ => .error "Invalid rule IDs"

def observedAt (row : PyDict) : Except String (Option Str × Str) :=
  let observed := row.get "observed_at"
  let quality := row.getOr "time_quality" (.str (codes "uptime_only"))
  if quality.isStr (codes "manual") then
    match observed with
    | .str s =>
      if datePattern s then
        if strptime s then .ok (some s, codes "manual")
        else .error "time data does not match format '%Y-%m-%dT%H:%M:%SZ'"
      else .error "Invalid manual timestamp"
    | _ => .error "Invalid manual timestamp"
  else
    match quality.isStr (codes "uptime_only"), observed with
    | true, .none => .ok (none, codes "uptime_only")
    | _, _ => .error "Invalid time quality"

/-- The `dict` that `sanitize` returns. -/
structure SanitizedRow where
  observedAt : Option Str
  timeQuality : Str
  sessionId : Str
  identifier : Str
  category : Str
  ruleIds : List Str
  firstSeenMs : Int
  lastSeenMs : Int
  score : Int
  rssiMin : Int
  rssiMax : Int
  seenCount : Int
  channel : Int
  radio : Str
  firmwareVersion : Str
  signaturePack : Str
  region : Str
  sourcePrivacyMode : Str
  deriving DecidableEq

def encodeAscii (s : Str) : Bytes := s.map Nat.toUInt8

/-- `digest("session:" + session)[:16].hex()`. -/
def publicSession (digest : Bytes → Digest) (session : Str) : Str :=
  (lowerHex ((digest (encodeAscii (codes "session:" ++ session))).toList.take 16)).map UInt8.toNat

/-- `base64.b32encode(digest("device:" + session + ":" + token)[:12])` without its padding. -/
def publicToken (digest : Bytes → Digest) (session token : Str) : Str :=
  (base32 ((digest (encodeAscii (codes "device:" ++ session ++ codes ":" ++ token))).toList.take 12)).map UInt8.toNat

/-- `sanitize`; `digest` is HMAC-SHA256 under the key of the export. -/
def sanitize (digest : Bytes → Digest) (catalog : List SignatureEntry) : PyValue → Except String SanitizedRow
  | .dict entries => do
    let row : PyDict := entries
    if !(row.get "schema_version").isOne then throw "Unsupported observation schema"
    let category ← PyDict.choice (row.get "category") (categories.map Prod.fst) "Unknown category"
    let ids ← ruleIdsOf catalog row category
    let session ← row.text "session_id" (hexPattern 32)
    let token ← row.text "identifier" tokenPattern
    let first ← row.integer "first_seen_ms" 0 (2 ^ 53 - 1)
    let last ← row.integer "uptime_ms" first (2 ^ 53 - 1)
    let score ← row.integer "score" 1 100
    let rmin ← row.integer "rssi_min" (-127) 20
    let rmax ← row.integer "rssi_max" rmin 20
    let seen ← row.integer "seen_count" 1 (2 ^ 32 - 1)
    let channel ← row.integer "channel" 0 14
    let radio ← PyDict.choice (row.get "radio") ["wifi", "ble"] "Invalid radio"
    let firmware ← row.text "firmware_version" firmwarePattern
    let pack ← row.text "signature_pack" packPattern
    let region ← PyDict.choice (row.getOr "region" (.str (codes "unknown"))) ["US", "EU", "unknown"] "Invalid region"
    let privacy ← PyDict.choice (row.get "privacy_mode") ["private", "research"] "Invalid privacy mode"
    let (observed, quality) ← observedAt row
    return {
      observedAt := observed
      timeQuality := quality
      sessionId := publicSession digest session
      identifier := publicToken digest session token
      category
      ruleIds := ids.dedup.insertionSort (· ≤ ·)
      firstSeenMs := first
      lastSeenMs := last
      score
      rssiMin := rmin
      rssiMax := rmax
      seenCount := seen
      channel
      radio
      firmwareVersion := firmware
      signaturePack := pack
      region
      sourcePrivacyMode := privacy }
  | _ => .error "Unsupported observation schema"

end Hound.Host
