import Hound.Core.Matches

/-!
# The signature compiler

`validate` of `compile_signatures.py` over the entries of the data files, after
the ledger of sources has passed its own checks, and the `Rule` that `generate`
writes for an accepted entry.
-/

namespace Hound

def categories : List (String × Category) :=
  [("FLOCK", .FLOCK), ("AXON", .AXON), ("GLASSES", .GLASSES), ("SKIMMER", .SKIMMER),
    ("RAVEN", .RAVEN), ("AIRTAG", .AIRTAG), ("TILE", .TILE), ("SAMSUNG_TAG", .SAMSUNG_TAG),
    ("GOOGLE_TAG", .GOOGLE_TAG), ("DRONE", .DRONE), ("ALPR", .ALPR), ("CAMERA", .CAMERA),
    ("RING", .RING), ("IBEACON", .IBEACON), ("FLIPPER", .FLIPPER), ("PWNAGOTCHI", .PWNAGOTCHI),
    ("PINEAPPLE", .PINEAPPLE), ("DEAUTH", .DEAUTH), ("EVIL_TWIN", .EVIL_TWIN)]

def kinds : List (String × Kind) :=
  [("wifi_oui", .Oui), ("wifi_ssid_exact", .SsidExact), ("wifi_ssid_prefix", .SsidPrefix),
    ("ble_name_exact", .NameExact), ("ble_name_prefix", .NamePrefix), ("ble_uuid16", .Uuid16),
    ("ble_uuid128", .Uuid128), ("ble_company_id", .Company), ("payload_prefix", .Payload),
    ("protocol", .Protocol), ("behavior", .Behavior)]

/-- `CAPS`. -/
def confidenceCaps : List (String × Nat) :=
  [("high", 100), ("medium", 79), ("low", 49), ("informational", 19)]

def protocols : List String :=
  ["ibeacon", "fast_pair_model", "find_hub", "remote_id", "apple_find_my", "pwnagotchi"]

def behaviors : List String := ["deauth_burst", "security_downgrade", "security_corroborated"]

/-- The kinds whose value is hexadecimal. -/
def hexKinds : List String :=
  ["wifi_oui", "ble_uuid16", "ble_company_id", "payload_prefix", "ble_uuid128"]

/-- The kinds whose value is a name anyone can take. -/
def nameKinds : List String :=
  ["wifi_ssid_exact", "wifi_ssid_prefix", "ble_name_exact", "ble_name_prefix"]

/-- The fields of a source that an entry naming it has to repeat. -/
structure Provenance where
  ruleId : String
  category : String
  signalKind : String
  value : String
  confidenceCap : String
  deriving DecidableEq

/-- An entry of a signature file; `value` is the one field of its matcher. -/
structure SignatureEntry where
  id : String
  category : String
  enabledByDefault : Bool := false
  experimental : Bool := true
  evidenceKind : String
  value : String
  score : Int := 1
  confidenceCap : String := "low"
  generic : Bool := false
  vendorLabel : String := "-"
  reason : String := "-"
  food : String := "-"
  provenanceRefs : List String := []
  deriving DecidableEq

/-- `any(ord(c) < 32 or ord(c) > 126 for c in s)` does not hold. -/
def printable (s : String) : Bool := s.toList.all fun c => 32 ≤ c.toNat && c.toNat ≤ 126

namespace SignatureEntry

/-- `[a-z][a-z0-9_.]{1,63}` -/
def idOk (id : String) : Bool :=
  match id.toList with
  | [] => false
  | c :: rest =>
      decide ('a' ≤ c) && decide (c ≤ 'z') && decide (1 ≤ rest.length) && decide (rest.length ≤ 63) &&
        rest.all fun c => decide ('a' ≤ c) && decide (c ≤ 'z') || decide ('0' ≤ c) && decide (c ≤ '9') ||
          c == '_' || c == '.'

def textOk (limit : Nat) (s : String) : Bool :=
  decide (1 ≤ s.length) && decide (s.length ≤ limit) && printable s

/-- `int(v[:2], 16)`. -/
def firstOctet (s : SignatureEntry) : Nat :=
  match (ascii s.value).take 2 with
  | [a, b] => (hex a).getD 0 * 16 + (hex b).getD 0
  | _ => 0

/-- `[0-9A-F]+` in pairs, of the width the kind asks for. -/
def hexOk (s : SignatureEntry) : Bool :=
  let k := s.evidenceKind
  (ascii s.value).all (fun c => (hex c).isSome) && s.value.length % 2 == 0 &&
    !(k == "wifi_oui" && s.value.length != 6 ||
      (k == "ble_uuid16" || k == "ble_company_id") && s.value.length != 4 ||
      k == "ble_uuid128" && s.value.length != 32)

/-- The checks of the matcher; `cap` is `CAPS[confidence_cap]`. -/
def matcherOk (s : SignatureEntry) (cap : Nat) : Bool :=
  let k := s.evidenceKind
  textOk 64 s.value &&
    (!hexKinds.contains k || s.hexOk) &&
    !(k == "protocol" && !protocols.contains s.value || k == "behavior" && !behaviors.contains s.value) &&
    !(k == "wifi_oui" && s.firstOctet &&& 1 != 0) &&
    !((s.generic || k == "wifi_oui" && s.firstOctet &&& 2 != 0) && decide (49 < cap)) &&
    !(nameKinds.contains k && decide (79 < cap))

def refOk (ledger : String → Option Provenance) (s : SignatureEntry) (ref : String) : Bool :=
  ledger ref == some ⟨s.id, s.category, s.evidenceKind, s.value, s.confidenceCap⟩

/-- The checks of one entry that do not look at the entries before it. -/
def ok (ledger : String → Option Provenance) (s : SignatureEntry) : Bool :=
  match confidenceCaps.lookup s.confidenceCap with
  | none => false
  | some cap =>
      idOk s.id && (categories.lookup s.category).isSome && (kinds.lookup s.evidenceKind).isSome &&
        decide (1 ≤ s.score) && decide (s.score ≤ cap) && !(s.experimental && s.enabledByDefault) &&
        textOk 40 s.vendorLabel && textOk 120 s.reason && textOk 24 s.food && s.matcherOk cap &&
        decide s.provenanceRefs.Nodup && (s.experimental || !s.provenanceRefs.isEmpty) &&
        s.provenanceRefs.all (refOk ledger s)

end SignatureEntry

/-- The loop over the entries, with the identifiers and the matchers met so far. -/
def entriesOk (ledger : String → Option Provenance) :
    List String → List (String × String) → List SignatureEntry → Bool
  | _, _, [] => true
  | ids, matchers, s :: rest =>
      !ids.contains s.id && s.ok ledger && !matchers.contains (s.evidenceKind, s.value) &&
        entriesOk ledger (s.id :: ids) ((s.evidenceKind, s.value) :: matchers) rest

/-- The entries in the order of their identifiers, if all are accepted and name every category. -/
def validate (ledger : String → Option Provenance) (entries : List SignatureEntry) :
    Option (List SignatureEntry) :=
  if entriesOk ledger [] [] entries &&
      categories.all (fun c => entries.any fun s => s.category == c.1) then
    some (entries.mergeSort fun a b => decide (a.id ≤ b.id))
  else none

/-- What `generate` writes for an entry. -/
def SignatureEntry.compiled (s : SignatureEntry) : Option Rule := do
  let category ← categories.lookup s.category
  let kind ← kinds.lookup s.evidenceKind
  let cap ← confidenceCaps.lookup s.confidenceCap
  some
    { id := ascii s.id, category, kind, value := ascii s.value, score := s.score.toNat.toUInt8
      cap := cap.toUInt8, generic := s.generic, label := ascii s.vendorLabel
      reason := ascii s.reason }

/-! ## Accepted entries -/

section Accepted

variable {ledger : String → Option Provenance}

theorem entriesOk_mem {ids : List String} {matchers : List (String × String)}
    {entries : List SignatureEntry} (h : entriesOk ledger ids matchers entries = true) :
    ∀ s ∈ entries, s.ok ledger = true := by
  induction entries generalizing ids matchers with
  | nil => simp
  | cons e rest ih =>
    simp only [entriesOk, Bool.and_eq_true] at h
    obtain ⟨⟨⟨-, hone⟩, -⟩, hrest⟩ := h
    intro s hs
    rcases List.mem_cons.mp hs with rfl | hs
    · exact hone
    · exact ih hrest s hs

theorem validate_mem {entries accepted : List SignatureEntry}
    (h : validate ledger entries = some accepted) : ∀ s ∈ accepted, s.ok ledger = true := by
  unfold validate at h
  split at h
  · rename_i hok
    simp only [Bool.and_eq_true] at hok
    obtain rfl := Option.some.inj h
    intro s hs
    exact entriesOk_mem hok.1 s (List.mem_mergeSort.mp hs)
  · cases h

/-- What an accepted entry's rule keeps of it. -/
structure SignatureEntry.Accepted (s : SignatureEntry) (r : Rule) : Prop where
  compiled : s.compiled = some r
  kind : kinds.lookup s.evidenceKind = some r.kind
  value : r.value = ascii s.value
  cap : ∃ cap, s.matcherOk cap = true

theorem SignatureEntry.ok_compiled {s : SignatureEntry} (h : s.ok ledger = true) : ∃ r, s.Accepted r := by
  unfold SignatureEntry.ok at h
  cases hcap : confidenceCaps.lookup s.confidenceCap with
  | none => simp [hcap] at h
  | some cap =>
    simp only [hcap, Bool.and_eq_true] at h
    obtain ⟨category, hcategory⟩ := Option.isSome_iff_exists.mp h.1.1.1.1.1.1.1.1.1.1.1.2
    obtain ⟨kind, hkind⟩ := Option.isSome_iff_exists.mp h.1.1.1.1.1.1.1.1.1.1.2
    have hcompiled : s.compiled = some
        { id := ascii s.id, category, kind, value := ascii s.value, score := s.score.toNat.toUInt8
          cap := cap.toUInt8, generic := s.generic, label := ascii s.vendorLabel
          reason := ascii s.reason } := by
      unfold SignatureEntry.compiled
      rw [hcategory, hkind, hcap]
      rfl
    exact ⟨_, hcompiled, hkind, rfl, cap, h.1.1.1.2⟩

end Accepted

end Hound
