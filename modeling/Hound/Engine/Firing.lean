import Hound.Core.RulePackets
import Hound.Engine.Tables

/-!
# Rules that fire

A rule is alive when some packets make the engine's evaluation of it succeed.
For a behavior rule the packets before the last one matter: twenty dismissals
fill a burst's ring, and a beacon is remembered until its rival is heard.
-/

namespace Hound

/-- The engine after the observations `os`, with every category enabled. -/
def Engine.heard (sort : SortFn Rule) (e : Engine) (os : List Observation) : Engine :=
  os.foldl (fun e o => (e.ingest sort o {} 4).1) e

/-- Some accepted packets make the evaluation of `r` succeed while the last one is ingested. -/
def Fires (sort : SortFn Rule) (rules : List Rule) (r : Rule) : Prop :=
  ∃ (packets : List Packet) (os : List Observation) (last : Packet) (o : Observation)
    (before after : List Rule),
    packets.map Packet.observed = os.map some ∧ last.observed = some o ∧ rules = before ++ r :: after ∧
    ((before.foldl (Pass.apply {} o) { engine := Engine.heard sort { rules } os }).engine.evaluate r o).1 =
      true

theorem enabled_default (c : Category) : hasCategory ({} : Settings).enabledCategories c = true := by
  cases c <;> decide

/-! ## Bursts of dismissals -/

section Bursts

variable {o : Observation}

/-- The burst of `o`'s sender has counted `n` frames, all at time zero. -/
def Warm (o : Observation) (n : Nat) (e : Engine) : Prop :=
  (n = 0 ∧ e.bursts = fun _ => .unused) ∨
  ∃ i, e.burstSlot o = some i ∧ min n 20 ≤ (e.bursts i).count ∧
    (e.bursts i).times = Vector.replicate 20 0

theorem Warm.weaken {n : Nat} {e : Engine} (h : Warm o (n + 1) e) : Warm o n e := by
  rcases h with ⟨hno, -⟩ | ⟨i, hslot, hcount, htimes⟩
  · omega
  · exact .inr ⟨i, hslot, by omega, htimes⟩

/-- The slot of the sender stays its slot, and holds what was recorded. -/
theorem record_slot {e : Engine} {b : Burst} {i : Fin 16} (hms : o.ms = 0)
    (hkey : b.used = true ∧ b.address = o.address ∧ b.channel = o.channel)
    (hfirst : ∀ j < i, ((e.bursts j).used && (e.bursts j).address == o.address &&
      (e.bursts j).channel == o.channel) = false)
    (htimes : b.times = Vector.replicate 20 0) :
    ({ e with bursts := Function.update e.bursts i (Engine.Burst.record b o.ms) } : Engine).burstSlot o =
      some i ∧ (Engine.Burst.record b o.ms).times = Vector.replicate 20 0 := by
  obtain ⟨hused, haddress, hchannel⟩ := hkey
  constructor
  · unfold Engine.burstSlot
    rw [Slots.first_eq_some]
    constructor
    · simp [Engine.Burst.record, hused, haddress, hchannel]
    · intro j hj
      have hne : j ≠ i := Fin.ne_of_lt hj
      simpa [Function.update_of_ne hne] using hfirst j hj
  · unfold Engine.Burst.record
    rw [htimes, hms]
    ext k hk
    simp

theorem record_count (b : Burst) (ms : UInt64) :
    (Engine.Burst.record b ms).count = min 20 (b.count + 1) := rfl

/-- A burst whose frames all lie at time zero is full with the twentieth. -/
theorem full_record {b : Burst} (hms : o.ms = 0) (hcount : 19 ≤ b.count)
    (htimes : (Engine.Burst.record b o.ms).times = Vector.replicate 20 0) :
    Engine.Burst.full (Engine.Burst.record b o.ms) o.ms = true := by
  have htwenty : (Engine.Burst.record b o.ms).count = 20 := by
    rw [record_count]
    omega
  unfold Engine.Burst.full
  rw [htwenty, htimes, hms]
  simp

/-- One more frame of the burst. -/
theorem Warm.frame {n : Nat} {e : Engine} (hms : o.ms = 0) (hsubtype : o.subtype = 10 ∨ o.subtype = 12)
    (h : Warm o n e) : Warm o (n + 1) (e.deauthBurst o).2 ∧ (19 ≤ n → (e.deauthBurst o).1 = true) := by
  have hdismissal : (o.subtype != 10 && o.subtype != 12) = false := by
    rcases hsubtype with hs | hs <;> rw [hs] <;> decide
  unfold Engine.deauthBurst
  rw [hdismissal]
  simp only [Bool.false_eq_true, if_false]
  rcases h with ⟨rfl, hunused⟩ | ⟨i, hslot, hcount, htimes⟩
  · have hnone : e.burstSlot o = none := by
      unfold Engine.burstSlot
      rw [Slots.first_eq_none, hunused]
      intro j
      rfl
    have hfirst : ∀ j < e.burstVictim, ((e.bursts j).used && (e.bursts j).address == o.address &&
        (e.bursts j).channel == o.channel) = false := by
      rw [hunused]
      intro j _
      rfl
    obtain ⟨hslot, htimes⟩ := @record_slot o e { used := true, address := o.address, channel := o.channel }
      e.burstVictim hms ⟨rfl, rfl, rfl⟩ hfirst rfl
    rw [hnone]
    refine ⟨.inr ⟨e.burstVictim, hslot, ?_, ?_⟩, fun hno => absurd hno (by decide)⟩
    · simp [record_count]
    · simpa using htimes
  · obtain ⟨hkey, hfirst⟩ := Slots.first_eq_some.mp hslot
    simp only [Bool.and_eq_true, beq_iff_eq] at hkey
    obtain ⟨⟨hused, haddress⟩, hchannel⟩ := hkey
    obtain ⟨hslot', htimes'⟩ := @record_slot o e (e.bursts i) i hms ⟨hused, haddress, hchannel⟩ hfirst
      htimes
    rw [hslot]
    refine ⟨.inr ⟨i, hslot', ?_, ?_⟩, ?_⟩
    · simp only [Function.update_self, record_count]
      omega
    · simpa using htimes'
    · intro hfull
      have hnearly : 19 ≤ (e.bursts i).count := by omega
      exact full_record hms hnearly htimes'

theorem Warm.of_bursts {n : Nat} {e e' : Engine} (hbursts : e'.bursts = e.bursts) (h : Warm o n e) :
    Warm o n e' := by
  unfold Warm Engine.burstSlot at h ⊢
  rw [hbursts]
  exact h

/-- Whatever rule is evaluated, the burst loses no frame. -/
theorem Warm.evaluate {n : Nat} {e : Engine} (hms : o.ms = 0)
    (hsubtype : o.subtype = 10 ∨ o.subtype = 12) (h : Warm o n e) (rule : Rule) :
    Warm o n (e.evaluate rule o).2 := by
  unfold Engine.evaluate
  split
  · unfold Engine.behavior
    split
    · exact h
    · split
      · exact (h.frame hms hsubtype).1.weaken
      · split
        · exact h
        · split
          · exact h
          · exact h
  · exact h

theorem evaluate_deauth {e : Engine} {r : Rule} (hradio : o.radio = .Wifi) (hkind : r.kind = .Behavior)
    (hvalue : r.value = ascii "deauth_burst") : e.evaluate r o = e.deauthBurst o := by
  unfold Engine.evaluate Engine.behavior
  rw [hkind, hradio, hvalue]
  rfl

theorem Warm.apply {n : Nat} {p : Pass} (hms : o.ms = 0) (hsubtype : o.subtype = 10 ∨ o.subtype = 12)
    (h : Warm o n p.engine) (rule : Rule) : Warm o n (p.apply {} o rule).engine :=
  (h.evaluate hms hsubtype rule).of_bursts (apply_engine {} o p rule (enabled_default _)).1

theorem Warm.walk {n : Nat} {p : Pass} (hms : o.ms = 0) (hsubtype : o.subtype = 10 ∨ o.subtype = 12)
    (h : Warm o n p.engine) (rules : List Rule) :
    Warm o n (rules.foldl (Pass.apply {} o) p).engine := by
  induction rules generalizing p with
  | nil => exact h
  | cons rule rules ih => exact ih (h.apply hms hsubtype rule)

/-- An ingest counts the frame when the rule is among the engine's. -/
theorem Warm.ingest {n : Nat} {e : Engine} {before after : List Rule} {r : Rule} (sort : SortFn Rule)
    (hms : o.ms = 0) (hsubtype : o.subtype = 10 ∨ o.subtype = 12) (hradio : o.radio = .Wifi)
    (hkind : r.kind = .Behavior) (hvalue : r.value = ascii "deauth_burst")
    (hrules : e.rules = before ++ r :: after) (h : Warm o n e) :
    Warm o (n + 1) (e.ingest sort o {} 4).1 := by
  refine Warm.of_bursts (ingest_engine {} o sort e 4).1 ?_
  unfold Engine.walk
  rw [hrules, List.foldl_append, List.foldl_cons]
  have hbefore : Warm o n (before.foldl (Pass.apply {} o) { engine := e }).engine :=
    Warm.walk hms hsubtype h before
  have hframe := (hbefore.frame hms hsubtype).1
  rw [← evaluate_deauth hradio hkind hvalue] at hframe
  exact Warm.walk hms hsubtype
    (hframe.of_bursts (apply_engine {} o _ r (enabled_default _)).1) after

/-- After `n` copies of a dismissal. -/
theorem Warm.run {rules before after : List Rule} {r : Rule} (sort : SortFn Rule) (hms : o.ms = 0)
    (hsubtype : o.subtype = 10 ∨ o.subtype = 12) (hradio : o.radio = .Wifi)
    (hkind : r.kind = .Behavior) (hvalue : r.value = ascii "deauth_burst")
    (hrules : rules = before ++ r :: after) (n : Nat) :
    (Engine.heard sort { rules } (List.replicate n o)).rules = rules ∧
    Warm o n (Engine.heard sort { rules } (List.replicate n o)) := by
  induction n with
  | zero => exact ⟨rfl, .inl ⟨rfl, rfl⟩⟩
  | succ n ih =>
    obtain ⟨hsame, hwarm⟩ := ih
    have hlast : Engine.heard sort { rules } (List.replicate (n + 1) o) =
        ((Engine.heard sort { rules } (List.replicate n o)).ingest sort o {} 4).1 := by
      unfold Engine.heard
      rw [List.replicate_succ', List.foldl_append]
      rfl
    rw [hlast]
    exact ⟨(ingest_engine {} o sort _ 4).2.1.trans hsame,
      hwarm.ingest sort hms hsubtype hradio hkind hvalue (hsame.trans hrules)⟩

theorem copies_observed {packet : Packet} (h : packet.observed = some o) (n : Nat) :
    (List.replicate n packet).map Packet.observed = (List.replicate n o).map some := by
  rw [List.map_replicate, List.map_replicate, h]

/-- The twentieth copy fires the rule, wherever it stands. -/
theorem burst_fires {rules before after : List Rule} {r : Rule} (sort : SortFn Rule) (hms : o.ms = 0)
    (hsubtype : o.subtype = 10 ∨ o.subtype = 12) (hradio : o.radio = .Wifi)
    (hkind : r.kind = .Behavior) (hvalue : r.value = ascii "deauth_burst")
    (hrules : rules = before ++ r :: after) {n : Nat} (hn : 19 ≤ n) :
    ((before.foldl (Pass.apply {} o)
      { engine := Engine.heard sort { rules } (List.replicate n o) }).engine.evaluate r o).1 = true := by
  obtain ⟨-, hwarm⟩ := Warm.run sort hms hsubtype hradio hkind hvalue hrules n
  have hbefore : Warm o n (before.foldl (Pass.apply {} o)
      { engine := Engine.heard sort { rules } (List.replicate n o) }).engine :=
    Warm.walk hms hsubtype hwarm before
  rw [evaluate_deauth hradio hkind hvalue]
  exact (hbefore.frame hms hsubtype).2 hn

theorem deauth_fires (sort : SortFn Rule) {rules : List Rule} {r : Rule} (hmem : r ∈ rules)
    (hkind : r.kind = .Behavior) (hvalue : r.value = ascii "deauth_burst") : Fires sort rules r := by
  obtain ⟨before, after, hrules⟩ := List.append_of_mem hmem
  have hparse : (Packet.wifi 0 0 0 (dismissalFrom 0 0 0)).observed =
      some (wifiHeader (dismissalFrom 0 0 0) {}) := parse_dismissal 0 0 0 {}
  have hsubtype : (wifiHeader (dismissalFrom 0 0 0) {}).subtype = 10 ∨
      (wifiHeader (dismissalFrom 0 0 0) {}).subtype = 12 := .inl (by decide)
  exact ⟨List.replicate 19 (.wifi 0 0 0 (dismissalFrom 0 0 0)),
    List.replicate 19 (wifiHeader (dismissalFrom 0 0 0) {}), .wifi 0 0 0 (dismissalFrom 0 0 0),
    wifiHeader (dismissalFrom 0 0 0) {}, before, after, copies_observed hparse 19, hparse, hrules,
    burst_fires sort rfl hsubtype rfl hkind hvalue hrules (Nat.le_refl 19)⟩

end Bursts

/-! ## Differences in security -/

section Rivals

/-- A protected network on the first channel, heard close by. -/
def protectedBeacon : Packet := .wifi 0 1 (-30) (beaconFrom 0 0 0 0x10 (named [120] []))

/-- The same name without protection, another maker's, on another channel and further off. -/
def openBeacon : Packet := .wifi 0 6 (-60) (beaconFrom 0 0x11 0x22 0 (named [120] []))

def protectedHeard : Observation :=
  described (wifiBase (beaconFrom 0 0 0 0x10 (named [120] [])) { channel := 1, rssi := -30 })
    (named [120] [])

def openHeard : Observation :=
  described (wifiBase (beaconFrom 0 0x11 0x22 0 (named [120] [])) { channel := 6, rssi := -60 })
    (named [120] [])

theorem beacon_observed (a b c caps channel : UInt8) (rssi : Int8) :
    (Packet.wifi 0 channel rssi (beaconFrom a b c caps (named [120] []))).observed =
      some (described (wifiBase (beaconFrom a b c caps (named [120] [])) { channel, rssi })
        (named [120] [])) := by
  have hlen : ¬ 512 < (beaconFrom a b c caps (named [120] [])).length := by
    show ¬ 512 < 41
    decide
  rw [Packet.observed, if_neg hlen]
  exact parse_beacon a b c caps (named_ok [] (by decide)) (by decide) (by decide) rfl _

/-- The first network heard is remembered. -/
theorem remembered (sort : SortFn Rule) (rules : List Rule) :
    ∃ i, (Engine.heard sort { rules } [protectedHeard]).aps i =
      { used := true
        obs := { ms := 0, address := protectedHeard.address, ssid := [120], protectedNetwork := true
                 rsnCaps := 0, rssi := -30, channel := 1, vendorFingerprint := 0 } } := by
  have hheard : (Engine.heard sort { rules } [protectedHeard]).aps =
      (({ rules } : Engine).rememberAp protectedHeard).aps :=
    (ingest_engine {} protectedHeard sort { rules } 4).2.2
  have hsubtype : protectedHeard.subtype = 8 := by decide
  have hprotected : protectedHeard.protectedNetwork = true := by decide
  have hgo : (protectedHeard.radio != .Wifi || (protectedHeard.subtype != 8 &&
      protectedHeard.subtype != 5) || protectedHeard.ssid.isEmpty || protectedHeard.pwnagotchi) = false := by
    rw [hsubtype]
    decide
  rw [hheard]
  unfold Engine.rememberAp
  rw [hgo]
  simp only [Bool.false_eq_true, if_false]
  exact ⟨_, by rw [Function.update_self, hprotected]; rfl⟩

theorem difference_fires (sort : SortFn Rule) {rules : List Rule} {r : Rule} (hmem : r ∈ rules)
    (hkind : r.kind = .Behavior)
    (hvalue : r.value = ascii "security_downgrade" ∨ r.value = ascii "security_corroborated") :
    Fires sort rules r := by
  obtain ⟨before, after, hrules⟩ := List.append_of_mem hmem
  refine ⟨[protectedBeacon], [protectedHeard], openBeacon, openHeard, before, after, ?_, ?_, hrules, ?_⟩
  · exact congrArg (fun x => [x]) (beacon_observed 0 0 0 0x10 1 (-30))
  · exact beacon_observed 0 0x11 0x22 0 6 (-60)
  · obtain ⟨i, hi⟩ := remembered sort rules
    have hwalk := fold_tables {} openHeard before { engine := Engine.heard sort { rules } [protectedHeard] }
    have hcorroborated : ∀ corroborated, Engine.securityDifference
        (before.foldl (Pass.apply {} openHeard)
          { engine := Engine.heard sort { rules } [protectedHeard] }).engine corroborated openHeard =
        true := by
      intro corroborated
      have hsubtype : openHeard.subtype = 8 := by decide
      unfold Engine.securityDifference
      rw [hsubtype, if_neg (by decide), List.any_eq_true]
      refine ⟨i, List.mem_finRange i, ?_⟩
      rw [hwalk.aps, hi]
      cases corroborated with
      | true => decide
      | false => decide
    unfold Engine.evaluate Engine.behavior
    rw [hkind]
    rcases hvalue with hvalue | hvalue
    · rw [hvalue]
      exact hcorroborated false
    · rw [hvalue]
      exact hcorroborated true

end Rivals

/-! ## Accepted rules -/

section Accepted

variable {s : SignatureEntry} {r : Rule}

theorem heard_fires (sort : SortFn Rule) {rules : List Rule} (hmem : r ∈ rules) (hkind : r.kind ≠ .Behavior)
    (h : Heard fun o => ruleMatches r o = true) : Fires sort rules r := by
  obtain ⟨before, after, hrules⟩ := List.append_of_mem hmem
  obtain ⟨packet, o, ho, hmatch⟩ := h
  have hno : ¬ (r.kind == .Behavior) = true := by simpa using hkind
  refine ⟨[], [], packet, o, before, after, rfl, ho, hrules, ?_⟩
  unfold Engine.evaluate
  rw [if_neg hno]
  exact hmatch

theorem behavior_fires (sort : SortFn Rule) {rules : List Rule} (hmem : r ∈ rules) (h : s.Accepted r)
    (hkind : r.kind = .Behavior) : Fires sort rules r := by
  have hname := kind_name h.kind
  have hbehavior : s.evidenceKind = "behavior" := by
    rw [hkind] at hname
    simpa [kinds] using hname
  have hvalue := h.checked.behavior hbehavior
  simp only [behaviors, List.mem_cons, List.not_mem_nil, or_false] at hvalue
  rcases hvalue with hv | hv | hv
  · exact deauth_fires sort hmem hkind (by rw [h.value, hv])
  · exact difference_fires sort hmem hkind (.inl (by rw [h.value, hv]))
  · exact difference_fires sort hmem hkind (.inr (by rw [h.value, hv]))

/-- A locally administered prefix is accepted and names no manufacturer. -/
theorem local_dead (sort : SortFn Rule) {rules : List Rule} (h : s.Accepted r) (hlocal : s.Local) :
    ¬ Fires sort rules r := by
  rintro ⟨-, os, -, o, before, after, -, -, -, hfires⟩
  obtain ⟨a, b, c, hvalue, hbits⟩ := h.oui hlocal.1
  have hname := kind_name h.kind
  have hkind : r.kind = .Oui := by
    rw [hlocal.1] at hname
    simpa [kinds] using hname
  have hdead := oui_local hkind hvalue (fun hglobal => hbits.mp hglobal hlocal) o
  unfold Engine.evaluate at hfires
  rw [hkind, if_neg (by decide), hdead] at hfires
  cases hfires

/-- Among the accepted rules whose names fit a packet, those that never fire are the local prefixes. -/
theorem accepted_fires (sort : SortFn Rule) {ledger : String → Option Provenance}
    {entries accepted : List SignatureEntry} (h : validate ledger entries = some accepted)
    {s : SignatureEntry} (hs : s ∈ accepted) (hfits : s.Fits) :
    ∃ r, s.compiled = some r ∧ ∀ rules, r ∈ rules → (Fires sort rules r ↔ ¬ s.Local) := by
  obtain ⟨r, hr⟩ := SignatureEntry.ok_compiled (validate_mem h s hs)
  refine ⟨r, hr.compiled, fun rules hmem => ⟨fun hfires hlocal => ?_, fun hglobal => ?_⟩⟩
  · exact local_dead sort hr hlocal hfires
  · by_cases hkind : r.kind = .Behavior
    · exact behavior_fires sort hmem hr hkind
    · exact heard_fires sort hmem hkind (hr.heard hkind hglobal hfits)

/-! ## A local prefix -/

def entryOf (id category kind value : String) : SignatureEntry :=
  { id, category, evidenceKind := kind, value }

/-- Entries for all categories; the first has the prefix of locally administered addresses. -/
def localEntries : List SignatureEntry :=
  [entryOf "flock.local" "FLOCK" "wifi_oui" "020000", entryOf "axon.id" "AXON" "ble_company_id" "0001",
    entryOf "glasses.id" "GLASSES" "ble_company_id" "0002",
    entryOf "skimmer.id" "SKIMMER" "ble_company_id" "0003",
    entryOf "raven.id" "RAVEN" "ble_company_id" "0004", entryOf "airtag.id" "AIRTAG" "ble_company_id" "0005",
    entryOf "tile.id" "TILE" "ble_company_id" "0006",
    entryOf "samsung.id" "SAMSUNG_TAG" "ble_company_id" "0007",
    entryOf "google.id" "GOOGLE_TAG" "ble_company_id" "0008",
    entryOf "drone.id" "DRONE" "ble_company_id" "0009", entryOf "alpr.id" "ALPR" "ble_company_id" "000A",
    entryOf "camera.id" "CAMERA" "ble_company_id" "000B", entryOf "ring.id" "RING" "ble_company_id" "000C",
    entryOf "ibeacon.id" "IBEACON" "ble_company_id" "000D",
    entryOf "flipper.id" "FLIPPER" "ble_company_id" "000E",
    entryOf "pwnagotchi.id" "PWNAGOTCHI" "ble_company_id" "000F",
    entryOf "pineapple.id" "PINEAPPLE" "ble_company_id" "0010",
    entryOf "deauth.burst" "DEAUTH" "behavior" "deauth_burst",
    entryOf "evil.twin" "EVIL_TWIN" "behavior" "security_downgrade"]

theorem validate_local : validate (fun _ => none) localEntries =
    some (localEntries.mergeSort fun a b => decide (a.id ≤ b.id)) := by
  have hok : (entriesOk (fun _ => none) [] [] localEntries &&
      categories.all (fun c => localEntries.any fun s => s.category == c.1)) = true := by decide
  unfold validate
  rw [if_pos hok]

theorem accepted_fires_deauth :
    ∃ r, (entryOf "deauth.burst" "DEAUTH" "behavior" "deauth_burst").compiled = some r ∧
      Fires SortFn.insertion [r] r := by
  obtain ⟨r, hr, hfires⟩ := accepted_fires SortFn.insertion validate_local
    (s := entryOf "deauth.burst" "DEAUTH" "behavior" "deauth_burst")
    (List.mem_mergeSort.mpr (by decide)) ⟨by decide, by decide⟩
  exact ⟨r, hr, (hfires [r] List.mem_cons_self).mpr (fun hlocal => absurd hlocal.1 (by decide))⟩

/-- The local prefix passes every check, and no packet makes its rule fire. -/
theorem local_prefix_never_fires :
    ¬ ∀ (ledger : String → Option Provenance) (entries accepted : List SignatureEntry)
      (s : SignatureEntry), validate ledger entries = some accepted → s ∈ accepted →
        ∃ r, s.compiled = some r ∧ Fires SortFn.insertion [r] r := by
  intro hall
  have hs : entryOf "flock.local" "FLOCK" "wifi_oui" "020000" ∈
      localEntries.mergeSort fun a b => decide (a.id ≤ b.id) := List.mem_mergeSort.mpr List.mem_cons_self
  obtain ⟨r, hr, hfires⟩ := hall _ _ _ _ validate_local hs
  obtain ⟨r', hr'⟩ := SignatureEntry.ok_compiled (validate_mem validate_local _ hs)
  obtain rfl : r' = r := by
    have hsame := hr'.compiled.symm.trans hr
    exact Option.some.inj hsame
  exact local_dead SortFn.insertion hr' ⟨rfl, by decide⟩ hfires

end Accepted

end Hound
