import Hound.Core.RulePackets
import Hound.Engine.Firing
import Hound.Engine.Statistics
import Hound.Records.RoundTrip

/-!
# Records of what the engine emits

No callback checks a signal strength before the engine counts it, and the reader
of log lines accepts -127 to 20 dBm. Within that range every emitted detection
can be recorded, whatever was evicted or contradicted on the way.
-/

namespace Hound

/-! ## Rules from the signature compiler -/

section Compiled

variable {s : SignatureEntry} {r : Rule}

theorem textOk_limited {limit : Nat} {text : String} (h : SignatureEntry.textOk limit text = true) :
    Limited limit (ascii text) := by
  unfold SignatureEntry.textOk at h
  simp only [Bool.and_eq_true, decide_eq_true_eq] at h
  obtain ⟨⟨hlow, hhigh⟩, hprintable⟩ := h
  refine ⟨?_, ?_, SignatureEntry.ascii_printable hprintable⟩
  · rw [SignatureEntry.length_ascii]
    exact hlow
  · rw [SignatureEntry.length_ascii]
    exact hhigh

/-- A character of a range of ASCII characters keeps its place as a byte. -/
theorem byte_range {a b c : Char} (hlow : a ≤ c) (hhigh : c ≤ b) (hb : b.toNat < 256) :
    a.toNat ≤ c.toNat.toUInt8.toNat ∧ c.toNat.toUInt8.toNat ≤ b.toNat := by
  have hlow' : a.toNat ≤ c.toNat := hlow
  have hhigh' : c.toNat ≤ b.toNat := hhigh
  have hbyte : c.toNat.toUInt8.toNat = c.toNat := by
    rw [Nat.toUInt8_eq, UInt8.toNat_ofNat']
    omega
  rw [hbyte]
  exact ⟨hlow', hhigh'⟩

theorem idChar_byte {c : Char}
    (h : (decide ('a' ≤ c) && decide (c ≤ 'z') || decide ('0' ≤ c) && decide (c ≤ '9') || c == '_' || c == '.') = true) :
    idChar c.toNat.toUInt8 = true := by
  simp only [Bool.or_eq_true, Bool.and_eq_true, decide_eq_true_eq, beq_iff_eq] at h
  unfold idChar JsonTree.isDigit
  simp only [Bool.or_eq_true, Bool.and_eq_true, decide_eq_true_eq, beq_iff_eq, UInt8.le_iff_toNat_le]
  rcases h with ((⟨hlow, hhigh⟩ | ⟨hlow, hhigh⟩) | rfl) | rfl
  · exact .inl (.inl (.inl (byte_range hlow hhigh (by decide))))
  · exact .inl (.inl (.inr (byte_range hlow hhigh (by decide))))
  · exact .inl (.inr rfl)
  · exact .inr rfl

theorem idOk_legible {id : String} (h : SignatureEntry.idOk id = true) :
    (2 ≤ (ascii id).length ∧ (ascii id).length ≤ 64 ∧ ∀ c ∈ ascii id, idChar c = true) ∧
      ∃ c, (ascii id).head? = some c ∧ 97 ≤ c ∧ c ≤ 122 := by
  unfold SignatureEntry.idOk at h
  unfold ascii
  cases hid : id.toList with
  | nil =>
    rw [hid] at h
    cases h
  | cons c rest =>
    rw [hid] at h
    simp only [Bool.and_eq_true, decide_eq_true_eq, List.all_eq_true] at h
    obtain ⟨⟨⟨⟨hlow, hhigh⟩, hshort⟩, hlong⟩, hall⟩ := h
    have hbyte := byte_range hlow hhigh (by decide)
    have hfirst : idChar c.toNat.toUInt8 = true := by
      refine idChar_byte ?_
      simp [hlow, hhigh]
    refine ⟨⟨?_, ?_, ?_⟩, c.toNat.toUInt8, rfl, ?_, ?_⟩
    · simpa using hshort
    · simpa using Nat.succ_le_succ hlong
    · intro b hb
      rcases List.mem_cons.mp hb with rfl | hb
      · exact hfirst
      · obtain ⟨c', hc', rfl⟩ := List.mem_map.mp hb
        exact idChar_byte (hall c' hc')
    · rw [UInt8.le_iff_toNat_le]
      exact hbyte.1
    · rw [UInt8.le_iff_toNat_le]
      exact hbyte.2

/-- What `generate` writes for an accepted entry can be logged and fused. -/
theorem compiled_rule {ledger : String → Option Provenance} (h : s.ok ledger = true) (hr : s.compiled = some r) :
    r.Legible ∧ (1 ≤ r.score ∧ r.score ≤ r.cap ∧ r.cap ≤ 100) := by
  unfold SignatureEntry.ok at h
  unfold SignatureEntry.compiled at hr
  cases hcap : confidenceCaps.lookup s.confidenceCap with
  | none => simp [hcap] at h
  | some cap =>
    simp only [hcap, Bool.and_eq_true, decide_eq_true_eq] at h
    obtain ⟨⟨⟨⟨⟨⟨⟨⟨⟨⟨⟨⟨hid, -⟩, -⟩, hlow⟩, hhigh⟩, -⟩, hlabel⟩, hreason⟩, -⟩, -⟩, -⟩, -⟩, -⟩ := h
    simp only [bind, Option.bind_eq_some_iff, hcap, Option.some.injEq] at hr
    obtain ⟨category, -, kind, -, _, rfl, rfl⟩ := hr
    obtain ⟨hlength, hstart⟩ := idOk_legible hid
    have hcaps : ∀ p ∈ confidenceCaps, p.2 ≤ 100 := by decide
    have hbound : cap ≤ 100 := by
      obtain ⟨l, l', hsplit, -⟩ := List.lookup_eq_some_iff.mp hcap
      exact hcaps (s.confidenceCap, cap) (by rw [hsplit]; exact List.mem_append_right _ List.mem_cons_self)
    have hscore : s.score.toNat.toUInt8.toNat = s.score.toNat := by
      rw [Nat.toUInt8_eq, UInt8.toNat_ofNat']
      omega
    have hcapByte : cap.toUInt8.toNat = cap := by
      rw [Nat.toUInt8_eq, UInt8.toNat_ofNat']
      omega
    refine ⟨⟨hlength, hstart, textOk_limited hlabel, textOk_limited hreason⟩, ?_, ?_, ?_⟩
    · rw [UInt8.le_iff_toNat_le]
      change 1 ≤ s.score.toNat.toUInt8.toNat
      omega
    · rw [UInt8.le_iff_toNat_le]
      change s.score.toNat.toUInt8.toNat ≤ cap.toUInt8.toNat
      omega
    · rw [UInt8.le_iff_toNat_le]
      change cap.toUInt8.toNat ≤ 100
      omega

end Compiled

/-! ## What the engine counts -/

/-- What the callbacks do not check of a packet. -/
structure Audible (o : Observation) : Prop where
  low : -127 ≤ o.rssi.toInt
  high : o.rssi.toInt ≤ 20
  channel : o.channel ≤ 14
  early : o.ms < 9007199254740992

/-- What holds of every slot between two packets. -/
structure Receivable (now : UInt64) (d : Detection) : Prop where
  real : d.demo = false
  counted : Counted d
  low : -127 ≤ d.rssiMin.toInt
  high : d.rssiMax.toInt ≤ 20
  past : d.lastMs ≤ now

/-- What a packet leaves in the entries it is counted into. -/
structure Updated (o : Observation) (d : Detection) : Prop where
  last : d.lastMs = o.ms
  channel : d.channel = o.channel
  seen : d.seenCount ≠ 0

section Walk

variable {o : Observation}

theorem Receivable.later {now now' : UInt64} {d : Detection} (h : Receivable now d) (hle : now ≤ now') :
    Receivable now' d :=
  ⟨h.real, h.counted, h.low, h.high, UInt64.le_trans h.past hle⟩

theorem receivable_unused (now : UInt64) : Receivable now {} where
  real := rfl
  counted := ⟨UInt64.le_refl _, Int8.le_refl _, by decide, by decide⟩
  low := by decide
  high := by decide
  past := UInt64.zero_le

theorem refreshDetection_demo (o : Observation) (d : Detection) : (refreshDetection o d).demo = d.demo := by
  unfold refreshDetection
  dsimp only
  split <;> rfl

theorem refreshDetection_channel (o : Observation) (d : Detection) : (refreshDetection o d).channel = o.channel := by
  unfold refreshDetection
  dsimp only
  split <;> rfl

theorem refresh_updated (o : Observation) (d : Detection) : Updated o (refreshDetection o d) :=
  ⟨refreshDetection_lastMs o d, refreshDetection_channel o d, refreshDetection_seenCount_ne_zero o d⟩

/-- Counting keeps the extrema between those of the entry and the packet. -/
theorem refresh_receivable {d : Detection} (hreal : d.demo = false) (hcounts : Counts o d) (hlow : -127 ≤ d.rssiMin.toInt)
    (hhigh : d.rssiMax.toInt ≤ 20) (haudible : Audible o) : Receivable o.ms (refreshDetection o d) := by
  obtain ⟨-, hmin, hmax⟩ := refreshDetection_fields o d
  have hlow' := haudible.low
  have hhigh' := haudible.high
  refine ⟨(refreshDetection_demo o d).trans hreal, hcounts.refresh, ?_, ?_, ?_⟩
  · rw [hmin, minInt8_toInt]
    omega
  · rw [hmax, maxInt8_toInt]
    omega
  · rw [refreshDetection_lastMs]
    exact UInt64.le_refl _

theorem locate_receivable {cache : Cache} (c : Category) (haudible : Audible o)
    (h : ∀ s, Receivable o.ms (cache s).detection) :
    Receivable o.ms (refreshDetection o (locate cache c o).2.detection) := by
  cases hl : lookup cache c o with
  | some s =>
    rw [locate_of_some hl]
    have hs := h s
    exact refresh_receivable hs.real (hs.counted.counts hs.past) hs.low hs.high haudible
  | none =>
    rw [locate_of_none hl]
    exact refresh_receivable rfl (counts_fresh c o) haudible.low haudible.high haudible

/-- What the walk keeps; a touched slot may have been taken by another category since. -/
structure Receiving (o : Observation) (p : Pass) : Prop where
  all : ∀ s, Receivable o.ms (p.engine.cache s).detection
  touched : ∀ c s, p.touched c = some s → Updated o (p.engine.cache s).detection

theorem Receiving.apply {p : Pass} (h : Receiving o p) (haudible : Audible o) (settings : Settings) (rule : Rule) :
    Receiving o (p.apply settings o rule) := by
  obtain ⟨-, htouched, hcache⟩ | ⟨s, -, -, htouched, hcache⟩ | ⟨s, e, -, hlocate, htouched, hcache⟩ :=
    Pass.apply_cases settings o p rule
  · constructor
    · rw [hcache]
      exact h.all
    · rw [hcache, htouched]
      exact h.touched
  · have hsame : ∀ j, ((p.apply settings o rule).engine.cache j).detection = (p.engine.cache j).detection := by
      intro j
      rw [hcache]
      by_cases hj : j = s
      · subst hj
        rw [Function.update_self, noteEvidence_detection]
      · rw [Function.update_of_ne hj]
    constructor
    · intro j
      rw [hsame]
      exact h.all j
    · intro c j hc
      rw [htouched] at hc
      rw [hsame]
      exact h.touched c j hc
  · have hreceivable := locate_receivable rule.category haudible h.all
    rw [hlocate] at hreceivable
    have hown : ((p.apply settings o rule).engine.cache s).detection = refreshDetection o e.detection := by
      rw [hcache, Function.update_self, noteEvidence_detection, refresh_detection]
    have hother : ∀ j, j ≠ s → (p.apply settings o rule).engine.cache j = p.engine.cache j := fun j hj => by
      rw [hcache, Function.update_of_ne hj]
    constructor
    · intro j
      by_cases hj : j = s
      · rw [hj, hown]
        exact hreceivable
      · rw [hother j hj]
        exact h.all j
    · intro c j hc
      by_cases hj : j = s
      · rw [hj, hown]
        exact refresh_updated o e.detection
      · rw [hother j hj]
        rw [htouched] at hc
        by_cases hcat : c = rule.category
        · subst hcat
          rw [Function.update_self] at hc
          exact absurd (Option.some.inj hc).symm hj
        · rw [Function.update_of_ne hcat] at hc
          exact h.touched c j hc

theorem Receiving.fold {p : Pass} (h : Receiving o p) (haudible : Audible o) (settings : Settings) (rules : List Rule) :
    Receiving o (rules.foldl (Pass.apply settings o) p) := by
  induction rules generalizing p with
  | nil => exact h
  | cons rule rules ih => exact ih (h.apply haudible settings rule)

end Walk

/-! ## What is emitted -/

section Emitted

variable {sort : SortFn Rule} {rules : List Rule} {e : Engine}

/-- The rules of a detection just fused are the four strongest. -/
theorem usedRules_fuse (sort : SortFn Rule) (o : Observation) (entry : Entry) :
    (fuse sort o entry).detection.usedRules = (sort.run (stronger o) (activeRules o entry)).take 4 ∧
      (fuse sort o entry).detection.ruleCount.toNat = min (sort.run (stronger o) (activeRules o entry)).length 4 := by
  have hcount : (fuse sort o entry).detection.ruleCount.toNat =
      min (sort.run (stronger o) (activeRules o entry)).length 4 := by
    change (min (sort.run (stronger o) (activeRules o entry)).length 4).toUInt8.toNat = _
    rw [Nat.toUInt8_eq, UInt8.toNat_ofNat']
    omega
  refine ⟨?_, hcount⟩
  unfold Detection.usedRules
  rw [hcount]
  change ((Vector.ofFn fun i : Fin 4 => (sort.run (stronger o) (activeRules o entry))[i]?).toList.take _).filterMap id = _
  generalize sort.run (stronger o) (activeRules o entry) = active
  rcases active with - | ⟨a, - | ⟨b, - | ⟨c, - | ⟨d, rest⟩⟩⟩⟩ <;> simp [Vector.toList_ofFn, List.ofFn_succ]

theorem fuse_recordable (sort : SortFn Rule) {o : Observation} {entry : Entry} (haudible : Audible o)
    (hreceivable : Receivable o.ms entry.detection) (hupdated : Updated o entry.detection)
    (hne : activeRules o entry ≠ []) (hrange : InRange (activeRules o entry))
    (hlegible : ∀ r ∈ activeRules o entry, r.Legible) : Recordable (fuse sort o entry).detection := by
  have hcaps := fuse_withinCaps sort hne hrange
  obtain ⟨hused, hcount⟩ := usedRules_fuse sort o entry
  have hseen : 1 ≤ entry.detection.seenCount := by
    have hne' : entry.detection.seenCount.toNat ≠ 0 := fun hzero => hupdated.seen (UInt32.toNat_inj.mp hzero)
    rw [UInt32.le_iff_toNat_le]
    change 1 ≤ entry.detection.seenCount.toNat
    omega
  have haverage := hreceivable.counted.average hseen
  exact {
    real := hreceivable.real
    count := ⟨hcaps.counted, by
      rw [UInt8.le_iff_toNat_le, hcount]
      exact Nat.min_le_right _ _⟩
    present := by
      rw [hused, hcount, List.length_take, Nat.min_comm]
    legible := by
      intro r hr
      rw [hused] at hr
      exact hlegible r ((sort.mem_run _ _ r).mp (List.mem_of_mem_take hr))
    score := hcaps.scored
    seen := hseen
    ordered := hreceivable.counted.times
    recent := by
      change entry.detection.lastMs < _
      rw [hupdated.last]
      exact haudible.early
    channel := by
      change entry.detection.channel ≤ 14
      rw [hupdated.channel]
      exact haudible.channel
    low := hreceivable.low
    high := hreceivable.high
    above := haverage.1
    below := haverage.2 }

/-- Every slot is receivable and its evidence comes from the table. -/
structure Engine.Receivable (rules : List Rule) (e : Engine) (now : UInt64) : Prop where
  sourced : Sourced rules e
  slots : ∀ s, Hound.Receivable now (e.cache s).detection

/-- One packet: the slots stay receivable, and what is emitted can be recorded. -/
theorem Engine.Receivable.next {tick : Tick} (h : e.Receivable rules tick.observation.ms)
    (haudible : Audible tick.observation) (hrange : InRange rules) (hlegible : ∀ r ∈ rules, r.Legible) :
    (e.next sort tick).Receivable rules tick.observation.ms ∧
      ∀ em ∈ e.emissions sort tick, Recordable em.detection := by
  have hsupported := h.sourced.walk tick.observation tick.settings
  have huntouched : Receiving tick.observation { engine := e } := ⟨h.slots, fun c s hc => nomatch hc⟩
  have hreceiving : Receiving tick.observation (e.walk tick.observation tick.settings) :=
    huntouched.fold haudible tick.settings e.rules
  let p := e.walk tick.observation tick.settings
  let Q : Slot → Entry → Prop := fun s entry =>
    SameEvidence (p.engine.cache s) entry ∧ Hound.Receivable tick.observation.ms entry.detection ∧
      ∀ c, p.touched c = some s → Updated tick.observation entry.detection
  have hfuse : ∀ s entry, Q s entry → Q s (fuse sort tick.observation entry) := by
    rintro s entry ⟨hsame, hreceivable, hupdated⟩
    refine ⟨⟨hsame.evidence, hsame.lastMs⟩, ?_, fun c hc => ?_⟩
    · exact ⟨hreceivable.real, ⟨hreceivable.counted.times, hreceivable.counted.extrema, hreceivable.counted.below,
        hreceivable.counted.above⟩, hreceivable.low, hreceivable.high, hreceivable.past⟩
    · exact ⟨(hupdated c hc).last, (hupdated c hc).channel, (hupdated c hc).seen⟩
  have hmark : ∀ s entry, Q s entry → Q s (markEmitted tick.observation entry) :=
    fun s entry hentry => ⟨⟨hentry.1.evidence, hentry.1.lastMs⟩, hentry.2⟩
  have hstart : ∀ s, Q s ((p.engine.rememberAp tick.observation).cache s) := by
    intro s
    rw [Engine.rememberAp_cache]
    exact ⟨⟨rfl, rfl⟩, hreceiving.all s, fun c hc => hreceiving.touched c s hc⟩
  obtain ⟨hcache, hout⟩ := settle_entries hfuse hmark tick.room Category.all
    (p.engine.rememberAp tick.observation, []) hstart fun em hem => nomatch hem
  refine ⟨⟨h.sourced.next sort tick, fun s => (hcache s).2.1⟩, fun em hem => ?_⟩
  obtain ⟨⟨c, hc⟩, entry, ⟨hsame, hreceivable, hupdated⟩, hdetection⟩ := hout em hem
  rw [hdetection]
  have hactive : activeRules tick.observation entry = activeRules tick.observation (p.engine.cache em.slot) :=
    activeRules_same hsame
  have hsource : ∀ r ∈ activeRules tick.observation entry, r ∈ rules := by
    rw [hactive]
    exact activeRules_source (hsupported.source em.slot)
  refine fuse_recordable sort haudible hreceivable (hupdated c hc) ?_ (fun r hr => hrange r (hsource r hr))
    fun r hr => hlegible r (hsource r hr)
  rw [hactive]
  exact hsupported.active c em.slot hc

end Emitted

/-! ## Runs -/

/-- `production_rules`, which `generate` writes of the accepted entries. -/
def productionRules (accepted : List SignatureEntry) : List Rule :=
  (accepted.filter fun s => s.enabledByDefault && !s.experimental).filterMap SignatureEntry.compiled

theorem productionRules_compiled {ledger : String → Option Provenance} {entries accepted : List SignatureEntry}
    (h : validate ledger entries = some accepted) {r : Rule} (hr : r ∈ productionRules accepted) :
    r.Legible ∧ (1 ≤ r.score ∧ r.score ≤ r.cap ∧ r.cap ≤ 100) := by
  obtain ⟨s, hs, hcompiled⟩ := List.mem_filterMap.mp hr
  exact compiled_rule (validate_mem h s (List.mem_of_mem_filter hs)) hcompiled

/-- The signal strengths that the reader of log lines accepts. -/
def RssiKept (o : Observation) : Prop := -127 ≤ o.rssi.toInt ∧ o.rssi.toInt ≤ 20

instance (o : Observation) : Decidable (RssiKept o) := inferInstanceAs (Decidable (_ ∧ _))

/-- As long as no packet's strength leaves the range, recovery accepts every row. -/
theorem emitted_rows_valid (sort : SortFn Rule) {ledger : String → Option Provenance}
    {entries accepted : List SignatureEntry} (haccepted : validate ledger entries = some accepted)
    {ticks : List Tick} (hordered : Monotone ticks)
    (hpackets : ∀ tick ∈ ticks, tick.observation.channel ≤ 14 ∧ tick.observation.ms < 9007199254740992)
    (hrssi : ∀ tick ∈ ticks, RssiKept tick.observation) (pack : Vector UInt8 6) {session : Bytes}
    (hs : IsSession session) (hmac : Hmac) (key : Bytes) (research : Bool) (region : UInt8) :
    Engine.Throughout sort (productionRules accepted) ticks fun e tick =>
      ∀ em ∈ e.emissions sort tick, ∀ (seconds : UInt64) (token : Bytes),
        privateToken hmac key { em.detection with unixSeconds := seconds } = some token →
          validLogRecord (writeRecord pack { em.detection with unixSeconds := seconds } session token research 2048
            region) = true := by
  have haudible : ∀ tick ∈ ticks, Audible tick.observation := fun tick htick =>
    ⟨(hrssi tick htick).1, (hrssi tick htick).2, (hpackets tick htick).1, (hpackets tick htick).2⟩
  have hrange : InRange (productionRules accepted) := fun r hr => (productionRules_compiled haccepted hr).2
  have hlegible : ∀ r ∈ productionRules accepted, r.Legible := fun r hr => (productionRules_compiled haccepted hr).1
  have hguard : ∀ v ∈ Runs.visited (Engine.next sort) { rules := productionRules accepted } ticks,
      Audible v.2.observation := by
    intro v hv
    obtain ⟨before, after, hsplit, -⟩ := (Runs.mem_visited _).mp hv
    exact haudible v.2 (by rw [hsplit]; exact List.mem_append_right _ List.mem_cons_self)
  have hrun := @Runs.ordered_visited _ _ (Engine.next sort) _ (· ≤ ·) (fun tick : Tick => tick.observation.ms)
    (fun e now => e.Receivable (productionRules accepted) now) (fun _ tick => Audible tick.observation)
    (fun e a b hle h => ⟨h.sourced, fun s => (h.slots s).later hle⟩)
    (fun e tick hheard h => (h.next hheard hrange hlegible).1) _ _ hordered
    (fun tick _ => ⟨sourced_start _, fun s => receivable_unused _⟩) hguard
  intro v hv em hem seconds token htoken
  have hrecordable := ((hrun v hv).next (hguard v hv) hrange hlegible).2 em hem
  have hdated : Recordable { em.detection with unixSeconds := seconds } :=
    ⟨hrecordable.real, hrecordable.count, hrecordable.present, hrecordable.legible, hrecordable.score,
      hrecordable.seen, hrecordable.ordered, hrecordable.recent, hrecordable.channel, hrecordable.low,
      hrecordable.high, hrecordable.above, hrecordable.below⟩
  exact (record_round_trip pack _ session token research region hdated hs (privateToken_isToken htoken)).2.2.1

/-- One enabled rule, for a company identifier. -/
def axonEntries : List SignatureEntry :=
  [entryOf "airtag.id" "AIRTAG" "ble_company_id" "0005", entryOf "alpr.id" "ALPR" "ble_company_id" "000A",
    { entryOf "axon.id" "AXON" "ble_company_id" "0001" with
      enabledByDefault := true, experimental := false, provenanceRefs := ["-"] },
    entryOf "camera.id" "CAMERA" "ble_company_id" "000B",
    entryOf "deauth.burst" "DEAUTH" "behavior" "deauth_burst", entryOf "drone.id" "DRONE" "ble_company_id" "0009",
    entryOf "evil.twin" "EVIL_TWIN" "behavior" "security_downgrade",
    entryOf "flipper.id" "FLIPPER" "ble_company_id" "000E", entryOf "flock.local" "FLOCK" "wifi_oui" "020000",
    entryOf "glasses.id" "GLASSES" "ble_company_id" "0002",
    entryOf "google.id" "GOOGLE_TAG" "ble_company_id" "0008",
    entryOf "ibeacon.id" "IBEACON" "ble_company_id" "000D",
    entryOf "pineapple.id" "PINEAPPLE" "ble_company_id" "0010",
    entryOf "pwnagotchi.id" "PWNAGOTCHI" "ble_company_id" "000F",
    entryOf "raven.id" "RAVEN" "ble_company_id" "0004", entryOf "ring.id" "RING" "ble_company_id" "000C",
    entryOf "samsung.id" "SAMSUNG_TAG" "ble_company_id" "0007",
    entryOf "skimmer.id" "SKIMMER" "ble_company_id" "0003", entryOf "tile.id" "TILE" "ble_company_id" "0006"]

def axonLedger (_ : String) : Option Provenance :=
  some ⟨"axon.id", "AXON", "ble_company_id", "0001", "low"⟩

theorem validate_axon : validate axonLedger axonEntries = some axonEntries := by
  have hok : (entriesOk axonLedger [] [] axonEntries &&
      categories.all (fun c => axonEntries.any fun s => s.category == c.1)) = true := by decide
  unfold validate
  rw [if_pos hok, List.mergeSort_of_pairwise (by decide)]

/-- An advertisement of that company. -/
def axonPacket (rssi : Int8) : Packet := .ble 1000 rssi (Vector.replicate 6 0) 0 [3, 0xff, 1, 0]

def axonTick (rssi : Int8) : Tick := { observation := (axonPacket rssi).observed.getD {} }

def axonKey : Bytes := List.replicate 32 0x5a

/-- HMAC-SHA-256 under that key of the advertisement's identity. -/
def axonDigest : Digest :=
  #v[155, 5, 93, 102, 206, 128, 41, 44, 69, 2, 61, 234, 13, 9, 213, 182, 102, 20, 203, 132, 166, 247, 220, 204, 114, 168,
    54, 111, 149, 96, 254, 249]

def axonToken : Bytes := ascii "TMCV2ZWOQAUSYRICHXVA"

theorem near_row_accepted :
    ∃ em ∈ Engine.emissions SortFn.insertion { rules := productionRules axonEntries } (axonTick (-60)),
      validLogRecord (writeRecord (Vector.replicate 6 0) { em.detection with unixSeconds := 0 }
        (List.replicate 32 48) axonToken false 2048 0) = true := by
  obtain ⟨em, hem⟩ := List.exists_mem_of_length_pos
    (show 0 < (Engine.emissions SortFn.insertion { rules := productionRules axonEntries } (axonTick (-60))).length by
      decide +kernel)
  have hrun := emitted_rows_valid SortFn.insertion validate_axon
    (show Monotone [axonTick (-60)] from List.pairwise_singleton _ _) (by decide +kernel) (by decide +kernel) (Vector.replicate 6 0)
    (show IsSession (List.replicate 32 48) by decide) (fun _ _ => some axonDigest) axonKey false 0
  refine ⟨em, hem, hrun ({ rules := productionRules axonEntries }, axonTick (-60)) List.mem_cons_self em hem 0
    axonToken ?_⟩
  simp only [privateToken, Option.map_some, Option.some.injEq]
  decide +kernel

/-- 127 dBm is what a controller reports where it has measured nothing. -/
theorem unmeasured_row_rejected :
    ¬ ∀ (sort : SortFn Rule) (ledger : String → Option Provenance) (entries accepted : List SignatureEntry)
      (ticks : List Tick) (pack : Vector UInt8 6) (session : Bytes) (hmac : Hmac) (key : Bytes) (research : Bool)
      (region : UInt8),
        validate ledger entries = some accepted → Monotone ticks →
          (∀ tick ∈ ticks, (∃ p : Packet, p.observed = some tick.observation) ∧ tick.observation.channel ≤ 14 ∧
            tick.observation.ms < 9007199254740992) → IsSession session →
            Engine.Throughout sort (productionRules accepted) ticks fun e tick =>
              ∀ em ∈ e.emissions sort tick, ∀ (seconds : UInt64) (token : Bytes),
                privateToken hmac key { em.detection with unixSeconds := seconds } = some token →
                  validLogRecord (writeRecord pack { em.detection with unixSeconds := seconds } session token research
                    2048 region) = true := by
  intro hall
  have hobserved : (axonPacket 127).observed = some (axonTick 127).observation := by decide +kernel
  have hpackets : ∀ tick ∈ [axonTick 127], (∃ p : Packet, p.observed = some tick.observation) ∧
      tick.observation.channel ≤ 14 ∧ tick.observation.ms < 9007199254740992 := by
    intro tick htick
    rw [List.mem_singleton.mp htick]
    exact ⟨⟨axonPacket 127, hobserved⟩, by decide +kernel, by decide +kernel⟩
  have hrun := hall SortFn.insertion axonLedger axonEntries axonEntries [axonTick 127] (Vector.replicate 6 0)
    (List.replicate 32 48) (fun _ _ => some axonDigest) axonKey false 0 validate_axon
    (List.pairwise_singleton _ _) hpackets (by decide)
  have hone : (Engine.emissions SortFn.insertion { rules := productionRules axonEntries } (axonTick 127)).length = 1 ∧
      ((Engine.emissions SortFn.insertion { rules := productionRules axonEntries } (axonTick 127)).all fun em =>
        !validLogRecord (writeRecord (Vector.replicate 6 0) { em.detection with unixSeconds := 0 }
          (List.replicate 32 48) axonToken false 2048 0)) = true := by decide +kernel
  obtain ⟨em, hem⟩ := List.length_pos_iff_exists_mem.mp (by rw [hone.1]; exact Nat.one_pos)
  have hrejected := List.all_eq_true.mp hone.2 em hem
  have htoken : privateToken (fun _ _ => some axonDigest) axonKey { em.detection with unixSeconds := 0 } =
      some axonToken := by
    simp only [privateToken, Option.map_some, Option.some.injEq]
    decide +kernel
  rw [hrun ({ rules := productionRules axonEntries }, axonTick 127) List.mem_cons_self em hem 0
    axonToken htoken] at hrejected
  cases hrejected

end Hound
