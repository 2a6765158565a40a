import Hound.Engine.Evidence

/-!
# The age of evidence

The time of a match is kept in 32 bits. An entry that a packet reaches at least
every 30 seconds is never cleared, and after 2^32 ms a match of its first
minute is young again. The evidence is sound in every run that never meets such
an age.
-/

namespace Hound

/-- Every evidence of the entry is the last match of its rule, at a time in `P`. -/
def Held (P : UInt64 → Prop) (e : Entry) (hits : List Hit) : Prop :=
  ∀ (g : Fin 9) (rule : Rule), e.evidence[g].rule = some rule → group rule.kind = g ∧
    ∃ ms, lastHit rule hits = some ms ∧ e.evidence[g].at' = ms.toUInt32 ∧ P ms

theorem Held.imp {P Q : UInt64 → Prop} {e : Entry} {hits : List Hit} (h : Held P e hits)
    (hPQ : ∀ ms, P ms → Q ms) : Held Q e hits := by
  intro g rule hrule
  obtain ⟨hgroup, ms, hlast, hat, hP⟩ := h g rule hrule
  exact ⟨hgroup, ms, hlast, hat, hPQ ms hP⟩

theorem Held.same {P : UInt64 → Prop} {e e' : Entry} {hits : List Hit} (h : Held P e hits)
    (hsame : SameEvidence e e') : Held P e' hits := by
  intro g rule hrule
  rw [hsame.evidence] at hrule ⊢
  exact h g rule hrule

theorem held_empty (P : UInt64 → Prop) {e : Entry} (h : e.evidence = Vector.replicate 9 {})
    (hits : List Hit) : Held P e hits := by
  intro g rule hrule
  rw [h] at hrule
  simp at hrule

theorem kept_of_not_replaces {rule : Rule} {o : Observation} {ev : Evidence}
    (h : replaces rule o ev = false) :
    ∃ held, ev.rule = some held ∧ o.ms.toUInt32 - ev.at' ≤ 30000 ∧ rule.score < held.score := by
  unfold replaces at h
  cases hrule : ev.rule with
  | none => simp [hrule] at h
  | some held =>
    simp only [hrule, Bool.or_eq_false_iff, decide_eq_false_iff_not, UInt8.not_le, UInt32.not_lt] at h
    exact ⟨held, rfl, h.1, h.2⟩

/-- A match takes its group, or a stronger live rule keeps it. -/
theorem noteEvidence_cases (rule : Rule) (o : Observation) (e : Entry) :
    (∀ g, g ≠ group rule.kind → (noteEvidence rule o e).evidence[g] = e.evidence[g]) ∧
    ∃ g, g = group rule.kind ∧
      ((noteEvidence rule o e).evidence[g] = ⟨some rule, o.ms.toUInt32⟩ ∧
          replaces rule o e.evidence[g] = true ∨
        noteEvidence rule o e = e ∧ ∃ held, e.evidence[g].rule = some held ∧
          o.ms.toUInt32 - e.evidence[g].at' ≤ 30000 ∧ rule.score < held.score) := by
  unfold noteEvidence
  cases hreplaces : replaces rule o e.evidence[group rule.kind] with
  | true =>
    refine ⟨fun g hg => ?_, _, rfl, .inl ⟨?_, hreplaces⟩⟩
    · have hne : ¬ (group rule.kind : Nat) = g := fun heq => hg (Fin.ext heq.symm)
      simp [hne]
    · simp
  | false =>
    exact ⟨fun g _ => rfl, _, rfl, .inr ⟨rfl, kept_of_not_replaces hreplaces⟩⟩

theorem Held.note {P : UInt64 → Prop} {e : Entry} {hits : List Hit} {o : Observation} (h : Held P e hits)
    (hnow : P o.ms) (rule : Rule) : Held P (noteEvidence rule o e) (⟨rule, o.ms⟩ :: hits) := by
  intro g r hr
  obtain ⟨hother, _, rfl, hown⟩ := noteEvidence_cases rule o e
  by_cases hg : g = group rule.kind
  · subst hg
    rcases hown with ⟨hset, -⟩ | ⟨hsame, held, hheld, -, hscore⟩
    · rw [hset] at hr ⊢
      obtain rfl := Option.some.inj hr
      exact ⟨rfl, o.ms, lastHit_cons_self _ _ _, rfl, hnow⟩
    · rw [hsame] at hr ⊢
      obtain ⟨hgroup, ms, hlast, hat, hP⟩ := h _ r hr
      rw [hheld] at hr
      obtain rfl := Option.some.inj hr
      have hne : rule ≠ held := fun heq => UInt8.lt_irrefl _ (heq ▸ hscore)
      exact ⟨hgroup, ms, (lastHit_cons_of_ne hne hits).trans hlast, hat, hP⟩
  · rw [hother g hg] at hr ⊢
    obtain ⟨hgroup, ms, hlast, hat, hP⟩ := h g r hr
    have hne : rule ≠ r := fun heq => hg (by rw [heq, hgroup])
    exact ⟨hgroup, ms, (lastHit_cons_of_ne hne hits).trans hlast, hat, hP⟩

theorem refresh_evidence (o : Observation) (e : Entry) :
    (refresh o e).evidence = if lapsed o e then Vector.replicate 9 {} else e.evidence := rfl

theorem refreshDetection_lastMs (o : Observation) (d : Detection) :
    (refreshDetection o d).lastMs = o.ms := by
  unfold refreshDetection
  dsimp only
  split <;> rfl

@[simp] theorem refresh_lastMs (o : Observation) (e : Entry) : (refresh o e).detection.lastMs = o.ms :=
  refreshDetection_lastMs o e.detection

theorem refresh_fresh_evidence (c : Category) (o : Observation) :
    (refresh o (freshEntry c o)).evidence = Vector.replicate 9 {} := by
  rw [refresh_evidence]
  split <;> rfl

theorem Held.refresh {P Q : UInt64 → Prop} {e : Entry} {hits : List Hit} {o : Observation}
    (h : Held P e hits)
    (hkept : ¬ lapsed o e → ∀ (g : Fin 9) rule ms, e.evidence[g].rule = some rule → lastHit rule hits = some ms →
      P ms → Q ms) :
    Held Q (Hound.refresh o e) (if lapsed o e then [] else hits) := by
  by_cases hlapsed : lapsed o e
  · exact held_empty Q (by rw [refresh_evidence, if_pos hlapsed]) _
  · intro g rule hrule
    rw [refresh_evidence, if_neg hlapsed] at hrule ⊢
    rw [if_neg hlapsed]
    obtain ⟨hgroup, ms, hlast, hat, hP⟩ := h g rule hrule
    exact ⟨hgroup, ms, hlast, hat, hkept hlapsed g rule ms hrule hlast hP⟩

/-! ## Ages -/

/-- The age in 32 bits is the age, or counts as expired like it. -/
def Unwrapped (now ms : UInt64) : Prop :=
  now - ms < 4294967296 ∨ 30000 < (now - ms) % 4294967296

instance (now ms : UInt64) : Decidable (Unwrapped now ms) :=
  inferInstanceAs (Decidable (_ ∨ _))

theorem unwrapped_self (now : UInt64) : Unwrapped now now := .inl (by simp)

theorem age_toNat (now ms : UInt64) :
    (now.toUInt32 - ms.toUInt32).toNat = (now - ms).toNat % 4294967296 := by
  rw [← UInt64.toUInt32_sub, UInt64.toNat_toUInt32]

theorem young_of_unwrapped {now ms : UInt64} (h : Unwrapped now ms)
    (hyoung : now.toUInt32 - ms.toUInt32 ≤ 30000) : now - ms ≤ 30000 := by
  have hage := age_toNat now ms
  have hnat : (now.toUInt32 - ms.toUInt32).toNat ≤ 30000 := UInt32.le_iff_toNat_le.mp hyoung
  rw [UInt64.le_iff_toNat_le]
  change (now - ms).toNat ≤ 30000
  rcases h with hshort | hlong
  · have hshort' : (now - ms).toNat < 4294967296 := UInt64.lt_iff_toNat_lt.mp hshort
    rw [Nat.mod_eq_of_lt hshort'] at hage
    omega
  · have hlong' := UInt64.lt_iff_toNat_lt.mp hlong
    rw [UInt64.toNat_mod] at hlong'
    change 30000 < (now - ms).toNat % 4294967296 at hlong'
    omega

/-! ## Rules of an emission -/

theorem mem_activeRules {o : Observation} {e : Entry} {rule : Rule} (h : rule ∈ activeRules o e) :
    ∃ g : Fin 9, e.evidence[g].rule = some rule ∧ o.ms.toUInt32 - e.evidence[g].at' ≤ 30000 := by
  obtain ⟨ev, hev, hrule⟩ := List.mem_filterMap.mp h
  obtain ⟨i, hi, hget⟩ := List.mem_iff_getElem.mp hev
  have hi' : i < 9 := by simpa using hi
  have hentry : e.evidence[(⟨i, hi'⟩ : Fin 9)] = ev := by simpa using hget
  refine ⟨⟨i, hi'⟩, ?_⟩
  rw [hentry]
  split at hrule
  · rename_i hyoung
    exact ⟨hrule, by simpa using hyoung⟩
  · exact nomatch hrule

theorem fuse_rules (sort : SortFn Rule) (o : Observation) (e : Entry) (i : Fin 4)
    (hi : i.val < (fuse sort o e).detection.ruleCount.toNat) :
    ∃ rule, (fuse sort o e).detection.rules[i] = some rule ∧ rule ∈ activeRules o e := by
  have hlength : i.val < (sort.run (stronger o) (activeRules o e)).length := by
    have hcount : (fuse sort o e).detection.ruleCount.toNat =
        (min (sort.run (stronger o) (activeRules o e)).length 4) % 256 := by
      simp [fuse, UInt8.toNat_ofNat']
    rw [hcount] at hi
    have := Nat.mod_le (min (sort.run (stronger o) (activeRules o e)).length 4) 256
    omega
  refine ⟨(sort.run (stronger o) (activeRules o e))[i.val], ?_, ?_⟩
  · simp [fuse, hlength]
  · rw [← sort.mem_run (stronger o)]
    exact List.getElem_mem hlength

/-- Every listed rule matched into the entry within the last 30 seconds. -/
def RulesFresh (sort : SortFn Rule) (t : Recorded) (tick : Tick) : Prop :=
  ∀ em ∈ t.emissions sort tick, ∀ i : Fin 4, i.val < em.detection.ruleCount.toNat →
    ∃ rule, em.detection.rules[i] = some rule ∧ ∃ hit ∈ (t.walk tick).2 em.slot, hit.rule = rule ∧
      hit.ms ≤ tick.observation.ms ∧ tick.observation.ms - hit.ms ≤ 30000

/-- Every rule held for the entry last matched less than 2^32 ms ago, or the age
modulo 2^32 is above 30 seconds too. -/
def Unrevived (o : Observation) (e : Entry) (hits : List Hit) : Prop :=
  ∀ (g : Fin 9) (rule : Rule), e.evidence[g].rule = some rule →
    ∀ ms, lastHit rule hits = some ms → Unwrapped o.ms ms

instance (o : Observation) (e : Entry) (hits : List Hit) : Decidable (Unrevived o e hits) :=
  -- over the options themselves: `UInt64` is a `Fintype` that no evaluation should walk
  decidable_of_iff (∀ g : Fin 9, (e.evidence[g].rule.all fun rule =>
      (lastHit rule hits).all fun ms => decide (Unwrapped o.ms ms)) = true)
    (by simp only [Unrevived, Option.all_eq_true, decide_eq_true_eq])

/-- No entry that the packet belongs to and does not clear holds a match it can revive. -/
def NoRevival (t : Recorded) (tick : Tick) : Prop :=
  ∀ s, matched tick.observation (t.engine.cache s).detection = true →
    ¬ lapsed tick.observation (t.engine.cache s) →
    Unrevived tick.observation (t.engine.cache s) (t.hits s)

instance (t : Recorded) (tick : Tick) : Decidable (NoRevival t tick) :=
  inferInstanceAs (Decidable (∀ s : Slot, matched _ (t.engine.cache s).detection = true →
    ¬ lapsed _ _ → Unrevived _ _ _))

/-! ## Runs -/

/-- What holds between ingests, at a time no entry is ahead of. -/
def Timely (t : Recorded) (now : UInt64) : Prop :=
  ∀ s, Held (· ≤ (t.engine.cache s).detection.lastMs) (t.engine.cache s) (t.hits s) ∧
    (t.engine.cache s).detection.lastMs ≤ now

theorem timely_start (rules : List Rule) (now : UInt64) : Timely (.start rules) now :=
  fun _ => ⟨held_empty _ rfl _, UInt64.le_iff_toNat_le.mpr (Nat.zero_le _)⟩

theorem timely_walk {t : Recorded} {tick : Tick} (h : Timely t tick.observation.ms)
    (hrevival : NoRevival t tick) :
    ∀ s, Walked (fun e hits => e.detection.lastMs = tick.observation.ms ∧
      Held (fun ms => ms ≤ tick.observation.ms ∧ Unwrapped tick.observation.ms ms) e hits)
      t (t.walk tick) s := by
  refine walk_entries (J := fun _ _ => True) tick (fun _ => trivial) (fun c => ⟨refresh_lastMs _ _, ?_⟩)
    (fun s hmatch _ => ⟨refresh_lastMs _ _, ?_⟩) (fun e hits rule hI => ⟨?_, ?_⟩)
  · exact held_empty _ (refresh_fresh_evidence _ _) _
  · obtain ⟨hheld, hlast⟩ := h s
    refine hheld.refresh fun hlapsed g rule ms hrule hms hpast => ⟨?_, ?_⟩
    · exact UInt64.le_trans hpast hlast
    · exact hrevival s hmatch hlapsed g rule hrule ms hms
  · rw [noteEvidence_detection]
    exact hI.1
  · exact hI.2.note ⟨UInt64.le_refl _, unwrapped_self _⟩ rule

theorem timely_ingest (sort : SortFn Rule) {t : Recorded} {tick : Tick}
    (hrevival : NoRevival t tick) (h : Timely t tick.observation.ms) :
    Timely (t.ingest sort tick) tick.observation.ms := by
  intro s
  have hsame := (ingest_evidence sort t tick).1 s
  rw [hsame.lastMs]
  rcases timely_walk h hrevival s with ⟨-, hcache, hhits⟩ | ⟨-, hlast, hheld⟩
  · rw [hcache] at hsame ⊢
    have hstart := h s
    refine ⟨?_, hstart.2⟩
    have hkept : (t.ingest sort tick).hits s = t.hits s := hhits
    rw [hkept]
    exact hstart.1.same hsame
  · rw [hlast]
    refine ⟨?_, UInt64.le_refl _⟩
    exact (hheld.imp fun ms hms => hms.1).same hsame

theorem rulesFresh_ingest (sort : SortFn Rule) {t : Recorded} {tick : Tick}
    (hrevival : NoRevival t tick) (h : Timely t tick.observation.ms) : RulesFresh sort t tick := by
  intro em hem i hi
  obtain ⟨⟨c, hc⟩, e, hsame, hdetection⟩ := (ingest_evidence sort t tick).2 em hem
  rw [hdetection] at hi ⊢
  obtain ⟨rule, hrule, hactive⟩ := fuse_rules sort tick.observation e i hi
  refine ⟨rule, hrule, ?_⟩
  obtain ⟨g, hheld, hyoung⟩ := mem_activeRules hactive
  rw [hsame.evidence] at hheld hyoung
  rcases timely_walk h hrevival em.slot with ⟨hfree, -⟩ | ⟨-, -, hall⟩
  · exact absurd hc (hfree c)
  · obtain ⟨-, ms, hlast, hat, hpast, hunwrapped⟩ := hall g rule hheld
    rw [hat] at hyoung
    exact ⟨⟨rule, ms⟩, mem_of_lastHit hlast, rfl, hpast, young_of_unwrapped hunwrapped hyoung⟩

/-- In a run that never revives an old match, every rule of every emitted
detection matched into its entry within the last 30 seconds. -/
theorem evidence_fresh (sort : SortFn Rule) (rules : List Rule) (ticks : List Tick)
    (hordered : Monotone ticks) (meets : ∀ v ∈ Recorded.visited sort rules ticks, NoRevival v.1 v.2) :
    ∀ v ∈ Recorded.visited sort rules ticks, RulesFresh sort v.1 v.2 := by
  intro v hv
  have htimely := Runs.ordered_visited (· ≤ ·) (fun tick : Tick => tick.observation.ms) Timely NoRevival
    (fun t a b hab h s => ⟨(h s).1, UInt64.le_trans (h s).2 hab⟩)
    (fun t tick hrevival h => timely_ingest sort hrevival h) hordered
    (fun tick _ => timely_start rules tick.observation.ms) meets v hv
  exact rulesFresh_ingest sort (meets v hv) htimely

/-! ## A device seen for fifty days -/

/-- The production rule `ble.flipper.3081`. -/
def flipperService : Rule :=
  { id := ascii "ble.flipper.3081", category := .FLIPPER, kind := .Uuid16, value := ascii "3081",
    score := 75, cap := 79, generic := false, label := ascii "Flipper service",
    reason := ascii "Flipper-associated advertised service" }

/-- The production rule `ble.flipper.company`. -/
def flipperCompany : Rule :=
  { id := ascii "ble.flipper.company", category := .FLIPPER, kind := .Company, value := ascii "0E29",
    score := 65, cap := 79, generic := false, label := ascii "Flipper Devices radio",
    reason := ascii "Flipper Devices company identifier" }

def flipper : List Rule := [flipperService, flipperCompany]

/-- An advertisement with the service and the company. -/
def serviceAndCompany : Bytes := [3, 3, 0x81, 0x30, 3, 0xff, 0x29, 0x0e]

def companyOnly : Bytes := [3, 0xff, 0x29, 0x0e]

theorem evidence_fresh_flipper :
    Monotone [received 1000 5 serviceAndCompany, received 31000 5 companyOnly, received 61000 5 companyOnly] ∧
    ∀ v ∈ Recorded.visited .insertion flipper
      [received 1000 5 serviceAndCompany, received 31000 5 companyOnly, received 61000 5 companyOnly],
      RulesFresh .insertion v.1 v.2 :=
  ⟨by decide, evidence_fresh .insertion flipper _ (by decide) (by decide +kernel)⟩

/-- The entry in slot 0 has only shown its company since its service matched at 1000 ms. -/
structure Aging (t : Recorded) (now : UInt64) : Prop where
  rules : t.engine.rules = flipper
  nextEmit : t.engine.nextEmit ≤ now + 100
  occupied : (t.engine.cache 0).occupied = true
  address : (t.engine.cache 0).detection.address = #v[0xc0, 1, 2, 3, 4, 5]
  addressType : (t.engine.cache 0).detection.addressType = 1
  category : (t.engine.cache 0).detection.category = .FLIPPER
  radio : (t.engine.cache 0).detection.radio = .Ble
  lastMs : (t.engine.cache 0).detection.lastMs = now
  emitted : (t.engine.cache 0).emitted ≤ now
  evidence : (t.engine.cache 0).evidence =
    #v[{}, {}, {}, ⟨some flipperService, 1000⟩, {}, ⟨some flipperCompany, now.toUInt32⟩, {}, {}, {}]
  hits : ∀ hit ∈ t.hits 0, hit.rule = flipperService → hit.ms = 1000

theorem aging_first :
    Aging ((Recorded.start flipper).ingest .insertion (received 1000 5 serviceAndCompany)) 1000 where
  rules := by decide +kernel
  nextEmit := by decide +kernel
  occupied := by decide +kernel
  address := by decide +kernel
  addressType := by decide +kernel
  category := by decide +kernel
  radio := by decide +kernel
  lastMs := by decide +kernel
  emitted := by decide +kernel
  evidence := by decide +kernel
  hits := by decide +kernel

theorem received_companyOnly (ms : UInt64) :
    (received ms 5 companyOnly).observation =
      { ms, rssi := -60, address := #v[0xc0, 1, 2, 3, 4, 5], addressType := 1, radio := .Ble,
        manufacturer := [0x29, 0x0e] } := rfl

/-- The packet with only the company, as the rules see it. -/
def companyAt (ms : UInt64) : Observation := (received ms 5 companyOnly).observation

/-- Slot 0 after its company matched again. -/
def seenAgain (t : Recorded) (ms : UInt64) : Entry :=
  noteEvidence flipperCompany (companyAt ms) (refresh (companyAt ms) (t.engine.cache 0))

/-- Only the company rule matches, and it reaches slot 0. -/
theorem aging_walk {t : Recorded} {now : UInt64} (h : Aging t now) (ms : UInt64) :
    (t.walk (received ms 5 companyOnly)).1.touched = Function.update (fun _ => none) .FLIPPER (some 0) ∧
    (t.walk (received ms 5 companyOnly)).1.engine.cache =
      Function.update t.engine.cache 0 (seenAgain t ms) ∧
    (t.walk (received ms 5 companyOnly)).2 = (t.hits.touch t.engine.cache .FLIPPER (companyAt ms)).add 0
      flipperCompany (companyAt ms) := by
  have hservice : ∀ p : Pass, p.hits {} (companyAt ms) flipperService = false := fun p => rfl
  have hcompany : ∀ p : Pass, p.hits {} (companyAt ms) flipperCompany = true := fun p => rfl
  have hfound : lookup t.engine.cache .FLIPPER (companyAt ms) = some 0 := by
    refine Slots.first_eq_some.mpr ⟨?_, fun j hj => absurd hj (Fin.not_lt_zero j)⟩
    simp [candidate, h.occupied, h.category, h.radio, sameIdentity, samsungIdentity, h.address,
      h.addressType, companyAt, received_companyOnly]
  have hlist : t.engine.rules = [flipperService, flipperCompany] := h.rules
  have hsettings : (received ms 5 companyOnly).settings = {} := rfl
  have hobservation : (received ms 5 companyOnly).observation = companyAt ms := rfl
  rw [Recorded.walk, hlist, hsettings, hobservation, List.foldl_cons, List.foldl_cons, List.foldl_nil]
  obtain ⟨htouched, hcache, hhits⟩ := Hits.apply_of_miss (hservice { engine := t.engine })
    (p := ({ engine := t.engine }, t.hits))
  generalize Hits.apply {} (companyAt ms) ({ engine := t.engine }, t.hits) flipperService = ph at *
  have hsecond := Hits.apply_of_found (s := 0) (hcompany ph.1) (by rw [htouched]) (by rw [hcache]; exact hfound)
  rw [hcache, hhits, htouched] at hsecond
  exact hsecond

/-- What the ingest makes of it: one pass of the loop over the categories. -/
theorem aging_ingest (sort : SortFn Rule) {t : Recorded} {now : UInt64} (h : Aging t now) (ms : UInt64) :
    ∃ engine : Engine, engine.rules = t.engine.rules ∧ engine.nextEmit = t.engine.nextEmit ∧
      engine.cache = Function.update t.engine.cache 0 (seenAgain t ms) ∧
      t.engine.ingest sort (companyAt ms) {} 4 = settle sort (companyAt ms) 4
        (Function.update (fun _ => none) .FLIPPER (some 0)) (engine, []) .FLIPPER := by
  obtain ⟨htouched, hcache, -⟩ := aging_walk h ms
  rw [recorded_walk_fst] at htouched hcache
  refine ⟨(t.engine.walk (companyAt ms) {}).engine.rememberAp (companyAt ms), ?_, ?_, ?_, ?_⟩
  · rw [Engine.rememberAp_rules, walk_rules]
  · rw [Engine.rememberAp_nextEmit, walk_nextEmit]
  · rw [Engine.rememberAp_cache]
    exact hcache
  · have hwalk : (t.engine.walk (companyAt ms) {}).touched =
        Function.update (fun _ => none) .FLIPPER (some 0) := htouched
    rw [Engine.ingest]
    simp only [hwalk]
    exact settle_only sort _ 4 .FLIPPER 0 _

theorem seenAgain_evidence {t : Recorded} {now ms : UInt64} (h : Aging t now) (hlater : now ≤ ms)
    (hsoon : ms - now ≤ 30000) : (seenAgain t ms).evidence =
      #v[{}, {}, {}, ⟨some flipperService, 1000⟩, {}, ⟨some flipperCompany, ms.toUInt32⟩, {}, {}, {}] := by
  have hlapsed : ¬ lapsed (companyAt ms) (t.engine.cache 0) := by
    simp only [lapsed, h.lastMs, not_or, UInt64.not_lt]
    exact ⟨hlater, hsoon⟩
  have hkept := refresh_evidence (companyAt ms) (t.engine.cache 0)
  rw [if_neg hlapsed, h.evidence] at hkept
  have hreplaces : replaces flipperCompany (companyAt ms) ⟨some flipperCompany, now.toUInt32⟩ = true := by
    simp [replaces]
  have hgroup : (refresh (companyAt ms) (t.engine.cache 0)).evidence[group flipperCompany.kind] =
      ⟨some flipperCompany, now.toUInt32⟩ := by
    rw [hkept]
    rfl
  rw [seenAgain, noteEvidence, hgroup, if_pos hreplaces]
  simp only [hkept]
  rfl

theorem seenAgain_entry {t : Recorded} {now : UInt64} (h : Aging t now) (ms : UInt64) :
    (seenAgain t ms).occupied = true ∧
    (seenAgain t ms).detection.address = #v[0xc0, 1, 2, 3, 4, 5] ∧
    (seenAgain t ms).detection.addressType = 1 ∧ (seenAgain t ms).detection.category = .FLIPPER ∧
    (seenAgain t ms).detection.radio = .Ble ∧ (seenAgain t ms).detection.lastMs = ms ∧
    (seenAgain t ms).emitted ≤ now := by
  unfold seenAgain Entry.occupied
  rw [noteEvidence_detection, noteEvidence_emitted, refresh_detection]
  refine ⟨?_, ?_, ?_, ?_, ?_, ?_, h.emitted⟩
  · simpa using refreshDetection_seenCount_ne_zero (companyAt ms) (t.engine.cache 0).detection
  · rw [refreshDetection_address]
    rfl
  · rw [refreshDetection_addressType]
    rfl
  · rw [refreshDetection_category, h.category]
  · rw [refreshDetection_radio, h.radio]
  · rw [refreshDetection_lastMs]
    rfl

/-- Fusing and emitting the entry keeps all of it that `Aging` reads. -/
theorem settle_seen (sort : SortFn Rule) {engine : Engine} {t : Recorded} {now ms : UInt64}
    (hcache : engine.cache = Function.update t.engine.cache 0 (seenAgain t ms))
    (hnext : engine.nextEmit ≤ ms + 100) (hemitted : (seenAgain t ms).emitted ≤ now)
    (hlater : now ≤ ms) (hpositive : 1 ≤ ms) :
    let r := (settle sort (companyAt ms) 4 (Function.update (fun _ => none) .FLIPPER (some 0))
      (engine, []) .FLIPPER).1
    r.rules = engine.rules ∧ r.nextEmit ≤ ms + 100 ∧
      (r.cache 0).evidence = (seenAgain t ms).evidence ∧
      (r.cache 0).detection.history = (seenAgain t ms).detection.history ∧ (r.cache 0).emitted ≤ ms := by
  have hslot : engine.cache 0 = seenAgain t ms := by rw [hcache, Function.update_self]
  obtain ⟨hnone, -⟩ | ⟨s, hs, hst⟩ | ⟨s, hs, -, -, -, hst⟩ := settle_cases sort (companyAt ms) 4
    (Function.update (fun _ => none) .FLIPPER (some 0)) (engine, []) .FLIPPER
  · simp at hnone
  · rw [Function.update_self] at hs
    obtain rfl := Option.some.inj hs
    rw [hst]
    simp only [Function.update_self, hslot]
    exact ⟨trivial, hnext, rfl, fuse_history _ _ _, UInt64.le_trans hemitted hlater⟩
  · rw [Function.update_self] at hs
    obtain rfl := Option.some.inj hs
    rw [hst]
    simp only [Function.update_self, hslot]
    refine ⟨trivial, UInt64.le_refl _, rfl, fuse_history _ _ _, ?_⟩
    have hmax : (markEmitted (companyAt ms) (fuse sort (companyAt ms) (seenAgain t ms))).emitted =
        if 1 ≤ ms then ms else 1 := rfl
    rw [hmax, if_pos hpositive]
    exact UInt64.le_refl _

/-- Thirty seconds later, with the service as it was. -/
theorem aging_step (sort : SortFn Rule) {t : Recorded} {now : UInt64} (h : Aging t now)
    (hroom : now.toNat + 30000 < 2 ^ 63) :
    Aging (t.ingest sort (received (now + 30000) 5 companyOnly)) (now + 30000) := by
  have hnat : (now + 30000).toNat = now.toNat + 30000 := by
    rw [UInt64.toNat_add]
    exact Nat.mod_eq_of_lt (by simp; omega)
  have hlater : now ≤ now + 30000 := by
    rw [UInt64.le_iff_toNat_le, hnat]
    omega
  have hpositive : 1 ≤ now + 30000 := by
    rw [UInt64.le_iff_toNat_le, hnat]
    simp
  have hnext : t.engine.nextEmit ≤ now + 30000 + 100 := by
    have hbefore := UInt64.le_iff_toNat_le.mp h.nextEmit
    rw [UInt64.toNat_add] at hbefore
    rw [UInt64.le_iff_toNat_le, UInt64.toNat_add, hnat]
    simp only [UInt64.reduceToNat] at hbefore ⊢
    omega
  have hsoon : now + 30000 - now ≤ 30000 := by simp
  obtain ⟨-, -, hwalk⟩ := aging_walk h (now + 30000)
  obtain ⟨hoccupied, haddress, haddressType, hcategory, hradio, hlast, hemitted⟩ :=
    seenAgain_entry h (now + 30000)
  obtain ⟨engine, hrules, hopen, hcache, hingest⟩ := aging_ingest sort h (now + 30000)
  have hengine : (t.ingest sort (received (now + 30000) 5 companyOnly)).engine =
      (settle sort (companyAt (now + 30000)) 4 (Function.update (fun _ => none) .FLIPPER (some 0))
        (engine, []) .FLIPPER).1 := by
    rw [← hingest]
    rfl
  obtain ⟨hkept, hlimit, hevidence, hhistory, hmark⟩ := settle_seen sort hcache (by rw [hopen]; exact hnext)
    hemitted hlater hpositive
  rw [← hengine] at hkept hlimit hevidence hhistory hmark
  refine ⟨by rw [hkept, hrules]; exact h.rules, hlimit, ?_, ?_, ?_, ?_, ?_, ?_, hmark, ?_, ?_⟩
  · have hcount := congrArg Detection.seenCount hhistory
    simp only [history_seenCount] at hcount
    rw [Entry.occupied, hcount]
    exact hoccupied
  · exact (congrArg Detection.address hhistory).trans haddress
  · exact (congrArg Detection.addressType hhistory).trans haddressType
  · exact (congrArg Detection.category hhistory).trans hcategory
  · exact (congrArg Detection.radio hhistory).trans hradio
  · exact (congrArg Detection.lastMs hhistory).trans hlast
  · rw [hevidence]
    exact seenAgain_evidence h hlater hsoon
  · intro hit hmem hservice
    have hmem' : hit ∈ (t.walk (received (now + 30000) 5 companyOnly)).2 0 := hmem
    rw [hwalk, Hits.add, Function.update_self] at hmem'
    rcases List.mem_cons.mp hmem' with rfl | hold
    · have hdifferent : flipperCompany ≠ flipperService := by decide
      exact absurd hservice hdifferent
    · exact h.hits hit (mem_of_mem_touch hold) hservice

def companyTicks (n : Nat) : List Tick :=
  (List.range n).map fun k => received (.ofNat (1000 + 30000 * (k + 1))) 5 companyOnly

/-- The service once, then only the company, every 30 seconds. -/
def longVisit (n : Nat) : List Tick := received 1000 5 serviceAndCompany :: companyTicks n

theorem longVisit_succ (n : Nat) :
    longVisit (n + 1) = longVisit n ++ [received (.ofNat (1000 + 30000 * (n + 1))) 5 companyOnly] := by
  simp [longVisit, companyTicks, List.range_succ]

theorem aging_longVisit (n : Nat) (hn : n ≤ 143166) :
    Aging (Recorded.run .insertion flipper (longVisit n)) (.ofNat (1000 + 30000 * n)) := by
  induction n with
  | zero => exact aging_first
  | succ n ih =>
    have htime : UInt64.ofNat (1000 + 30000 * (n + 1)) = UInt64.ofNat (1000 + 30000 * n) + 30000 := by
      rw [show 1000 + 30000 * (n + 1) = 1000 + 30000 * n + 30000 by omega, UInt64.ofNat_add]
      rfl
    have hsmall : (UInt64.ofNat (1000 + 30000 * n)).toNat = 1000 + 30000 * n :=
      UInt64.toNat_ofNat_of_lt' (by change _ < 18446744073709551616; omega)
    rw [longVisit_succ, Recorded.run, Runs.run_concat, htime]
    exact aging_step .insertion (ih (by omega)) (by rw [hsmall]; omega)

theorem monotone_longVisit (n : Nat) (hn : n ≤ 143166) : Monotone (longVisit n) := by
  have hms : ∀ k < n, (received (.ofNat (1000 + 30000 * (k + 1))) 5 companyOnly).observation.ms.toNat =
      1000 + 30000 * (k + 1) := fun k hk =>
    UInt64.toNat_ofNat_of_lt' (by change _ < 18446744073709551616; omega)
  refine List.pairwise_cons.mpr ⟨fun tick htick => ?_, ?_⟩
  · obtain ⟨k, hk, rfl⟩ := List.mem_map.mp htick
    rw [UInt64.le_iff_toNat_le, hms k (List.mem_range.mp hk)]
    change 1000 ≤ _
    omega
  · refine List.pairwise_map.mpr ?_
    refine (List.pairwise_lt_range).imp_of_mem fun {i j} hi hj hij => ?_
    rw [UInt64.le_iff_toNat_le, hms i (List.mem_range.mp hi), hms j (List.mem_range.mp hj)]
    omega

/-- A packet 30 seconds after the last one is emitted. -/
theorem aging_emits (sort : SortFn Rule) {t : Recorded} {now ms : UInt64} (h : Aging t now)
    (hnext : now + 100 ≤ ms) (hdue : ∀ emitted ≤ now, 30000 ≤ ms - emitted) :
    t.emissions sort (received ms 5 companyOnly) =
      [⟨0, (fuse sort (companyAt ms) (seenAgain t ms)).detection⟩] := by
  obtain ⟨engine, -, hopen, hcache, hingest⟩ := aging_ingest sort h ms
  obtain ⟨-, -, -, -, -, -, hemitted⟩ := seenAgain_entry h ms
  have hslot : engine.cache 0 = seenAgain t ms := by rw [hcache, Function.update_self]
  have hlimit : engine.nextEmit ≤ ms := by
    rw [hopen]
    exact UInt64.le_trans h.nextEmit hnext
  have hage : due (companyAt ms) (seenAgain t ms).detection.score
      (fuse sort (companyAt ms) (seenAgain t ms)) = true :=
    due_iff.mpr (.inr (.inl (hdue _ hemitted)))
  have hemissions : t.emissions sort (received ms 5 companyOnly) =
      (t.engine.ingest sort (companyAt ms) {} 4).2 := rfl
  have hms : (companyAt ms).ms = ms := rfl
  rw [hemissions, hingest, settle, Function.update_self]
  simp [hslot, hage, hms, hlimit]

/-- 12704 ms after the wrap of its age, the service is listed first. -/
theorem revived_rules (e : Entry) (h : e.evidence = #v[{}, {}, {}, ⟨some flipperService, 1000⟩, {},
      ⟨some flipperCompany, 13704⟩, {}, {}, {}]) :
    (fuse .insertion (companyAt 4294981000) e).detection.ruleCount = 2 ∧
      (fuse .insertion (companyAt 4294981000) e).detection.rules[0] = some flipperService := by
  have hactive : activeRules (companyAt 4294981000) e = [flipperService, flipperCompany] := by
    rw [activeRules, h]
    decide
  have hsorted : SortFn.insertion.run (stronger (companyAt 4294981000)) [flipperService, flipperCompany] =
      [flipperService, flipperCompany] := by
    decide
  simp [fuse, hactive, hsorted]

theorem not_rulesFresh_of_aging {t : Recorded} (h : Aging t 4294951000) :
    ¬ RulesFresh .insertion t (received 4294981000 5 companyOnly) := by
  intro hfresh
  have hemits := aging_emits .insertion h (show 4294951000 + 100 ≤ (4294981000 : UInt64) by decide) fun emitted hemitted => by
    have hle : emitted.toNat ≤ 4294951000 := UInt64.le_iff_toNat_le.mp hemitted
    have hbefore : emitted ≤ 4294981000 :=
      UInt64.le_iff_toNat_le.mpr (show emitted.toNat ≤ 4294981000 by omega)
    rw [UInt64.le_iff_toNat_le, UInt64.toNat_sub_of_le _ _ hbefore]
    change 30000 ≤ 4294981000 - emitted.toNat
    omega
  obtain ⟨hcount, hrule⟩ := revived_rules (seenAgain t 4294981000)
    (seenAgain_evidence h (by decide) (by decide))
  obtain ⟨rule, hlisted, hit, hhit, hsame, -, hyoung⟩ := hfresh
    ⟨0, (fuse .insertion (companyAt 4294981000) (seenAgain t 4294981000)).detection⟩
    (by rw [hemits]; exact List.mem_cons_self) 0 (by rw [hcount]; decide)
  have hservice : hit.rule = flipperService := by
    rw [hsame]
    exact Option.some.inj (hlisted.symm.trans hrule)
  have hold := (aging_step .insertion h (by decide)).hits hit hhit hservice
  have hms : (received 4294981000 5 companyOnly).observation.ms = 4294981000 := rfl
  rw [hold, hms] at hyoung
  exact absurd hyoung (by decide)

theorem visited_longVisit (n : Nat) (hn : n + 1 ≤ 143166) :
    ∃ t, Aging t (.ofNat (1000 + 30000 * n)) ∧
      (t, received (.ofNat (1000 + 30000 * (n + 1))) 5 companyOnly) ∈
        Recorded.visited .insertion flipper (longVisit (n + 1)) := by
  refine ⟨_, aging_longVisit n (by omega), ?_⟩
  rw [longVisit_succ, Recorded.visited, Runs.visited_concat]
  exact List.mem_append_right _ List.mem_cons_self

/-- After 2^32 ms the match of the first minute is listed again. -/
theorem evidence_revived :
    ¬ ∀ (sort : SortFn Rule) (rules : List Rule) (ticks : List Tick), Monotone ticks →
      ∀ v ∈ Recorded.visited sort rules ticks, RulesFresh sort v.1 v.2 := by
  intro h
  have hlast : UInt64.ofNat (1000 + 30000 * 143165) = 4294951000 := by decide
  have hnext : UInt64.ofNat (1000 + 30000 * (143165 + 1)) = 4294981000 := by decide
  obtain ⟨t, haging, hmem⟩ := visited_longVisit 143165 (by omega)
  have hmonotone := monotone_longVisit (143165 + 1) (by omega)
  rw [hlast] at haging
  have hfresh := h .insertion flipper _ hmonotone _ hmem
  rw [hnext] at hfresh
  exact not_rulesFresh_of_aging haging hfresh

end Hound
