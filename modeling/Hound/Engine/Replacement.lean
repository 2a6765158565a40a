import Hound.Engine.Expiry

/-!
# Stronger matches in front of later ones

A group keeps one rule. A weaker match is dropped while a stronger rule is live,
so it is forgotten when the stronger one expires first. In every run where that
does not happen each match of the last 30 seconds is represented in the fusion.
-/

namespace Hound

/-- Every match of the last 30 seconds has a rule of its group, at least as
strong and matched in the last 30 seconds, in front of it. -/
def Upheld (now : UInt64) (e : Entry) (hits : List Hit) : Prop :=
  ∀ hit ∈ hits, now - hit.ms ≤ 30000 → ∃ rule ms,
    e.evidence[group hit.rule.kind].rule = some rule ∧ hit.rule.score ≤ rule.score ∧
      lastHit rule hits = some ms ∧ now - ms ≤ 30000

/-- Where the rule of a group expires, no other rule of the group matched in the
last 30 seconds. -/
def NothingOutlives (o : Observation) (e : Entry) (hits : List Hit) : Prop :=
  ∀ (g : Fin 9) (rule : Rule), (e.evidence.get g).rule = some rule →
    ∀ ms, lastHit rule hits = some ms → 30000 < o.ms - ms →
      ∀ hit ∈ hits, group hit.rule.kind = g → 30000 < o.ms - hit.ms

instance (o : Observation) (e : Entry) (hits : List Hit) : Decidable (NothingOutlives o e hits) :=
  decidable_of_iff (∀ g : Fin 9, ((e.evidence.get g).rule.all fun rule => (lastHit rule hits).all fun ms =>
      decide (30000 < o.ms - ms → ∀ hit ∈ hits, group hit.rule.kind = g → 30000 < o.ms - hit.ms)) = true)
    (by simp only [NothingOutlives, Option.all_eq_true, decide_eq_true_eq])

/-- The packet finds no entry whose rule expires before a later match of its group. -/
def NoLaterMatch (t : Recorded) (tick : Tick) : Prop :=
  ∀ s, matched tick.observation (t.engine.cache s).detection = true →
    ¬ lapsed tick.observation (t.engine.cache s) →
    NothingOutlives tick.observation (t.engine.cache s) (t.hits s)

instance (t : Recorded) (tick : Tick) : Decidable (NoLaterMatch t tick) :=
  inferInstanceAs (Decidable (∀ s : Slot, matched _ (t.engine.cache s).detection = true →
    ¬ lapsed _ _ → NothingOutlives _ _ _))

/-- Every match of the last 30 seconds in a touched entry is represented among
the rules this ingest fuses. -/
def Remembered (t : Recorded) (tick : Tick) : Prop :=
  ∀ c s, (t.walk tick).1.touched c = some s → ∀ hit ∈ (t.walk tick).2 s,
    tick.observation.ms - hit.ms ≤ 30000 →
    ∃ rule ∈ activeRules tick.observation ((t.walk tick).1.engine.cache s),
      group rule.kind = group hit.rule.kind ∧ hit.rule.score ≤ rule.score ∧
        ∃ last ∈ (t.walk tick).2 s, last.rule = rule ∧ tick.observation.ms - last.ms ≤ 30000

/-! ## One match -/

theorem young_of_age {now ms : UInt64} (h : now - ms ≤ 30000) : now.toUInt32 - ms.toUInt32 ≤ 30000 := by
  have hage := age_toNat now ms
  have hnat : (now - ms).toNat ≤ 30000 := UInt64.le_iff_toNat_le.mp h
  rw [UInt32.le_iff_toNat_le]
  change (now.toUInt32 - ms.toUInt32).toNat ≤ 30000
  rw [Nat.mod_eq_of_lt (by omega)] at hage
  omega

theorem unwrapped_of_lt {now ms : UInt64} (h : now < 4294967296) (hms : ms ≤ now) : Unwrapped now ms := by
  left
  have hnow : now.toNat < 4294967296 := UInt64.lt_iff_toNat_lt.mp h
  rw [UInt64.lt_iff_toNat_lt, UInt64.toNat_sub_of_le _ _ hms]
  change now.toNat - ms.toNat < 4294967296
  omega

/-- A live rule gives way only to one at least as strong. -/
theorem score_le_of_replaces {rule held : Rule} {o : Observation} {ev : Evidence}
    (h : replaces rule o ev = true) (hheld : ev.rule = some held)
    (hyoung : o.ms.toUInt32 - ev.at' ≤ 30000) : held.score ≤ rule.score := by
  simp only [replaces, hheld, Bool.or_eq_true, decide_eq_true_eq] at h
  rcases h with hold | hscore
  · exact absurd hyoung (UInt32.not_le.mpr hold)
  · exact hscore

theorem evidence_congr (e : Entry) {g g' : Fin 9} (h : g = g') : e.evidence[g] = e.evidence[g'] := by
  subst h
  rfl

theorem Upheld.note {e : Entry} {hits : List Hit} {o : Observation} (h : Upheld o.ms e hits)
    (hheld : Held (· ≤ o.ms) e hits) (hsmall : o.ms < 4294967296) (rule : Rule) :
    Upheld o.ms (noteEvidence rule o e) (⟨rule, o.ms⟩ :: hits) := by
  obtain ⟨hother, _, rfl, hown⟩ := noteEvidence_cases rule o e
  have hlast : ∀ held ms, held ≠ rule → lastHit held hits = some ms →
      lastHit held (⟨rule, o.ms⟩ :: hits) = some ms := fun held ms hne hms =>
    (lastHit_cons_of_ne (Ne.symm hne) hits).trans hms
  have hnow : o.ms - o.ms ≤ 30000 := by simp
  rcases hown with ⟨hset, hreplaces⟩ | ⟨hsame, held, hrule, hyoung, hscore⟩
  · -- the match is now the rule of its group
    intro hit hhit hrecent
    by_cases hgroup : group hit.rule.kind = group rule.kind
    · refine ⟨rule, o.ms, by rw [evidence_congr _ hgroup, hset], ?_, lastHit_cons_self _ _ _, hnow⟩
      rcases List.mem_cons.mp hhit with rfl | hhit
      · exact UInt8.le_refl _
      · obtain ⟨before, ms, hbefore, hle, hms, hage⟩ := h hit hhit hrecent
        rw [evidence_congr _ hgroup] at hbefore
        obtain ⟨-, ms', hms', hat, -⟩ := hheld _ _ hbefore
        obtain rfl : ms = ms' := Option.some.inj (hms.symm.trans hms')
        have hlive := young_of_age hage
        rw [← hat] at hlive
        exact UInt8.le_trans hle (score_le_of_replaces hreplaces hbefore hlive)
    · rcases List.mem_cons.mp hhit with rfl | hhit
      · exact absurd rfl hgroup
      · obtain ⟨before, ms, hbefore, hle, hms, hage⟩ := h hit hhit hrecent
        have hne : before ≠ rule := by
          rintro rfl
          exact hgroup (hheld _ _ hbefore).1.symm
        exact ⟨before, ms, by rw [hother _ hgroup]; exact hbefore, hle, hlast _ _ hne hms, hage⟩
  · -- a stronger live rule stays in front of it
    rw [hsame]
    have hstronger : ∀ before, e.evidence[group rule.kind].rule = some before → before ≠ rule := by
      intro before hbefore heq
      rw [hrule] at hbefore
      obtain rfl := Option.some.inj hbefore
      rw [heq] at hscore
      exact UInt8.lt_irrefl _ hscore
    intro hit hhit hrecent
    rcases List.mem_cons.mp hhit with rfl | hhit
    · obtain ⟨-, ms, hms, hat, hpast⟩ := hheld _ _ hrule
      rw [hat] at hyoung
      exact ⟨held, ms, hrule, UInt8.le_of_lt hscore, hlast _ _ (hstronger held hrule) hms,
        young_of_unwrapped (unwrapped_of_lt hsmall hpast) hyoung⟩
    · obtain ⟨before, ms, hbefore, hle, hms, hage⟩ := h hit hhit hrecent
      have hne : before ≠ rule := by
        by_cases hgroup : group hit.rule.kind = group rule.kind
        · rw [evidence_congr _ hgroup] at hbefore
          exact hstronger before hbefore
        · rintro rfl
          exact hgroup (hheld _ _ hbefore).1.symm
      exact ⟨before, ms, hbefore, hle, hlast _ _ hne hms, hage⟩

theorem age_mono {before now ms : UInt64} (hms : ms ≤ before) (hbefore : before ≤ now)
    (h : now - ms ≤ 30000) : before - ms ≤ 30000 := by
  have hage := UInt64.le_iff_toNat_le.mp h
  have hle := UInt64.le_iff_toNat_le.mp hbefore
  rw [UInt64.toNat_sub_of_le _ _ (UInt64.le_trans hms hbefore)] at hage
  rw [UInt64.le_iff_toNat_le, UInt64.toNat_sub_of_le _ _ hms]
  omega

/-- The next packet keeps what no later match outlives. -/
theorem Upheld.refresh {e : Entry} {hits : List Hit} {o : Observation}
    (h : Upheld e.detection.lastMs e hits) (hpast : ∀ hit ∈ hits, hit.ms ≤ e.detection.lastMs)
    (hlater : e.detection.lastMs ≤ o.ms) (hnone : ¬ lapsed o e → NothingOutlives o e hits) :
    Upheld o.ms (Hound.refresh o e) (if lapsed o e then [] else hits) := by
  by_cases hlapsed : lapsed o e
  · rw [if_pos hlapsed]
    exact fun hit hhit => nomatch hhit
  · rw [if_neg hlapsed]
    intro hit hhit hrecent
    obtain ⟨rule, ms, hrule, hle, hms, -⟩ :=
      h hit hhit (age_mono (hpast hit hhit) hlater hrecent)
    rw [refresh_evidence, if_neg hlapsed]
    refine ⟨rule, ms, hrule, hle, hms, ?_⟩
    refine UInt64.not_lt.mp fun hexpired => ?_
    have hold := hnone hlapsed _ rule hrule ms hms hexpired hit hhit rfl
    exact absurd hrecent (UInt64.not_le.mpr hold)

/-! ## Runs -/

/-- An entry at the time of its last packet. -/
structure Remembers (e : Entry) (hits : List Hit) : Prop where
  past : ∀ hit ∈ hits, hit.ms ≤ e.detection.lastMs
  held : Held (· ≤ e.detection.lastMs) e hits
  upheld : Upheld e.detection.lastMs e hits

theorem Remembers.same {e e' : Entry} {hits : List Hit} (h : Remembers e hits) (hsame : SameEvidence e e') :
    Remembers e' hits := by
  refine ⟨?_, ?_, ?_⟩
  · rw [hsame.lastMs]
    exact h.past
  · rw [hsame.lastMs]
    exact h.held.same hsame
  · rw [hsame.lastMs]
    intro hit hhit hrecent
    rw [hsame.evidence]
    exact h.upheld hit hhit hrecent

theorem remembers_empty {e : Entry} (h : e.evidence = Vector.replicate 9 {}) : Remembers e [] :=
  ⟨fun _ hhit => (nomatch hhit), held_empty _ h _, fun _ hhit => (nomatch hhit)⟩

def AllRemember (t : Recorded) (now : UInt64) : Prop :=
  ∀ s, Remembers (t.engine.cache s) (t.hits s) ∧ (t.engine.cache s).detection.lastMs ≤ now

theorem remembers_walk {t : Recorded} {tick : Tick} (h : AllRemember t tick.observation.ms)
    (hlater : NoLaterMatch t tick) (hsmall : tick.observation.ms < 4294967296) :
    ∀ s, Walked (fun e hits => e.detection.lastMs = tick.observation.ms ∧ Remembers e hits)
      t (t.walk tick) s := by
  refine walk_entries (J := fun _ _ => True) tick (fun _ => trivial)
    (fun c => ⟨refresh_lastMs _ _, remembers_empty (refresh_fresh_evidence _ _)⟩)
    (fun s hmatch _ => ⟨refresh_lastMs _ _, ?_⟩) (fun e hits rule ⟨hlast, hI⟩ => ⟨?_, ?_⟩)
  · obtain ⟨⟨hpast, hheld, hupheld⟩, hnow⟩ := h s
    refine ⟨?_, ?_, ?_⟩
    · rw [refresh_lastMs]
      intro hit hhit
      split at hhit
      · exact nomatch hhit
      · exact UInt64.le_trans (hpast hit hhit) hnow
    · rw [refresh_lastMs]
      exact hheld.refresh fun _ _ _ _ _ _ hms => UInt64.le_trans hms hnow
    · rw [refresh_lastMs]
      exact hupheld.refresh hpast hnow (hlater s hmatch)
  · rw [noteEvidence_detection]
    exact hlast
  · obtain ⟨hpast, hheld, hupheld⟩ := hI
    rw [hlast] at hpast hheld hupheld
    refine ⟨?_, ?_, ?_⟩
    · rw [noteEvidence_detection, hlast]
      intro hit hhit
      rcases List.mem_cons.mp hhit with rfl | hhit
      · exact UInt64.le_refl _
      · exact hpast hit hhit
    · rw [noteEvidence_detection, hlast]
      exact hheld.note (UInt64.le_refl _) rule
    · rw [noteEvidence_detection, hlast]
      exact hupheld.note hheld hsmall rule

theorem remembers_ingest (sort : SortFn Rule) {t : Recorded} {tick : Tick}
    (hguard : NoLaterMatch t tick ∧ tick.observation.ms < 4294967296)
    (h : AllRemember t tick.observation.ms) :
    AllRemember (t.ingest sort tick) tick.observation.ms := by
  intro s
  have hsame := (ingest_evidence sort t tick).1 s
  rcases remembers_walk h hguard.1 hguard.2 s with ⟨-, hcache, hhits⟩ | ⟨-, hlast, hremembers⟩
  · rw [hcache] at hsame
    have hkept : (t.ingest sort tick).hits s = t.hits s := hhits
    rw [hkept, hsame.lastMs]
    exact ⟨(h s).1.same hsame, (h s).2⟩
  · rw [hsame.lastMs, hlast]
    exact ⟨hremembers.same hsame, UInt64.le_refl _⟩

theorem mem_activeRules_of_evidence {o : Observation} {e : Entry} {g : Fin 9} {rule : Rule}
    (hrule : (e.evidence.get g).rule = some rule)
    (hyoung : o.ms.toUInt32 - (e.evidence.get g).at' ≤ 30000) : rule ∈ activeRules o e := by
  refine List.mem_filterMap.mpr ⟨e.evidence.get g, ?_, ?_⟩
  · exact Vector.mem_toList_iff.mpr (Vector.getElem_mem g.isLt)
  · rw [if_pos (by simpa using hyoung)]
    exact hrule

theorem remembered_ingest {t : Recorded} {tick : Tick}
    (hguard : NoLaterMatch t tick ∧ tick.observation.ms < 4294967296)
    (h : AllRemember t tick.observation.ms) : Remembered t tick := by
  intro c s hc hit hhit hrecent
  rcases remembers_walk h hguard.1 hguard.2 s with ⟨hfree, -⟩ | ⟨-, hlast, -, hheld, hupheld⟩
  · exact absurd hc (hfree c)
  · rw [hlast] at hheld hupheld
    obtain ⟨rule, ms, hrule, hle, hms, hage⟩ := hupheld hit hhit hrecent
    obtain ⟨hgroup, ms', hms', hat, -⟩ := hheld _ _ hrule
    obtain rfl : ms = ms' := Option.some.inj (hms.symm.trans hms')
    have hyoung := young_of_age hage
    rw [← hat] at hyoung
    exact ⟨rule, mem_activeRules_of_evidence hrule hyoung, hgroup, hle, ⟨rule, ms⟩, mem_of_lastHit hms, rfl, hage⟩

/-- In a run whose stronger rules never expire in front of a later match, every
match of the last 30 seconds is represented. -/
theorem evidence_remembered (sort : SortFn Rule) (rules : List Rule) (ticks : List Tick)
    (hordered : Monotone ticks) (hsmall : ∀ tick ∈ ticks, tick.observation.ms < 4294967296)
    (meets : ∀ v ∈ Recorded.visited sort rules ticks, NoLaterMatch v.1 v.2) :
    ∀ v ∈ Recorded.visited sort rules ticks, Remembered v.1 v.2 := by
  intro v hv
  have hguard : ∀ v ∈ Recorded.visited sort rules ticks,
      NoLaterMatch v.1 v.2 ∧ v.2.observation.ms < 4294967296 := by
    intro v hv
    obtain ⟨before, after, hsplit, -⟩ := (Runs.mem_visited _).mp hv
    have hmem : v.2 ∈ ticks := by
      rw [hsplit]
      exact List.mem_append_right _ List.mem_cons_self
    exact ⟨meets v hv, hsmall v.2 hmem⟩
  have hall := Runs.ordered_visited (· ≤ ·) (fun tick : Tick => tick.observation.ms) AllRemember
    (fun t tick => NoLaterMatch t tick ∧ tick.observation.ms < 4294967296)
    (fun t a b hab h s => ⟨(h s).1, UInt64.le_trans (h s).2 hab⟩)
    (fun t tick hguard h => remembers_ingest sort hguard h) hordered
    (fun tick _ s => ⟨remembers_empty rfl, UInt64.le_iff_toNat_le.mpr (Nat.zero_le _)⟩) hguard v hv
  exact remembered_ingest (hguard v hv) hall

/-- A second, weaker service of the same device. -/
def flipperWeaker : Rule :=
  { flipperService with id := ascii "ble.flipper.3082", value := ascii "3082", score := 60 }

def weakerOnly : Bytes := [3, 3, 0x82, 0x30]

theorem evidence_remembered_flipper :
    Monotone [received 1000 5 serviceAndCompany, received 25000 5 weakerOnly, received 26000 5 companyOnly] ∧
    ∀ v ∈ Recorded.visited .insertion [flipperService, flipperWeaker, flipperCompany]
      [received 1000 5 serviceAndCompany, received 25000 5 weakerOnly, received 26000 5 companyOnly],
      Remembered v.1 v.2 :=
  ⟨by decide, evidence_remembered .insertion _ _ (by decide) (by decide) (by decide +kernel)⟩

/-- The stronger service at 1000 ms hides the weaker one at 25000 ms, and at 31500 ms
only the company is left. -/
theorem evidence_forgotten :
    ¬ ∀ (sort : SortFn Rule) (rules : List Rule) (ticks : List Tick), Monotone ticks →
      (∀ tick ∈ ticks, tick.observation.ms < 4294967296) →
      ∀ v ∈ Recorded.visited sort rules ticks, Remembered v.1 v.2 := by
  intro h
  have hrun := h .insertion [flipperService, flipperWeaker, flipperCompany]
    [received 1000 5 serviceAndCompany, received 25000 5 weakerOnly, received 31500 5 companyOnly]
    (by decide) (by decide) _
    (List.mem_cons_of_mem _ (List.mem_cons_of_mem _ List.mem_cons_self))
    .FLIPPER 0 (by decide +kernel) ⟨flipperWeaker, 25000⟩ (by decide +kernel) (by decide +kernel)
  exact absurd hrun (by decide +kernel)

end Hound
