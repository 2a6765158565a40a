import Hound.Engine.Caps

/-!
# Statistics of an entry

The counters, extrema and sums of an entry are updated under different
conditions; together they still bound the average that is logged. What is fused
names rules of the entry's own category, as long as no allocation takes the slot
of an entry that the same packet was counted into.
-/

namespace Hound

/-- The times and signal strengths an entry has counted. -/
structure Counted (d : Detection) : Prop where
  times : d.firstMs ≤ d.lastMs
  extrema : d.rssiMin ≤ d.rssiMax
  below : d.rssiMin.toInt * d.seenCount.toNat ≤ d.rssiSum
  above : d.rssiSum ≤ d.rssiMax.toInt * d.seenCount.toNat

/-- Evidence of the entry's own category. -/
def OwnEvidence (e : Entry) : Prop :=
  ∀ (g : Fin 9) r, (e.evidence.get g).rule = some r → r.category = e.detection.category

/-- The rules of the last fusion. -/
structure Fused (d : Detection) : Prop where
  counted : 1 ≤ d.ruleCount ∧ d.ruleCount ≤ 4
  own : ∀ i : Fin 4, i.val < d.ruleCount.toNat → ∃ r, d.rules.get i = some r ∧ r.category = d.category

/-- What holds of an occupied entry between two ingests. -/
structure Consistent (e : Entry) : Prop where
  seen : 1 ≤ e.detection.seenCount
  counted : Counted e.detection
  own : OwnEvidence e
  fused : Fused e.detection

/-- An allocation does not take the slot of an entry counted into at the same time. -/
def OlderVictim (o : Observation) (cache : Cache) (_ : Ledger) (c : Category) : Prop :=
  lookup cache c o = none → (cache (victim cache)).occupied = true →
    (cache (victim cache)).detection.lastMs ≠ o.ms

instance (o : Observation) (cache : Cache) (g : Ledger) (c : Category) :
    Decidable (OlderVictim o cache g c) :=
  inferInstanceAs (Decidable (_ → _ → _))

/-! ## Counting one packet -/

section Count

variable {o : Observation} {d : Detection}

theorem minInt8_toInt (a b : Int8) : (minInt8 a b).toInt = min a.toInt b.toInt := by
  unfold minInt8
  split
  · rename_i h
    have hlt := Int8.lt_iff_toInt_lt.mp h
    omega
  · rename_i h
    have hle := Int8.le_iff_toInt_le.mp (Int8.not_lt.mp h)
    omega

theorem maxInt8_toInt (a b : Int8) : (maxInt8 a b).toInt = max a.toInt b.toInt := by
  unfold maxInt8
  split
  · rename_i h
    have hlt := Int8.lt_iff_toInt_lt.mp h
    omega
  · rename_i h
    have hle := Int8.le_iff_toInt_le.mp (Int8.not_lt.mp h)
    omega

/-- What an entry needs to take a packet: a fresh one has it too. -/
structure Counts (o : Observation) (d : Detection) : Prop where
  first : d.firstMs ≤ o.ms
  extrema : d.rssiMin ≤ d.rssiMax
  below : d.rssiMin.toInt * d.seenCount.toNat ≤ d.rssiSum
  above : d.rssiSum ≤ d.rssiMax.toInt * d.seenCount.toNat

theorem Counted.counts (h : Counted d) (hlast : d.lastMs ≤ o.ms) : Counts o d :=
  ⟨UInt64.le_trans h.times hlast, h.extrema, h.below, h.above⟩

theorem counts_fresh (c : Category) (o : Observation) : Counts o (freshEntry c o).detection := by
  refine ⟨UInt64.le_refl _, Int8.le_refl _, ?_, ?_⟩
  · change o.rssi.toInt * 0 ≤ 0
    omega
  · change 0 ≤ o.rssi.toInt * 0
    omega

theorem refreshDetection_fields (o : Observation) (d : Detection) :
    (refreshDetection o d).firstMs = d.firstMs ∧
      (refreshDetection o d).rssiMin = minInt8 d.rssiMin o.rssi ∧
      (refreshDetection o d).rssiMax = maxInt8 d.rssiMax o.rssi := by
  unfold refreshDetection
  dsimp only
  split <;> exact ⟨rfl, rfl, rfl⟩

/-- The packet is counted, or the counter is full and the sum stays with it. -/
theorem refreshDetection_counters (o : Observation) (d : Detection) :
    ((refreshDetection o d).seenCount.toNat = d.seenCount.toNat + 1 ∧
        (refreshDetection o d).rssiSum = d.rssiSum + o.rssi.toInt) ∨
      ((refreshDetection o d).seenCount = d.seenCount ∧ (refreshDetection o d).rssiSum = d.rssiSum) := by
  unfold refreshDetection
  dsimp only
  split
  · rename_i h
    left
    refine ⟨?_, rfl⟩
    have hne : d.seenCount ≠ 0xffffffff := by simpa using h
    have hlt := d.seenCount.toNat_lt
    have hne' : d.seenCount.toNat ≠ 4294967295 := fun heq => hne (UInt32.toNat_inj.mp heq)
    change (d.seenCount + 1).toNat = _
    rw [UInt32.toNat_add]
    change (d.seenCount.toNat + 1) % 2 ^ 32 = _
    omega
  · exact .inr ⟨rfl, rfl⟩

theorem Counts.refresh (h : Counts o d) : Counted (refreshDetection o d) := by
  obtain ⟨hfirst, hmin, hmax⟩ := refreshDetection_fields o d
  have hmin' : (refreshDetection o d).rssiMin.toInt = min d.rssiMin.toInt o.rssi.toInt := by
    rw [hmin, minInt8_toInt]
  have hmax' : (refreshDetection o d).rssiMax.toInt = max d.rssiMax.toInt o.rssi.toInt := by
    rw [hmax, maxInt8_toInt]
  have hextrema := Int8.le_iff_toInt_le.mp h.extrema
  have hbelow := h.below
  have habove := h.above
  have hlow : min d.rssiMin.toInt o.rssi.toInt * d.seenCount.toNat ≤ d.rssiMin.toInt * d.seenCount.toNat :=
    mul_le_mul_of_nonneg_right (min_le_left _ _) (Int.natCast_nonneg _)
  have hhigh : d.rssiMax.toInt * d.seenCount.toNat ≤ max d.rssiMax.toInt o.rssi.toInt * d.seenCount.toNat :=
    mul_le_mul_of_nonneg_right (le_max_left _ _) (Int.natCast_nonneg _)
  constructor
  · rw [hfirst, refreshDetection_lastMs]
    exact h.first
  · rw [Int8.le_iff_toInt_le, hmin', hmax']
    omega
  · rw [hmin']
    rcases refreshDetection_counters o d with ⟨hseen, hsum⟩ | ⟨hseen, hsum⟩
    · rw [hseen, hsum, Nat.cast_add, mul_add]
      omega
    · rw [hseen, hsum]
      omega
  · rw [hmax']
    rcases refreshDetection_counters o d with ⟨hseen, hsum⟩ | ⟨hseen, hsum⟩
    · rw [hseen, hsum, Nat.cast_add, mul_add]
      omega
    · rw [hseen, hsum]
      omega

end Count

/-! ## The walk -/

/-- An entry that the packet has been counted into, before it is fused. -/
structure Ready (o : Observation) (e : Entry) : Prop where
  occupied : e.occupied = true
  last : e.detection.lastMs = o.ms
  counted : Counted e.detection
  own : OwnEvidence e
  active : activeRules o e ≠ []

/-- What the walk keeps: touched entries are ready, the others consistent. -/
structure Counting (o : Observation) (p : Pass) : Prop where
  own : ∀ s, OwnEvidence (p.engine.cache s)
  past : ∀ s, (p.engine.cache s).occupied = true → (p.engine.cache s).detection.lastMs ≤ o.ms
  idle : ∀ s, (∀ c, p.touched c ≠ some s) → (p.engine.cache s).occupied = true →
    Consistent (p.engine.cache s)
  touched : ∀ c s, p.touched c = some s →
    (p.engine.cache s).detection.category = c ∧ Ready o (p.engine.cache s)

section Walk

variable {o : Observation} {e : Entry} {rule : Rule}

theorem OwnEvidence.note (h : OwnEvidence e) (hcategory : rule.category = e.detection.category) :
    OwnEvidence (noteEvidence rule o e) := by
  intro g r hr
  rw [noteEvidence_detection]
  obtain ⟨hother, _, rfl, hown⟩ := noteEvidence_cases rule o e
  by_cases hg : g = group rule.kind
  · subst hg
    rcases hown with ⟨hset, -⟩ | ⟨hsame, -⟩
    · obtain rfl := Option.some.inj ((congrArg Evidence.rule hset).symm.trans hr)
      exact hcategory
    · rw [hsame] at hr
      exact h _ r hr
  · exact h g r ((congrArg Evidence.rule (hother g hg)).symm.trans hr)

theorem OwnEvidence.refresh (h : OwnEvidence e) (o : Observation) : OwnEvidence (Hound.refresh o e) := by
  intro g r hr
  rw [refresh_detection, refreshDetection_category]
  rw [refresh_evidence] at hr
  split at hr
  · simp at hr
  · exact h g r hr

theorem ownEvidence_fresh (c : Category) (o : Observation) : OwnEvidence (freshEntry c o) :=
  fun g r hr => absurd hr (fresh_source c o g r)

theorem noteEvidence_occupied (rule : Rule) (o : Observation) (e : Entry) :
    (noteEvidence rule o e).occupied = e.occupied := by
  unfold Entry.occupied
  rw [noteEvidence_detection]

/-- A match keeps a counted entry ready, or makes it so. -/
theorem note_ready (hoccupied : e.occupied = true) (hlast : e.detection.lastMs = o.ms)
    (hcounted : Counted e.detection) (hown : OwnEvidence e)
    (hcategory : rule.category = e.detection.category) : Ready o (noteEvidence rule o e) := by
  refine ⟨?_, ?_, ?_, hown.note hcategory, note_active rule o e⟩
  · rw [noteEvidence_occupied]
    exact hoccupied
  · rw [noteEvidence_detection]
    exact hlast
  · rw [noteEvidence_detection]
    exact hcounted

theorem refresh_ready (hcounts : Counts o e.detection) (hown : OwnEvidence e)
    (hcategory : rule.category = e.detection.category) : Ready o (noteEvidence rule o (refresh o e)) := by
  refine note_ready ?_ (refresh_lastMs o e) hcounts.refresh (hown.refresh o) ?_
  · have hseen := refreshDetection_seenCount_ne_zero o e.detection
    simpa [Entry.occupied] using hseen
  · rw [refresh_detection, refreshDetection_category]
    exact hcategory

/-- Everything that happens to one slot keeps the rest. -/
theorem Counting.update {p p' : Pass} (h : Counting o p) {c : Category} {s : Slot} {entry : Entry}
    (hready : Ready o entry) (hcategory : entry.detection.category = c)
    (hcache : p'.engine.cache = Function.update p.engine.cache s entry)
    (htouched : p'.touched = Function.update p.touched c (some s))
    (hbefore : ∀ j, p.touched c = some j → j = s)
    (halone : ∀ c', c' ≠ c → p.touched c' ≠ some s) : Counting o p' := by
  have hown : p'.touched c = some s := by rw [htouched, Function.update_self]
  have hother : ∀ c', c' ≠ c → p'.touched c' = p.touched c' := fun c' hc' => by
    rw [htouched, Function.update_of_ne hc']
  constructor
  · intro j
    rw [hcache]
    by_cases hj : j = s
    · subst hj
      rw [Function.update_self]
      exact hready.own
    · rw [Function.update_of_ne hj]
      exact h.own j
  · intro j
    rw [hcache]
    by_cases hj : j = s
    · subst hj
      rw [Function.update_self]
      exact fun _ => hready.last ▸ UInt64.le_refl _
    · rw [Function.update_of_ne hj]
      exact h.past j
  · intro j hfree
    have hj : j ≠ s := fun hj => hfree c (hj ▸ hown)
    rw [hcache, Function.update_of_ne hj]
    refine h.idle j fun c' hc' => ?_
    by_cases hcc : c' = c
    · subst hcc
      exact absurd (hbefore j hc') hj
    · exact hfree c' ((hother c' hcc).trans hc')
  · intro c' j hc'
    rw [hcache]
    by_cases hcc : c' = c
    · subst hcc
      obtain rfl := Option.some.inj (hown.symm.trans hc')
      rw [Function.update_self]
      exact ⟨hcategory, hready⟩
    · rw [hother c' hcc] at hc'
      have hj : j ≠ s := fun hj => halone c' hcc (hj ▸ hc')
      rw [Function.update_of_ne hj]
      exact h.touched c' j hc'

theorem Counting.apply {p : Pass} {g : Ledger} (h : Counting o p) (settings : Settings) (rule : Rule)
    (hvictim : p.touches settings o rule = true → OlderVictim o p.engine.cache g rule.category) :
    Counting o (p.apply settings o rule) := by
  obtain ⟨-, htouched, hcache⟩ | ⟨s, -, hs, htouched, hcache⟩ | ⟨s, e, ht, hlocate, htouched, hcache⟩ :=
    Pass.apply_cases settings o p rule
  · constructor
    · rw [hcache]
      exact h.own
    · rw [hcache]
      exact h.past
    · rw [hcache, htouched]
      exact h.idle
    · rw [hcache, htouched]
      exact h.touched
  · obtain ⟨hcategory, hready⟩ := h.touched rule.category s hs
    refine h.update ?_ ?_ hcache ?_ (fun j hj => Option.some.inj (hj.symm.trans hs)) fun c hc hcs => ?_
    · exact note_ready hready.occupied hready.last hready.counted hready.own hcategory.symm
    · rw [noteEvidence_detection]
      exact hcategory
    · rw [htouched, ← hs, Function.update_eq_self]
    · exact hc ((h.touched c s hcs).1.symm.trans hcategory)
  · have hnone : p.touched rule.category = none := by
      have := (Bool.and_eq_true_iff.mp ht).2
      simpa using this
    have hbefore : ∀ j, p.touched rule.category = some j → j = s := fun j hj => by
      rw [hnone] at hj
      simp at hj
    cases hl : lookup p.engine.cache rule.category o with
    | some i =>
      rw [locate_of_some hl] at hlocate
      obtain ⟨rfl, rfl⟩ := Prod.mk.inj hlocate
      obtain ⟨hoccupied, -, hcategory, -⟩ := candidate_spec (lookup_sound hl)
      have hfree : ∀ c, p.touched c ≠ some i := by
        intro c hc
        have hsame := (h.touched c i hc).1.symm.trans hcategory
        rw [hsame, hnone] at hc
        simp at hc
      have hconsistent := h.idle i hfree hoccupied
      have hcounts := hconsistent.counted.counts (h.past i hoccupied)
      refine h.update (refresh_ready hcounts (h.own i) hcategory.symm) ?_ hcache htouched hbefore
        fun c _ => hfree c
      rw [noteEvidence_detection, refresh_detection, refreshDetection_category]
      exact hcategory
    | none =>
      rw [locate_of_none hl] at hlocate
      obtain ⟨rfl, rfl⟩ := Prod.mk.inj hlocate
      refine h.update (refresh_ready (counts_fresh _ o) (ownEvidence_fresh _ o) rfl) ?_ hcache htouched
        hbefore fun c _ hc => ?_
      · rw [noteEvidence_detection, refresh_detection, refreshDetection_category]
        rfl
      · have hready := (h.touched c _ hc).2
        exact hvictim ht hl hready.occupied hready.last

theorem Counting.fold (settings : Settings) (rules : List Rule) (pg : Pass × Ledger)
    (h : Counting o pg.1) (each : EachTouch (OlderVictim o) settings o pg rules) :
    Counting o (rules.foldl (Ledger.apply settings o) pg).1 := by
  induction rules generalizing pg with
  | nil => exact h
  | cons rule rules ih => exact ih _ (h.apply settings rule each.1) each.2

end Walk

/-! ## The emission loop -/

section Settle

variable {o : Observation} {e : Entry}

theorem Ready.fused (h : Ready o e) (sort : SortFn Rule) : Consistent (fuse sort o e) := by
  have hpos : 1 ≤ e.detection.seenCount := by
    have hne : e.detection.seenCount ≠ 0 := by simpa [Entry.occupied] using h.occupied
    have hne' : e.detection.seenCount.toNat ≠ 0 := fun hzero => hne (UInt32.toNat_inj.mp hzero)
    rw [UInt32.le_iff_toNat_le]
    change 1 ≤ e.detection.seenCount.toNat
    omega
  let active := sort.run (stronger o) (activeRules o e)
  have hactive : 0 < active.length := by
    change 0 < (sort.run (stronger o) (activeRules o e)).length
    rw [sort.length_run]
    exact List.length_pos_of_ne_nil h.active
  have hcount : (fuse sort o e).detection.ruleCount.toNat = min active.length 4 := by
    have hsmall : min active.length 4 < UInt8.size := by
      change _ < 256
      omega
    exact UInt8.toNat_ofNat_of_lt' hsmall
  refine ⟨hpos, ⟨h.counted.times, h.counted.extrema, h.counted.below, h.counted.above⟩, h.own, ?_, ?_⟩
  · constructor
    · rw [UInt8.le_iff_toNat_le, hcount]
      change 1 ≤ min active.length 4
      omega
    · rw [UInt8.le_iff_toNat_le, hcount]
      change min active.length 4 ≤ 4
      omega
  · intro i hi
    obtain ⟨r, hr, hmem⟩ := fuse_rules sort o e i hi
    obtain ⟨g, hrule, -⟩ := mem_activeRules hmem
    exact ⟨r, hr, h.own g r hrule⟩

theorem Consistent.marked (h : Consistent e) (o : Observation) : Consistent (markEmitted o e) :=
  ⟨h.seen, h.counted, h.own, h.fused⟩

/-- What the emission loop has still to do for the categories left. -/
structure Settling (o : Observation) (touched : Category → Option Slot) (cs : List Category)
    (cache : Cache) : Prop where
  past : ∀ s, (cache s).occupied = true → (cache s).detection.lastMs ≤ o.ms
  own : ∀ s, OwnEvidence (cache s)
  ready : ∀ c ∈ cs, ∀ s, touched c = some s → Ready o (cache s)
  done : ∀ s, (∀ c ∈ cs, touched c ≠ some s) → (cache s).occupied = true → Consistent (cache s)

theorem Settling.step {touched : Category → Option Slot} {c : Category} {cs : List Category}
    {cache : Cache} (h : Settling o touched (c :: cs) cache) {s : Slot} (hs : touched c = some s)
    {entry : Entry} (hconsistent : Consistent entry) (hready : Ready o entry) :
    Settling o touched cs (Function.update cache s entry) := by
  constructor
  · intro j
    by_cases hj : j = s
    · subst hj
      rw [Function.update_self]
      exact fun _ => hready.last ▸ UInt64.le_refl _
    · rw [Function.update_of_ne hj]
      exact h.past j
  · intro j
    by_cases hj : j = s
    · subst hj
      rw [Function.update_self]
      exact hready.own
    · rw [Function.update_of_ne hj]
      exact h.own j
  · intro c' hc' j hj
    by_cases hjs : j = s
    · subst hjs
      rw [Function.update_self]
      exact hready
    · rw [Function.update_of_ne hjs]
      exact h.ready c' (List.mem_cons_of_mem _ hc') j hj
  · intro j hfree
    by_cases hj : j = s
    · subst hj
      rw [Function.update_self]
      exact fun _ => hconsistent
    · rw [Function.update_of_ne hj]
      refine h.done j fun c' hc' => ?_
      rcases List.mem_cons.mp hc' with rfl | hc'
      · rw [hs]
        exact fun heq => hj (Option.some.inj heq).symm
      · exact hfree c' hc'

theorem Settling.fold (sort : SortFn Rule) (room : Nat) {touched : Category → Option Slot}
    (cs : List Category) (st : Engine × List Emission) (h : Settling o touched cs st.1.cache) :
    Settling o touched [] (cs.foldl (settle sort o room touched) st).1.cache := by
  induction cs generalizing st with
  | nil => exact h
  | cons c cs ih =>
    refine ih _ ?_
    obtain ⟨hnone, hst⟩ | ⟨s, hs, hst⟩ | ⟨s, hs, -, -, -, hst⟩ := settle_cases sort o room touched st c
    · rw [hst]
      refine ⟨h.past, h.own, fun c' hc' => h.ready c' (List.mem_cons_of_mem _ hc'), fun s hfree => ?_⟩
      refine h.done s fun c' hc' => ?_
      rcases List.mem_cons.mp hc' with rfl | hc'
      · rw [hnone]
        exact (Option.some_ne_none s).symm
      · exact hfree c' hc'
    · rw [hst]
      have hready := h.ready c List.mem_cons_self s hs
      exact h.step hs (hready.fused sort)
        ⟨hready.occupied, hready.last, hready.fused sort |>.counted, hready.own, hready.active⟩
    · rw [hst]
      have hready := h.ready c List.mem_cons_self s hs
      exact h.step hs ((hready.fused sort).marked o)
        ⟨hready.occupied, hready.last, hready.fused sort |>.counted, hready.own, hready.active⟩

end Settle

/-! ## Runs -/

/-- Every entry is consistent and not from the future. -/
structure Kept (now : UInt64) (e : Engine) : Prop where
  own : ∀ s, OwnEvidence (e.cache s)
  past : ∀ s, (e.cache s).occupied = true → (e.cache s).detection.lastMs ≤ now
  consistent : ∀ s, (e.cache s).occupied = true → Consistent (e.cache s)

theorem Kept.later {now now' : UInt64} {e : Engine} (h : Kept now e) (hle : now ≤ now') : Kept now' e :=
  ⟨h.own, fun s hs => UInt64.le_trans (h.past s hs) hle, h.consistent⟩

theorem kept_ingest (sort : SortFn Rule) {t : Traced} {tick : Tick}
    (h : Kept tick.observation.ms t.engine) (each : t.EachTouch OlderVictim tick) :
    Kept tick.observation.ms (t.ingest sort tick).engine := by
  have hstart : Counting tick.observation { engine := t.engine } :=
    ⟨h.own, h.past, fun s _ hs => h.consistent s hs, fun c s hc => nomatch hc⟩
  have hwalk : Counting tick.observation (t.engine.walk tick.observation tick.settings) := by
    rw [← walk_fst]
    exact Counting.fold tick.settings t.engine.rules ({ engine := t.engine }, t.ledger) hstart each
  have hsettling : Settling tick.observation (t.engine.walk tick.observation tick.settings).touched
      Category.all ((t.engine.walk tick.observation tick.settings).engine.rememberAp
        tick.observation).cache := by
    rw [Engine.rememberAp_cache]
    refine ⟨hwalk.past, hwalk.own, fun c _ s hs => (hwalk.touched c s hs).2, fun s hfree => ?_⟩
    exact hwalk.idle s fun c => hfree c (Category.mem_all c)
  have hsettled := Settling.fold sort tick.room Category.all (_, []) hsettling
  exact ⟨hsettled.own, hsettled.past, fun s => hsettled.done s fun c hc => nomatch hc⟩

theorem kept_run (sort : SortFn Rule) (ticks : List Tick) (t : Traced) {now : UInt64} (h : Kept now t.engine)
    (hordered : Monotone ticks) (hlater : ∀ tick ∈ ticks, now ≤ tick.observation.ms)
    (meets : ∀ v ∈ t.visited sort ticks, v.1.EachTouch OlderVictim v.2) :
    ∃ now, Kept now (t.run sort ticks).engine := by
  induction ticks generalizing t now with
  | nil => exact ⟨now, h⟩
  | cons tick ticks ih =>
    obtain ⟨hfirst, hrest⟩ := List.pairwise_cons.mp hordered
    have hnow := h.later (hlater tick List.mem_cons_self)
    have hnext := kept_ingest sort hnow (meets (t, tick) List.mem_cons_self)
    exact ih (t.ingest sort tick) hnext hrest hfirst fun v hv => meets v (List.mem_cons_of_mem _ hv)

theorem kept_start (rules : List Rule) : Kept 0 (Traced.start rules).engine := by
  refine ⟨fun s g r hr => ?_, fun s hs => ?_, fun s hs => ?_⟩
  · simp [Traced.start] at hr
  · simp [Traced.start, Entry.occupied] at hs
  · simp [Traced.start, Entry.occupied] at hs

/-- The average that is logged lies between the extrema. -/
theorem Counted.average {d : Detection} (h : Counted d) (hseen : 1 ≤ d.seenCount) :
    d.rssiMin.toInt ≤ d.rssiSum.tdiv d.seenCount.toNat ∧
      d.rssiSum.tdiv d.seenCount.toNat ≤ d.rssiMax.toInt := by
  have hpos : 1 ≤ d.seenCount.toNat := UInt32.le_iff_toNat_le.mp hseen
  have hbelow := h.below
  have habove := h.above
  have hne : (0 : Int) < d.seenCount.toNat := by omega
  refine ⟨Int.le_tdiv_of_mul_le hne hbelow, ?_⟩
  calc d.rssiSum.tdiv d.seenCount.toNat
      ≤ (d.rssiMax.toInt * d.seenCount.toNat).tdiv d.seenCount.toNat := Int.tdiv_le_tdiv hne habove
    _ = d.rssiMax.toInt := Int.mul_tdiv_cancel _ (by omega)

/-- In a run that never evicts an entry it has just counted into, the statistics
of every entry are consistent and its average lies between its extrema. -/
theorem statistics_consistent (sort : SortFn Rule) (rules : List Rule) (ticks : List Tick)
    (hordered : Monotone ticks)
    (meets : EveryVisit sort rules ticks fun t tick => t.EachTouch OlderVictim tick) (s : Slot)
    (hoccupied : (((Traced.start rules).run sort ticks).engine.cache s).occupied = true) :
    let e := ((Traced.start rules).run sort ticks).engine.cache s
    Consistent e ∧ e.detection.rssiMin.toInt ≤ e.detection.rssiSum.tdiv e.detection.seenCount.toNat ∧
      e.detection.rssiSum.tdiv e.detection.seenCount.toNat ≤ e.detection.rssiMax.toInt := by
  obtain ⟨now, hkept⟩ := kept_run sort ticks (Traced.start rules) (kept_start rules) hordered
    (fun _ _ => UInt64.zero_le) meets
  have hconsistent := hkept.consistent s hoccupied
  exact ⟨hconsistent, hconsistent.counted.average hconsistent.seen⟩

/-- A device heard twice at different strengths, by two rules of one category. -/
theorem statistics_consistent_flipper :
    let e := ((Traced.start flipper).run .insertion [received 1000 5 serviceAndCompany,
      { received 1200 5 companyOnly with observation.rssi := -70 }]).engine.cache 0
    Consistent e ∧ e.detection.rssiMin.toInt ≤ e.detection.rssiSum.tdiv e.detection.seenCount.toNat ∧
      e.detection.rssiSum.tdiv e.detection.seenCount.toNat ≤ e.detection.rssiMax.toInt :=
  statistics_consistent .insertion flipper _ (by decide) (by decide +kernel) 0 (by decide +kernel)

end Hound
