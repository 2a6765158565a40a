import Hound.Engine.Replacement
import Hound.Engine.Tables

/-!
# Caps

What fusion makes of the evidence: a score between one and the highest cap that
applies to the packet, which a contradiction only lowers.
-/

namespace Hound

/-! ## Caps of one packet -/

def byName (k : Kind) : Bool :=
  k == .NameExact || k == .NamePrefix || k == .SsidExact || k == .SsidPrefix

/-- The scores and caps that a compiled table may hold. -/
def InRange (rules : List Rule) : Prop := ∀ r ∈ rules, 1 ≤ r.score ∧ r.score ≤ r.cap ∧ r.cap ≤ 100

instance (rules : List Rule) : Decidable (InRange rules) :=
  inferInstanceAs (Decidable (∀ r ∈ rules, _))

theorem toNat_min (a b : UInt8) : (min a b).toNat = min a.toNat b.toNat := by
  change (if a ≤ b then a else b).toNat = _
  split
  · rename_i h
    rw [Nat.min_eq_left (UInt8.le_iff_toNat_le.mp h)]
  · rename_i h
    have hlt := UInt8.lt_iff_toNat_lt.mp (UInt8.not_le.mp h)
    omega

section Cap

variable (r : Rule) (o : Observation)

/-- A clue that names a device by nothing but a vendor or a habit of many. -/
def vague : Bool := r.generic || (r.kind == .Oui && (byteAt o.address.toList 0 &&& 2) != 0)

theorem cap_toNat : (cap r o).toNat =
    min (min r.cap.toNat (if vague r o then 49 else 255)) (if byName r.kind then 79 else 255) := by
  have hcap := r.cap.toNat_lt
  have hvalue : cap r o =
      if byName r.kind then min (if vague r o then min r.cap 49 else r.cap) 79
      else if vague r o then min r.cap 49 else r.cap := rfl
  rw [hvalue]
  cases byName r.kind <;> cases vague r o
  · change r.cap.toNat = min (min r.cap.toNat 255) 255
    omega
  · change (min r.cap 49).toNat = min (min r.cap.toNat 49) 255
    rw [toNat_min]
    change min r.cap.toNat 49 = _
    omega
  · change (min r.cap 79).toNat = min (min r.cap.toNat 255) 79
    rw [toNat_min]
    change min r.cap.toNat 79 = _
    omega
  · change (min (min r.cap 49) 79).toNat = min (min r.cap.toNat 49) 79
    rw [toNat_min, toNat_min]
    rfl

theorem cap_le : (cap r o).toNat ≤ r.cap.toNat := by
  rw [cap_toNat]
  omega

theorem cap_pos (h : 1 ≤ r.cap) : 1 ≤ (cap r o).toNat := by
  have hpos : 1 ≤ r.cap.toNat := UInt8.le_iff_toNat_le.mp h
  rw [cap_toNat]
  split <;> split <;> omega

theorem cap_generic (h : r.generic = true) : (cap r o).toNat ≤ 49 := by
  have hvague : vague r o = true := by rw [vague, h, Bool.true_or]
  rw [cap_toNat, hvague, if_pos rfl]
  omega

theorem cap_named (h : byName r.kind = true) : (cap r o).toNat ≤ 79 := by
  rw [cap_toNat, h, if_pos rfl]
  omega

end Cap

/-! ## Scores -/

/-- What a rule adds to a score by itself. -/
def effective (o : Observation) (r : Rule) : Nat := (min r.score (cap r o)).toNat

def ceiling (o : Observation) (active : List Rule) : Nat :=
  (active.map fun r => (cap r o).toNat).foldl max 0

/-- The strongest rule and its corroboration. -/
def corroborated (o : Observation) : List Rule → Nat
  | [] => 0
  | [r] => effective o r
  | r :: second :: _ =>
    if !r.generic && !second.generic then effective o r + effective o second / 4 else effective o r

/-- A contradiction subtracts twenty, down to one. -/
def contradicted (o : Observation) (score : Nat) : Nat :=
  if o.contradiction then (if 20 < score then score - 20 else 1) else score

theorem fusedScore_eq (o : Observation) (active : List Rule) :
    fusedScore o active = contradicted o (min (corroborated o active) (ceiling o active)) := by
  cases active with
  | nil => rfl
  | cons r rest => cases rest <;> rfl

theorem le_foldl_max (l : List Nat) (n : Nat) : n ≤ l.foldl max n ∧ ∀ m ∈ l, m ≤ l.foldl max n := by
  induction l generalizing n with
  | nil => exact ⟨Nat.le_refl n, nofun⟩
  | cons k l ih =>
    obtain ⟨hn, hall⟩ := ih (max n k)
    rw [List.foldl_cons]
    refine ⟨by omega, fun m hm => ?_⟩
    rcases List.mem_cons.mp hm with rfl | hm
    · omega
    · exact hall m hm

theorem foldl_max_mem (l : List Nat) (n : Nat) : l.foldl max n = n ∨ l.foldl max n ∈ l := by
  induction l generalizing n with
  | nil => exact .inl rfl
  | cons k l ih =>
    rw [List.foldl_cons]
    rcases ih (max n k) with h | h
    · rcases Nat.le_total n k with hk | hk
      · exact .inr (by rw [h, Nat.max_eq_right hk]; exact List.mem_cons_self)
      · exact .inl (by rw [h, Nat.max_eq_left hk])
    · exact .inr (List.mem_cons_of_mem _ h)

section Score

variable {o : Observation} {active : List Rule}

theorem cap_le_ceiling {r : Rule} (h : r ∈ active) : (cap r o).toNat ≤ ceiling o active :=
  (le_foldl_max _ 0).2 _ (List.mem_map.mpr ⟨r, h, rfl⟩)

theorem ceiling_mem (hpos : 1 ≤ ceiling o active) : ∃ r ∈ active, ceiling o active = (cap r o).toNat := by
  rcases foldl_max_mem (active.map fun r => (cap r o).toNat) 0 with h | h
  · have hzero : ceiling o active = 0 := h
    omega
  · obtain ⟨r, hr, heq⟩ := List.mem_map.mp h
    exact ⟨r, hr, heq.symm⟩

theorem effective_pos {r : Rule} (hscore : 1 ≤ r.score) (hcap : 1 ≤ r.cap) : 1 ≤ effective o r := by
  have hs : 1 ≤ r.score.toNat := UInt8.le_iff_toNat_le.mp hscore
  have hc := cap_pos r o hcap
  unfold effective
  rw [toNat_min]
  omega

theorem corroborated_pos (hne : active ≠ []) (hrange : InRange active) : 1 ≤ corroborated o active := by
  cases active with
  | nil => exact absurd rfl hne
  | cons r rest =>
    obtain ⟨hscore, hcap, -⟩ := hrange r List.mem_cons_self
    have hpos := effective_pos (o := o) hscore (UInt8.le_trans hscore hcap)
    cases rest with
    | nil => exact hpos
    | cons second rest =>
      rw [corroborated]
      split <;> omega

/-- Fusion of some evidence stays between one and the highest cap. -/
theorem fusedScore_bounds (hne : active ≠ []) (hrange : InRange active) :
    1 ≤ fusedScore o active ∧ ∃ r ∈ active, fusedScore o active ≤ (cap r o).toNat := by
  obtain ⟨r, hr⟩ := List.exists_mem_of_ne_nil active hne
  obtain ⟨hscore, hcap, -⟩ := hrange r hr
  have hpos : 1 ≤ ceiling o active :=
    (cap_pos r o (UInt8.le_trans hscore hcap)).trans (cap_le_ceiling hr)
  have hraw := corroborated_pos (o := o) hne hrange
  obtain ⟨top, htop, heq⟩ := ceiling_mem hpos
  rw [fusedScore_eq]
  refine ⟨?_, top, htop, ?_⟩
  · unfold contradicted
    split
    · split <;> omega
    · omega
  · rw [← heq]
    unfold contradicted
    split
    · split <;> omega
    · omega

/-- A contradiction only lowers the score. -/
theorem contradicted_le {score : Nat} (h : 1 ≤ score) (o : Observation) : contradicted o score ≤ score := by
  unfold contradicted
  split
  · split <;> omega
  · omega

end Score

/-! ## The walk -/

/-- Evidence comes from the table, and what was touched has some that is active. -/
structure Supported (rules : List Rule) (o : Observation) (p : Pass) : Prop where
  source : ∀ s (g : Fin 9) r, ((p.engine.cache s).evidence.get g).rule = some r → r ∈ rules
  active : ∀ c s, p.touched c = some s → activeRules o (p.engine.cache s) ≠ []

section Walk

variable {rules : List Rule} {o : Observation}

theorem note_source {rule : Rule} (hmem : rule ∈ rules) {e : Entry}
    (h : ∀ (g : Fin 9) r, (e.evidence.get g).rule = some r → r ∈ rules) :
    ∀ (g : Fin 9) r, ((noteEvidence rule o e).evidence.get g).rule = some r → r ∈ rules := by
  intro g r hr
  obtain ⟨hother, _, rfl, hown⟩ := noteEvidence_cases rule o e
  by_cases hg : g = group rule.kind
  · subst hg
    rcases hown with ⟨hset, -⟩ | ⟨hsame, -⟩
    · obtain rfl := Option.some.inj ((congrArg Evidence.rule hset).symm.trans hr)
      exact hmem
    · rw [hsame] at hr
      exact h _ r hr
  · exact h g r ((congrArg Evidence.rule (hother g hg)).symm.trans hr)

theorem note_active (rule : Rule) (o : Observation) (e : Entry) :
    activeRules o (noteEvidence rule o e) ≠ [] := by
  obtain ⟨-, g, -, hown⟩ := noteEvidence_cases rule o e
  rcases hown with ⟨hset, -⟩ | ⟨hsame, held, hheld, hyoung, -⟩
  · refine List.ne_nil_of_mem (a := rule) (@mem_activeRules_of_evidence _ _ g rule ?_ ?_)
    · exact congrArg Evidence.rule hset
    · have hat : ((noteEvidence rule o e).evidence.get g).at' = o.ms.toUInt32 := congrArg Evidence.at' hset
      rw [hat, UInt32.sub_self]
      decide
  · rw [hsame]
    exact List.ne_nil_of_mem (mem_activeRules_of_evidence (g := g) hheld hyoung)

theorem refresh_source {e : Entry} (h : ∀ (g : Fin 9) r, (e.evidence.get g).rule = some r → r ∈ rules) :
    ∀ (g : Fin 9) r, ((refresh o e).evidence.get g).rule = some r → r ∈ rules := by
  intro g r hr
  rw [refresh_evidence] at hr
  split at hr
  · simp at hr
  · exact h g r hr

theorem fresh_source (c : Category) (o : Observation) (g : Fin 9) (r : Rule) :
    ((freshEntry c o).evidence.get g).rule ≠ some r := by
  simp [freshEntry]

theorem locate_source {cache : Cache} (c : Category)
    (h : ∀ s (g : Fin 9) r, ((cache s).evidence.get g).rule = some r → r ∈ rules) :
    ∀ (g : Fin 9) r, ((locate cache c o).2.evidence.get g).rule = some r → r ∈ rules := by
  intro g r hr
  cases hl : lookup cache c o with
  | some s =>
    rw [locate_of_some hl] at hr
    exact h s g r hr
  | none =>
    rw [locate_of_none hl] at hr
    exact absurd hr (fresh_source c o g r)

theorem Supported.update {p p' : Pass} (h : Supported rules o p) {s : Slot} {e : Entry} {rule : Rule}
    (hmem : rule ∈ rules) (he : ∀ (g : Fin 9) r, (e.evidence.get g).rule = some r → r ∈ rules)
    (hcache : p'.engine.cache = Function.update p.engine.cache s (noteEvidence rule o e))
    (htouched : ∀ c j, p'.touched c = some j → j = s ∨ p.touched c = some j) : Supported rules o p' := by
  constructor
  · intro j g r hr
    rw [hcache] at hr
    by_cases hj : j = s
    · subst hj
      rw [Function.update_self] at hr
      exact note_source hmem he g r hr
    · rw [Function.update_of_ne hj] at hr
      exact h.source j g r hr
  · intro c j hc
    rw [hcache]
    by_cases hj : j = s
    · subst hj
      rw [Function.update_self]
      exact note_active rule o e
    · rw [Function.update_of_ne hj]
      exact h.active c j ((htouched c j hc).resolve_left hj)

theorem Supported.apply {p : Pass} (h : Supported rules o p) (settings : Settings) {rule : Rule}
    (hmem : rule ∈ rules) : Supported rules o (p.apply settings o rule) := by
  obtain ⟨-, htouched, hcache⟩ | ⟨s, -, -, htouched, hcache⟩ | ⟨s, e, -, hlocate, htouched, hcache⟩ :=
    Pass.apply_cases settings o p rule
  · constructor
    · rw [hcache]
      exact h.source
    · rw [hcache, htouched]
      exact h.active
  · refine h.update hmem (h.source s) hcache fun c j hc => .inr ?_
    rwa [htouched] at hc
  · have he := locate_source (o := o) rule.category h.source
    rw [hlocate] at he
    refine h.update hmem (refresh_source he) hcache fun c j hc => ?_
    rw [htouched] at hc
    by_cases hcat : c = rule.category
    · subst hcat
      rw [Function.update_self] at hc
      exact .inl (Option.some.inj hc).symm
    · rw [Function.update_of_ne hcat] at hc
      exact .inr hc

theorem Supported.fold {p : Pass} (h : Supported rules o p) (settings : Settings) (more : List Rule)
    (hmore : ∀ r ∈ more, r ∈ rules) : Supported rules o (more.foldl (Pass.apply settings o) p) := by
  induction more generalizing p with
  | nil => exact h
  | cons rule more ih =>
    have hnext := h.apply settings (hmore rule List.mem_cons_self)
    exact ih hnext fun r hr => hmore r (List.mem_cons_of_mem _ hr)

end Walk

/-! ## Runs -/

/-- The engine works from its table. -/
structure Sourced (rules : List Rule) (e : Engine) : Prop where
  table : e.rules = rules
  source : ∀ s (g : Fin 9) r, ((e.cache s).evidence.get g).rule = some r → r ∈ rules

section Run

variable {sort : SortFn Rule} {rules : List Rule} {e : Engine}

theorem Sourced.walk (h : Sourced rules e) (o : Observation) (settings : Settings) :
    Supported rules o (e.walk o settings) := by
  unfold Engine.walk
  rw [h.table]
  refine Supported.fold ⟨h.source, fun c s hc => ?_⟩ settings rules fun _ => id
  exact nomatch hc

/-- An ingest ends with the evidence of its walk, and emits what it fuses of it. -/
theorem next_evidence (sort : SortFn Rule) (e : Engine) (tick : Tick) :
    let p := e.walk tick.observation tick.settings
    (∀ s, SameEvidence (p.engine.cache s) ((e.next sort tick).cache s)) ∧
      ∀ em ∈ e.emissions sort tick, (∃ c, p.touched c = some em.slot) ∧
        ∃ entry, SameEvidence (p.engine.cache em.slot) entry ∧
          em.detection = (fuse sort tick.observation entry).detection := by
  unfold Engine.next Engine.emissions Engine.ingest
  exact settle_evidence sort tick.observation tick.room _ _ Category.all _
    (fun s => by rw [Engine.rememberAp_cache]; exact ⟨rfl, rfl⟩) fun em hem => nomatch hem

theorem Sourced.next (h : Sourced rules e) (sort : SortFn Rule) (tick : Tick) :
    Sourced rules (e.next sort tick) := by
  have hwalk := h.walk tick.observation tick.settings
  obtain ⟨hsame, -⟩ := next_evidence sort e tick
  refine ⟨(ingest_engine tick.settings tick.observation sort e tick.room).2.1.trans h.table, ?_⟩
  intro s g r hr
  rw [(hsame s).evidence] at hr
  exact hwalk.source s g r hr

theorem sourced_start (rules : List Rule) : Sourced rules { rules } := by
  refine ⟨rfl, fun s g r hr => ?_⟩
  simp at hr

theorem activeRules_same {o : Observation} {e e' : Entry} (h : SameEvidence e e') :
    activeRules o e' = activeRules o e := by
  unfold activeRules
  rw [h.evidence]

theorem activeRules_source {o : Observation} {e : Entry}
    (h : ∀ (g : Fin 9) r, (e.evidence.get g).rule = some r → r ∈ rules) : ∀ r ∈ activeRules o e, r ∈ rules := by
  intro r hr
  obtain ⟨g, hrule, -⟩ := mem_activeRules hr
  exact h g r hrule

theorem fuse_score {o : Observation} {e : Entry}
    (hbound : fusedScore o (sort.run (stronger o) (activeRules o e)) ≤ 100) :
    (fuse sort o e).detection.score.toNat = fusedScore o (sort.run (stronger o) (activeRules o e)) :=
  UInt8.toNat_ofNat_of_lt' (lt_of_le_of_lt hbound (by decide))

/-- A detection keeps to the caps of the rules that are active for a packet. -/
structure WithinCaps (o : Observation) (active : List Rule) (d : Detection) : Prop where
  counted : 1 ≤ d.ruleCount
  scored : 1 ≤ d.score ∧ d.score ≤ 100
  capped : ∃ r ∈ active, d.score ≤ cap r o
  generic : (∀ r ∈ active, r.generic = true) → d.score ≤ 49
  weak : (∀ r ∈ active, r.generic = true ∨ byName r.kind = true) → d.score ≤ 79

theorem fuse_sorted {o : Observation} {entry : Entry} (hne : activeRules o entry ≠ [])
    (hrange : InRange (activeRules o entry)) :
    sort.run (stronger o) (activeRules o entry) ≠ [] ∧
      InRange (sort.run (stronger o) (activeRules o entry)) ∧
      (fuse sort o entry).detection.score.toNat =
        fusedScore o (sort.run (stronger o) (activeRules o entry)) := by
  let active := sort.run (stronger o) (activeRules o entry)
  have hmem : ∀ r, r ∈ active ↔ r ∈ activeRules o entry := sort.mem_run _ _
  have hactive : active ≠ [] := by
    obtain ⟨r, hr⟩ := List.exists_mem_of_ne_nil _ hne
    exact List.ne_nil_of_mem ((hmem r).mpr hr)
  have hinRange : InRange active := fun r hr => hrange r ((hmem r).mp hr)
  obtain ⟨-, top, htop, hcap⟩ := fusedScore_bounds (o := o) hactive hinRange
  have htopcap := cap_le top o
  have hhundred : top.cap.toNat ≤ 100 := UInt8.le_iff_toNat_le.mp (hinRange top htop).2.2
  exact ⟨hactive, hinRange, fuse_score (hcap.trans (htopcap.trans hhundred))⟩

theorem fuse_withinCaps (sort : SortFn Rule) {o : Observation} {entry : Entry}
    (hne : activeRules o entry ≠ []) (hrange : InRange (activeRules o entry)) :
    WithinCaps o (activeRules o entry) (fuse sort o entry).detection := by
  obtain ⟨hactive, hinRange, hscore⟩ := @fuse_sorted sort o entry hne hrange
  obtain ⟨hpos, top, htop, hcap⟩ := fusedScore_bounds (o := o) hactive hinRange
  have htop' : top ∈ activeRules o entry := (sort.mem_run _ _ top).mp htop
  have htopcap := cap_le top o
  have hhundred : top.cap.toNat ≤ 100 := UInt8.le_iff_toNat_le.mp (hrange top htop').2.2
  constructor
  · have hlength := List.length_pos_of_ne_nil hactive
    change 1 ≤ (min (sort.run (stronger o) (activeRules o entry)).length 4).toUInt8
    have hsmall : min (sort.run (stronger o) (activeRules o entry)).length 4 < UInt8.size := by
      change _ < 256
      omega
    rw [UInt8.le_iff_toNat_le, Nat.toUInt8_eq, UInt8.toNat_ofNat_of_lt' hsmall]
    change 1 ≤ min _ 4
    omega
  · constructor
    · rw [UInt8.le_iff_toNat_le, hscore]
      exact hpos
    · rw [UInt8.le_iff_toNat_le, hscore]
      exact hcap.trans (htopcap.trans hhundred)
  · refine ⟨top, htop', ?_⟩
    rw [UInt8.le_iff_toNat_le, hscore]
    exact hcap
  · intro hgeneric
    rw [UInt8.le_iff_toNat_le, hscore]
    exact hcap.trans (cap_generic top o (hgeneric top htop'))
  · intro hweak
    rw [UInt8.le_iff_toNat_le, hscore]
    rcases hweak top htop' with hgeneric | hnamed
    · exact (hcap.trans (cap_generic top o hgeneric)).trans (by decide)
    · exact hcap.trans (cap_named top o hnamed)

/-- The same packet without its contradiction would score no less. -/
theorem fuse_contradiction (sort : SortFn Rule) {o : Observation} {entry : Entry}
    (hne : activeRules o entry ≠ []) (hrange : InRange (activeRules o entry)) :
    (fuse sort o entry).detection.score ≤
      (fuse sort { o with contradiction := false } entry).detection.score := by
  let o' := { o with contradiction := false }
  obtain ⟨hactive, hinRange, hscore⟩ := @fuse_sorted sort o entry hne hrange
  obtain ⟨-, -, hplain⟩ := @fuse_sorted sort o' entry hne hrange
  have hpos := (fusedScore_bounds (o := o') hactive hinRange).1
  rw [UInt8.le_iff_toNat_le, hscore, hplain]
  rw [fusedScore_eq] at hpos ⊢
  exact contradicted_le hpos o

/-- The caps of what an ingest emits, by the evidence its entry then holds. -/
def Capped (sort : SortFn Rule) (e : Engine) (tick : Tick) : Prop :=
  ∀ em ∈ e.emissions sort tick,
    WithinCaps tick.observation (activeRules tick.observation ((e.next sort tick).cache em.slot))
        em.detection ∧
      em.detection.score ≤ (fuse sort { tick.observation with contradiction := false }
        ((e.next sort tick).cache em.slot)).detection.score

theorem capped_next (hrange : InRange rules) (h : Sourced rules e) (sort : SortFn Rule) (tick : Tick) :
    Capped sort e tick := by
  intro em hem
  have hwalk := h.walk tick.observation tick.settings
  obtain ⟨hsame, hemitted⟩ := next_evidence sort e tick
  obtain ⟨⟨c, hc⟩, fused, hfused, hdetection⟩ := hemitted em hem
  have hactive := activeRules_same (o := tick.observation) (hsame em.slot)
  have hactive' := activeRules_same (o := tick.observation) hfused
  have hne : activeRules tick.observation fused ≠ [] := by
    rw [hactive']
    exact hwalk.active c em.slot hc
  have hinRange : InRange (activeRules tick.observation fused) := by
    rw [hactive']
    exact fun r hr => hrange r (activeRules_source (hwalk.source em.slot) r hr)
  have hscore : (fuse sort { tick.observation with contradiction := false }
      ((e.next sort tick).cache em.slot)).detection.score =
      (fuse sort { tick.observation with contradiction := false } fused).detection.score := by
    have hplain := activeRules_same (o := { tick.observation with contradiction := false }) (hsame em.slot)
    have hplain' := activeRules_same (o := { tick.observation with contradiction := false }) hfused
    unfold fuse
    dsimp only
    rw [hplain, hplain']
  rw [hdetection, hactive, ← hactive', hscore]
  exact ⟨fuse_withinCaps sort hne hinRange, fuse_contradiction sort hne hinRange⟩

/-- Whatever is emitted in whatever run keeps to its caps. -/
theorem emitted_capped (sort : SortFn Rule) (rules : List Rule) (ticks : List Tick)
    (hrange : InRange rules) : Engine.Throughout sort rules ticks (Capped sort) := by
  intro v hv
  have hsourced := Runs.invariant_visited (Sourced rules) (fun e tick h => h.next sort tick)
    (sourced_start rules) v hv
  exact capped_next hrange hsourced sort v.2

/-- Two clues of one device, the second time with a contradiction. -/
theorem emitted_capped_flipper :
    Engine.Throughout .insertion flipper [received 1000 5 serviceAndCompany,
      { received 40000 5 companyOnly with observation.contradiction := true }] (Capped .insertion) :=
  emitted_capped .insertion flipper _ (by decide)

end Run

end Hound
