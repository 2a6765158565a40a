import Hound.Engine.Promotion
import Hound.Lib.Runs

/-!
# The matches behind the evidence

`Hits` is bookkeeping beside the engine: for each slot the rule matches counted
into its present occupant, latest first, since it was allocated or last left
unobserved for 30 seconds. `walk_entries` says what one walk over the rules
does to an entry and its matches.
-/

namespace Hound

/-- A rule that matched at a time. -/
structure Hit where
  rule : Rule
  ms : UInt64
  deriving DecidableEq

abbrev Hits := Slot → List Hit

/-- The packet comes more than 30 seconds after the last one counted into the entry. -/
def lapsed (o : Observation) (e : Entry) : Prop :=
  o.ms < e.detection.lastMs ∨ 30000 < o.ms - e.detection.lastMs

instance (o : Observation) (e : Entry) : Decidable (lapsed o e) :=
  inferInstanceAs (Decidable (_ ∨ _))

def Hits.touch (h : Hits) (cache : Cache) (c : Category) (o : Observation) : Hits :=
  match lookup cache c o with
  | some s => Function.update h s (if lapsed o (cache s) then [] else h s)
  | none => Function.update h (victim cache) []

def Hits.add (h : Hits) (s : Slot) (rule : Rule) (o : Observation) : Hits :=
  Function.update h s (⟨rule, o.ms⟩ :: h s)

/-- Whether the loop body reaches the evidence of an entry. -/
def Pass.hits (settings : Settings) (o : Observation) (p : Pass) (rule : Rule) : Bool :=
  hasCategory settings.enabledCategories rule.category && (p.engine.evaluate rule o).1

def Hits.apply (settings : Settings) (o : Observation) (ph : Pass × Hits) (rule : Rule) :
    Pass × Hits :=
  (ph.1.apply settings o rule,
    if ph.1.hits settings o rule then
      match ph.1.touched rule.category with
      | some s => ph.2.add s rule o
      | none =>
        (ph.2.touch ph.1.engine.cache rule.category o).add
          (locate ph.1.engine.cache rule.category o).1 rule o
    else ph.2)

/-- The engine with its matches. -/
structure Recorded where
  engine : Engine
  hits : Hits := fun _ => []

def Recorded.walk (t : Recorded) (tick : Tick) : Pass × Hits :=
  t.engine.rules.foldl (Hits.apply tick.settings tick.observation) ({ engine := t.engine }, t.hits)

def Recorded.ingest (sort : SortFn Rule) (t : Recorded) (tick : Tick) : Recorded :=
  { engine := (t.engine.ingest sort tick.observation tick.settings tick.room).1
    hits := (t.walk tick).2 }

/-- What this ingest copies into `out`. -/
def Recorded.emissions (sort : SortFn Rule) (t : Recorded) (tick : Tick) : List Emission :=
  (t.engine.ingest sort tick.observation tick.settings tick.room).2

def Recorded.start (rules : List Rule) : Recorded := { engine := { rules } }

def Recorded.run (sort : SortFn Rule) (rules : List Rule) (ticks : List Tick) : Recorded :=
  Runs.run (Recorded.ingest sort) (.start rules) ticks

def Recorded.visited (sort : SortFn Rule) (rules : List Rule) (ticks : List Tick) :
    List (Recorded × Tick) :=
  Runs.visited (Recorded.ingest sort) (.start rules) ticks

/-- When this rule last matched. -/
def lastHit (rule : Rule) (hits : List Hit) : Option UInt64 :=
  (hits.find? fun h => h.rule == rule).map Hit.ms

@[simp] theorem lastHit_cons_self (rule : Rule) (ms : UInt64) (hits : List Hit) :
    lastHit rule (⟨rule, ms⟩ :: hits) = some ms := by
  simp [lastHit]

theorem lastHit_cons_of_ne {rule : Rule} {h : Hit} (hne : h.rule ≠ rule) (hits : List Hit) :
    lastHit rule (h :: hits) = lastHit rule hits := by
  simp [lastHit, hne]

theorem mem_of_lastHit {rule : Rule} {hits : List Hit} {ms : UInt64}
    (h : lastHit rule hits = some ms) : ⟨rule, ms⟩ ∈ hits := by
  obtain ⟨hit, hfound, rfl⟩ := Option.map_eq_some_iff.mp h
  have hrule : hit.rule = rule := by simpa using List.find?_some hfound
  subst hrule
  exact List.mem_of_find?_eq_some hfound

/-- A touch forgets matches and adds none. -/
theorem mem_of_mem_touch {h : Hits} {cache : Cache} {c : Category} {o : Observation} {s : Slot} {hit : Hit}
    (hmem : hit ∈ h.touch cache c o s) : hit ∈ h s := by
  unfold Hits.touch at hmem
  cases hl : lookup cache c o with
  | some j =>
    simp only [hl] at hmem
    by_cases hs : s = j
    · subst hs
      rw [Function.update_self] at hmem
      split at hmem
      · exact nomatch hmem
      · exact hmem
    · rwa [Function.update_of_ne hs] at hmem
  | none =>
    simp only [hl] at hmem
    by_cases hs : s = victim cache
    · rw [hs, Function.update_self] at hmem
      exact nomatch hmem
    · rwa [Function.update_of_ne hs] at hmem

/-! ## The walk -/

@[simp] theorem recorded_walk_fst (t : Recorded) (tick : Tick) :
    (t.walk tick).1 = t.engine.walk tick.observation tick.settings := by
  unfold Recorded.walk Engine.walk
  generalize t.engine.rules = rules
  generalize ({ engine := t.engine } : Pass) = p
  generalize t.hits = h
  induction rules generalizing p h with
  | nil => rfl
  | cons rule rules ih => exact ih _ _

/-- Everything one rule can do to an entry and its matches. -/
theorem Hits.apply_cases (settings : Settings) (o : Observation) (p : Pass) (h : Hits) (rule : Rule) :
    (p.hits settings o rule = false ∧ (p.apply settings o rule).touched = p.touched ∧
      (p.apply settings o rule).engine.cache = p.engine.cache ∧
      (Hits.apply settings o (p, h) rule).2 = h) ∨
    (∃ s, p.hits settings o rule = true ∧ p.touched rule.category = some s ∧
      (p.apply settings o rule).touched = p.touched ∧
      (p.apply settings o rule).engine.cache =
        Function.update p.engine.cache s (noteEvidence rule o (p.engine.cache s)) ∧
      (Hits.apply settings o (p, h) rule).2 = h.add s rule o) ∨
    (∃ s e, p.hits settings o rule = true ∧ p.touched rule.category = none ∧
      locate p.engine.cache rule.category o = (s, e) ∧
      (p.apply settings o rule).touched = Function.update p.touched rule.category (some s) ∧
      (p.apply settings o rule).engine.cache =
        Function.update p.engine.cache s (noteEvidence rule o (refresh o e)) ∧
      (Hits.apply settings o (p, h) rule).2 =
        (h.touch p.engine.cache rule.category o).add s rule o) := by
  unfold Pass.apply Hits.apply Pass.hits
  cases hc : hasCategory settings.enabledCategories rule.category with
  | false => simp
  | true =>
    cases he : p.engine.evaluate rule o with
    | mk hit engine =>
      have hcache : engine.cache = p.engine.cache := by
        have := evaluate_cache p.engine rule o
        rwa [he] at this
      cases hit with
      | false => simp [hcache]
      | true =>
        cases ht : p.touched rule.category with
        | some s =>
          refine .inr (.inl ⟨s, by simp, rfl, ?_, ?_, ?_⟩)
          · simp [Pass.touch, Pass.note, ht]
          · simp only [Pass.touch, Pass.note, ht, ← hcache]
            rfl
          · simp
        | none =>
          refine .inr (.inr ⟨(locate p.engine.cache rule.category o).1,
            (locate p.engine.cache rule.category o).2, by simp, rfl, Prod.mk.eta.symm, ?_, ?_, ?_⟩)
          · simp [Pass.touch, Pass.note, ht, hcache]
          · simp only [Pass.touch, Pass.note, ht, hcache, Function.update_self,
              Function.update_idem]
            rfl
          · simp

theorem apply_rules (settings : Settings) (o : Observation) (p : Pass) (rule : Rule) :
    (p.apply settings o rule).engine.rules = p.engine.rules := by
  have heval : (p.engine.evaluate rule o).2.rules = p.engine.rules := by
    rw [evaluate_frame]
  unfold Pass.apply
  split
  · rfl
  · dsimp only
    split
    · exact heval
    · unfold Pass.touch Pass.note
      dsimp only
      split <;> exact heval

theorem walk_rules (e : Engine) (o : Observation) (settings : Settings) :
    (e.walk o settings).engine.rules = e.rules := by
  unfold Engine.walk
  have hstart : ({ engine := e } : Pass).engine.rules = e.rules := rfl
  generalize ({ engine := e } : Pass) = p at hstart
  generalize e.rules = rules at hstart
  have hfold : ∀ (more : List Rule) (p : Pass), p.engine.rules = rules →
      (more.foldl (Pass.apply settings o) p).engine.rules = rules := by
    intro more
    induction more with
    | nil => exact fun p hp => hp
    | cons rule more ih => exact fun p hp => ih _ ((apply_rules settings o p rule).trans hp)
  exact hfold rules p hstart

theorem Hits.apply_of_miss {settings : Settings} {o : Observation} {p : Pass × Hits} {rule : Rule}
    (h : p.1.hits settings o rule = false) :
    (Hits.apply settings o p rule).1.touched = p.1.touched ∧
      (Hits.apply settings o p rule).1.engine.cache = p.1.engine.cache ∧
      (Hits.apply settings o p rule).2 = p.2 := by
  obtain ⟨-, hsame⟩ | ⟨_, hhit, -⟩ | ⟨_, _, hhit, -⟩ := Hits.apply_cases settings o p.1 p.2 rule
  · exact hsame
  · rw [h] at hhit
    exact nomatch hhit
  · rw [h] at hhit
    exact nomatch hhit

/-- The first match of a walk that joins an entry. -/
theorem Hits.apply_of_found {settings : Settings} {o : Observation} {ph : Pass × Hits} {rule : Rule}
    {s : Slot} (h : ph.1.hits settings o rule = true) (hnone : ph.1.touched rule.category = none)
    (hfound : lookup ph.1.engine.cache rule.category o = some s) :
    (Hits.apply settings o ph rule).1.touched =
        Function.update ph.1.touched rule.category (some s) ∧
      (Hits.apply settings o ph rule).1.engine.cache = Function.update ph.1.engine.cache s
        (noteEvidence rule o (refresh o (ph.1.engine.cache s))) ∧
      (Hits.apply settings o ph rule).2 =
        (ph.2.touch ph.1.engine.cache rule.category o).add s rule o := by
  obtain ⟨hmiss, -⟩ | ⟨_, -, hsome, -⟩ | ⟨_, _, -, -, hlocate, hrest⟩ :=
    Hits.apply_cases settings o ph.1 ph.2 rule
  · rw [h] at hmiss
    cases hmiss
  · rw [hnone] at hsome
    cases hsome
  · rw [locate_of_some hfound] at hlocate
    obtain ⟨rfl, rfl⟩ := Prod.mk.inj hlocate
    exact hrest

/-- An entry and its matches during a walk: as before it, or touched and kept in `I`. -/
def Walked (I : Entry → List Hit → Prop) (t : Recorded) (ph : Pass × Hits) (s : Slot) : Prop :=
  ((∀ c, ph.1.touched c ≠ some s) ∧ ph.1.engine.cache s = t.engine.cache s ∧ ph.2 s = t.hits s) ∨
    (ph.1.touched (ph.1.engine.cache s).detection.category ≠ none ∧ I (ph.1.engine.cache s) (ph.2 s))

section Walk

variable {o : Observation} {J I : Entry → List Hit → Prop} {t : Recorded}

theorem walked_touch (start : ∀ s, J (t.engine.cache s) (t.hits s))
    (fresh : ∀ c, I (refresh o (freshEntry c o)) [])
    (join : ∀ s, matched o (t.engine.cache s).detection = true → J (t.engine.cache s) (t.hits s) →
      I (refresh o (t.engine.cache s)) (if lapsed o (t.engine.cache s) then [] else t.hits s))
    {p : Pass} {h : Hits} {c : Category} (hw : ∀ s, Walked I t (p, h) s) (hc : p.touched c = none) :
    (refresh o (locate p.engine.cache c o).2).detection.category = c ∧
    I (refresh o (locate p.engine.cache c o).2)
      (h.touch p.engine.cache c o (locate p.engine.cache c o).1) := by
  cases hl : lookup p.engine.cache c o with
  | none =>
    rw [locate_of_none hl]
    simp only [Hits.touch, hl, Function.update_self, refresh_detection, refreshDetection_category]
    exact ⟨rfl, fresh c⟩
  | some s =>
    obtain ⟨-, -, hcategory, -⟩ := candidate_spec (lookup_sound hl)
    rw [locate_of_some hl]
    simp only [Hits.touch, hl, Function.update_self, refresh_detection, refreshDetection_category]
    refine ⟨hcategory, ?_⟩
    -- no earlier rule of this walk reached the slot: its category is still untouched
    rcases hw s with ⟨-, hcache, hhits⟩ | ⟨htouched, -⟩
    · have hmatch := matched_of_candidate (lookup_sound hl)
      simp only at hcache hhits
      rw [hcache] at hmatch ⊢
      rw [hhits]
      exact join s hmatch (start s)
    · simp only [hcategory] at htouched
      exact absurd hc htouched

theorem walked_apply (start : ∀ s, J (t.engine.cache s) (t.hits s))
    (fresh : ∀ c, I (refresh o (freshEntry c o)) [])
    (join : ∀ s, matched o (t.engine.cache s).detection = true → J (t.engine.cache s) (t.hits s) →
      I (refresh o (t.engine.cache s)) (if lapsed o (t.engine.cache s) then [] else t.hits s))
    (note : ∀ e h rule, I e h → I (noteEvidence rule o e) (⟨rule, o.ms⟩ :: h))
    (settings : Settings) {p : Pass} {h : Hits} (hw : ∀ s, Walked I t (p, h) s) (rule : Rule) :
    ∀ s, Walked I t (Hits.apply settings o (p, h) rule) s := by
  have hfst : (Hits.apply settings o (p, h) rule).1 = p.apply settings o rule := rfl
  intro s
  unfold Walked
  rw [hfst]
  rcases Hits.apply_cases settings o p h rule with ⟨-, htouched, hcache, hhits⟩ |
    ⟨j, -, hj, htouched, hcache, hhits⟩ | ⟨j, e, -, hnone, hl, htouched, hcache, hhits⟩
  · rw [htouched, hcache, hhits]
    exact hw s
  · rw [htouched, hcache, hhits]
    by_cases hs : s = j
    · subst hs
      simp only [Hits.add, Function.update_self, noteEvidence_detection]
      rcases hw s with ⟨hfree, -⟩ | ⟨hin, hI⟩
      · exact absurd hj (hfree rule.category)
      · exact .inr ⟨hin, note _ _ rule hI⟩
    · simp only [Hits.add, Function.update_of_ne hs]
      exact hw s
  · have hl1 : (locate p.engine.cache rule.category o).1 = j := by rw [hl]
    have hl2 : (locate p.engine.cache rule.category o).2 = e := by rw [hl]
    obtain ⟨hcategory, hI⟩ := walked_touch start fresh join hw hnone
    rw [hl1, hl2] at hI
    rw [hl2] at hcategory
    rw [htouched, hcache, hhits]
    by_cases hs : s = j
    · subst hs
      simp only [Hits.add, Function.update_self, noteEvidence_detection, hcategory]
      exact .inr ⟨by simp, note _ _ rule hI⟩
    · have hother : h.touch p.engine.cache rule.category o s = h s := by
        rw [← hl1] at hs
        unfold Hits.touch
        cases hlookup : lookup p.engine.cache rule.category o with
        | none =>
          rw [locate_of_none hlookup] at hs
          exact Function.update_of_ne hs _ _
        | some i =>
          rw [locate_of_some hlookup] at hs
          exact Function.update_of_ne hs _ _
      simp only [Hits.add, Function.update_of_ne hs, hother]
      rcases hw s with ⟨hfree, hsame⟩ | ⟨hin, hkept⟩
      · refine .inl ⟨fun c hc => ?_, hsame⟩
        by_cases hcat : c = rule.category
        · subst hcat
          rw [Function.update_self] at hc
          exact hs (Option.some.inj hc).symm
        · rw [Function.update_of_ne hcat] at hc
          exact hfree c hc
      · refine .inr ⟨?_, hkept⟩
        by_cases hcat : (p.engine.cache s).detection.category = rule.category
        · rw [hcat, Function.update_self]
          exact Option.some_ne_none j
        · rw [Function.update_of_ne hcat]
          exact hin

/-- After the walk an entry is as it was, or it satisfies what every touch
establishes and every further match keeps. -/
theorem walk_entries (tick : Tick) (start : ∀ s, J (t.engine.cache s) (t.hits s))
    (fresh : ∀ c, I (refresh tick.observation (freshEntry c tick.observation)) [])
    (join : ∀ s, matched tick.observation (t.engine.cache s).detection = true →
      J (t.engine.cache s) (t.hits s) → I (refresh tick.observation (t.engine.cache s))
        (if lapsed tick.observation (t.engine.cache s) then [] else t.hits s))
    (note : ∀ e h rule, I e h →
      I (noteEvidence rule tick.observation e) (⟨rule, tick.observation.ms⟩ :: h)) :
    ∀ s, Walked I t (t.walk tick) s := by
  unfold Recorded.walk
  have hstart : ∀ s, Walked I t ({ engine := t.engine }, t.hits) s :=
    fun s => .inl ⟨by simp, rfl, rfl⟩
  generalize t.engine.rules = rules
  generalize (({ engine := t.engine } : Pass), t.hits) = ph at hstart
  induction rules generalizing ph with
  | nil => exact hstart
  | cons rule rules ih =>
    exact ih _ (walked_apply start fresh join note tick.settings hstart rule)

end Walk

/-! ## The emission loop -/

/-- What fusion and emission leave of an entry. -/
structure SameEvidence (e e' : Entry) : Prop where
  evidence : e'.evidence = e.evidence
  lastMs : e'.detection.lastMs = e.detection.lastMs

/-- What fusing and marking keep of an entry, the emission loop keeps of every entry and of
what it emits. -/
theorem settle_entries {sort : SortFn Rule} {o : Observation} {touched : Category → Option Slot}
    {Q : Slot → Entry → Prop} (hfuse : ∀ s e, Q s e → Q s (fuse sort o e))
    (hmark : ∀ s e, Q s e → Q s (markEmitted o e)) (room : Nat) (cs : List Category)
    (st : Engine × List Emission) (hcache : ∀ s, Q s (st.1.cache s))
    (hout : ∀ em ∈ st.2, (∃ c, touched c = some em.slot) ∧
      ∃ e, Q em.slot e ∧ em.detection = (fuse sort o e).detection) :
    (∀ s, Q s ((cs.foldl (settle sort o room touched) st).1.cache s)) ∧
    ∀ em ∈ (cs.foldl (settle sort o room touched) st).2, (∃ c, touched c = some em.slot) ∧
      ∃ e, Q em.slot e ∧ em.detection = (fuse sort o e).detection := by
  induction cs generalizing st with
  | nil => exact ⟨hcache, hout⟩
  | cons c cs ih =>
    obtain ⟨-, hst⟩ | ⟨j, -, hst⟩ | ⟨j, hj, -, -, -, hst⟩ := settle_cases sort o room touched st c
    · rw [List.foldl_cons, hst]
      exact ih st hcache hout
    · rw [List.foldl_cons, hst]
      refine ih _ (fun s => ?_) hout
      by_cases hs : s = j
      · subst hs
        simp only [Function.update_self]
        exact hfuse s _ (hcache s)
      · simp only [Function.update_of_ne hs]
        exact hcache s
    · rw [List.foldl_cons, hst]
      refine ih _ (fun s => ?_) fun em hem => ?_
      · by_cases hs : s = j
        · subst hs
          simp only [Function.update_self]
          exact hmark s _ (hfuse s _ (hcache s))
        · simp only [Function.update_of_ne hs]
          exact hcache s
      · rcases List.mem_append.mp hem with hem | hem
        · exact hout em hem
        · rw [List.mem_singleton.mp hem]
          exact ⟨⟨c, hj⟩, st.1.cache j, hcache j, rfl⟩

theorem settle_evidence (sort : SortFn Rule) (o : Observation) (room : Nat)
    (touched : Category → Option Slot) (engine : Engine) (cs : List Category)
    (st : Engine × List Emission) (hsame : ∀ s, SameEvidence (engine.cache s) (st.1.cache s))
    (hout : ∀ em ∈ st.2, (∃ c, touched c = some em.slot) ∧
      ∃ e, SameEvidence (engine.cache em.slot) e ∧ em.detection = (fuse sort o e).detection) :
    (∀ s, SameEvidence (engine.cache s) ((cs.foldl (settle sort o room touched) st).1.cache s)) ∧
    ∀ em ∈ (cs.foldl (settle sort o room touched) st).2, (∃ c, touched c = some em.slot) ∧
      ∃ e, SameEvidence (engine.cache em.slot) e ∧ em.detection = (fuse sort o e).detection :=
  settle_entries (fun _ _ h => ⟨h.evidence, h.lastMs⟩) (fun _ _ h => ⟨h.evidence, h.lastMs⟩) room cs st hsame hout

/-- An ingest ends with the evidence of its walk, and emits nothing else. -/
theorem ingest_evidence (sort : SortFn Rule) (t : Recorded) (tick : Tick) :
    (∀ s, SameEvidence ((t.walk tick).1.engine.cache s) ((t.ingest sort tick).engine.cache s)) ∧
    ∀ em ∈ t.emissions sort tick, (∃ c, (t.walk tick).1.touched c = some em.slot) ∧
      ∃ e, SameEvidence ((t.walk tick).1.engine.cache em.slot) e ∧
        em.detection = (fuse sort tick.observation e).detection := by
  unfold Recorded.ingest Recorded.emissions Engine.ingest
  rw [recorded_walk_fst]
  exact settle_evidence sort tick.observation tick.room _ _ Category.all _
    (fun s => by rw [Engine.rememberAp_cache]; exact ⟨rfl, rfl⟩) fun em hem => nomatch hem

theorem settle_skip (sort : SortFn Rule) (o : Observation) (room : Nat) {touched : Category → Option Slot}
    {cs : List Category} (h : ∀ c ∈ cs, touched c = none) (st : Engine × List Emission) :
    cs.foldl (settle sort o room touched) st = st := by
  induction cs with
  | nil => rfl
  | cons c cs ih =>
    have hskip : settle sort o room touched st c = st := by
      unfold settle
      rw [h c List.mem_cons_self]
    rw [List.foldl_cons, hskip]
    exact ih fun c' hc' => h c' (List.mem_cons_of_mem _ hc')

/-- The loop over the categories when one is touched. -/
theorem settle_only (sort : SortFn Rule) (o : Observation) (room : Nat) (c : Category) (s : Slot)
    (st : Engine × List Emission) :
    Category.all.foldl (settle sort o room (Function.update (fun _ => none) c (some s))) st =
      settle sort o room (Function.update (fun _ => none) c (some s)) st c := by
  obtain ⟨before, after, hsplit⟩ := List.append_of_mem (Category.mem_all c)
  have hnodup := Category.all_nodup
  rw [hsplit, List.nodup_append] at hnodup
  obtain ⟨-, hafter, hapart⟩ := hnodup
  rw [hsplit, List.foldl_append, List.foldl_cons, settle_skip, settle_skip]
  · intro c' hc'
    exact Function.update_of_ne (hapart c' hc' c List.mem_cons_self) _ _
  · intro c' hc'
    have hne : c' ≠ c := fun heq => (List.nodup_cons.mp hafter).1 (by rwa [heq] at hc')
    exact Function.update_of_ne hne _ _

end Hound
