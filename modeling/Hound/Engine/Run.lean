import Hound.Engine.Ingest

/-!
# Runs of the engine and their histories

`Ledger` is bookkeeping beside the engine: for each slot the observations
counted into its present occupant and the last detection emitted for it. It
never influences the engine. `ingest_induction` is the one induction over an
ingest; every invariant of the cache below is an instance of it.
-/

namespace Hound

/-- One call of `Engine::ingest`; `room` is the size of the caller's `out`. -/
structure Tick where
  observation : Observation
  settings : Settings := {}
  room : Nat := 4

structure Ledger where
  log : Slot → List Observation := fun _ => []
  sent : Slot → Option Detection := fun _ => none

/-- An allocation forgets the previous occupant of its slot. -/
def Ledger.touch (g : Ledger) (cache : Cache) (c : Category) (o : Observation) : Ledger :=
  match lookup cache c o with
  | some s => { g with log := Function.update g.log s (o :: g.log s) }
  | none =>
      { log := Function.update g.log (victim cache) [o]
        sent := Function.update g.sent (victim cache) none }

def Ledger.emit (g : Ledger) (e : Emission) : Ledger :=
  { g with sent := Function.update g.sent e.slot (some e.detection) }

/-- Whether the loop body allocates or updates a slot for this rule's category. -/
def Pass.touches (settings : Settings) (o : Observation) (p : Pass) (rule : Rule) : Bool :=
  hasCategory settings.enabledCategories rule.category && (p.engine.evaluate rule o).1 &&
    (p.touched rule.category).isNone

def Ledger.apply (settings : Settings) (o : Observation) (pg : Pass × Ledger) (rule : Rule) :
    Pass × Ledger :=
  (pg.1.apply settings o rule,
    if pg.1.touches settings o rule then pg.2.touch pg.1.engine.cache rule.category o else pg.2)

/-- The engine with its ledger. -/
structure Traced where
  engine : Engine
  ledger : Ledger := {}

def Traced.walk (t : Traced) (tick : Tick) : Pass × Ledger :=
  t.engine.rules.foldl (Ledger.apply tick.settings tick.observation)
    ({ engine := t.engine }, t.ledger)

def Traced.ingest (sort : SortFn Rule) (t : Traced) (tick : Tick) : Traced :=
  let r := t.engine.ingest sort tick.observation tick.settings tick.room
  { engine := r.1, ledger := r.2.foldl Ledger.emit (t.walk tick).2 }

/-- What this ingest copies into `out`. -/
def Traced.emissions (sort : SortFn Rule) (t : Traced) (tick : Tick) : List Emission :=
  (t.engine.ingest sort tick.observation tick.settings tick.room).2

/-- The states a sequence of calls passes through, each with the call made in it. -/
def Traced.visited (sort : SortFn Rule) : Traced → List Tick → List (Traced × Tick)
  | _, [] => []
  | t, tick :: ticks => (t, tick) :: (t.ingest sort tick).visited sort ticks

def Traced.run (sort : SortFn Rule) (t : Traced) (ticks : List Tick) : Traced :=
  ticks.foldl (Traced.ingest sort) t

/-- Calls in non-decreasing time. -/
def Monotone (ticks : List Tick) : Prop :=
  ticks.Pairwise fun a b => a.observation.ms ≤ b.observation.ms

def Traced.start (rules : List Rule) : Traced := { engine := { rules } }

/-- `C` holds of every call a run from the empty engine makes. -/
def EveryVisit (sort : SortFn Rule) (rules : List Rule) (ticks : List Tick)
    (C : Traced → Tick → Prop) : Prop :=
  ∀ v ∈ (Traced.start rules).visited sort ticks, C v.1 v.2

instance (sort : SortFn Rule) (rules : List Rule) (ticks : List Tick) (C : Traced → Tick → Prop)
    [∀ t tick, Decidable (C t tick)] : Decidable (EveryVisit sort rules ticks C) :=
  inferInstanceAs (Decidable (∀ v ∈ (Traced.start rules).visited sort ticks, C v.1 v.2))

instance (ticks : List Tick) : Decidable (Monotone ticks) :=
  inferInstanceAs (Decidable (ticks.Pairwise fun a b => a.observation.ms ≤ b.observation.ms))

theorem locate_of_some {cache : Cache} {c : Category} {o : Observation} {s : Slot}
    (h : lookup cache c o = some s) : locate cache c o = (s, cache s) := by
  simp only [locate, h]

theorem locate_of_none {cache : Cache} {c : Category} {o : Observation}
    (h : lookup cache c o = none) : locate cache c o = (victim cache, freshEntry c o) := by
  simp only [locate, h]

theorem touch_of_some {cache : Cache} {c : Category} {o : Observation} {s : Slot} (g : Ledger)
    (h : lookup cache c o = some s) :
    g.touch cache c o = { g with log := Function.update g.log s (o :: g.log s) } := by
  simp only [Ledger.touch, h]

theorem touch_of_none {cache : Cache} {c : Category} {o : Observation} (g : Ledger)
    (h : lookup cache c o = none) :
    g.touch cache c o =
      { log := Function.update g.log (victim cache) [o]
        sent := Function.update g.sent (victim cache) none } := by
  simp only [Ledger.touch, h]

/-! ## The rule walk -/

theorem evaluate_frame (e : Engine) (rule : Rule) (o : Observation) :
    (e.evaluate rule o).2 = { e with bursts := (e.evaluate rule o).2.bursts } := by
  unfold Engine.evaluate
  split
  · exact Engine.behavior_frame e rule o
  · rfl

@[simp] theorem evaluate_cache (e : Engine) (rule : Rule) (o : Observation) :
    (e.evaluate rule o).2.cache = e.cache := by
  rw [evaluate_frame]

/-- Everything one rule can do to the cache and to the touched slots. -/
theorem Pass.apply_cases (settings : Settings) (o : Observation) (p : Pass) (rule : Rule) :
    (p.touches settings o rule = false ∧ (p.apply settings o rule).touched = p.touched ∧
      (p.apply settings o rule).engine.cache = p.engine.cache) ∨
    (∃ s, p.touches settings o rule = false ∧ p.touched rule.category = some s ∧
      (p.apply settings o rule).touched = p.touched ∧
      (p.apply settings o rule).engine.cache =
        Function.update p.engine.cache s (noteEvidence rule o (p.engine.cache s))) ∨
    (∃ s e, p.touches settings o rule = true ∧ locate p.engine.cache rule.category o = (s, e) ∧
      (p.apply settings o rule).touched = Function.update p.touched rule.category (some s) ∧
      (p.apply settings o rule).engine.cache =
        Function.update p.engine.cache s (noteEvidence rule o (refresh o e))) := by
  unfold Pass.apply Pass.touches
  cases hc : hasCategory settings.enabledCategories rule.category with
  | false => simp
  | true =>
    cases he : p.engine.evaluate rule o with
    | mk hit engine =>
      have hcache : engine.cache = p.engine.cache := by
        have := evaluate_cache p.engine rule o
        rwa [he] at this
      cases hit with
      | false => simp [hcache]
      | true =>
        cases ht : p.touched rule.category with
        | some s =>
          refine .inr (.inl ⟨s, by simp, rfl, ?_, ?_⟩)
          · simp [Pass.touch, Pass.note, ht]
          · simp only [Pass.touch, Pass.note, ht, ← hcache]
            rfl
        | none =>
          refine .inr (.inr ⟨(locate p.engine.cache rule.category o).1,
            (locate p.engine.cache rule.category o).2, by simp, Prod.mk.eta.symm, ?_, ?_⟩)
          · simp [Pass.touch, Pass.note, ht, hcache]
          · simp only [Pass.touch, Pass.note, ht, hcache, Function.update_self,
              Function.update_idem]
            rfl

@[simp] theorem walk_fst (t : Traced) (tick : Tick) :
    (t.walk tick).1 = t.engine.walk tick.observation tick.settings := by
  unfold Traced.walk Engine.walk
  generalize t.engine.rules = rules
  generalize ({ engine := t.engine } : Pass) = p
  generalize t.ledger = g
  induction rules generalizing p g with
  | nil => rfl
  | cons rule rules ih => exact ih _ _

/-- `P` holds at every allocation or update of a slot during the walk. -/
def EachTouch (P : Cache → Ledger → Category → Prop) (settings : Settings) (o : Observation) :
    Pass × Ledger → List Rule → Prop
  | _, [] => True
  | pg, rule :: rules =>
      (pg.1.touches settings o rule = true → P pg.1.engine.cache pg.2 rule.category) ∧
        EachTouch P settings o (Ledger.apply settings o pg rule) rules

instance decidableEachTouch (P : Cache → Ledger → Category → Prop)
    [∀ cache g c, Decidable (P cache g c)] (settings : Settings) (o : Observation) :
    (pg : Pass × Ledger) → (rules : List Rule) → Decidable (EachTouch P settings o pg rules)
  | _, [] => isTrue trivial
  | pg, rule :: rules =>
      have := decidableEachTouch P settings o (Ledger.apply settings o pg rule) rules
      inferInstanceAs (Decidable ((_ → _) ∧ _))

def Traced.EachTouch (P : Observation → Cache → Ledger → Category → Prop) (t : Traced)
    (tick : Tick) : Prop :=
  Hound.EachTouch (P tick.observation) tick.settings tick.observation
    ({ engine := t.engine }, t.ledger) t.engine.rules

instance (P : Observation → Cache → Ledger → Category → Prop)
    [∀ o cache g c, Decidable (P o cache g c)] (t : Traced) (tick : Tick) :
    Decidable (t.EachTouch P tick) :=
  inferInstanceAs (Decidable (Hound.EachTouch _ _ _ _ _))

section Induction

variable {o : Observation} {I : Cache → Ledger → Prop} {P : Cache → Ledger → Category → Prop}

theorem walk_induction
    (note : ∀ cache g s rule, I cache g →
      I (Function.update cache s (noteEvidence rule o (cache s))) g)
    (touch : ∀ cache g c, P cache g c → I cache g →
      I (Function.update cache (locate cache c o).1 (refresh o (locate cache c o).2))
        (g.touch cache c o))
    (settings : Settings) (rules : List Rule) (pg : Pass × Ledger)
    (h : I pg.1.engine.cache pg.2) (each : EachTouch P settings o pg rules) :
    I (rules.foldl (Ledger.apply settings o) pg).1.engine.cache
      (rules.foldl (Ledger.apply settings o) pg).2 := by
  induction rules generalizing pg with
  | nil => exact h
  | cons rule rules ih =>
    refine ih _ ?_ each.2
    obtain ⟨ht, _, hcache⟩ | ⟨s, ht, _, _, hcache⟩ | ⟨s, e, ht, hl, _, hcache⟩ :=
      Pass.apply_cases settings o pg.1 rule
    · simpa [Ledger.apply, ht, hcache] using h
    · simpa [Ledger.apply, ht, hcache] using note _ _ s rule h
    · have h' := touch _ _ rule.category (each.1 ht) h
      simp only [hl] at h'
      have h'' := note _ _ s rule h'
      simpa [Ledger.apply, ht, hcache] using h''

/-! ## Fusion and emission -/

/-- Everything the emission loop does to the cache and to `out` for one category. -/
theorem settle_cases (sort : SortFn Rule) (o : Observation) (room : Nat)
    (touched : Category → Option Slot) (st : Engine × List Emission) (c : Category) :
    (touched c = none ∧ settle sort o room touched st c = st) ∨
    (∃ s, touched c = some s ∧
      settle sort o room touched st c =
        ({ st.1 with cache := Function.update st.1.cache s (fuse sort o (st.1.cache s)) }, st.2)) ∨
    (∃ s, touched c = some s ∧ st.1.nextEmit ≤ o.ms ∧ st.2.length < room ∧
      due o (st.1.cache s).detection.score (fuse sort o (st.1.cache s)) = true ∧
      settle sort o room touched st c =
        ({ st.1 with
            cache := Function.update st.1.cache s (markEmitted o (fuse sort o (st.1.cache s)))
            nextEmit := o.ms + 100 },
          st.2 ++ [⟨s, (fuse sort o (st.1.cache s)).detection⟩])) := by
  cases ht : touched c with
  | none => exact .inl ⟨rfl, by simp [settle, ht]⟩
  | some s =>
    by_cases hdue : (due o (st.1.cache s).detection.score (fuse sort o (st.1.cache s)) &&
        decide (st.1.nextEmit ≤ o.ms) && decide (st.2.length < room)) = true
    · refine .inr (.inr ⟨s, rfl, ?_⟩)
      have h := hdue
      simp only [Bool.and_eq_true, decide_eq_true_eq] at h
      exact ⟨h.1.2, h.2, h.1.1, by simp only [settle, ht, hdue, if_true]⟩
    · exact .inr (.inl ⟨s, rfl, by simp only [settle, ht, hdue]; rfl⟩)

theorem settle_induction (sort : SortFn Rule)
    (fused : ∀ cache g s, I cache g → I (Function.update cache s (fuse sort o (cache s))) g)
    (marked : ∀ cache g s, I cache g →
      I (Function.update cache s (markEmitted o (fuse sort o (cache s))))
        (g.emit ⟨s, (fuse sort o (cache s)).detection⟩))
    (room : Nat) (touched : Category → Option Slot) (g : Ledger) (cs : List Category)
    (st : Engine × List Emission) (h : I st.1.cache (st.2.foldl Ledger.emit g)) :
    I (cs.foldl (settle sort o room touched) st).1.cache
      ((cs.foldl (settle sort o room touched) st).2.foldl Ledger.emit g) := by
  induction cs generalizing st with
  | nil => exact h
  | cons c cs ih =>
    refine ih _ ?_
    obtain ⟨_, hst⟩ | ⟨s, _, hst⟩ | ⟨s, _, _, _, _, hst⟩ := settle_cases sort o room touched st c
    · rw [hst]
      exact h
    · rw [hst]
      exact fused _ _ s h
    · rw [hst]
      simpa using marked _ _ s h

/-- What holds of the cache and the ledger before an ingest, and survives each
of its four kinds of update, holds after it. -/
theorem ingest_induction {P : Observation → Cache → Ledger → Category → Prop}
    (sort : SortFn Rule) (t : Traced) (tick : Tick)
    (note : ∀ cache g s rule, I cache g →
      I (Function.update cache s (noteEvidence rule tick.observation (cache s))) g)
    (touch : ∀ cache g c, P tick.observation cache g c → I cache g →
      I (Function.update cache (locate cache c tick.observation).1
          (refresh tick.observation (locate cache c tick.observation).2))
        (g.touch cache c tick.observation))
    (fused : ∀ cache g s, I cache g →
      I (Function.update cache s (fuse sort tick.observation (cache s))) g)
    (marked : ∀ cache g s, I cache g →
      I (Function.update cache s (markEmitted tick.observation (fuse sort tick.observation (cache s))))
        (g.emit ⟨s, (fuse sort tick.observation (cache s)).detection⟩))
    (h : I t.engine.cache t.ledger) (each : t.EachTouch P tick) :
    I (t.ingest sort tick).engine.cache (t.ingest sort tick).ledger := by
  have hw := walk_induction note touch tick.settings t.engine.rules
    ({ engine := t.engine }, t.ledger) h each
  unfold Traced.ingest Engine.ingest
  rw [← walk_fst]
  refine settle_induction sort fused marked tick.room _ (t.walk tick).2 Category.all _ ?_
  simpa [Traced.walk] using hw

end Induction

/-- What every ingest preserves holds in every state a run visits. -/
theorem visited_induction {I : Traced → Prop} {C : Traced → Tick → Prop} (sort : SortFn Rule)
    (step : ∀ t tick, C t tick → I t → I (t.ingest sort tick)) (t : Traced) (ticks : List Tick)
    (h : I t) (meets : ∀ v ∈ t.visited sort ticks, C v.1 v.2) :
    ∀ v ∈ t.visited sort ticks, I v.1 := by
  induction ticks generalizing t with
  | nil => simp [Traced.visited]
  | cons tick ticks ih =>
    intro v hv
    rcases List.mem_cons.mp hv with rfl | hv
    · exact h
    · exact ih (t.ingest sort tick) (step t tick (meets (t, tick) List.mem_cons_self) h)
        (fun v hv => meets v (List.mem_cons_of_mem _ hv)) v hv

/-- And in the state it ends in. -/
theorem run_induction {I : Traced → Prop} {C : Traced → Tick → Prop} (sort : SortFn Rule)
    (step : ∀ t tick, C t tick → I t → I (t.ingest sort tick)) (t : Traced) (ticks : List Tick)
    (h : I t) (meets : ∀ v ∈ t.visited sort ticks, C v.1 v.2) : I (t.run sort ticks) := by
  induction ticks generalizing t with
  | nil => exact h
  | cons tick ticks ih =>
    exact ih (t.ingest sort tick) (step t tick (meets (t, tick) List.mem_cons_self) h)
      (fun v hv => meets v (List.mem_cons_of_mem _ hv))

end Hound
