import Hound.Engine.Run

/-!
# The history part of an entry

Fusion writes `score`, `rules` and `rule_count`; everything else in a cached
detection is the history of its packets, and only the touch of a slot changes
it. `history_induction` therefore leaves one obligation, the touch, for an
invariant that reads histories alone.
-/

namespace Hound

/-- A detection without the fields fusion writes. -/
def Detection.history (d : Detection) : Detection :=
  { d with rules := Vector.replicate 4 none, ruleCount := 0, score := 0 }

section Fields

variable (d : Detection)

@[simp] theorem history_firstMs : d.history.firstMs = d.firstMs := rfl
@[simp] theorem history_lastMs : d.history.lastMs = d.lastMs := rfl
@[simp] theorem history_rssiSum : d.history.rssiSum = d.rssiSum := rfl
@[simp] theorem history_seenCount : d.history.seenCount = d.seenCount := rfl
@[simp] theorem history_samsung : d.history.samsung = d.samsung := rfl
@[simp] theorem history_address : d.history.address = d.address := rfl
@[simp] theorem history_category : d.history.category = d.category := rfl
@[simp] theorem history_radio : d.history.radio = d.radio := rfl
@[simp] theorem history_addressType : d.history.addressType = d.addressType := rfl
@[simp] theorem history_channel : d.history.channel = d.channel := rfl
@[simp] theorem history_rssiMin : d.history.rssiMin = d.rssiMin := rfl
@[simp] theorem history_rssiMax : d.history.rssiMax = d.rssiMax := rfl
@[simp] theorem history_samsungIdentity : samsungIdentity d.history = samsungIdentity d := rfl

end Fields

def histories (cache : Cache) : Slot → Detection := fun s => (cache s).detection.history

@[simp] theorem noteEvidence_detection (rule : Rule) (o : Observation) (e : Entry) :
    (noteEvidence rule o e).detection = e.detection := by
  unfold noteEvidence
  split <;> rfl

@[simp] theorem refresh_detection (o : Observation) (e : Entry) :
    (refresh o e).detection = refreshDetection o e.detection := rfl

@[simp] theorem fuse_history (sort : SortFn Rule) (o : Observation) (e : Entry) :
    (fuse sort o e).detection.history = e.detection.history := rfl

@[simp] theorem markEmitted_detection (o : Observation) (e : Entry) :
    (markEmitted o e).detection = e.detection := rfl

theorem histories_update (cache : Cache) (s : Slot) (e : Entry) :
    histories (Function.update cache s e) =
      Function.update (histories cache) s e.detection.history := by
  funext j
  by_cases h : j = s
  · subst h
    simp [histories]
  · simp [histories, h]

theorem histories_update_same (cache : Cache) (s : Slot) (e : Entry)
    (h : e.detection.history = (cache s).detection.history) :
    histories (Function.update cache s e) = histories cache := by
  rw [histories_update, h]
  exact Function.update_eq_self s (histories cache)

@[simp] theorem emit_log (g : Ledger) (e : Emission) : (g.emit e).log = g.log := rfl

/-! ## The induction on histories -/

theorem history_induction {J : (Slot → Detection) → (Slot → List Observation) → Prop}
    {P : Observation → Cache → Ledger → Category → Prop} (sort : SortFn Rule) (t : Traced)
    (tick : Tick)
    (touch : ∀ cache g c, P tick.observation cache g c → J (histories cache) g.log →
      J (Function.update (histories cache) (locate cache c tick.observation).1
          (refreshDetection tick.observation
            (locate cache c tick.observation).2.detection).history)
        (g.touch cache c tick.observation).log)
    (h : J (histories t.engine.cache) t.ledger.log) (each : t.EachTouch P tick) :
    J (histories (t.ingest sort tick).engine.cache) (t.ingest sort tick).ledger.log := by
  refine ingest_induction sort t tick (P := P)
    (I := fun cache g => J (histories cache) g.log) ?_ ?_ ?_ ?_ h each
  · intro cache g s rule hJ
    have hkeep := histories_update_same cache s (noteEvidence rule tick.observation (cache s))
      (by simp)
    simpa only [hkeep] using hJ
  · intro cache g c hP hJ
    simpa only [histories_update, refresh_detection] using touch cache g c hP hJ
  · intro cache g s hJ
    have hkeep := histories_update_same cache s (fuse sort tick.observation (cache s)) (by simp)
    simpa only [hkeep] using hJ
  · intro cache g s hJ
    have hkeep := histories_update_same cache s
      (markEmitted tick.observation (fuse sort tick.observation (cache s))) (by simp)
    simpa only [hkeep, emit_log] using hJ

/-! ## What an emitted detection says -/

theorem settle_histories (sort : SortFn Rule) (o : Observation) (room : Nat)
    (touched : Category → Option Slot) (cs : List Category) (st : Engine × List Emission) :
    histories (cs.foldl (settle sort o room touched) st).1.cache = histories st.1.cache := by
  induction cs generalizing st with
  | nil => rfl
  | cons c cs ih =>
    refine (ih _).trans ?_
    obtain ⟨_, hst⟩ | ⟨s, _, hst⟩ | ⟨s, _, _, _, _, hst⟩ := settle_cases sort o room touched st c
    · rw [hst]
    · rw [hst]
      exact histories_update_same st.1.cache s _ (by simp)
    · rw [hst]
      exact histories_update_same st.1.cache s _ (by simp)

theorem settle_emissions (sort : SortFn Rule) (o : Observation) (room : Nat)
    (touched : Category → Option Slot) (cs : List Category) (st : Engine × List Emission)
    (em : Emission) (h : em ∈ (cs.foldl (settle sort o room touched) st).2) :
    em ∈ st.2 ∨ em.detection.history = histories st.1.cache em.slot := by
  induction cs generalizing st with
  | nil => exact .inl h
  | cons c cs ih =>
    have hkeep := settle_histories sort o room touched [c] st
    rcases ih _ h with hmem | hhist
    · obtain ⟨_, hst⟩ | ⟨s, _, hst⟩ | ⟨s, _, _, _, _, hst⟩ :=
        settle_cases sort o room touched st c
      · rw [hst] at hmem
        exact .inl hmem
      · rw [hst] at hmem
        exact .inl hmem
      · rw [hst] at hmem
        rcases List.mem_append.mp hmem with hmem | hmem
        · exact .inl hmem
        · rw [List.mem_singleton.mp hmem]
          exact .inr rfl
    · refine .inr (hhist.trans ?_)
      exact congrFun hkeep em.slot

/-- An emitted detection carries the history its slot holds after the ingest. -/
theorem emission_history (sort : SortFn Rule) (t : Traced) (tick : Tick) (em : Emission)
    (h : em ∈ t.emissions sort tick) :
    em.detection.history = histories (t.ingest sort tick).engine.cache em.slot := by
  rcases settle_emissions sort _ _ _ _ _ em h with hmem | hhist
  · simp at hmem
  · rw [hhist]
    exact (congrFun (settle_histories sort _ _ _ _ _) em.slot).symm

end Hound
