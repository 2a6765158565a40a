import Hound.Engine.Ingest
import Hound.Engine.Run
import Hound.Lib.Runs

/-!
# Runs of the engine alone

One call of `Engine::ingest` as a step of the engine, and what such a step does
to the tables beside the cache: the bursts are the walk's, and the access points
are those the packet is remembered in.
-/

namespace Hound

def Engine.next (sort : SortFn Rule) (e : Engine) (tick : Tick) : Engine :=
  (e.ingest sort tick.observation tick.settings tick.room).1

def Engine.emissions (sort : SortFn Rule) (e : Engine) (tick : Tick) : List Emission :=
  (e.ingest sort tick.observation tick.settings tick.room).2

/-- `C` holds of every call in a run from the empty engine. -/
def Engine.Throughout (sort : SortFn Rule) (rules : List Rule) (ticks : List Tick)
    (C : Engine → Tick → Prop) : Prop :=
  ∀ v ∈ Runs.visited (Engine.next sort) { rules } ticks, C v.1 v.2

/-- What a rule's evaluation says in its place in the walk. -/
def Engine.matchesAfter (e : Engine) (tick : Tick) (before : List Rule) (r : Rule) : Bool :=
  ((before.foldl (Pass.apply tick.settings tick.observation) { engine := e }).engine.evaluate r
    tick.observation).1

/-! ## What the engine leaves alone -/

section Frames

variable (settings : Settings) (o : Observation)

/-- Outside the cache and the bursts, two engines are the same. -/
structure SameTables (e e' : Engine) : Prop where
  rules : e'.rules = e.rules
  aps : e'.aps = e.aps

theorem evaluate_tables (e : Engine) (rule : Rule) : SameTables e (e.evaluate rule o).2 := by
  unfold Engine.evaluate
  split
  · rw [Engine.behavior_frame]
    exact ⟨rfl, rfl⟩
  · exact ⟨rfl, rfl⟩

theorem touch_engine (p : Pass) (c : Category) :
    (p.touch c o).2.engine.bursts = p.engine.bursts ∧ SameTables p.engine (p.touch c o).2.engine := by
  unfold Pass.touch
  split
  · exact ⟨rfl, rfl, rfl⟩
  · exact ⟨rfl, rfl, rfl⟩

/-- Outside the cache a rule changes what its evaluation changes. -/
theorem apply_engine (p : Pass) (rule : Rule) (h : hasCategory settings.enabledCategories rule.category) :
    (p.apply settings o rule).engine.bursts = (p.engine.evaluate rule o).2.bursts ∧
    SameTables p.engine (p.apply settings o rule).engine := by
  have htables := evaluate_tables o p.engine rule
  unfold Pass.apply
  rw [h]
  simp only [Bool.not_true, Bool.false_eq_true, if_false]
  split
  · exact ⟨rfl, htables⟩
  · obtain ⟨hbursts, htables'⟩ := touch_engine o { p with engine := (p.engine.evaluate rule o).2 }
      rule.category
    exact ⟨hbursts, htables'.rules.trans htables.rules, htables'.aps.trans htables.aps⟩

theorem settle_engine (sort : SortFn Rule) (room : Nat) (touched : Category → Option Slot)
    (st : Engine × List Emission) (c : Category) :
    (settle sort o room touched st c).1.bursts = st.1.bursts ∧
    SameTables st.1 (settle sort o room touched st c).1 := by
  unfold settle
  split
  · exact ⟨rfl, rfl, rfl⟩
  · dsimp only
    split
    · exact ⟨rfl, rfl, rfl⟩
    · exact ⟨rfl, rfl, rfl⟩

theorem settles_engine (sort : SortFn Rule) (room : Nat) (touched : Category → Option Slot)
    (cs : List Category) (st : Engine × List Emission) :
    (cs.foldl (settle sort o room touched) st).1.bursts = st.1.bursts ∧
    SameTables st.1 (cs.foldl (settle sort o room touched) st).1 := by
  induction cs generalizing st with
  | nil => exact ⟨rfl, rfl, rfl⟩
  | cons c cs ih =>
    obtain ⟨hbursts, hrules, haps⟩ := ih (settle sort o room touched st c)
    obtain ⟨hbursts', hrules', haps'⟩ := settle_engine o sort room touched st c
    exact ⟨hbursts.trans hbursts', hrules.trans hrules', haps.trans haps'⟩

theorem apply_tables (p : Pass) (rule : Rule) : SameTables p.engine (p.apply settings o rule).engine := by
  cases h : hasCategory settings.enabledCategories rule.category with
  | true => exact (apply_engine settings o p rule h).2
  | false =>
    unfold Pass.apply
    rw [h, Bool.not_false, if_pos rfl]
    exact ⟨rfl, rfl⟩

theorem fold_tables (rules : List Rule) (p : Pass) :
    SameTables p.engine (rules.foldl (Pass.apply settings o) p).engine := by
  induction rules generalizing p with
  | nil => exact ⟨rfl, rfl⟩
  | cons rule rules ih =>
    obtain ⟨hrules, haps⟩ := ih (p.apply settings o rule)
    obtain ⟨hrules', haps'⟩ := apply_tables settings o p rule
    exact ⟨hrules.trans hrules', haps.trans haps'⟩

theorem walk_tables (e : Engine) : SameTables e (e.walk o settings).engine :=
  fold_tables settings o e.rules { engine := e }

theorem rememberAp_aps {e e' : Engine} (h : e'.aps = e.aps) :
    (e'.rememberAp o).aps = (e.rememberAp o).aps := by
  unfold Engine.rememberAp
  split
  · exact h
  · simp only [h]

theorem ingest_engine (sort : SortFn Rule) (e : Engine) (room : Nat) :
    (e.ingest sort o settings room).1.bursts = (e.walk o settings).engine.bursts ∧
    (e.ingest sort o settings room).1.rules = e.rules ∧
    (e.ingest sort o settings room).1.aps = (e.rememberAp o).aps := by
  obtain ⟨hbursts, hrules, haps⟩ := settles_engine o sort room (e.walk o settings).touched Category.all
    ((e.walk o settings).engine.rememberAp o, [])
  have hwalk := walk_tables settings o e
  refine ⟨hbursts.trans ?_, hrules.trans ?_, haps.trans ?_⟩
  · rw [Engine.rememberAp_frame]
  · rw [Engine.rememberAp_rules]
    exact hwalk.rules
  · exact rememberAp_aps o hwalk.aps

end Frames

end Hound
