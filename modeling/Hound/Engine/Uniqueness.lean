import Hound.Engine.SamsungIdentity

/-!
# One entry for one identity

The key of an occupied entry is its category and radio with its broadcast ID,
or with its address when it holds no ID. The lookup takes the first slot that
matches under either notion, so a slot that matches by address can be chosen
over the slot that already holds the packet's own key. The touch keeps keys
unique exactly when that does not happen.
-/

namespace Hound

/-- Two occupied entries of one identity. -/
def SameKey (d e : Detection) : Prop :=
  d.seenCount ≠ 0 ∧ e.seenCount ≠ 0 ∧ d.category = e.category ∧ d.radio = e.radio ∧
    ((d.samsung.valid = true ∧ e.samsung.valid = true ∧ d.samsung.id = e.samsung.id) ∨
      (d.samsung.valid = false ∧ e.samsung.valid = false ∧ d.address = e.address ∧
        d.addressType = e.addressType))

instance (d e : Detection) : Decidable (SameKey d e) := by
  unfold SameKey
  infer_instance

def UniqueKeys (cache : Cache) : Prop :=
  Slots.Apart SameKey fun s => (cache s).detection

/-- The key under which category `c` files this packet. -/
def packetKey (c : Category) (o : Observation) : Detection :=
  refreshDetection o (freshEntry c o).detection

/-- If some entry has the packet's own key, the lookup returns that entry. -/
def OwnKeyFirst (o : Observation) (cache : Cache) (_ : Ledger) (c : Category) : Prop :=
  ∀ j, SameKey (packetKey c o) (cache j).detection → lookup cache c o = some j

instance (o : Observation) (cache : Cache) (g : Ledger) (c : Category) :
    Decidable (OwnKeyFirst o cache g c) :=
  inferInstanceAs (Decidable
    (∀ j, SameKey (packetKey c o) (cache j).detection → lookup cache c o = some j))

theorem SameKey.symm {d e : Detection} (h : SameKey d e) : SameKey e d := by
  obtain ⟨hd, he, hc, hr, ⟨hv, hv', hid⟩ | ⟨hv, hv', ha, ht⟩⟩ := h
  · exact ⟨he, hd, hc.symm, hr.symm, .inl ⟨hv', hv, hid.symm⟩⟩
  · exact ⟨he, hd, hc.symm, hr.symm, .inr ⟨hv', hv, ha.symm, ht.symm⟩⟩

theorem uniqueKeys_iff_histories (cache : Cache) :
    UniqueKeys cache ↔ Slots.Apart SameKey (histories cache) := Iff.rfl

/-! ## The touched entry has the packet's key -/

theorem refreshDetection_seenCount_ne_zero (o : Observation) (d : Detection) :
    (refreshDetection o d).seenCount ≠ 0 := by
  unfold refreshDetection
  dsimp only
  split
  · rename_i h
    have hne : d.seenCount ≠ 0xffffffff := by simpa using h
    dsimp only
    grind
  · rename_i h
    have heq : d.seenCount = 0xffffffff := by simpa using h
    dsimp only
    rw [heq]
    decide

@[simp] theorem refreshDetection_address (o : Observation) (d : Detection) :
    (refreshDetection o d).address = o.address := by
  unfold refreshDetection
  dsimp only
  split <;> rfl

@[simp] theorem refreshDetection_addressType (o : Observation) (d : Detection) :
    (refreshDetection o d).addressType = o.addressType := by
  unfold refreshDetection
  dsimp only
  split <;> rfl

theorem locate_category (cache : Cache) (c : Category) (o : Observation) :
    (locate cache c o).2.detection.category = c ∧
      (locate cache c o).2.detection.radio = o.radio := by
  cases h : lookup cache c o with
  | none =>
    rw [locate_of_none h]
    exact ⟨rfl, rfl⟩
  | some s =>
    rw [locate_of_some h]
    obtain ⟨-, -, hc, hr⟩ := candidate_spec (lookup_sound h)
    exact ⟨hc, hr⟩

theorem sameKey_touched_iff (cache : Cache) (c : Category) (o : Observation) (d : Detection) :
    SameKey (refreshDetection o (locate cache c o).2.detection).history d ↔
      SameKey (packetKey c o) d := by
  obtain ⟨hc, hr⟩ := locate_category cache c o
  have hs := refreshDetection_seenCount_ne_zero o (locate cache c o).2.detection
  have hs' := refreshDetection_seenCount_ne_zero o (freshEntry c o).detection
  simp only [SameKey, packetKey, history_seenCount, history_category, history_radio,
    history_samsung, history_address, history_addressType, refreshDetection_category,
    refreshDetection_radio, refreshDetection_samsung, refreshDetection_address,
    refreshDetection_addressType, hc, hr, ne_eq, hs, hs', not_false_eq_true, true_and]
  exact Iff.rfl

/-- A touch keeps the keys unique exactly when no entry but the touched one has
the packet's key. -/
theorem uniqueKeys_touch_iff (cache : Cache) (c : Category) (o : Observation)
    (h : UniqueKeys cache) :
    UniqueKeys (Function.update cache (locate cache c o).1 (refresh o (locate cache c o).2)) ↔
      ∀ j, j ≠ (locate cache c o).1 → ¬ SameKey (packetKey c o) (cache j).detection := by
  rw [uniqueKeys_iff_histories, histories_update, refresh_detection]
  constructor
  · intro hu j hj hk
    exact hu.of_update j hj ((sameKey_touched_iff cache c o _).mpr hk)
  · intro hfree
    have hapart : Slots.Apart SameKey (histories cache) := (uniqueKeys_iff_histories cache).mp h
    refine Slots.Apart.update (fun hk => SameKey.symm hk) hapart _ _ fun j hj hk => ?_
    exact hfree j hj ((sameKey_touched_iff cache c o _).mp hk)

theorem uniqueKeys_touch (cache : Cache) (g : Ledger) (c : Category) (o : Observation)
    (hP : OwnKeyFirst o cache g c) (h : UniqueKeys cache) :
    UniqueKeys (Function.update cache (locate cache c o).1 (refresh o (locate cache c o).2)) := by
  refine (uniqueKeys_touch_iff cache c o h).mpr fun j hj hk => hj ?_
  rw [locate_of_some (hP j hk)]

theorem uniqueKeys_ingest (sort : SortFn Rule) (t : Traced) (tick : Tick)
    (each : t.EachTouch OwnKeyFirst tick) (h : UniqueKeys t.engine.cache) :
    UniqueKeys (t.ingest sort tick).engine.cache := by
  refine history_induction sort t tick (J := fun hs _ => Slots.Apart SameKey hs) ?_ h each
  intro cache g c hP hJ
  have := uniqueKeys_touch cache g c tick.observation hP hJ
  rwa [uniqueKeys_iff_histories, histories_update, refresh_detection] at this

theorem uniqueKeys_start (rules : List Rule) : UniqueKeys (Traced.start rules).engine.cache :=
  fun _ _ _ h => h.1 rfl

/-- In a run whose lookups never prefer another entry to the one that has the
packet's key, no two occupied entries ever denote one identity. -/
theorem cache_keys_unique (sort : SortFn Rule) (rules : List Rule) (ticks : List Tick)
    (meets : EveryVisit sort rules ticks fun t tick => t.EachTouch OwnKeyFirst tick) :
    UniqueKeys ((Traced.start rules).run sort ticks).engine.cache :=
  run_induction sort (I := fun t => UniqueKeys t.engine.cache)
    (fun t tick hC hI => uniqueKeys_ingest sort t tick hC hI)
    (Traced.start rules) ticks (uniqueKeys_start rules) meets

/-- A tag that moves to a second address keeps its one entry. -/
theorem cache_keys_unique_moving :
    UniqueKeys ((Traced.start [smartThings]).run .insertion
      [received 1000 5 (fullTag 7), received 1200 6 (fullTag 7),
        received 1400 5 serviceOnly]).engine.cache :=
  cache_keys_unique .insertion [smartThings] _ (by decide +kernel)

/-- A service-only entry at the address a tag moves to takes the tag's packet
while the tag's own entry is still cached. -/
theorem cache_keys_collide :
    ¬ ∀ (sort : SortFn Rule) (rules : List Rule) (ticks : List Tick), Monotone ticks →
      UniqueKeys ((Traced.start rules).run sort ticks).engine.cache := by
  intro h
  have hrun := h .insertion [smartThings]
    [received 1000 5 serviceOnly, received 1200 6 (fullTag 7), received 1400 5 (fullTag 7)]
    (by decide) 0 1 (by decide)
  exact hrun (by decide +kernel)

end Hound
