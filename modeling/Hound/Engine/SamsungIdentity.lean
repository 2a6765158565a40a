import Hound.Core.ParseBle
import Hound.Engine.History

/-!
# Broadcast IDs in one history

An entry takes a packet by broadcast ID when both sides carry one and by
address otherwise. A service-only packet therefore strips an entry of its ID,
and the next full packet at that address joins it whatever ID it carries. The
results say exactly where two IDs can meet in one history, and that nothing
else merges them.
-/

namespace Hound

abbrev BroadcastId := Vector UInt8 8

/-- The only valid broadcast ID among these observations is `x`. -/
def OnlyId (x : BroadcastId) (log : List Observation) : Prop :=
  ∀ p ∈ log, p.samsung.valid = true → p.samsung.id = x

instance (x : BroadcastId) (log : List Observation) : Decidable (OnlyId x log) :=
  inferInstanceAs (Decidable (∀ p ∈ log, p.samsung.valid = true → p.samsung.id = x))

/-- Every emitted detection with a valid broadcast ID has a history of that ID. -/
def IdsKeptApart (sort : SortFn Rule) (t : Traced) (tick : Tick) : Prop :=
  ∀ em ∈ t.emissions sort tick, em.detection.category = .SAMSUNG_TAG →
    em.detection.samsung.valid = true →
    OnlyId em.detection.samsung.id ((t.ingest sort tick).ledger.log em.slot)

instance (sort : SortFn Rule) (t : Traced) (tick : Tick) : Decidable (IdsKeptApart sort t tick) :=
  inferInstanceAs (Decidable (∀ em ∈ t.emissions sort tick, _ → _ → OnlyId _ _))

/-- The packet is not a full one joining, by address, an entry that holds no
broadcast ID now but has counted a different one. -/
def NoForeignId (o : Observation) (cache : Cache) (g : Ledger) (c : Category) : Prop :=
  ∀ s, lookup cache c o = some s → (packetTag c o).valid = true →
    (cache s).detection.samsung.valid = false → OnlyId o.samsung.id (g.log s)

instance (o : Observation) (cache : Cache) (g : Ledger) (c : Category) :
    Decidable (NoForeignId o cache g c) :=
  match h : lookup cache c o with
  | none => isTrue fun s hs => absurd (h.symm.trans hs) nofun
  | some i => decidable_of_iff ((packetTag c o).valid = true →
      (cache i).detection.samsung.valid = false → OnlyId o.samsung.id (g.log i))
      ⟨fun hi s hs => by cases h.symm.trans hs; exact hi, fun hs => hs i h⟩

/-- A valid ID is only ever held under `SAMSUNG_TAG` over BLE, with its own history. -/
def IdHistories (h : Slot → Detection) (log : Slot → List Observation) : Prop :=
  ∀ s, (h s).samsung.valid = true →
    samsungIdentity (h s) = true ∧ OnlyId (h s).samsung.id (log s)

theorem packetTag_valid {c : Category} {o : Observation} (h : (packetTag c o).valid = true) :
    c = .SAMSUNG_TAG ∧ o.radio = .Ble ∧ packetTag c o = o.samsung := by
  unfold packetTag at h ⊢
  by_cases hc : (c == .SAMSUNG_TAG && o.radio == .Ble) = true
  · simp only [Bool.and_eq_true, beq_iff_eq] at hc
    simp [hc.1, hc.2]
  · rw [if_neg hc] at h
    exact absurd h (by decide)

@[simp] theorem refreshDetection_samsung (o : Observation) (d : Detection) :
    (refreshDetection o d).samsung = packetTag d.category o := by
  unfold refreshDetection
  dsimp only
  split <;> rfl

@[simp] theorem refreshDetection_category (o : Observation) (d : Detection) :
    (refreshDetection o d).category = d.category := by
  unfold refreshDetection
  dsimp only
  split <;> rfl

@[simp] theorem refreshDetection_radio (o : Observation) (d : Detection) :
    (refreshDetection o d).radio = d.radio := by
  unfold refreshDetection
  dsimp only
  split <;> rfl

theorem OnlyId.cons {o : Observation} {log : List Observation} {x : BroadcastId}
    (hx : o.samsung.id = x) (h : OnlyId x log) : OnlyId x (o :: log) := by
  intro p hp hv
  rcases List.mem_cons.mp hp with rfl | hp
  · exact hx
  · exact h p hp hv

/-- What a matching slot says about itself. -/
theorem candidate_spec {c : Category} {o : Observation} {e : Entry}
    (h : candidate c o e = true) :
    e.occupied = true ∧ sameIdentity o e.detection = true ∧ e.detection.category = c ∧
      e.detection.radio = o.radio := by
  simp only [candidate, Bool.and_eq_true, beq_iff_eq] at h
  exact ⟨h.1.1.1, h.1.1.2, h.1.2, h.2⟩

theorem lookup_sound {cache : Cache} {c : Category} {o : Observation} {s : Slot}
    (h : lookup cache c o = some s) : candidate c o (cache s) = true :=
  Slots.first_sound h

/-- Both identities present: the entry holds the packet's own ID. -/
theorem sameIdentity_id {o : Observation} {d : Detection} (h : sameIdentity o d = true)
    (hd : samsungIdentity d = true) (ho : o.samsung.valid = true) : d.samsung.id = o.samsung.id := by
  unfold sameIdentity at h
  rw [hd, ho] at h
  simpa using h

/-- One touch keeps every valid ID with its own history. -/
theorem idHistories_touch {o : Observation} (cache : Cache) (g : Ledger) (c : Category)
    (hP : NoForeignId o cache g c) (h : IdHistories (histories cache) g.log) :
    IdHistories
      (Function.update (histories cache) (locate cache c o).1
        (refreshDetection o (locate cache c o).2.detection).history)
      (g.touch cache c o).log := by
  intro s hv
  cases hl : lookup cache c o with
  | none =>
    rw [locate_of_none hl] at hv ⊢
    rw [touch_of_none g hl]
    by_cases hs : s = victim cache
    · subst hs
      simp only [Function.update_self, history_samsung, refreshDetection_samsung] at hv ⊢
      obtain ⟨hc, hr, htag⟩ := packetTag_valid hv
      rw [show (freshEntry c o).detection.category = c from rfl] at *
      refine ⟨?_, ?_⟩
      · simp [samsungIdentity, freshEntry, hc, hr, hc ▸ hv]
      · rw [htag]
        exact OnlyId.cons rfl (by simp [OnlyId])
    · simp only [Function.update_of_ne hs] at hv ⊢
      exact h s hv
  | some i =>
    rw [locate_of_some hl] at hv ⊢
    rw [touch_of_some g hl]
    by_cases hs : s = i
    · subst hs
      obtain ⟨-, hsame, hcat, hradio⟩ := candidate_spec (lookup_sound hl)
      simp only [Function.update_self, history_samsung, refreshDetection_samsung, hcat] at hv ⊢
      obtain ⟨hc, hr, htag⟩ := packetTag_valid hv
      have hov : o.samsung.valid = true := htag ▸ hv
      refine ⟨?_, ?_⟩
      · simp [samsungIdentity, hcat, hradio, hc, hr, hc ▸ hv]
      · rw [htag]
        cases hd : (cache s).detection.samsung.valid with
        | false => exact OnlyId.cons rfl (hP s hl hv hd)
        | true =>
          obtain ⟨hid, honly⟩ := h s hd
          exact OnlyId.cons rfl (sameIdentity_id hsame hid hov ▸ honly)
    · simp only [Function.update_of_ne hs] at hv ⊢
      exact h s hv

theorem idHistories_ingest (sort : SortFn Rule) (t : Traced) (tick : Tick)
    (each : t.EachTouch NoForeignId tick)
    (h : IdHistories (histories t.engine.cache) t.ledger.log) :
    IdHistories (histories (t.ingest sort tick).engine.cache) (t.ingest sort tick).ledger.log :=
  history_induction sort t tick (fun cache g c hP hJ => idHistories_touch cache g c hP hJ) h each

theorem idHistories_start (rules : List Rule) :
    IdHistories (histories (Traced.start rules).engine.cache) (Traced.start rules).ledger.log := by
  intro s hv
  exact absurd hv (by simp [histories, Traced.start, SamsungTag.valid])

/-- In a run that never joins a full packet to an entry which lost a different
broadcast ID, no emitted detection mixes two IDs. -/
theorem samsung_ids_apart (sort : SortFn Rule) (rules : List Rule) (ticks : List Tick)
    (meets : EveryVisit sort rules ticks fun t tick => t.EachTouch NoForeignId tick) :
    EveryVisit sort rules ticks (IdsKeptApart sort) := by
  intro v hv em hem _ hvalid
  have before := visited_induction sort
    (I := fun t => IdHistories (histories t.engine.cache) t.ledger.log)
    (fun t tick hC hI => idHistories_ingest sort t tick hC hI)
    (Traced.start rules) ticks (idHistories_start rules) meets v hv
  have after := idHistories_ingest sort v.1 v.2 (meets v hv) before
  have hsam : (histories (v.1.ingest sort v.2).engine.cache em.slot).samsung =
      em.detection.samsung := by
    rw [← emission_history sort v.1 v.2 em hem]
    rfl
  have hslot := after em.slot (hsam ▸ hvalid)
  rw [hsam] at hslot
  exact hslot.2

/-! ## Three packets at one address -/

/-- The production rule `ble.samsung.smartthings`. -/
def smartThings : Rule :=
  { id := ascii "ble.samsung.smartthings", category := .SAMSUNG_TAG, kind := .Uuid16,
    value := ascii "FD5A", score := 60, cap := 79, generic := false,
    label := ascii "Samsung finding service",
    reason := ascii "Samsung finding service; accessory type unconfirmed" }

/-- An advertisement received from the address ending in `last`. -/
def received (ms : UInt64) (last : UInt8) (payload : Bytes) : Tick :=
  { observation := (parseBle payload
      { ms, rssi := -60, address := #v[0xc0, 1, 2, 3, 4, last], addressType := 1 }).getD {} }

/-- Full FD5A service data, state offline, with the broadcast ID `id 1 1 1 1 1 1 1`. -/
def fullTag (id : UInt8) : Bytes :=
  [23, 0x16, 0x5a, 0xfd, 0x12, 0, 0, 0, id, 1, 1, 1, 1, 1, 1, 1, 0, 0, 0, 0, 0, 0, 0, 0]

/-- The FD5A service in a UUID list, without service data. -/
def serviceOnly : Bytes := [3, 3, 0x5a, 0xfd]

/-- Two IDs at one address, with no packet in between that carries none. -/
theorem samsung_ids_apart_two :
    EveryVisit .insertion [smartThings]
      [received 1000 5 (fullTag 7), received 1200 5 (fullTag 8), received 1400 5 (fullTag 7)]
      (IdsKeptApart .insertion) :=
  samsung_ids_apart .insertion [smartThings] _ (by decide +kernel)

/-- A service-only packet between them, and the second ID inherits the first one's history. -/
theorem samsung_ids_merge :
    ¬ ∀ (sort : SortFn Rule) (rules : List Rule) (ticks : List Tick), Monotone ticks →
      EveryVisit sort rules ticks (IdsKeptApart sort) := by
  intro h
  have hrun := h .insertion [smartThings]
    [received 1000 5 (fullTag 7), received 1200 5 serviceOnly, received 1400 5 (fullTag 8)]
    (by decide)
  exact absurd hrun (by decide +kernel)

end Hound
