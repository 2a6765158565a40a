import Hound.Engine.Tables
import Hound.Lib.Keyed

/-!
# Deauthentication bursts as a sliding window

A burst slot keeps the last twenty frame times of one sender on one channel. The
rule matches exactly when the twentieth of the frames the sender has sent since
it took the slot is recent; while no more senders than slots have sent such
frames, these are all its frames.
-/

namespace Hound

/-- A deauthentication or disassociation frame. -/
def Observation.dismissal (o : Observation) : Bool :=
  o.radio == .Wifi && (o.subtype == 10 || o.subtype == 12)

/-- What a burst slot is kept for. -/
abbrev Source := Address × UInt8

def Observation.source (o : Observation) : Source := (o.address, o.channel)

def burstKey (b : Burst) : Option Source := if b.used then some (b.address, b.channel) else none

/-- An enabled `deauth_burst` rule. -/
def burstRule (settings : Settings) (r : Rule) : Bool :=
  hasCategory settings.enabledCategories r.category && r.kind == .Behavior &&
    r.value == ascii "deauth_burst"

/-- One such rule, in one place. -/
def OneBurstRule (rules : List Rule) (settings : Settings) : Prop :=
  (rules.filter (burstRule settings)).length = 1

instance (rules : List Rule) (settings : Settings) : Decidable (OneBurstRule rules settings) :=
  inferInstanceAs (Decidable (_ = _))

/-- Times of a sender's frames since it last took a slot; calls and times latest first. -/
def burstTimes (k : Source) : List (Engine × Tick) → List UInt64
  | [] => []
  | (e, tick) :: past =>
    if tick.observation.dismissal && tick.observation.source == k then
      if (e.burstSlot tick.observation).isNone then [tick.observation.ms]
      else tick.observation.ms :: burstTimes k past
    else burstTimes k past

/-- Times of all frames of a sender, in the order of the calls. -/
def dismissalTimes (k : Source) (ticks : List Tick) : List UInt64 :=
  (ticks.filter fun tick => tick.observation.dismissal && tick.observation.source == k).map
    fun tick => tick.observation.ms

/-- Twenty frames, the twentieth most recent at most ten seconds old. -/
def burstDue (times : List UInt64) (now : UInt64) : Prop :=
  ∃ t, times[19]? = some t ∧ now.toNat ≤ t.toNat + 10000

/-- Every sender of such a frame. -/
def dismissalSources (ticks : List Tick) : Finset Source :=
  ((ticks.filter fun tick => tick.observation.dismissal).map fun tick => tick.observation.source).toFinset

/-- The calls of a run with the states they were made in, latest first. -/
def Engine.past (sort : SortFn Rule) (rules : List Rule) (ticks : List Tick) : List (Engine × Tick) :=
  (Runs.visited (Engine.next sort) { rules } ticks).reverse

/-! ## One frame -/

section Frame

variable {o : Observation}

theorem burstSlot_some {e : Engine} {i : Fin 16} (h : e.burstSlot o = some i) :
    burstKey (e.bursts i) = some o.source := by
  have hfound := Slots.first_sound h
  simp only [Bool.and_eq_true, beq_iff_eq] at hfound
  obtain ⟨⟨hused, haddress⟩, hchannel⟩ := hfound
  unfold burstKey Observation.source
  rw [hused, if_pos rfl, haddress, hchannel]

theorem burstSlot_none {e : Engine} (h : e.burstSlot o = none) (i : Fin 16) :
    burstKey (e.bursts i) ≠ some o.source := by
  have hother := Slots.first_eq_none.mp h i
  unfold burstKey Observation.source
  intro heq
  split at heq
  · rename_i hused
    obtain ⟨haddress, hchannel⟩ := Prod.mk.inj (Option.some.inj heq)
    simp [hused, haddress, hchannel] at hother
  · exact nomatch heq

theorem burstSlot_isNone {e : Engine} : (e.burstSlot o).isNone = true ↔
    ∀ i, burstKey (e.bursts i) ≠ some o.source := by
  cases h : e.burstSlot o with
  | none => exact ⟨fun _ => burstSlot_none h, fun _ => rfl⟩
  | some i => exact ⟨nofun, fun hnone => absurd (burstSlot_some h) (hnone i)⟩

/-- The slot a frame is recorded in, and what it held for the sender before. -/
def Engine.burstPlace (e : Engine) (o : Observation) : Fin 16 × Burst :=
  match e.burstSlot o with
  | some i => (i, e.bursts i)
  | none => (e.burstVictim, { used := true, address := o.address, channel := o.channel : Burst })

theorem burstKey_eq_none {b : Burst} : burstKey b = none ↔ (!b.used) = true := by
  unfold burstKey
  cases b.used <;> simp

theorem burstPlace_place {e : Engine} (hunique : Keyed.Unique burstKey e.bursts) (o : Observation) :
    Keyed.Place burstKey e.bursts o.source (e.burstPlace o).1 := by
  unfold Engine.burstPlace
  cases hslot : e.burstSlot o with
  | none =>
    constructor
    · exact fun j hj => absurd hj (burstSlot_none hslot j)
    · rintro - ⟨j, hj⟩
      change burstKey (e.bursts e.burstVictim) = none
      unfold Engine.burstVictim
      cases hfirst : Slots.first (fun x => !x.used) e.bursts with
      | none =>
        have hused := Slots.first_eq_none.mp hfirst j
        rw [burstKey_eq_none.mp hj] at hused
        exact nomatch hused
      | some i => exact burstKey_eq_none.mpr (Slots.first_sound hfirst)
  | some i =>
    constructor
    · exact fun j hj => hunique j i _ hj (burstSlot_some hslot)
    · exact fun hne => absurd (burstSlot_some hslot) hne

theorem deauthBurst_eq (e : Engine) (h : o.subtype = 10 ∨ o.subtype = 12) :
    e.deauthBurst o =
      (Engine.Burst.full (Engine.Burst.record (e.burstPlace o).2 o.ms) o.ms,
        { e with
          bursts := Function.update e.bursts (e.burstPlace o).1
            (Engine.Burst.record (e.burstPlace o).2 o.ms) }) := by
  have hsubtype : (o.subtype != 10 && o.subtype != 12) = false := by
    rcases h with h | h <;> rw [h] <;> decide
  unfold Engine.deauthBurst Engine.burstPlace
  rw [hsubtype]
  cases e.burstSlot o <;> rfl

theorem burstPlace_key (e : Engine) (o : Observation) :
    burstKey (e.burstPlace o).2 = some o.source := by
  unfold Engine.burstPlace
  cases h : e.burstSlot o with
  | none => rfl
  | some i => exact burstSlot_some h

theorem record_key (b : Burst) (ms : UInt64) : burstKey (Engine.Burst.record b ms) = burstKey b := rfl

/-- A slot and the times of the frames it has counted. -/
structure BurstHolds (b : Burst) (times : List UInt64) : Prop where
  ring : Ring.Holds b.times b.next times
  count : b.count = min 20 times.length

theorem BurstHolds.record {b : Burst} {times : List UInt64} (h : BurstHolds b times) (ms : UInt64) :
    BurstHolds (Engine.Burst.record b ms) (ms :: times) := by
  constructor
  · have hpush := h.ring.push ms
    have hnext : (b.next + 1).val = (b.next.val + 1) % 20 := Fin.val_add b.next 1
    change Ring.Holds (b.times.set b.next ms) (b.next + 1).val (ms :: times)
    rw [hnext]
    exact hpush
  · have hcount := h.count
    change min 20 (b.count + 1) = min 20 (times.length + 1)
    omega

theorem burstHolds_fresh (k : Source) (ms : UInt64) :
    BurstHolds (Engine.Burst.record { used := true, address := k.1, channel := k.2 } ms) [ms] :=
  BurstHolds.record ⟨Ring.holds_nil _, rfl⟩ ms

/-- The test on the ring is the test on the times, when none lies in the future. -/
theorem BurstHolds.full {b : Burst} {times : List UInt64} {now : UInt64} (h : BurstHolds b times)
    (hpast : ∀ t ∈ times, t ≤ now) : Engine.Burst.full b now = true ↔ burstDue times now := by
  have hcount := h.count
  unfold Engine.Burst.full burstDue
  by_cases hfull : 20 ≤ times.length
  · have hcell := h.ring.oldest (by decide) hfull
    have htwenty : b.count = 20 := by omega
    have hread : times[19]? = some b.times[b.next] := by
      rw [← hcell]
      exact Vector.getElem?_eq_getElem b.next.isLt
    have hle := hpast _ (List.mem_of_getElem? hread)
    have hsub := UInt64.toNat_sub_of_le _ _ hle
    have hle' := UInt64.le_iff_toNat_le.mp hle
    rw [hread, htwenty]
    simp only [beq_self_eq_true, Bool.true_and, Bool.and_eq_true, decide_eq_true_eq,
      Option.some.injEq, exists_eq_left', UInt64.le_iff_toNat_le, hsub]
    change b.times[b.next].toNat ≤ now.toNat ∧ now.toNat - b.times[b.next].toNat ≤ 10000 ↔ _
    omega
  · have hless : b.count ≠ 20 := by omega
    have hnone : times[19]? = none := List.getElem?_eq_none (by omega)
    rw [hnone]
    simp [hless]

end Frame

/-! ## The walk -/

section Walk

variable {settings : Settings} {o : Observation}

theorem behavior_bursts {e : Engine} {r : Rule} (h : r.value ≠ ascii "deauth_burst") :
    (e.behavior r o).2.bursts = e.bursts := by
  unfold Engine.behavior
  split
  · rfl
  · rw [beq_false_of_ne h]
    simp only [Bool.false_eq_true, if_false]
    split
    · rfl
    · split <;> rfl

theorem apply_bursts_other {p : Pass} {r : Rule} (h : burstRule settings r = false) :
    (p.apply settings o r).engine.bursts = p.engine.bursts := by
  cases henabled : hasCategory settings.enabledCategories r.category with
  | false =>
    unfold Pass.apply
    rw [henabled, Bool.not_false, if_pos rfl]
  | true =>
    rw [(apply_engine settings o p r henabled).1]
    unfold Engine.evaluate
    split
    · rename_i hkind
      refine behavior_bursts fun hvalue => ?_
      simp [burstRule, henabled, hkind, hvalue] at h
    · rfl

theorem fold_bursts_other (rules : List Rule) {p : Pass} (h : ∀ r ∈ rules, burstRule settings r = false) :
    (rules.foldl (Pass.apply settings o) p).engine.bursts = p.engine.bursts := by
  induction rules generalizing p with
  | nil => rfl
  | cons r rules ih =>
    have hrest := @ih (p.apply settings o r) fun q hq => h q (List.mem_cons_of_mem _ hq)
    exact hrest.trans (apply_bursts_other (h r List.mem_cons_self))

/-- Around the one burst rule nothing else is one. -/
theorem OneBurstRule.split {rules before after : List Rule} {r : Rule} (h : OneBurstRule rules settings)
    (hrules : rules = before ++ r :: after) (hr : burstRule settings r = true) :
    (∀ q ∈ before, burstRule settings q = false) ∧ ∀ q ∈ after, burstRule settings q = false := by
  unfold OneBurstRule at h
  rw [hrules, List.filter_append, List.filter_cons, if_pos hr, List.length_append, List.length_cons] at h
  have hbefore : before.filter (burstRule settings) = [] := List.length_eq_zero_iff.mp (by omega)
  have hafter : after.filter (burstRule settings) = [] := List.length_eq_zero_iff.mp (by omega)
  constructor
  · intro q hq
    simpa using List.filter_eq_nil_iff.mp hbefore q hq
  · intro q hq
    simpa using List.filter_eq_nil_iff.mp hafter q hq

theorem OneBurstRule.exists_split {rules : List Rule} (h : OneBurstRule rules settings) :
    ∃ before r after, rules = before ++ r :: after ∧ burstRule settings r = true := by
  obtain ⟨r, hr⟩ := List.exists_mem_of_length_pos (l := rules.filter (burstRule settings)) (by
    rw [h]
    exact Nat.one_pos)
  obtain ⟨hmem, hrule⟩ := List.mem_filter.mp hr
  obtain ⟨before, after, hsplit⟩ := List.append_of_mem hmem
  exact ⟨before, r, after, hsplit, hrule⟩

theorem burstPlace_congr {e e' : Engine} (h : e'.bursts = e.bursts) : e'.burstPlace o = e.burstPlace o := by
  unfold Engine.burstPlace Engine.burstVictim Engine.burstSlot
  rw [h]

theorem evaluate_burst (e : Engine) {r : Rule} (hr : burstRule settings r = true) :
    (o.dismissal = true → (e.evaluate r o).1 = Engine.Burst.full (Engine.Burst.record (e.burstPlace o).2 o.ms) o.ms ∧
      (e.evaluate r o).2.bursts = Function.update e.bursts (e.burstPlace o).1
        (Engine.Burst.record (e.burstPlace o).2 o.ms)) ∧
    (o.dismissal = false → (e.evaluate r o).1 = false ∧ (e.evaluate r o).2.bursts = e.bursts) := by
  simp only [burstRule, Bool.and_eq_true, beq_iff_eq] at hr
  obtain ⟨⟨-, hkind⟩, hvalue⟩ := hr
  have heval : e.evaluate r o = if o.radio != .Wifi then (false, e) else e.deauthBurst o := by
    simp only [Engine.evaluate, Engine.behavior, hkind, hvalue, beq_self_eq_true, if_true]
  rw [heval]
  constructor
  · intro hdismissal
    simp only [Observation.dismissal, Bool.and_eq_true, beq_iff_eq, Bool.or_eq_true] at hdismissal
    obtain ⟨hradio, hsubtype⟩ := hdismissal
    rw [hradio, if_neg (by decide), deauthBurst_eq e hsubtype]
    exact ⟨rfl, rfl⟩
  · intro hother
    cases hradio : (o.radio != .Wifi) with
    | true => exact ⟨rfl, rfl⟩
    | false =>
      have hsubtype : (o.subtype != 10 && o.subtype != 12) = true := by
        have hwifi : o.radio = .Wifi := by simpa using hradio
        simpa [Observation.dismissal, hwifi] using hother
      unfold Engine.deauthBurst
      rw [if_neg (by decide), if_pos hsubtype]
      exact ⟨rfl, rfl⟩

/-- In its place the rule is evaluated with the bursts the call began with. -/
theorem matchesAfter_burst {e : Engine} {tick : Tick} {above : List Rule} {r : Rule}
    (habove : ∀ q ∈ above, burstRule tick.settings q = false) (hr : burstRule tick.settings r = true) :
    e.matchesAfter tick above r = true ↔ tick.observation.dismissal = true ∧
      Engine.Burst.full (Engine.Burst.record (e.burstPlace tick.observation).2 tick.observation.ms)
        tick.observation.ms = true := by
  have hbursts := @fold_bursts_other tick.settings tick.observation above { engine := e } habove
  have hplace := burstPlace_congr (o := tick.observation) hbursts
  obtain ⟨hyes, hno⟩ := evaluate_burst (o := tick.observation)
    (above.foldl (Pass.apply tick.settings tick.observation) { engine := e }).engine hr
  unfold Engine.matchesAfter
  cases hd : tick.observation.dismissal with
  | true =>
    rw [(hyes hd).1, hplace]
    simp
  | false =>
    rw [(hno hd).1]
    simp

/-- A call records its frame once. -/
theorem next_bursts (sort : SortFn Rule) {e : Engine} {tick : Tick} (hone : OneBurstRule e.rules tick.settings) :
    (tick.observation.dismissal = true → (e.next sort tick).bursts =
      Function.update e.bursts (e.burstPlace tick.observation).1
        (Engine.Burst.record (e.burstPlace tick.observation).2 tick.observation.ms)) ∧
    (tick.observation.dismissal = false → (e.next sort tick).bursts = e.bursts) := by
  obtain ⟨above, r, below, hrules, hr⟩ := hone.exists_split
  obtain ⟨habove, hbelow⟩ := hone.split hrules hr
  have hnext : (e.next sort tick).bursts = (e.walk tick.observation tick.settings).engine.bursts :=
    (ingest_engine tick.settings tick.observation sort e tick.room).1
  let p := above.foldl (Pass.apply tick.settings tick.observation) { engine := e }
  have hp : p.engine.bursts = e.bursts :=
    @fold_bursts_other tick.settings tick.observation above { engine := e } habove
  have henabled : hasCategory tick.settings.enabledCategories r.category = true := by
    simp only [burstRule, Bool.and_eq_true] at hr
    exact hr.1.1
  have hwalk : (e.walk tick.observation tick.settings).engine.bursts =
      (p.engine.evaluate r tick.observation).2.bursts := by
    unfold Engine.walk
    rw [hrules, List.foldl_append, List.foldl_cons, fold_bursts_other below hbelow]
    exact (apply_engine tick.settings tick.observation p r henabled).1
  obtain ⟨hyes, hno⟩ := evaluate_burst (o := tick.observation) p.engine hr
  constructor
  · intro hd
    rw [hnext, hwalk, (hyes hd).2, burstPlace_congr hp, hp]
  · intro hd
    rw [hnext, hwalk, (hno hd).2, hp]

end Walk

/-! ## Runs -/

section Runs

variable {e : Engine} {past : List (Engine × Tick)} {tick : Tick}

theorem burstTimes_other {k : Source} (h : tick.observation.dismissal = true → tick.observation.source ≠ k) :
    burstTimes k ((e, tick) :: past) = burstTimes k past := by
  rw [burstTimes]
  split
  · rename_i hk
    simp only [Bool.and_eq_true, beq_iff_eq] at hk
    exact absurd hk.2 (h hk.1)
  · rfl

theorem burstTimes_own (h : tick.observation.dismissal = true) :
    burstTimes tick.observation.source ((e, tick) :: past) =
      if (e.burstSlot tick.observation).isNone then [tick.observation.ms]
      else tick.observation.ms :: burstTimes tick.observation.source past := by
  rw [burstTimes]
  simp only [h, beq_self_eq_true, Bool.and_true, if_true]

theorem burstTimes_past (k : Source) (past : List (Engine × Tick)) :
    ∀ t ∈ burstTimes k past, ∃ v ∈ past, v.2.observation.ms = t := by
  induction past with
  | nil => exact fun t ht => nomatch ht
  | cons v past ih =>
    obtain ⟨e, tick⟩ := v
    have hrest : ∀ t ∈ burstTimes k past, ∃ v ∈ (e, tick) :: past, v.2.observation.ms = t := by
      intro t ht
      obtain ⟨w, hw, hms⟩ := ih t ht
      exact ⟨w, List.mem_cons_of_mem _ hw, hms⟩
    intro t ht
    rw [burstTimes] at ht
    split at ht
    · split at ht
      · rw [List.mem_singleton.mp ht]
        exact ⟨_, List.mem_cons_self, rfl⟩
      · rcases List.mem_cons.mp ht with rfl | ht
        · exact ⟨_, List.mem_cons_self, rfl⟩
        · exact hrest t ht
    · exact hrest t ht

/-- Every slot counts its sender's frames since the slot was taken. -/
structure BurstWindows (e : Engine) (past : List (Engine × Tick)) : Prop where
  unique : Keyed.Unique burstKey e.bursts
  holds : ∀ i k, burstKey (e.bursts i) = some k → BurstHolds (e.bursts i) (burstTimes k past)

theorem burstWindows_start (rules : List Rule) : BurstWindows { rules } [] where
  unique _ _ _ hi := nomatch hi
  holds _ _ hi := nomatch hi

/-- What is recorded for the frame is the sender's window with it. -/
theorem BurstWindows.placed (h : BurstWindows e past) (hd : tick.observation.dismissal = true) :
    BurstHolds (Engine.Burst.record (e.burstPlace tick.observation).2 tick.observation.ms)
      (burstTimes tick.observation.source ((e, tick) :: past)) := by
  rw [burstTimes_own hd]
  unfold Engine.burstPlace
  cases hslot : e.burstSlot tick.observation with
  | none => exact burstHolds_fresh tick.observation.source tick.observation.ms
  | some i => exact (h.holds i _ (burstSlot_some hslot)).record tick.observation.ms

theorem BurstWindows.next (sort : SortFn Rule) (h : BurstWindows e past)
    (hone : OneBurstRule e.rules tick.settings) : BurstWindows (e.next sort tick) ((e, tick) :: past) := by
  obtain ⟨hyes, hno⟩ := next_bursts sort hone
  cases hd : tick.observation.dismissal with
  | false =>
    rw [Bool.eq_false_iff] at hd
    constructor
    · rw [hno (by simpa using hd)]
      exact h.unique
    · intro i k hi
      rw [hno (by simpa using hd)] at hi ⊢
      rw [burstTimes_other fun hyes => absurd hyes hd]
      exact h.holds i k hi
  | true =>
    have hkey := (record_key (e.burstPlace tick.observation).2 tick.observation.ms).trans
      (burstPlace_key e tick.observation)
    constructor
    · rw [hyes hd]
      exact h.unique.update hkey (burstPlace_place h.unique tick.observation).alone
    · intro i k hi
      rw [hyes hd] at hi ⊢
      by_cases hplace : i = (e.burstPlace tick.observation).1
      · rw [hplace, Function.update_self] at hi ⊢
        obtain rfl := Option.some.inj (hkey.symm.trans hi)
        exact h.placed hd
      · rw [Function.update_of_ne hplace] at hi ⊢
        rw [burstTimes_other fun _ hk => hplace ((burstPlace_place h.unique _).alone i (hk ▸ hi))]
        exact h.holds i k hi

/-- No sender of the frames so far has lost its slot. -/
structure AllKept (sources : Finset Source) (e : Engine) (past : List (Engine × Tick)) : Prop where
  keys : ∀ i k, burstKey (e.bursts i) = some k → k ∈ sources
  held : ∀ v ∈ past, v.2.observation.dismissal = true →
    ∃ i, burstKey (e.bursts i) = some v.2.observation.source
  times : ∀ k, burstTimes k past = dismissalTimes k (past.map Prod.snd)

theorem allKept_start (sources : Finset Source) (rules : List Rule) : AllKept sources { rules } [] where
  keys _ _ hi := nomatch hi
  held _ hv := nomatch hv
  times _ := rfl

theorem dismissalTimes_other {k : Source} {ticks : List Tick}
    (h : tick.observation.dismissal = true → tick.observation.source ≠ k) :
    dismissalTimes k (tick :: ticks) = dismissalTimes k ticks := by
  unfold dismissalTimes
  rw [List.filter_cons_of_neg]
  intro hk
  simp only [Bool.and_eq_true, beq_iff_eq] at hk
  exact h hk.1 hk.2

theorem dismissalTimes_own {ticks : List Tick} (h : tick.observation.dismissal = true) :
    dismissalTimes tick.observation.source (tick :: ticks) =
      tick.observation.ms :: dismissalTimes tick.observation.source ticks := by
  unfold dismissalTimes
  rw [List.filter_cons_of_pos]
  · rfl
  · simp [h]

theorem AllKept.times_next {sources : Finset Source} (h : AllKept sources e past) (k : Source) :
    burstTimes k ((e, tick) :: past) = dismissalTimes k (tick :: past.map Prod.snd) := by
  by_cases hk : tick.observation.dismissal = true → tick.observation.source ≠ k
  · rw [burstTimes_other hk, dismissalTimes_other hk]
    exact h.times k
  · obtain ⟨hd, rfl⟩ : tick.observation.dismissal = true ∧ tick.observation.source = k := by
      simpa using hk
    rw [burstTimes_own hd, dismissalTimes_own hd]
    split
    · rename_i hnone
      have hempty : dismissalTimes tick.observation.source (past.map Prod.snd) = [] := by
        unfold dismissalTimes
        rw [List.map_eq_nil_iff, List.filter_eq_nil_iff]
        intro earlier hearlier hboth
        obtain ⟨v, hv, rfl⟩ := List.mem_map.mp hearlier
        simp only [Bool.and_eq_true, beq_iff_eq] at hboth
        obtain ⟨i, hi⟩ := h.held v hv hboth.1
        rw [hboth.2] at hi
        exact burstSlot_isNone.mp hnone i hi
      rw [hempty]
    · rw [h.times]

theorem AllKept.next (sort : SortFn Rule) {sources : Finset Source} (h : AllKept sources e past)
    (hunique : Keyed.Unique burstKey e.bursts) (hone : OneBurstRule e.rules tick.settings)
    (hsource : tick.observation.dismissal = true → tick.observation.source ∈ sources)
    (hcard : sources.card ≤ 16) : AllKept sources (e.next sort tick) ((e, tick) :: past) := by
  obtain ⟨hyes, hno⟩ := next_bursts sort hone
  cases hd : tick.observation.dismissal with
  | false =>
    have hbursts := hno hd
    refine ⟨fun i k hi => h.keys i k (hbursts ▸ hi), fun v hv hvd => ?_, h.times_next⟩
    rcases List.mem_cons.mp hv with rfl | hv
    · exact absurd (hd.symm.trans hvd) nofun
    · obtain ⟨i, hi⟩ := h.held v hv hvd
      exact ⟨i, hbursts ▸ hi⟩
  | true =>
    have hbursts := hyes hd
    have hkey := (record_key (e.burstPlace tick.observation).2 tick.observation.ms).trans
      (burstPlace_key e tick.observation)
    have hplace := burstPlace_place hunique tick.observation
    constructor
    · rw [hbursts]
      exact Keyed.keys_update h.keys (hsource hd) hkey
    · intro v hv hvd
      rw [hbursts]
      rcases List.mem_cons.mp hv with rfl | hv
      · refine ⟨(e.burstPlace tick.observation).1, ?_⟩
        rw [Function.update_self]
        exact hkey
      · exact hplace.held hunique h.keys (hsource hd) hcard hkey (h.held v hv hvd)
    · exact h.times_next

variable {sort : SortFn Rule} {rules : List Rule}

theorem next_rules (sort : SortFn Rule) (e : Engine) (tick : Tick) : (e.next sort tick).rules = e.rules :=
  (ingest_engine tick.settings tick.observation sort e tick.room).2.1

theorem run_rules (sort : SortFn Rule) (e : Engine) (ticks : List Tick) :
    (Runs.run (Engine.next sort) e ticks).rules = e.rules := by
  induction ticks generalizing e with
  | nil => rfl
  | cons tick ticks ih => exact (ih (e.next sort tick)).trans (next_rules sort e tick)

theorem past_concat (ticks : List Tick) (tick : Tick) :
    Engine.past sort rules (ticks ++ [tick]) =
      (Runs.run (Engine.next sort) { rules } ticks, tick) :: Engine.past sort rules ticks := by
  unfold Engine.past
  rw [Runs.visited_concat, List.reverse_append]
  rfl

theorem past_ticks (ticks : List Tick) : (Engine.past sort rules ticks).map Prod.snd = ticks.reverse := by
  induction ticks using List.reverseRecOn with
  | nil => rfl
  | append_singleton ticks tick ih =>
    rw [past_concat, List.map_cons, ih, List.reverse_append]
    rfl

theorem burstWindows_run (ticks : List Tick) (hone : ∀ tick ∈ ticks, OneBurstRule rules tick.settings) :
    BurstWindows (Runs.run (Engine.next sort) { rules } ticks) (Engine.past sort rules ticks) := by
  induction ticks using List.reverseRecOn with
  | nil => exact burstWindows_start rules
  | append_singleton ticks tick ih =>
    have hrest := ih fun t ht => hone t (List.mem_append_left _ ht)
    rw [Runs.run_concat, past_concat]
    refine hrest.next sort ?_
    rw [run_rules]
    exact hone tick (by simp)

theorem allKept_run (sources : Finset Source) (hcard : sources.card ≤ 16) (ticks : List Tick)
    (hone : ∀ tick ∈ ticks, OneBurstRule rules tick.settings)
    (hsources : ∀ tick ∈ ticks, tick.observation.dismissal = true → tick.observation.source ∈ sources) :
    AllKept sources (Runs.run (Engine.next sort) { rules } ticks) (Engine.past sort rules ticks) := by
  induction ticks using List.reverseRecOn with
  | nil => exact allKept_start sources rules
  | append_singleton ticks tick ih =>
    have honeRest : ∀ t ∈ ticks, OneBurstRule rules t.settings :=
      fun t ht => hone t (List.mem_append_left _ ht)
    have hrest := ih honeRest fun t ht => hsources t (List.mem_append_left _ ht)
    rw [Runs.run_concat, past_concat]
    refine hrest.next sort (burstWindows_run ticks honeRest).unique ?_ (hsources tick (by simp)) hcard
    rw [run_rules]
    exact hone tick (by simp)

theorem mem_dismissalSources {ticks : List Tick} (hmem : tick ∈ ticks)
    (hd : tick.observation.dismissal = true) : tick.observation.source ∈ dismissalSources ticks := by
  unfold dismissalSources
  rw [List.mem_toFinset]
  exact List.mem_map_of_mem (List.mem_filter.mpr ⟨hmem, hd⟩)

end Runs

/-- With one `deauth_burst` rule enabled and times in order, the rule matches a
frame exactly when the sliding window of its sender's slot is full and recent.
While sixteen sources or fewer have sent such frames, no source has lost its slot
and the window is that of all the source's frames. -/
theorem deauth_burst_exact (sort : SortFn Rule) (rules : List Rule) (before : List Tick) (tick : Tick)
    (hordered : Monotone (before ++ [tick]))
    (hone : ∀ t ∈ before ++ [tick], OneBurstRule rules t.settings) (above below : List Rule) (r : Rule)
    (hrules : rules = above ++ r :: below) (hr : burstRule tick.settings r = true) :
    let e := Runs.run (Engine.next sort) { rules } before
    let o := tick.observation
    (e.matchesAfter tick above r = true ↔ o.dismissal = true ∧
      burstDue (burstTimes o.source (Engine.past sort rules (before ++ [tick]))) o.ms) ∧
    ((dismissalSources (before ++ [tick])).card ≤ 16 →
      (∀ earlier ∈ before, earlier.observation.dismissal = true →
        (e.burstSlot earlier.observation).isSome = true) ∧
      (e.matchesAfter tick above r = true ↔ o.dismissal = true ∧
        burstDue (dismissalTimes o.source (before ++ [tick]).reverse) o.ms)) := by
  intro e o
  have honeBefore : ∀ t ∈ before, OneBurstRule rules t.settings :=
    fun t ht => hone t (List.mem_append_left _ ht)
  have hwindows : BurstWindows e (Engine.past sort rules before) := burstWindows_run before honeBefore
  have htimes : ∀ t ∈ burstTimes o.source (Engine.past sort rules (before ++ [tick])), t ≤ o.ms := by
    intro t ht
    obtain ⟨v, hv, rfl⟩ := burstTimes_past _ _ t ht
    have hmem : v.2 ∈ (before ++ [tick]).reverse := by
      rw [← @past_ticks sort rules]
      exact List.mem_map_of_mem hv
    rcases List.mem_append.mp (List.mem_reverse.mp hmem) with hearlier | hlast
    · exact (List.pairwise_append.mp hordered).2.2 v.2 hearlier tick (List.mem_singleton_self tick)
    · rw [List.mem_singleton.mp hlast]
      exact UInt64.le_refl _
  have hmatch : e.matchesAfter tick above r = true ↔ o.dismissal = true ∧
      burstDue (burstTimes o.source (Engine.past sort rules (before ++ [tick]))) o.ms := by
    have habove := ((hone tick (by simp)).split hrules hr).1
    rw [matchesAfter_burst habove hr]
    refine and_congr_right fun hd => ?_
    rw [past_concat] at htimes ⊢
    exact (hwindows.placed hd).full htimes
  refine ⟨hmatch, fun hcard => ?_⟩
  have hkept : AllKept (dismissalSources (before ++ [tick])) e (Engine.past sort rules before) :=
    allKept_run _ hcard before honeBefore fun t ht hd =>
      mem_dismissalSources (List.mem_append_left _ ht) hd
  constructor
  · intro earlier hearlier hd
    have hmem : earlier ∈ (Engine.past sort rules before).map Prod.snd := by
      rw [past_ticks]
      exact List.mem_reverse.mpr hearlier
    obtain ⟨v, hv, rfl⟩ := List.mem_map.mp hmem
    obtain ⟨i, hi⟩ := hkept.held v hv hd
    cases hslot : e.burstSlot v.2.observation with
    | none => exact absurd hi (burstSlot_none hslot i)
    | some j => rfl
  · rw [hmatch]
    refine and_congr_right fun hd => ?_
    have hsame : burstTimes o.source ((e, tick) :: Engine.past sort rules before) =
        dismissalTimes o.source (tick :: (Engine.past sort rules before).map Prod.snd) :=
      hkept.times_next o.source
    rw [past_concat, hsame, past_ticks, List.reverse_append]
    rfl

/-- A dismissal from one sender. -/
def dismissed (ms : UInt64) : Tick where
  observation := { radio := .Wifi, subtype := 12, ms }

def dismissalRule : Rule where
  id := ascii "wifi.behavior.deauth"
  category := .DEAUTH
  kind := .Behavior
  value := ascii "deauth_burst"
  score := 60
  cap := 79
  generic := false
  label := ascii "Deauth-like burst"
  reason := ascii "20 deauth/disassoc frames in 10s; maintenance can cause this"

/-- The twentieth of its frames within ten seconds matches. -/
theorem deauth_burst_exact_twentieth :
    (Runs.run (Engine.next .insertion) { rules := [dismissalRule] }
      ((List.range 19).map fun n => dismissed (500 * n.toUInt64))).matchesAfter (dismissed 9900) []
        dismissalRule = true :=
  ((deauth_burst_exact .insertion [dismissalRule] _ (dismissed 9900) (by decide) (by decide) [] []
    dismissalRule rfl rfl).2 (by decide)).2.mpr ⟨rfl, 0, rfl, by decide⟩

end Hound
