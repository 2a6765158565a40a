import Hound.Engine.Uniqueness

/-!
# Promotions and the rate limit

The emission loop compares the newly fused band with the band the previous
ingest stored. When the 100 ms limit suppressed that previous ingest, the rise
it stored is never compared with anything emitted, and the promotion is lost.
-/

namespace Hound

/-- The packet belongs to the entry: the lookup of the entry's own category
would accept it. -/
def matched (o : Observation) (d : Detection) : Bool :=
  sameIdentity o d && d.radio == o.radio

/-- What `due` finds without the comparison of bands. -/
def dueAnyway (o : Observation) (e : Entry) : Bool :=
  decide (30000 ≤ o.ms - e.emitted) ||
    (packetTag e.detection.category o).state != e.emittedSamsungState

/-- No entry the packet belongs to holds a grade above the one last emitted for
it, unless the packet is due for another reason. -/
def NoPendingRise (t : Traced) (tick : Tick) : Prop :=
  ∀ s last, t.ledger.sent s = some last →
    matched tick.observation (t.engine.cache s).detection = true →
    dueAnyway tick.observation (t.engine.cache s) = true ∨
      band (t.engine.cache s).detection.score ≤ band last.score

/-- The detection the emission loop fuses for slot `s`. -/
def Traced.fused (sort : SortFn Rule) (t : Traced) (tick : Tick) (s : Slot) : Detection :=
  (fuse sort tick.observation ((t.walk tick).1.engine.cache s)).detection

/-- This ingest touches slot `s` and no other. -/
def Traced.OnlyTouched (t : Traced) (tick : Tick) (s : Slot) : Prop :=
  (∃ c, (t.walk tick).1.touched c = some s) ∧
    ∀ c j, (t.walk tick).1.touched c = some j → j = s

/-- An open limiter, one touched entry and a grade above the last emitted one
make the ingest emit that entry. -/
def EmitsPromotion (sort : SortFn Rule) (t : Traced) (tick : Tick) : Prop :=
  ∀ s last, t.OnlyTouched tick s → (t.walk tick).2.sent s = some last →
    t.engine.nextEmit ≤ tick.observation.ms → 0 < tick.room →
    band last.score < band (t.fused sort tick s).score →
    ∃ em ∈ t.emissions sort tick, em.slot = s

instance (t : Traced) (tick : Tick) : Decidable (NoPendingRise t tick) :=
  inferInstanceAs (Decidable (∀ s, ∀ last ∈ t.ledger.sent s, _ → _))

instance (t : Traced) (tick : Tick) (s : Slot) : Decidable (t.OnlyTouched tick s) :=
  inferInstanceAs (Decidable (_ ∧ ∀ c, ∀ j ∈ (t.walk tick).1.touched c, j = s))

instance (sort : SortFn Rule) (t : Traced) (tick : Tick) :
    Decidable (EmitsPromotion sort t tick) :=
  decidable_of_iff
    (∀ s, ∀ last ∈ (t.walk tick).2.sent s, t.OnlyTouched tick s →
      t.engine.nextEmit ≤ tick.observation.ms → 0 < tick.room →
      band last.score < band (t.fused sort tick s).score →
      ∃ em ∈ t.emissions sort tick, em.slot = s)
    ⟨fun h s last only hsent => h s last hsent only, fun h s last hsent only => h s last only hsent⟩

/-! ## What the rule walk leaves of an emitted entry -/

theorem noteEvidence_frame (rule : Rule) (o : Observation) (e : Entry) :
    noteEvidence rule o e = { e with evidence := (noteEvidence rule o e).evidence } := by
  unfold noteEvidence
  split <;> rfl

@[simp] theorem noteEvidence_emitted (rule : Rule) (o : Observation) (e : Entry) :
    (noteEvidence rule o e).emitted = e.emitted := by
  rw [noteEvidence_frame]

@[simp] theorem noteEvidence_emittedSamsungState (rule : Rule) (o : Observation) (e : Entry) :
    (noteEvidence rule o e).emittedSamsungState = e.emittedSamsungState := by
  rw [noteEvidence_frame]

@[simp] theorem refreshDetection_score (o : Observation) (d : Detection) :
    (refreshDetection o d).score = d.score := by
  unfold refreshDetection
  dsimp only
  split <;> rfl

/-- Fusion's inputs and the emission marks, which no rule changes. -/
structure SameMarks (e e' : Entry) : Prop where
  score : e'.detection.score = e.detection.score
  category : e'.detection.category = e.detection.category
  emitted : e'.emitted = e.emitted
  state : e'.emittedSamsungState = e.emittedSamsungState

theorem SameMarks.refl (e : Entry) : SameMarks e e := ⟨rfl, rfl, rfl, rfl⟩

theorem SameMarks.note {e e' : Entry} (h : SameMarks e e') (rule : Rule) (o : Observation) :
    SameMarks e (noteEvidence rule o e') := by
  refine ⟨?_, ?_, ?_, ?_⟩
  · simpa using h.score
  · simpa using h.category
  · simpa using h.emitted
  · simpa using h.state

theorem SameMarks.refresh {e e' : Entry} (h : SameMarks e e') (o : Observation) :
    SameMarks e (Hound.refresh o e') := by
  refine ⟨?_, ?_, h.emitted, h.state⟩
  · simpa using h.score
  · simpa using h.category

/-- Slot `s` during the walk of `o` that began in `t`: reallocated, or untouched,
or joined by the packet. -/
def Followed (t : Traced) (o : Observation) (pg : Pass × Ledger) (s : Slot) : Prop :=
  pg.2.sent s = none ∨
    (pg.2.sent s = t.ledger.sent s ∧ SameMarks (t.engine.cache s) (pg.1.engine.cache s) ∧
      (((∀ c, pg.1.touched c ≠ some s) ∧
          (pg.1.engine.cache s).detection = (t.engine.cache s).detection) ∨
        (matched o (t.engine.cache s).detection = true ∧
          (pg.1.engine.cache s).detection.samsung =
            packetTag (t.engine.cache s).detection.category o)))

theorem followed_note {t : Traced} {o : Observation} {p : Pass} {g : Ledger} {s : Slot}
    {rule : Rule} {j : Slot} {p' : Pass} (h : Followed t o (p, g) s)
    (htouched : p'.touched = p.touched)
    (hcache : p'.engine.cache =
      Function.update p.engine.cache j (noteEvidence rule o (p.engine.cache j))) :
    Followed t o (p', g) s := by
  rcases h with hnone | ⟨hsent, hmarks, hslot⟩
  · exact .inl hnone
  · have hd : (p'.engine.cache s).detection = (p.engine.cache s).detection := by
      rw [hcache]
      by_cases hs : s = j
      · subst hs
        simp
      · simp [hs]
    refine .inr ⟨hsent, ?_, ?_⟩
    · rw [hcache]
      by_cases hs : s = j
      · subst hs
        simpa using hmarks.note rule o
      · simpa [hs] using hmarks
    · rw [hd, htouched]
      exact hslot

theorem matched_of_candidate {c : Category} {o : Observation} {e : Entry}
    (h : candidate c o e = true) : matched o e.detection = true := by
  obtain ⟨-, hsame, -, hradio⟩ := candidate_spec h
  simp [matched, hsame, hradio]

theorem followed_touch {t : Traced} {o : Observation} {p : Pass} {g : Ledger} {s : Slot}
    {c : Category} {rule : Rule} {p' : Pass} (h : Followed t o (p, g) s)
    (htouched : p'.touched =
      Function.update p.touched c (some (locate p.engine.cache c o).1))
    (hcache : p'.engine.cache = Function.update p.engine.cache (locate p.engine.cache c o).1
      (noteEvidence rule o (refresh o (locate p.engine.cache c o).2))) :
    Followed t o (p', g.touch p.engine.cache c o) s := by
  cases hl : lookup p.engine.cache c o with
  | none =>
    rw [touch_of_none g hl]
    rw [locate_of_none hl] at htouched hcache
    by_cases hs : s = victim p.engine.cache
    · exact .inl (by simp [hs])
    · rcases h with hnone | ⟨hsent, hmarks, hslot⟩
      · exact .inl (by simpa [hs] using hnone)
      · refine .inr ⟨by simpa [hs] using hsent, by simpa [hcache, hs] using hmarks, ?_⟩
        simp only [hcache, Function.update_of_ne hs]
        refine hslot.imp_left fun ⟨hfree, hd⟩ => ⟨fun c' => ?_, hd⟩
        by_cases hc : c' = c
        · subst hc
          simpa [htouched] using Ne.symm hs
        · simpa [htouched, hc] using hfree c'
  | some j =>
    rw [touch_of_some g hl]
    rw [locate_of_some hl] at htouched hcache
    rcases h with hnone | ⟨hsent, hmarks, hslot⟩
    · exact .inl hnone
    · refine .inr ⟨hsent, ?_, ?_⟩
      · rw [hcache]
        by_cases hs : s = j
        · subst hs
          simpa using (hmarks.refresh o).note rule o
        · simpa [hs] using hmarks
      · by_cases hs : s = j
        · subst hs
          refine .inr ⟨?_, ?_⟩
          · rcases hslot with ⟨-, hd⟩ | ⟨hm, -⟩
            · rw [← hd]
              exact matched_of_candidate (lookup_sound hl)
            · exact hm
          · simpa [hcache] using congrArg (packetTag · o) hmarks.category
        · simp only [hcache, Function.update_of_ne hs]
          refine hslot.imp_left fun ⟨hfree, hd⟩ => ⟨fun c' => ?_, hd⟩
          by_cases hc : c' = c
          · subst hc
            simpa [htouched] using Ne.symm hs
          · simpa [htouched, hc] using hfree c'

theorem followed_walk (t : Traced) (tick : Tick) (s : Slot) :
    Followed t tick.observation (t.walk tick) s := by
  unfold Traced.walk
  have hstart : Followed t tick.observation ({ engine := t.engine }, t.ledger) s :=
    .inr ⟨rfl, .refl _, .inl ⟨by simp, rfl⟩⟩
  generalize ({ engine := t.engine } : Pass) = p at hstart
  generalize t.engine.rules = rules
  generalize hg : t.ledger = g
  rw [hg] at hstart
  clear hg
  revert hstart
  induction rules generalizing p g with
  | nil => exact id
  | cons rule rules ih =>
    intro h
    refine ih _ _ ?_
    obtain ⟨ht, htouched, hcache⟩ | ⟨j, ht, _, htouched, hcache⟩ | ⟨j, e, ht, hl, htouched, hcache⟩ :=
      Pass.apply_cases tick.settings tick.observation p rule
    · simpa [Followed, Ledger.apply, ht, hcache, htouched] using h
    · simpa [Ledger.apply, ht] using followed_note h htouched hcache
    · have hl1 : (locate p.engine.cache rule.category tick.observation).1 = j := by rw [hl]
      have hl2 : (locate p.engine.cache rule.category tick.observation).2 = e := by rw [hl]
      rw [← hl1] at htouched
      rw [← hl1, ← hl2] at hcache
      simpa [Ledger.apply, ht] using followed_touch h htouched hcache

/-! ## The emission loop -/

@[simp] theorem apply_nextEmit (settings : Settings) (o : Observation) (p : Pass) (rule : Rule) :
    (p.apply settings o rule).engine.nextEmit = p.engine.nextEmit := by
  have heval : (p.engine.evaluate rule o).2.nextEmit = p.engine.nextEmit := by
    rw [evaluate_frame]
  unfold Pass.apply
  split
  · rfl
  · dsimp only
    split
    · exact heval
    · unfold Pass.touch Pass.note
      dsimp only
      split <;> exact heval

theorem walk_nextEmit (e : Engine) (o : Observation) (settings : Settings) :
    (e.walk o settings).engine.nextEmit = e.nextEmit := by
  unfold Engine.walk
  generalize e.rules = rules
  have hstart : ({ engine := e } : Pass).engine.nextEmit = e.nextEmit := rfl
  generalize ({ engine := e } : Pass) = p at hstart
  induction rules generalizing p with
  | nil => exact hstart
  | cons rule rules ih => exact ih _ (by simpa using hstart)

theorem settle_keeps (sort : SortFn Rule) (o : Observation) (room : Nat)
    (touched : Category → Option Slot) (cs : List Category) (st : Engine × List Emission)
    (em : Emission) (h : em ∈ st.2) : em ∈ (cs.foldl (settle sort o room touched) st).2 := by
  induction cs generalizing st with
  | nil => exact h
  | cons c cs ih =>
    refine ih _ ?_
    obtain ⟨_, hst⟩ | ⟨s, _, hst⟩ | ⟨s, _, _, _, _, hst⟩ := settle_cases sort o room touched st c
    · rwa [hst]
    · rwa [hst]
    · rw [hst]
      exact List.mem_append_left _ h

/-- With a single touched slot, an open limiter and room in `out`, what is due
is emitted. -/
theorem settle_emits (sort : SortFn Rule) (o : Observation) (room : Nat)
    (touched : Category → Option Slot) (s : Slot) (only : ∀ c j, touched c = some j → j = s)
    (cs : List Category) (st : Engine × List Emission) (reached : ∃ c ∈ cs, touched c = some s)
    (hopen : st.1.nextEmit ≤ o.ms) (hroom : st.2.length < room)
    (hdue : due o (st.1.cache s).detection.score (fuse sort o (st.1.cache s)) = true) :
    ∃ em ∈ (cs.foldl (settle sort o room touched) st).2, em.slot = s := by
  induction cs with
  | nil => simp at reached
  | cons c cs ih =>
    cases hc : touched c with
    | none =>
      have hskip : settle sort o room touched st c = st := by simp [settle, hc]
      rw [List.foldl_cons, hskip]
      refine ih ?_
      obtain ⟨c', hmem, hc'⟩ := reached
      rcases List.mem_cons.mp hmem with rfl | hmem
      · rw [hc] at hc'
        exact absurd hc' (by simp)
      · exact ⟨c', hmem, hc'⟩
    | some j =>
      obtain rfl := only c j hc
      refine ⟨⟨j, (fuse sort o (st.1.cache j)).detection⟩, ?_, rfl⟩
      rw [List.foldl_cons]
      refine settle_keeps sort o room touched cs _ _ ?_
      simp [settle, hc, hdue, hopen, hroom]

/-! ## Promotions -/

theorem due_iff {o : Observation} {old : UInt8} {e : Entry} :
    due o old e = true ↔
      e.emitted = 0 ∨ 30000 ≤ o.ms - e.emitted ∨
        e.detection.samsung.state ≠ e.emittedSamsungState ∨ band old < band e.detection.score := by
  simp [due, or_assoc]

theorem due_of_rise {sort : SortFn Rule} {t : Traced} {tick : Tick} {s : Slot} {last : Detection}
    (calm : NoPendingRise t tick) (touched : ∃ c, (t.walk tick).1.touched c = some s)
    (hsent : (t.walk tick).2.sent s = some last)
    (hrise : band last.score < band (t.fused sort tick s).score) :
    due tick.observation ((t.walk tick).1.engine.cache s).detection.score
      (fuse sort tick.observation ((t.walk tick).1.engine.cache s)) = true := by
  obtain hnone | ⟨hkeep, hmarks, ⟨hfree, -⟩ | ⟨hmatch, hstate⟩⟩ := followed_walk t tick s
  · rw [hsent] at hnone
    exact absurd hnone (by simp)
  · obtain ⟨c, hc⟩ := touched
    exact absurd hc (hfree c)
  · rcases calm s last (hkeep ▸ hsent) hmatch with hany | hlow
    · have hage : 30000 ≤ tick.observation.ms - (t.engine.cache s).emitted ∨
          (packetTag (t.engine.cache s).detection.category tick.observation).state ≠
            (t.engine.cache s).emittedSamsungState := by
        simpa [dueAnyway] using hany
      rw [← hstate, ← hmarks.emitted, ← hmarks.state] at hage
      exact due_iff.mpr (.inr (hage.imp_right .inl))
    · refine due_iff.mpr (.inr (.inr (.inr ?_)))
      rw [hmarks.score]
      exact lt_of_le_of_lt hlow hrise

theorem promotion_ingest (sort : SortFn Rule) (t : Traced) (tick : Tick)
    (calm : NoPendingRise t tick) : EmitsPromotion sort t tick := by
  intro s last ⟨touched, only⟩ hsent hopen hroom hrise
  have hdue := due_of_rise calm touched hsent hrise
  rw [walk_fst] at touched only hdue
  unfold Traced.emissions Engine.ingest
  refine settle_emits sort tick.observation tick.room _ s only Category.all _ ?_ ?_ hroom ?_
  · exact touched.imp fun c hc => ⟨Category.mem_all c, hc⟩
  · simpa [walk_nextEmit] using hopen
  · simpa using hdue

/-- In a run that never meets an unsent rise, every promotion that finds the
limiter open is emitted. -/
theorem promotion_emitted (sort : SortFn Rule) (rules : List Rule) (ticks : List Tick)
    (meets : EveryVisit sort rules ticks NoPendingRise) :
    EveryVisit sort rules ticks (EmitsPromotion sort) :=
  fun v hv => promotion_ingest sort v.1 v.2 (meets v hv)

/-! ## Two tags, one limiter -/

/-- The production rules `ble.google.fast_pair`, `ble.google.find_hub` and `ble.tile.feed`. -/
def googleTags : List Rule :=
  [{ id := ascii "ble.google.fast_pair", category := .GOOGLE_TAG, kind := .Protocol,
     value := ascii "fast_pair_model", score := 35, cap := 49, generic := false,
     label := ascii "Fast Pair device clue",
     reason := ascii "Fast Pair model advertisement; may be headphones, not a tracker" },
   { id := ascii "ble.google.find_hub", category := .GOOGLE_TAG, kind := .Protocol,
     value := ascii "find_hub", score := 85, cap := 100, generic := false,
     label := ascii "Find Hub network beacon",
     reason := ascii "Find Hub legacy frame layout; accessory type unknown" },
   { id := ascii "ble.tile.feed", category := .TILE, kind := .Uuid16, value := ascii "FEED",
     score := 70, cap := 79, generic := false, label := ascii "Tile service",
     reason := ascii "Tile-assigned advertised service" }]

def fastPair : Bytes := [6, 0x16, 0x2c, 0xfe, 1, 2, 3]

/-- Frame type 40 with a 20-byte ephemeral ID. -/
def findHub : Bytes :=
  [24, 0x16, 0xaa, 0xfe, 0x40, 1, 1, 1, 1, 1, 1, 1, 1, 1, 1, 1, 1, 1, 1, 1, 1, 1, 1, 1, 1]

def tile : Bytes := [3, 3, 0xed, 0xfe]

/-- A low sighting and, with the limiter open, the high one. -/
theorem promotion_emitted_open :
    EveryVisit .insertion googleTags [received 1000 5 fastPair, received 1200 5 findHub]
      (EmitsPromotion .insertion) :=
  promotion_emitted .insertion googleTags _ (by decide +kernel)

/-- Another tag closes the limiter when the grade rises; the next packet, with
the limiter open again, is compared with the risen score and stays silent. -/
theorem promotion_lost :
    ¬ ∀ (sort : SortFn Rule) (rules : List Rule) (ticks : List Tick), Monotone ticks →
      EveryVisit sort rules ticks (EmitsPromotion sort) := by
  intro h
  have hrun := h .insertion googleTags
    [received 1000 5 fastPair, received 1100 6 tile, received 1150 5 findHub,
      received 1300 5 findHub]
    (by decide)
  exact absurd hrun (by decide +kernel)

end Hound
