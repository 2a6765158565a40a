import Hound.Engine.Caps

/-!
# Corroboration and generic clues

Fusion adds a quarter of the second strongest score when the two strongest rules
are both specific. A generic clue that ranks between them takes the second place
and with it the quarter away, so it can lower the score.
-/

namespace Hound

/-- Every evidence is in the group of its rule's kind. -/
def WellGrouped (e : Entry) : Prop :=
  ∀ g : Fin 9, ∀ r, (e.evidence.get g).rule = some r → group r.kind = g

/-- No evidence of the group is active. -/
def EmptyGroup (o : Observation) (e : Entry) (g : Fin 9) : Prop :=
  ∀ r ∈ activeRules o e, group r.kind ≠ g

/-- The entry with one more active rule. -/
def withClue (o : Observation) (e : Entry) (clue : Rule) : Entry :=
  { e with evidence := Slots.put e.evidence (group clue.kind) ⟨some clue, o.ms.toUInt32⟩ }

/-- Stronger, or as strong and of an earlier group. -/
def Ranks (o : Observation) (r s : Rule) : Prop :=
  effective o s < effective o r ∨ (effective o r = effective o s ∧ group r.kind < group s.kind)

/-- The two strongest of some rules. -/
structure Leads (o : Observation) (active : List Rule) (a b : Rule) : Prop where
  first : a ∈ active
  second : b ∈ active
  order : Ranks o a b
  others : ∀ r ∈ active, r ≠ a → r ≠ b → Ranks o b r

/-- What two specific rules score together, before any contradiction. -/
def together (o : Observation) (active : List Rule) (a b : Rule) : Nat :=
  min (effective o a + effective o b / 4) (ceiling o active)

/-- The clue ranks before the second of two specific rules and is worth less than
what it takes away. -/
def Displaces (o : Observation) (active : List Rule) (clue : Rule) : Prop :=
  ∃ a b, Leads o active a b ∧ a.generic = false ∧ b.generic = false ∧ Ranks o clue b ∧
    max (effective o a) (effective o clue) < together o active a b ∧
    (o.contradiction = true → 21 < together o active a b)

/-! ## Ranks -/

section Ranks

variable {o : Observation} {a b c : Rule}

theorem Ranks.asymm (h : Ranks o a b) : ¬ Ranks o b a := by
  unfold Ranks at *
  omega

theorem Ranks.trans (hab : Ranks o a b) (hbc : Ranks o b c) : Ranks o a c := by
  unfold Ranks at *
  omega

theorem Ranks.le (h : Ranks o a b) : effective o b ≤ effective o a := by
  unfold Ranks at h
  omega

theorem ranks_or (hne : group a.kind ≠ group b.kind) : Ranks o a b ∨ Ranks o b a := by
  unfold Ranks
  omega

/-- Inserting the rule of the earliest group keeps the ranks in order. -/
theorem ranks_orderedInsert {x : Rule} {l : List Rule} (hl : l.Pairwise (Ranks o))
    (hlow : ∀ y ∈ l, group x.kind < group y.kind) :
    (l.orderedInsert (fun r s => stronger o s r = false) x).Pairwise (Ranks o) := by
  have hstronger : ∀ r s, stronger o s r = false ↔ effective o s ≤ effective o r := by
    intro r s
    unfold stronger effective
    rw [decide_eq_false_iff_not, UInt8.not_lt, UInt8.le_iff_toNat_le]
  induction l with
  | nil => simp
  | cons y l ih =>
    obtain ⟨hy, hrest⟩ := List.pairwise_cons.mp hl
    have hxy := hlow y List.mem_cons_self
    by_cases hle : stronger o y x = false
    · have hle' := (hstronger x y).mp hle
      have hfirst : Ranks o x y := by
        unfold Ranks
        omega
      rw [List.orderedInsert_cons, if_pos hle, List.pairwise_cons]
      refine ⟨fun z hz => ?_, hl⟩
      rcases List.mem_cons.mp hz with rfl | hz
      · exact hfirst
      · exact hfirst.trans (hy z hz)
    · have hlt : Ranks o y x := by
        have := mt (hstronger x y).mpr hle
        unfold Ranks
        omega
      rw [List.orderedInsert_cons, if_neg hle, List.pairwise_cons]
      refine ⟨fun z hz => ?_, ih hrest fun z hz => hlow z (List.mem_cons_of_mem _ hz)⟩
      rcases List.mem_cons.mp ((List.perm_orderedInsert _ x l).mem_iff.mp hz) with rfl | hz
      · exact hlt
      · exact hy z hz

/-- Stable insertion of rules in group order puts them in the order of their ranks. -/
theorem ranks_insertion {l : List Rule} (hl : l.Pairwise fun r s => group r.kind < group s.kind) :
    (SortFn.insertion.run (stronger o) l).Pairwise (Ranks o) := by
  induction l with
  | nil => exact List.Pairwise.nil
  | cons x l ih =>
    obtain ⟨hx, hrest⟩ := List.pairwise_cons.mp hl
    refine ranks_orderedInsert (ih hrest) fun y hy => hx y ?_
    exact (SortFn.insertion.mem_run (stronger o) l y).mp hy

/-- The first two of a ranked list lead it. -/
theorem leads_of_ranked {l : List Rule} (h : (a :: b :: l).Pairwise (Ranks o)) :
    Leads o (a :: b :: l) a b := by
  obtain ⟨ha, hrest⟩ := List.pairwise_cons.mp h
  obtain ⟨hb, -⟩ := List.pairwise_cons.mp hrest
  refine ⟨by simp, by simp, ha b List.mem_cons_self, fun r hr hra hrb => ?_⟩
  have hr' : r ∈ l := by simpa [hra, hrb] using hr
  exact hb r hr'

theorem Leads.of_mem {l l' : List Rule} (h : Leads o l a b) (hmem : ∀ r, r ∈ l' ↔ r ∈ l) : Leads o l' a b where
  first := (hmem a).mpr h.first
  second := (hmem b).mpr h.second
  order := h.order
  others r hr := h.others r ((hmem r).mp hr)

/-- Only one pair leads. -/
theorem Leads.unique {l : List Rule} {a' b' : Rule} (h : Leads o l a b) (h' : Leads o l a' b') :
    a = a' ∧ b = b' := by
  have hself : ∀ r, ¬ Ranks o r r := fun r hr => hr.asymm hr
  have hfirst : ∀ {a b a' b' : Rule}, Leads o l a b → Leads o l a' b' → a ≠ a' → Ranks o a a' := by
    intro a b a' b' h h' hne
    by_cases hb : a' = b
    · exact hb ▸ h.order
    · exact h.order.trans (h.others a' h'.first (Ne.symm hne) hb)
  have ha : a = a' := by
    by_contra hne
    exact (hfirst h h' hne).asymm (hfirst h' h (Ne.symm hne))
  subst ha
  refine ⟨rfl, ?_⟩
  by_contra hne
  have hba : b ≠ a := fun heq => hself a (heq ▸ h.order)
  have hba' : b' ≠ a := fun heq => hself a (heq ▸ h'.order)
  exact (h.others b' h'.second hba' (Ne.symm hne)).asymm (h'.others b h.second hba hne)

end Ranks

/-! ## Active rules -/

section Active

variable {o : Observation} {e : Entry} {clue : Rule}

theorem activeRules_groups (h : WellGrouped e) :
    (activeRules o e).Pairwise fun r s => group r.kind < group s.kind := by
  unfold activeRules
  rw [List.pairwise_filterMap, List.pairwise_iff_getElem]
  intro i j hi hj hij r hr s hs
  have hi' : i < 9 := by simpa using hi
  have hj' : j < 9 := by simpa using hj
  rw [Vector.getElem_toList] at hr hs
  split at hr
  · split at hs
    · have hgi : group r.kind = ⟨i, hi'⟩ := h ⟨i, hi'⟩ r hr
      have hgj : group s.kind = ⟨j, hj'⟩ := h ⟨j, hj'⟩ s hs
      rw [hgi, hgj]
      exact hij
    · exact nomatch hs
  · exact nomatch hr

theorem wellGrouped_withClue (h : WellGrouped e) : WellGrouped (withClue o e clue) := by
  intro g r hr
  by_cases hg : group clue.kind = g
  · have hget : ((withClue o e clue).evidence.get g) = ⟨some clue, o.ms.toUInt32⟩ := by
      subst hg
      exact Slots.put_self _ _ _
    rw [hget] at hr
    obtain rfl := Option.some.inj hr
    exact hg
  · have hget : ((withClue o e clue).evidence.get g) = e.evidence.get g := Slots.put_other _ hg _
    rw [hget] at hr
    exact h g r hr

theorem mem_withClue (h : WellGrouped e) (hempty : EmptyGroup o e (group clue.kind)) (r : Rule) :
    r ∈ activeRules o (withClue o e clue) ↔ r = clue ∨ r ∈ activeRules o e := by
  have hown : (withClue o e clue).evidence.get (group clue.kind) = ⟨some clue, o.ms.toUInt32⟩ :=
    Slots.put_self _ _ _
  have hother : ∀ g, group clue.kind ≠ g → (withClue o e clue).evidence.get g = e.evidence.get g :=
    fun g hg => Slots.put_other _ hg _
  constructor
  · intro hr
    obtain ⟨g, hrule, hyoung⟩ := mem_activeRules hr
    change ((withClue o e clue).evidence.get g).rule = some r at hrule
    change o.ms.toUInt32 - ((withClue o e clue).evidence.get g).at' ≤ 30000 at hyoung
    by_cases hg : group clue.kind = g
    · rw [← hg, hown] at hrule
      exact .inl (Option.some.inj hrule).symm
    · rw [hother g hg] at hrule hyoung
      exact .inr (mem_activeRules_of_evidence hrule hyoung)
  · rintro (rfl | hr)
    · refine @mem_activeRules_of_evidence _ _ (group r.kind) r ?_ ?_
      · rw [hown]
      · rw [hown, UInt32.sub_self]
        decide
    · obtain ⟨g, hrule, hyoung⟩ := mem_activeRules hr
      change (e.evidence.get g).rule = some r at hrule
      change o.ms.toUInt32 - (e.evidence.get g).at' ≤ 30000 at hyoung
      have hg : group clue.kind ≠ g := fun heq => hempty r hr ((h g r hrule).trans heq.symm)
      rw [← hother g hg] at hrule hyoung
      exact mem_activeRules_of_evidence hrule hyoung

end Active

/-! ## The two scores -/

section Scores

variable {o : Observation} {e : Entry} {active : List Rule} {a b clue : Rule}

theorem ceiling_mono {l l' : List Rule} (h : ∀ r ∈ l, r ∈ l') : ceiling o l ≤ ceiling o l' := by
  by_cases hpos : 1 ≤ ceiling o l
  · obtain ⟨r, hr, heq⟩ := ceiling_mem hpos
    rw [heq]
    exact cap_le_ceiling (h r hr)
  · omega

theorem ceiling_congr {l l' : List Rule} (h : ∀ r, r ∈ l ↔ r ∈ l') : ceiling o l = ceiling o l' :=
  Nat.le_antisymm (ceiling_mono fun r => (h r).mp) (ceiling_mono fun r => (h r).mpr)

theorem effective_le_cap (o : Observation) (r : Rule) : effective o r ≤ (cap r o).toNat := by
  unfold effective
  rw [toNat_min]
  omega

theorem effective_le_ceiling {r : Rule} (h : r ∈ active) : effective o r ≤ ceiling o active :=
  (effective_le_cap o r).trans (cap_le_ceiling h)

theorem ceiling_le (o : Observation) (active : List Rule) : ceiling o active ≤ 255 := by
  by_cases hpos : 1 ≤ ceiling o active
  · obtain ⟨r, -, heq⟩ := ceiling_mem hpos
    have := (cap r o).toNat_lt
    omega
  · omega

/-- What the strongest two make before the ceiling. -/
def paired (o : Observation) (a b : Rule) : Nat :=
  if !a.generic && !b.generic then effective o a + effective o b / 4 else effective o a

theorem contradicted_mono (o : Observation) {m n : Nat} (h : m ≤ n) : contradicted o m ≤ contradicted o n := by
  unfold contradicted
  split
  · split <;> split <;> omega
  · exact h

theorem contradicted_lt_iff (o : Observation) {m n : Nat} :
    contradicted o m < contradicted o n ↔ m < n ∧ (o.contradiction = true → 21 < n) := by
  unfold contradicted
  cases o.contradiction with
  | true =>
    simp only [if_true, forall_const]
    split <;> split <;> omega
  | false => simp

theorem score_fused (sort : SortFn Rule) (o : Observation) (e : Entry) :
    (fuse sort o e).detection.score.toNat = fusedScore o (sort.run (stronger o) (activeRules o e)) := by
  have hceiling := ceiling_le o (sort.run (stronger o) (activeRules o e))
  refine UInt8.toNat_ofNat_of_lt' ?_
  rw [fusedScore_eq]
  change _ < 256
  unfold contradicted
  split
  · split <;> omega
  · omega

/-- The score of two or more rules is that of the two that lead them. -/
theorem fusedScore_leads (h : WellGrouped e) (hleads : Leads o (activeRules o e) a b) :
    fusedScore o (SortFn.insertion.run (stronger o) (activeRules o e)) =
      contradicted o (min (paired o a b) (ceiling o (activeRules o e))) := by
  have hranked := @ranks_insertion o _ (@activeRules_groups o e h)
  have hmem := SortFn.insertion.mem_run (stronger o) (activeRules o e)
  have hceiling := @ceiling_congr o _ _ hmem
  have hself : ∀ r, ¬ Ranks o r r := fun r hr => hr.asymm hr
  rw [fusedScore_eq, hceiling]
  generalize SortFn.insertion.run (stronger o) (activeRules o e) = sorted at hranked hmem
  cases sorted with
  | nil => exact absurd ((hmem a).mpr hleads.first) List.not_mem_nil
  | cons x rest =>
    cases rest with
    | nil =>
      have ha := List.mem_singleton.mp ((hmem a).mpr hleads.first)
      have hb := List.mem_singleton.mp ((hmem b).mpr hleads.second)
      have horder := hleads.order
      rw [ha, hb] at horder
      exact absurd horder (hself x)
    | cons y rest =>
      have htop : Leads o (activeRules o e) x y := (leads_of_ranked hranked).of_mem fun r => (hmem r).symm
      obtain ⟨rfl, rfl⟩ := hleads.unique htop
      rfl

/-- One rule alone scores what it adds by itself. -/
theorem fusedScore_alone (h : WellGrouped e) (halone : ∀ r, r ∈ activeRules o e ↔ r = a) :
    fusedScore o (SortFn.insertion.run (stronger o) (activeRules o e)) = contradicted o (effective o a) := by
  have hranked := @ranks_insertion o _ (@activeRules_groups o e h)
  have hmem := SortFn.insertion.mem_run (stronger o) (activeRules o e)
  have hceiling := @ceiling_congr o _ _ hmem
  have hle := effective_le_ceiling (o := o) ((halone a).mpr rfl)
  rw [fusedScore_eq, hceiling]
  generalize SortFn.insertion.run (stronger o) (activeRules o e) = sorted at hranked hmem
  cases sorted with
  | nil => exact absurd ((hmem a).mpr ((halone a).mpr rfl)) List.not_mem_nil
  | cons x rest =>
    have hx : x = a := (halone x).mp ((hmem x).mp List.mem_cons_self)
    cases rest with
    | nil =>
      change contradicted o (min (effective o x) _) = _
      rw [hx, Nat.min_eq_left hle]
    | cons y rest =>
      have hy : y = a := (halone y).mp ((hmem y).mp (by simp))
      have hxy := (List.pairwise_cons.mp hranked).1 y List.mem_cons_self
      rw [hx, hy] at hxy
      exact absurd hxy fun hself => hself.asymm hself

/-- Active rules are none, one, or led by two. -/
theorem active_cases (h : WellGrouped e) :
    activeRules o e = [] ∨ (∃ a, ∀ r, r ∈ activeRules o e ↔ r = a) ∨ ∃ a b, Leads o (activeRules o e) a b := by
  have hranked := @ranks_insertion o _ (@activeRules_groups o e h)
  have hmem := SortFn.insertion.mem_run (stronger o) (activeRules o e)
  generalize SortFn.insertion.run (stronger o) (activeRules o e) = sorted at hranked hmem
  cases sorted with
  | nil => exact .inl (List.eq_nil_iff_forall_not_mem.mpr fun r hr => List.not_mem_nil ((hmem r).mpr hr))
  | cons x rest =>
    cases rest with
    | nil => exact .inr (.inl ⟨x, fun r => (hmem r).symm.trans List.mem_singleton⟩)
    | cons y rest => exact .inr (.inr ⟨x, y, (leads_of_ranked hranked).of_mem fun r => (hmem r).symm⟩)

theorem paired_generic (hgeneric : clue.generic = true) (o : Observation) (r : Rule) :
    paired o r clue = effective o r ∧ paired o clue r = effective o clue := by
  unfold paired
  rw [hgeneric]
  simp

/-- A clue behind the second rule changes no more than the ceiling. -/
theorem leads_behind (hleads : Leads o active a b) (hbehind : Ranks o b clue) {l : List Rule}
    (hmem : ∀ r, r ∈ l ↔ r = clue ∨ r ∈ active) : Leads o l a b where
  first := (hmem a).mpr (.inr hleads.first)
  second := (hmem b).mpr (.inr hleads.second)
  order := hleads.order
  others r hr hra hrb := by
    rcases (hmem r).mp hr with rfl | hr
    · exact hbehind
    · exact hleads.others r hr hra hrb

/-- A clue before the second rule takes its place, or the first. -/
theorem leads_before (hleads : Leads o active a b) (hbefore : Ranks o clue b)
    (hfirst : Ranks o a clue ∨ Ranks o clue a) {l : List Rule}
    (hmem : ∀ r, r ∈ l ↔ r = clue ∨ r ∈ active) : Leads o l a clue ∨ Leads o l clue a := by
  have hclue := (hmem clue).mpr (.inl rfl)
  have ha := (hmem a).mpr (.inr hleads.first)
  have hbehind : ∀ r ∈ l, r ≠ a → r ≠ clue → r = b ∨ Ranks o b r := by
    intro r hr hra hrc
    by_cases hrb : r = b
    · exact .inl hrb
    · exact .inr (hleads.others r (((hmem r).mp hr).resolve_left hrc) hra hrb)
  rcases hfirst with hac | hca
  · refine .inl ⟨ha, hclue, hac, fun r hr hra hrc => ?_⟩
    rcases hbehind r hr hra hrc with rfl | hbr
    · exact hbefore
    · exact hbefore.trans hbr
  · refine .inr ⟨hclue, ha, hca, fun r hr hrc hra => ?_⟩
    rcases hbehind r hr hra hrc with rfl | hbr
    · exact hleads.order
    · exact hleads.order.trans hbr

/-- What fusion scores with the clue before the second rule: the better of the clue
and the first rule. -/
theorem fusedScore_before (h : WellGrouped e) (hgeneric : clue.generic = true)
    (hempty : EmptyGroup o e (group clue.kind)) (hleads : Leads o (activeRules o e) a b)
    (hbefore : Ranks o clue b) :
    fusedScore o (SortFn.insertion.run (stronger o) (activeRules o (withClue o e clue))) =
      contradicted o (max (effective o a) (effective o clue)) := by
  have hgrouped : WellGrouped (withClue o e clue) := wellGrouped_withClue h
  have hmem : ∀ r, r ∈ activeRules o (withClue o e clue) ↔ r = clue ∨ r ∈ activeRules o e :=
    mem_withClue h hempty
  have hne : group a.kind ≠ group clue.kind := hempty a hleads.first
  obtain ⟨hsecond, hfirst⟩ := paired_generic hgeneric o a
  have hale := effective_le_ceiling (o := o) ((hmem a).mpr (.inr hleads.first))
  have hcle := effective_le_ceiling (o := o) ((hmem clue).mpr (.inl rfl))
  rcases leads_before hleads hbefore (ranks_or hne) hmem with hnew | hnew
  · have hle := hnew.order.le
    rw [fusedScore_leads hgrouped hnew, hsecond, Nat.min_eq_left hale, Nat.max_eq_left hle]
  · have hle := hnew.order.le
    rw [fusedScore_leads hgrouped hnew, hfirst, Nat.min_eq_left hcle, Nat.max_eq_right hle]

end Scores

/-- A generic clue lowers the score exactly when it displaces the second of two
specific rules and is worth less than what that adds. -/
theorem generic_clue_lowers_iff (o : Observation) (e : Entry) (clue : Rule) (h : WellGrouped e)
    (hgeneric : clue.generic = true) (hempty : EmptyGroup o e (group clue.kind)) :
    (fuse .insertion o e).detection.score ≤ (fuse .insertion o (withClue o e clue)).detection.score ↔
      ¬ Displaces o (activeRules o e) clue := by
  have hgrouped : WellGrouped (withClue o e clue) := wellGrouped_withClue h
  have hmem : ∀ r, r ∈ activeRules o (withClue o e clue) ↔ r = clue ∨ r ∈ activeRules o e :=
    mem_withClue h hempty
  have hceiling : ceiling o (activeRules o e) ≤ ceiling o (activeRules o (withClue o e clue)) :=
    ceiling_mono fun r hr => (hmem r).mpr (.inr hr)
  rw [UInt8.le_iff_toNat_le, score_fused, score_fused]
  rcases active_cases (o := o) h with hnil | ⟨a, halone⟩ | ⟨a, b, hleads⟩
  · have hnone : ¬ Displaces o (activeRules o e) clue := by
      rintro ⟨a, b, hleads, -⟩
      have hfirst := hleads.first
      rw [hnil] at hfirst
      exact List.not_mem_nil hfirst
    refine ⟨fun _ => hnone, fun _ => ?_⟩
    have hold : SortFn.insertion.run (stronger o) (activeRules o e) = [] := by
      rw [hnil]
      rfl
    rw [hold, fusedScore_eq, fusedScore_eq]
    exact contradicted_mono o (by simp [corroborated])
  · have hnone : ¬ Displaces o (activeRules o e) clue := by
      rintro ⟨x, y, hleads, -⟩
      have horder := hleads.order
      rw [(halone x).mp hleads.first, (halone y).mp hleads.second] at horder
      exact horder.asymm horder
    refine ⟨fun _ => hnone, fun _ => ?_⟩
    have hne : group a.kind ≠ group clue.kind := hempty a ((halone a).mpr rfl)
    have hale := effective_le_ceiling (o := o) ((hmem a).mpr (.inr ((halone a).mpr rfl)))
    have hcle := effective_le_ceiling (o := o) ((hmem clue).mpr (.inl rfl))
    have honly : ∀ r ∈ activeRules o (withClue o e clue), r = clue ∨ r = a := by
      intro r hr
      exact ((hmem r).mp hr).imp_right (halone r).mp
    obtain ⟨hsecond, hfirst⟩ := paired_generic hgeneric o a
    have hclue := (hmem clue).mpr (.inl rfl)
    have ha := (hmem a).mpr (.inr ((halone a).mpr rfl))
    rw [fusedScore_alone h halone]
    rcases ranks_or (o := o) hne with hac | hca
    · have hnew : Leads o (activeRules o (withClue o e clue)) a clue :=
        ⟨ha, hclue, hac, fun r hr hra hrc => absurd (honly r hr) (by simp [hra, hrc])⟩
      rw [fusedScore_leads hgrouped hnew, hsecond, Nat.min_eq_left hale]
    · have hnew : Leads o (activeRules o (withClue o e clue)) clue a :=
        ⟨hclue, ha, hca, fun r hr hrc hra => absurd (honly r hr) (by simp [hra, hrc])⟩
      rw [fusedScore_leads hgrouped hnew, hfirst, Nat.min_eq_left hcle]
      exact contradicted_mono o hca.le
  · rw [fusedScore_leads h hleads]
    have hne : group clue.kind ≠ group b.kind := fun heq => hempty b hleads.second heq.symm
    rcases ranks_or (o := o) hne with hbefore | hbehind
    · rw [fusedScore_before h hgeneric hempty hleads hbefore, ← Nat.not_lt, contradicted_lt_iff]
      refine not_congr ⟨fun hlower => ?_, ?_⟩
      · cases hspecific : (!a.generic && !b.generic) with
        | false =>
          have hpaired : paired o a b = effective o a := by
            unfold paired
            rw [hspecific, if_neg Bool.false_ne_true]
          have hlow := hlower.1
          rw [hpaired] at hlow
          omega
        | true =>
          have hpaired : paired o a b = effective o a + effective o b / 4 := by
            unfold paired
            rw [hspecific, if_pos rfl]
          simp only [Bool.and_eq_true, Bool.not_eq_true'] at hspecific
          rw [hpaired] at hlower
          exact ⟨a, b, hleads, hspecific.1, hspecific.2, hbefore, hlower.1, hlower.2⟩
      · rintro ⟨x, y, hleads', hx, hy, -, hless, hcontradiction⟩
        obtain ⟨rfl, rfl⟩ := hleads.unique hleads'
        have hpaired : paired o a b = effective o a + effective o b / 4 := by
          unfold paired
          rw [hx, hy]
          rfl
        rw [hpaired]
        exact ⟨hless, hcontradiction⟩
    · rw [fusedScore_leads hgrouped (leads_behind hleads hbehind hmem)]
      refine ⟨fun _ => ?_, fun _ => contradicted_mono o (by omega)⟩
      rintro ⟨x, y, hleads', -, -, hbefore, -⟩
      obtain ⟨rfl, rfl⟩ := hleads.unique hleads'
      exact hbefore.asymm hbehind

/-! ## A generic clue between two specific rules -/

instance (e : Entry) : Decidable (WellGrouped e) :=
  decidable_of_iff (∀ g : Fin 9, ((e.evidence.get g).rule.all fun r => group r.kind == g) = true) (by
    refine forall_congr' fun g => ?_
    cases (e.evidence.get g).rule <;> simp)

instance (o : Observation) (e : Entry) (g : Fin 9) : Decidable (EmptyGroup o e g) :=
  inferInstanceAs (Decidable (∀ r ∈ activeRules o e, group r.kind ≠ g))

/-- Two specific rules of 30 and 20. -/
def corroboratedPair : Entry :=
  { evidence := ((Vector.replicate 9 {}).set 3 ⟨some { flipperService with score := 30 }, 0⟩).set 5
      ⟨some { flipperCompany with score := 20 }, 0⟩ }

/-- A generic name of 25. -/
def genericName : Rule :=
  { flipperService with kind := .NamePrefix, value := ascii "Flipper", score := 25, generic := true }

theorem generic_clue_lowers_iff_name :
    (fuse .insertion {} corroboratedPair).detection.score ≤
        (fuse .insertion {} (withClue {} corroboratedPair genericName)).detection.score ↔
      ¬ Displaces {} (activeRules {} corroboratedPair) genericName :=
  generic_clue_lowers_iff {} corroboratedPair genericName (by decide) rfl (by decide)

/-- The pair scores 35, and 30 with the name. -/
theorem generic_clue_lowers :
    ¬ ∀ (sort : SortFn Rule) (o : Observation) (e : Entry) (clue : Rule), WellGrouped e →
      clue.generic = true → EmptyGroup o e (group clue.kind) →
      (fuse sort o e).detection.score ≤ (fuse sort o (withClue o e clue)).detection.score := by
  intro h
  have hpair := h .insertion {} corroboratedPair genericName (by decide) rfl (by decide)
  exact absurd hpair (by decide +kernel)

end Hound
