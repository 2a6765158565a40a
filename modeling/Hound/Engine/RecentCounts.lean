import Hound.Engine.Tables
import Hound.Engine.Expiry
import Hound.Lib.Suppression

/-!
# Recent counts

An entry is counted unless another active entry that is the same signal
outranks it. Being the same is not transitive: an entry without a broadcast ID is
the same as every entry at its address, while two entries with different IDs are
not the same. Such an entry can hide several identities at once.
-/

namespace Hound

/-- `active`. -/
def activeEntry (now : UInt64) (settings : Settings) (e : Entry) : Bool :=
  e.occupied && decide (20 ≤ e.detection.score) && decide (e.detection.lastMs ≤ now) &&
    decide (now - e.detection.lastMs ≤ 90000) && hasCategory settings.enabledCategories e.detection.category

/-- `same`. -/
def sameSignal (d other : Detection) : Bool :=
  if samsungIdentity d && samsungIdentity other then d.samsung.id == other.samsung.id
  else d.address == other.address && d.radio == other.radio && d.addressType == other.addressType

def outranks (cache : Cache) (j i : Slot) : Bool :=
  decide ((cache i).detection.score < (cache j).detection.score) ||
    ((cache j).detection.score == (cache i).detection.score && decide (j < i))

def alreadyCounted (cache : Cache) (now : UInt64) (settings : Settings) (i : Slot) : Bool :=
  (List.finRange 128).any fun j =>
    i != j && activeEntry now settings (cache j) && sameSignal (cache i).detection (cache j).detection &&
      outranks cache j i

def counted (cache : Cache) (now : UInt64) (settings : Settings) (i : Slot) : Bool :=
  activeEntry now settings (cache i) && !alreadyCounted cache now settings i

/-- Strong, likely or possible. -/
def bucket (score : UInt8) : Fin 3 := if 80 ≤ score then 0 else if 50 ≤ score then 1 else 2

def bump (counts : Vector UInt32 3) (b : Fin 3) : Vector UInt32 3 := counts.set b (counts.get b + 1)

/-- `Engine::recent_counts`. -/
def recentCounts (cache : Cache) (now : UInt64) (settings : Settings) : Vector UInt32 3 :=
  (List.finRange 128).foldl
    (fun counts i =>
      if counted cache now settings i then bump counts (bucket (cache i).detection.score) else counts)
    (Vector.replicate 3 0)

def total (counts : Vector UInt32 3) : Nat :=
  (counts.get 0).toNat + (counts.get 1).toNat + (counts.get 2).toNat

/-- The counts are those of the identities in the cache. -/
structure CountsIdentities (cache : Cache) (now : UInt64) (settings : Settings) : Prop where
  once : ∀ i j, counted cache now settings i = true → counted cache now settings j = true → i ≠ j →
    sameSignal (cache i).detection (cache j).detection = false
  enough : ∀ identities : Finset Slot, (∀ i ∈ identities, activeEntry now settings (cache i) = true) →
    (∀ i ∈ identities, ∀ j ∈ identities, i ≠ j →
      sameSignal (cache i).detection (cache j).detection = false) →
    identities.card ≤ total (recentCounts cache now settings)
  placed : ∀ b, ((recentCounts cache now settings).get b).toNat =
    (Finset.univ.filter fun i =>
      counted cache now settings i = true ∧ bucket (cache i).detection.score = b).card
  highest : ∀ i j, counted cache now settings i = true → activeEntry now settings (cache j) = true →
    sameSignal (cache i).detection (cache j).detection = true →
    (cache j).detection.score ≤ (cache i).detection.score
  order : ∀ σ : Equiv.Perm Slot, recentCounts (cache ∘ σ) now settings = recentCounts cache now settings

/-- An active entry that is the same as two active entries which are not the same
as each other scores below both. -/
def LinksScoreLow (cache : Cache) (now : UInt64) (settings : Settings) : Prop :=
  ∀ i j k, activeEntry now settings (cache i) = true → activeEntry now settings (cache j) = true →
    activeEntry now settings (cache k) = true →
    sameSignal (cache i).detection (cache j).detection = true →
    sameSignal (cache j).detection (cache k).detection = true →
    sameSignal (cache i).detection (cache k).detection = false →
    (cache j).detection.score < (cache i).detection.score

/-! ## The relation -/

section Relation

variable {cache : Cache} {now : UInt64} {settings : Settings}

theorem sameSignal_refl (d : Detection) : sameSignal d d = true := by
  unfold sameSignal
  split <;> simp

theorem sameSignal_symm {d other : Detection} (h : sameSignal d other = true) :
    sameSignal other d = true := by
  unfold sameSignal at h ⊢
  rw [Bool.and_comm (samsungIdentity other)]
  split
  · rename_i hboth
    rw [if_pos hboth, beq_iff_eq] at h
    rw [h, beq_self_eq_true]
  · rename_i hnot
    rw [if_neg hnot] at h
    simp only [Bool.and_eq_true, beq_iff_eq] at h ⊢
    exact ⟨⟨h.1.1.symm, h.1.2.symm⟩, h.2.symm⟩

/-- The entries suppress each other by their scores. -/
def suppression (now : UInt64) (settings : Settings) : Suppression.Rules Entry where
  active e := activeEntry now settings e = true
  same e e' := sameSignal e.detection e'.detection = true
  score e := e.detection.score.toNat
  refl e := sameSignal_refl e.detection
  symm _ _ h := sameSignal_symm h

theorem outranks_iff (i j : Slot) :
    outranks cache j i = true ↔ Suppression.Beats (suppression now settings) cache j i := by
  unfold outranks Suppression.Beats
  simp only [Bool.or_eq_true, decide_eq_true_eq, Bool.and_eq_true, beq_iff_eq, UInt8.lt_iff_toNat_lt]
  refine or_congr_right (and_congr_left fun _ => ?_)
  exact UInt8.toNat_inj.symm

theorem counted_iff (i : Slot) :
    counted cache now settings i = true ↔ Suppression.Kept (suppression now settings) cache i := by
  unfold counted alreadyCounted Suppression.Kept
  rw [Bool.and_eq_true, Bool.not_eq_true', List.any_eq_false]
  refine and_congr_right fun _ => ?_
  constructor
  · intro h j hactive hne hsame hbeats
    refine h j (List.mem_finRange j) ?_
    simp only [Bool.and_eq_true, bne_iff_ne]
    exact ⟨⟨⟨hne, hactive⟩, hsame⟩, outranks_iff i j |>.mpr hbeats⟩
  · intro h j _ hall
    simp only [Bool.and_eq_true, bne_iff_ne] at hall
    obtain ⟨⟨⟨hne, hactive⟩, hsame⟩, hbeats⟩ := hall
    exact h j hactive hne hsame ((outranks_iff i j).mp hbeats)

end Relation

/-! ## The tally -/

section Tally

variable {cache : Cache} {now : UInt64} {settings : Settings}

theorem bump_get (counts : Vector UInt32 3) (b c : Fin 3) (hroom : (counts.get c).toNat + 1 < 2 ^ 32) :
    ((bump counts b).get c).toNat = (counts.get c).toNat + if b = c then 1 else 0 := by
  unfold bump
  by_cases h : b = c
  · subst h
    have hget : (counts.set b (counts.get b + 1)).get b = counts.get b + 1 :=
      Vector.getElem_set_self b.isLt
    rw [hget, if_pos rfl, UInt32.toNat_add]
    exact Nat.mod_eq_of_lt hroom
  · have hget : (counts.set b (counts.get b + 1)).get c = counts.get c :=
      Vector.getElem_set_ne b.isLt c.isLt fun heq => h (Fin.ext heq)
    rw [hget, if_neg h, Nat.add_zero]

/-- Each counted slot of the walk adds one to its bucket. -/
theorem tally_get (slots : List Slot) (counts : Vector UInt32 3) (b : Fin 3)
    (hroom : (counts.get b).toNat + slots.length < 2 ^ 32) :
    ((slots.foldl
      (fun counts i =>
        if counted cache now settings i then bump counts (bucket (cache i).detection.score) else counts)
      counts).get b).toNat =
      (counts.get b).toNat + (slots.filter fun i =>
        counted cache now settings i && bucket (cache i).detection.score == b).length := by
  induction slots generalizing counts with
  | nil => rfl
  | cons i slots ih =>
    rw [List.length_cons] at hroom
    rw [List.foldl_cons, List.filter_cons]
    by_cases hi : counted cache now settings i = true
    · rw [if_pos hi, hi, Bool.true_and]
      have hbump := bump_get counts (bucket (cache i).detection.score) b (by omega)
      by_cases hb : bucket (cache i).detection.score = b
      · rw [if_pos hb] at hbump
        rw [ih _ (by omega), hbump, if_pos (by simpa using hb), List.length_cons]
        omega
      · rw [if_neg hb] at hbump
        rw [ih _ (by omega), hbump, if_neg (by simpa using hb)]
        rfl
    · have hi' : counted cache now settings i = false := by simpa using hi
      rw [if_neg hi, hi', Bool.false_and, if_neg nofun]
      exact ih counts (by omega)

theorem recentCounts_get (cache : Cache) (now : UInt64) (settings : Settings) (b : Fin 3) :
    ((recentCounts cache now settings).get b).toNat =
      (Finset.univ.filter fun i =>
        counted cache now settings i = true ∧ bucket (cache i).detection.score = b).card := by
  have hzero : ((Vector.replicate 3 0 : Vector UInt32 3).get b).toNat = 0 := by
    revert b
    decide
  have htally := @tally_get cache now settings (List.finRange 128) (Vector.replicate 3 0) b (by
    rw [hzero, List.length_finRange]
    decide)
  rw [hzero, Nat.zero_add] at htally
  refine htally.trans ?_
  rw [← List.toFinset_card_of_nodup ((List.nodup_finRange 128).filter _)]
  congr 1
  ext i
  simp

theorem total_eq (cache : Cache) (now : UInt64) (settings : Settings) :
    total (recentCounts cache now settings) =
      (Finset.univ.filter fun i => counted cache now settings i = true).card := by
  have hsplit := Finset.card_eq_sum_card_fiberwise (f := fun i : Slot => bucket (cache i).detection.score)
    (s := Finset.univ.filter fun i => counted cache now settings i = true) (t := Finset.univ)
    (fun _ _ => Finset.mem_coe.mpr (Finset.mem_univ _))
  rw [hsplit, Fin.sum_univ_three]
  unfold total
  rw [recentCounts_get, recentCounts_get, recentCounts_get]
  simp only [Finset.filter_filter]

end Tally

/-! ## Identities -/

section Identities

variable {cache : Cache} {now : UInt64} {settings : Settings}

theorem LinksScoreLow.linksLow (h : LinksScoreLow cache now settings) :
    Suppression.LinksLow (suppression now settings) cache := by
  intro i j k hi hj hk hij hjk hik
  exact UInt8.lt_iff_toNat_lt.mp (h i j k hi hj hk hij hjk (by simpa [suppression] using hik))

theorem mem_counted (k : Slot) :
    k ∈ (Finset.univ.filter fun i => counted cache now settings i = true) ↔
      Suppression.Kept (suppression now settings) cache k := by
  rw [Finset.mem_filter, counted_iff]
  exact ⟨fun h => h.2, fun h => ⟨Finset.mem_univ k, h⟩⟩

/-- In any order of the slots at least as many entries of a bucket are counted. -/
theorem LinksScoreLow.placed_le (h : LinksScoreLow cache now settings) (σ : Equiv.Perm Slot) (b : Fin 3) :
    ((recentCounts cache now settings).get b).toNat ≤
      ((recentCounts (cache ∘ σ) now settings).get b).toNat := by
  rw [recentCounts_get, recentCounts_get]
  refine @Suppression.LinksLow.card_le_perm _ _ _ _ σ h.linksLow (fun n => bucket (UInt8.ofNat n) = b) _ _ ?_ ?_
  · intro k
    rw [Finset.mem_filter, counted_iff]
    have hscore : (suppression now settings).score (cache k) = (cache k).detection.score.toNat := rfl
    rw [hscore, UInt8.ofNat_toNat]
    exact ⟨fun hk => hk.2, fun hk => ⟨Finset.mem_univ k, hk⟩⟩
  · intro k
    rw [Finset.mem_filter, counted_iff]
    have hscore : (suppression now settings).score (cache (σ k)) = (cache (σ k)).detection.score.toNat := rfl
    rw [hscore, UInt8.ofNat_toNat]
    exact ⟨fun hk => hk.2, fun hk => ⟨Finset.mem_univ k, hk⟩⟩

theorem LinksScoreLow.comp (h : LinksScoreLow cache now settings) (σ : Equiv.Perm Slot) :
    LinksScoreLow (cache ∘ σ) now settings := fun i j k => h (σ i) (σ j) (σ k)

theorem LinksScoreLow.order (h : LinksScoreLow cache now settings) (σ : Equiv.Perm Slot) :
    recentCounts (cache ∘ σ) now settings = recentCounts cache now settings := by
  have hback : (cache ∘ σ) ∘ σ.symm = cache := by
    funext i
    exact congrArg cache (σ.apply_symm_apply i)
  ext b hb
  have hle := h.placed_le σ ⟨b, hb⟩
  have hge := (h.comp σ).placed_le σ.symm ⟨b, hb⟩
  rw [hback] at hge
  exact Nat.le_antisymm hge hle

theorem LinksScoreLow.countsIdentities (h : LinksScoreLow cache now settings) :
    CountsIdentities cache now settings := by
  constructor
  · intro i j hi hj hne
    have hapart := ((counted_iff i).mp hi).apart ((counted_iff j).mp hj) hne
    exact Bool.eq_false_iff.mpr hapart
  · intro identities hactive hapart
    rw [total_eq]
    refine h.linksLow.card_le mem_counted hactive fun i hi j hj hne => ?_
    exact Bool.eq_false_iff.mp (hapart i hi j hj hne)
  · exact recentCounts_get cache now settings
  · intro i j hi hj hsame
    exact UInt8.le_iff_toNat_le.mpr (((counted_iff i).mp hi).top hj hsame)
  · exact h.order

end Identities

/-- In a state where no active entry that links two different ones scores as high
as they do, the counts are those of the identities. -/
theorem recent_counts_identities (sort : SortFn Rule) (rules : List Rule) (ticks : List Tick) (now : UInt64)
    (settings : Settings)
    (h : LinksScoreLow (Runs.run (Engine.next sort) { rules } ticks).cache now settings) :
    CountsIdentities (Runs.run (Engine.next sort) { rules } ticks).cache now settings :=
  h.countsIdentities

/-! ## Two tags and another signal at one address -/

/-- The Flipper service without its company. -/
def flipperOnly : Bytes := [3, 3, 0x81, 0x30]

/-- Two broadcast IDs at one address. -/
def twoTags : List Tick := [received 1000 5 (fullTag 7), received 1200 5 (fullTag 8)]

theorem twoTags_active (i : Slot) : activeEntry 2000 {}
    ((Runs.run (Engine.next .insertion) { rules := [smartThings, flipperService] } twoTags).cache i) = true →
    i = 0 ∨ i = 1 := by
  revert i
  decide +kernel

theorem recent_counts_identities_two :
    CountsIdentities
      (Runs.run (Engine.next .insertion) { rules := [smartThings, flipperService] } twoTags).cache 2000 {} := by
  refine recent_counts_identities .insertion _ twoTags 2000 {} fun i j k hi hj hk => ?_
  rcases twoTags_active i hi with rfl | rfl
  all_goals
    rcases twoTags_active j hj with rfl | rfl
    all_goals
      rcases twoTags_active k hk with rfl | rfl
      all_goals
        decide +kernel

/-- A third signal at that address outranks both: one is counted where two IDs are active. -/
theorem recent_counts_hide :
    ¬ ∀ (sort : SortFn Rule) (rules : List Rule) (ticks : List Tick) (now : UInt64) (settings : Settings),
      CountsIdentities (Runs.run (Engine.next sort) { rules } ticks).cache now settings := by
  intro h
  have hrun := (h .insertion [smartThings, flipperService] (twoTags ++ [received 1400 5 flipperOnly]) 2000
    {}).enough {0, 1} (by decide +kernel) (by decide +kernel)
  exact absurd hrun (by decide +kernel)

end Hound
