import Mathlib

/-!
# Suppression

The items of a table suppress each other: an item is kept when no item that is
the same as it has a higher score, or the same score and an earlier slot. The
relation need not be transitive. Where every item that links two items which are
not the same scores below both, keeping is one item a class: nothing disappears
and the order of the slots does not matter.
-/

namespace Suppression

variable {α : Type} {n : Nat}

/-- What is compared, and by which score. -/
structure Rules (α : Type) where
  active : α → Prop
  same : α → α → Prop
  score : α → Nat
  refl : ∀ a, same a a
  symm : ∀ a b, same a b → same b a

variable (R : Rules α) (t : Fin n → α)

def Beats (j i : Fin n) : Prop :=
  R.score (t i) < R.score (t j) ∨ (R.score (t j) = R.score (t i) ∧ j < i)

def Kept (i : Fin n) : Prop :=
  R.active (t i) ∧ ∀ j, R.active (t j) → i ≠ j → R.same (t i) (t j) → ¬ Beats R t j i

/-- An item that links two others which are not the same scores below them. -/
def LinksLow : Prop :=
  ∀ i j k, R.active (t i) → R.active (t j) → R.active (t k) → R.same (t i) (t j) →
    R.same (t j) (t k) → ¬ R.same (t i) (t k) → R.score (t j) < R.score (t i)

variable {R t}

theorem Kept.apart {i j : Fin n} (hi : Kept R t i) (hj : Kept R t j) (hne : i ≠ j) :
    ¬ R.same (t i) (t j) := by
  intro hsame
  have hij := hi.2 j hj.1 hne hsame
  have hji := hj.2 i hi.1 (Ne.symm hne) (R.symm _ _ hsame)
  unfold Beats at hij hji
  omega

theorem Kept.top {i j : Fin n} (hi : Kept R t i) (hj : R.active (t j)) (hsame : R.same (t i) (t j)) :
    R.score (t j) ≤ R.score (t i) := by
  by_cases hne : i = j
  · rw [hne]
  · have hij := hi.2 j hj hne hsame
    unfold Beats at hij
    omega

/-- Every item is the same as a kept one. -/
theorem LinksLow.exists_kept (h : LinksLow R t) {v : Fin n} (hv : R.active (t v)) :
    ∃ k, Kept R t k ∧ R.same (t v) (t k) := by
  classical
  let near := Finset.univ.filter fun w => R.active (t w) ∧ R.same (t v) (t w)
  have hmem : v ∈ near := Finset.mem_filter.mpr ⟨Finset.mem_univ v, hv, R.refl _⟩
  obtain ⟨k, hk, hmax⟩ := near.exists_max_image
    (fun w => toLex (R.score (t w), OrderDual.toDual w)) ⟨v, hmem⟩
  obtain ⟨-, hactive, hsame⟩ := Finset.mem_filter.mp hk
  refine ⟨k, ⟨hactive, fun w hw hne hkw hbeats => ?_⟩, hsame⟩
  by_cases hvw : R.same (t v) (t w)
  · have hle := hmax w (Finset.mem_filter.mpr ⟨Finset.mem_univ w, hw, hvw⟩)
    rw [Prod.Lex.toLex_le_toLex] at hle
    unfold Beats at hbeats
    rcases hle with hless | ⟨heq, hslot⟩
    · change R.score (t w) < R.score (t k) at hless
      omega
    · change R.score (t w) = R.score (t k) at heq
      have hslot' : k ≤ w := hslot
      omega
  · -- `k` would link `v` and `w`, and yet score at least as high as `v`
    have hlow := h v k w hv hactive hw hsame hkw hvw
    have hle := hmax v hmem
    rw [Prod.Lex.toLex_le_toLex] at hle
    rcases hle with hless | ⟨heq, -⟩
    · change R.score (t v) < R.score (t k) at hless
      omega
    · change R.score (t v) = R.score (t k) at heq
      omega

/-- What is the same as one kept item is the same. -/
theorem LinksLow.same_of_kept (h : LinksLow R t) {k v w : Fin n} (hk : Kept R t k)
    (hv : R.active (t v)) (hw : R.active (t w)) (hvk : R.same (t v) (t k)) (hwk : R.same (t w) (t k)) :
    R.same (t v) (t w) := by
  by_contra hno
  have hlow := h v k w hv hk.1 hw hvk (R.symm _ _ hwk) hno
  have htop := hk.top hv (R.symm _ _ hvk)
  omega

/-- No more items can be pairwise different than are kept. -/
theorem LinksLow.card_le (h : LinksLow R t) {apart kept : Finset (Fin n)} (hkept : ∀ k, k ∈ kept ↔ Kept R t k)
    (hactive : ∀ i ∈ apart, R.active (t i))
    (hapart : ∀ i ∈ apart, ∀ j ∈ apart, i ≠ j → ¬ R.same (t i) (t j)) : apart.card ≤ kept.card := by
  have hnear : ∀ i : Fin n, ∃ k, i ∈ apart → Kept R t k ∧ R.same (t i) (t k) := by
    intro i
    by_cases hi : i ∈ apart
    · obtain ⟨k, hk⟩ := h.exists_kept (hactive i hi)
      exact ⟨k, fun _ => hk⟩
    · exact ⟨i, fun hmem => absurd hmem hi⟩
  choose near hnear using hnear
  refine Finset.card_le_card_of_injOn near (fun i hi => (hkept _).mpr (hnear i hi).1) ?_
  intro i hi j hj hij
  by_contra hne
  obtain ⟨hk, hik⟩ := hnear i hi
  obtain ⟨-, hjk⟩ := hnear j hj
  rw [← hij] at hjk
  exact hapart i hi j hj hne (h.same_of_kept hk (hactive i hi) (hactive j hj) hik hjk)

section Order

variable {σ : Equiv.Perm (Fin n)}

theorem LinksLow.comp (h : LinksLow R t) (σ : Equiv.Perm (Fin n)) : LinksLow R (t ∘ σ) :=
  fun i j k => h (σ i) (σ j) (σ k)

/-- In any order of the slots at least as many items of a score are kept. -/
theorem LinksLow.card_le_perm (h : LinksLow R t) (Q : Nat → Prop) {kept kept' : Finset (Fin n)}
    (hkept : ∀ k, k ∈ kept ↔ Kept R t k ∧ Q (R.score (t k)))
    (hkept' : ∀ k, k ∈ kept' ↔ Kept R (t ∘ σ) k ∧ Q (R.score (t (σ k)))) : kept.card ≤ kept'.card := by
  have hnear : ∀ k : Fin n, ∃ k', k ∈ kept → Kept R (t ∘ σ) k' ∧ R.same (t k) (t (σ k')) := by
    intro k
    by_cases hk : k ∈ kept
    · have hactive : R.active ((t ∘ σ) (σ.symm k)) := by
        rw [Function.comp_apply, σ.apply_symm_apply]
        exact ((hkept k).mp hk).1.1
      obtain ⟨k', hk', hsame⟩ := (h.comp σ).exists_kept hactive
      rw [Function.comp_apply, σ.apply_symm_apply] at hsame
      exact ⟨k', fun _ => ⟨hk', hsame⟩⟩
    · exact ⟨k, fun hmem => absurd hmem hk⟩
  choose near hnear using hnear
  refine Finset.card_le_card_of_injOn near (fun k hk => (hkept' _).mpr ?_) ?_
  · obtain ⟨hold, hQ⟩ := (hkept k).mp hk
    obtain ⟨hnew, hsame⟩ := hnear k hk
    refine ⟨hnew, ?_⟩
    have hle := hold.top hnew.1 hsame
    have hge := hnew.top (j := σ.symm k) (by
      rw [Function.comp_apply, σ.apply_symm_apply]
      exact hold.1) (by
      rw [Function.comp_apply, Function.comp_apply, σ.apply_symm_apply]
      exact R.symm _ _ hsame)
    rw [Function.comp_apply, Function.comp_apply, σ.apply_symm_apply] at hge
    have heq : R.score (t (σ (near k))) = R.score (t k) := Nat.le_antisymm hle hge
    rwa [heq]
  · intro i hi j hj hij
    by_contra hne
    obtain ⟨hk, hik⟩ := hnear i hi
    obtain ⟨-, hjk⟩ := hnear j hj
    rw [← hij] at hjk
    have hi' := ((hkept i).mp hi).1
    have hj' := ((hkept j).mp hj).1
    have hlow := (h.comp σ).same_of_kept (v := σ.symm i) (w := σ.symm j) hk
    simp only [Function.comp_apply, σ.apply_symm_apply] at hlow
    exact hi'.apart hj' hne (hlow hi'.1 hj'.1 hik hjk)

end Order

end Suppression
