import Mathlib

/-!
# Fixed tables and standard-library searches

A table of `n` slots is a function on `Fin n`. The searches are the ones
`std::find_if`, `std::min_element` and `std::sort` specify, and the rules below
say how a property of pairs of slots survives the update of one slot.
-/

namespace Slots

/-! ## Table sizes

Named, so that a slot written as a numeral carries the same proof everywhere. -/

instance two_neZero : NeZero 2 := ⟨by decide⟩

instance three_neZero : NeZero 3 := ⟨by decide⟩

instance sixteen_neZero : NeZero 16 := ⟨by decide⟩

instance twenty_neZero : NeZero 20 := ⟨by decide⟩

instance twentyFour_neZero : NeZero 24 := ⟨by decide⟩

instance hundredTwentyEight_neZero : NeZero 128 := ⟨by decide⟩

variable {α : Type} {n : Nat}

/-- The array with element `i` replaced. -/
def put (v : Vector α n) (i : Fin n) (a : α) : Vector α n := v.set i.val a i.isLt

theorem put_self (v : Vector α n) (i : Fin n) (a : α) : (put v i a).get i = a :=
  Vector.getElem_set_self i.isLt

theorem put_other (v : Vector α n) {i j : Fin n} (hij : i ≠ j) (a : α) : (put v i a).get j = v.get j :=
  Vector.getElem_set_ne i.isLt j.isLt fun heq => hij (Fin.ext heq)

/-! ## Searches -/

/-- First slot satisfying `p`, in slot order. -/
@[irreducible] def first (p : α → Bool) (t : Fin n → α) : Option (Fin n) :=
  Fin.find? fun i => p (t i)

theorem first_eq_some {p : α → Bool} {t : Fin n → α} {i : Fin n} :
    first p t = some i ↔ p (t i) = true ∧ ∀ j < i, p (t j) = false := by
  unfold first
  exact Fin.find?_eq_some_iff

theorem first_eq_none {p : α → Bool} {t : Fin n → α} :
    first p t = none ↔ ∀ i, p (t i) = false := by
  unfold first
  exact Fin.find?_eq_none_iff

theorem first_sound {p : α → Bool} {t : Fin n → α} {i : Fin n} (h : first p t = some i) :
    p (t i) = true := (first_eq_some.mp h).1

/-- A table in which `p` selects at most one slot finds that slot. -/
theorem first_eq_some_of_unique {p : α → Bool} {t : Fin n → α} {i : Fin n}
    (hi : p (t i) = true) (unique : ∀ j, p (t j) = true → j = i) : first p t = some i := by
  refine first_eq_some.mpr ⟨hi, fun j hj => ?_⟩
  cases hp : p (t j) with
  | false => rfl
  | true => exact absurd (unique j hp) (Fin.ne_of_lt hj)

/-- `std::min_element`: the first slot no later slot is below. -/
@[irreducible] def minElement [NeZero n] (lt : α → α → Bool) (t : Fin n → α) : Fin n :=
  (List.finRange n).foldl (fun best i => if lt (t i) (t best) then i else best) 0

/-- No slot is below the one `minElement` returns. -/
theorem minElement_le [NeZero n] {lt : α → α → Bool} (irrefl : ∀ a, lt a a = false)
    (trans : ∀ a b c, lt a b = true → lt b c = true → lt a c = true) (t : Fin n → α) (i : Fin n) :
    lt (t i) (t (minElement lt t)) = false := by
  have hfold : ∀ (slots : List (Fin n)) (best k : Fin n), k ∈ slots ∨ lt (t k) (t best) = false →
      lt (t k) (t (slots.foldl (fun best i => if lt (t i) (t best) then i else best) best)) = false := by
    intro slots
    induction slots with
    | nil => exact fun best k hk => hk.resolve_left (List.not_mem_nil)
    | cons j slots ih =>
      intro best k hk
      refine ih _ k ?_
      dsimp only
      rcases hk with hk | hk
      · rcases List.mem_cons.mp hk with rfl | hk
        · right
          split
          · exact irrefl _
          · rename_i hless
            simpa using hless
        · exact .inl hk
      · right
        split
        · rename_i hless
          cases hkj : lt (t k) (t j) with
          | false => rfl
          | true => exact absurd (trans _ _ _ hkj hless) (by simp [hk])
        · exact hk
  unfold minElement
  exact hfold (List.finRange n) 0 i (.inl (List.mem_finRange i))

/-! ## Updating one slot -/

/-- No two different slots are related. -/
def Apart (clash : α → α → Prop) (t : Fin n → α) : Prop :=
  ∀ i j, i ≠ j → ¬ clash (t i) (t j)

theorem Apart.update {clash : α → α → Prop} (symm : ∀ {a b}, clash a b → clash b a)
    {t : Fin n → α} (h : Apart clash t) (i : Fin n) (a : α)
    (fresh : ∀ j, j ≠ i → ¬ clash a (t j)) : Apart clash (Function.update t i a) := by
  intro j k hjk
  by_cases hj : j = i
  · subst hj
    rw [Function.update_self, Function.update_of_ne (Ne.symm hjk)]
    exact fresh k (Ne.symm hjk)
  · by_cases hk : k = i
    · subst hk
      rw [Function.update_self, Function.update_of_ne hj]
      exact fun hc => fresh j hj (symm hc)
    · rw [Function.update_of_ne hj, Function.update_of_ne hk]
      exact h j k hjk

/-- The converse of `Apart.update`: an update that keeps the slots apart met no clash. -/
theorem Apart.of_update {clash : α → α → Prop} {t : Fin n → α} {i : Fin n} {a : α}
    (h : Apart clash (Function.update t i a)) (j : Fin n) (hj : j ≠ i) : ¬ clash a (t j) := by
  have hij := h i j (Ne.symm hj)
  rwa [Function.update_self, Function.update_of_ne hj] at hij

end Slots

/-- A sorting routine as the standard specifies it: the result is an ordered
permutation, and the order of equivalent elements is left open. -/
structure SortFn (α : Type) where
  run : (α → α → Bool) → List α → List α
  perm : ∀ lt l, (run lt l).Perm l
  sorted : ∀ (lt : α → α → Bool) (l : List α),
    (∀ a b, lt a b = true → lt b a = false) →
    (∀ a b c, lt b a = false → lt c b = false → lt c a = false) →
    (run lt l).Pairwise fun a b => lt b a = false

namespace SortFn

variable {α : Type}

theorem mem_run (sort : SortFn α) (lt : α → α → Bool) (l : List α) (a : α) :
    a ∈ sort.run lt l ↔ a ∈ l := (sort.perm lt l).mem_iff

theorem length_run (sort : SortFn α) (lt : α → α → Bool) (l : List α) :
    (sort.run lt l).length = l.length := (sort.perm lt l).length_eq

/-- Stable insertion, which is what the C++ library does on ranges this short. -/
def insertion : SortFn α where
  run lt l := l.insertionSort fun a b => lt b a = false
  perm lt l := List.perm_insertionSort _ l
  sorted lt l asymm trans := by
    have : Std.Total (fun a b => lt b a = false) := ⟨fun a b => by
      cases h : lt b a with
      | false => exact .inl rfl
      | true => exact .inr (asymm b a h)⟩
    have : IsTrans α (fun a b => lt b a = false) := ⟨fun a b c => trans a b c⟩
    exact List.pairwise_insertionSort _ l

end SortFn
