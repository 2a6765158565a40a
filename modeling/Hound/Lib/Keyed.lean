import Hound.Lib.Slots

/-!
# Tables with one slot a key

A table of `n` slots, each unused or held by a key. A key keeps at most one slot
as long as a slot is written with its own key or a key that holds none, and while
no more than `n` keys take part there is an unused slot for a new one.
-/

namespace Keyed

variable {α κ : Type} {n : Nat} (key : α → Option κ)

/-- No key holds two slots. -/
def Unique (t : Fin n → α) : Prop :=
  ∀ i j k, key (t i) = some k → key (t j) = some k → i = j

variable {key}

theorem Unique.update {t : Fin n → α} (h : Unique key t) {i : Fin n} {a : α} {k : κ}
    (hkey : key a = some k) (hown : ∀ j, key (t j) = some k → j = i) :
    Unique key (Function.update t i a) := by
  intro j j' k' hj hj'
  by_cases hji : j = i
  · by_cases hji' : j' = i
    · rw [hji, hji']
    · rw [hji, Function.update_self, hkey] at hj
      rw [Function.update_of_ne hji'] at hj'
      obtain rfl := Option.some.inj hj
      exact absurd (hown j' hj') hji'
  · rw [Function.update_of_ne hji] at hj
    by_cases hji' : j' = i
    · rw [hji', Function.update_self, hkey] at hj'
      obtain rfl := Option.some.inj hj'
      exact absurd (hown j hj) hji
    · rw [Function.update_of_ne hji'] at hj'
      exact h j j' k' hj hj'

/-- Clearing slots or leaving them keeps the others. -/
theorem Unique.mono {t t' : Fin n → α} (h : Unique key t)
    (hsub : ∀ i k, key (t' i) = some k → key (t i) = some k) : Unique key t' :=
  fun i j k hi hj => h i j k (hsub i k hi) (hsub j k hj)

/-- While no more keys than slots take part, a key that holds none finds an unused slot. -/
theorem Unique.exists_unused [DecidableEq κ] {t : Fin n → α} (h : Unique key t) {keys : Finset κ}
    (hkeys : ∀ i k, key (t i) = some k → k ∈ keys) {k : κ} (hk : k ∈ keys)
    (hnone : ∀ i, key (t i) ≠ some k) (hcard : keys.card ≤ n) : ∃ i, key (t i) = none := by
  by_contra hfull
  have hall : ∀ i, ∃ k, key (t i) = some k := by
    intro i
    cases hi : key (t i) with
    | none => exact absurd ⟨i, hi⟩ hfull
    | some k => exact ⟨k, rfl⟩
  choose holder hholder using hall
  have hinjective : Function.Injective holder := by
    intro i j hij
    have hj := hholder j
    rw [← hij] at hj
    exact h i j (holder i) (hholder i) hj
  have hsub : Finset.univ.image holder ⊆ keys.erase k := by
    intro k' hk'
    obtain ⟨i, -, rfl⟩ := Finset.mem_image.mp hk'
    refine Finset.mem_erase.mpr ⟨fun heq => hnone i ?_, hkeys i _ (hholder i)⟩
    rw [hholder i, heq]
  have hcount := Finset.card_le_card hsub
  rw [Finset.card_image_of_injective _ hinjective, Finset.card_univ, Fintype.card_fin,
    Finset.card_erase_of_mem hk] at hcount
  have hpos := Finset.card_pos.mpr ⟨k, hk⟩
  omega

theorem keys_update {t : Fin n → α} {keys : Finset κ} {k : κ} {i : Fin n}
    (hkeys : ∀ i k, key (t i) = some k → k ∈ keys) (hk : k ∈ keys) {a : α}
    (ha : key a = some k) (j : Fin n) (k' : κ) (hj : key (Function.update t i a j) = some k') :
    k' ∈ keys := by
  by_cases hji : j = i
  · rw [hji, Function.update_self, ha] at hj
    obtain rfl := Option.some.inj hj
    exact hk
  · rw [Function.update_of_ne hji] at hj
    exact hkeys j k' hj

/-- Slot `i` is where key `k` is written: its own slot, or else an unused one if there is one. -/
structure Place (key : α → Option κ) (t : Fin n → α) (k : κ) (i : Fin n) : Prop where
  alone : ∀ j, key (t j) = some k → j = i
  unused : key (t i) ≠ some k → (∃ j, key (t j) = none) → key (t i) = none

section Place

variable [DecidableEq κ] {t : Fin n → α} {keys : Finset κ} {k : κ} {i : Fin n}

/-- While no more keys than slots take part, nothing of another key is overwritten. -/
theorem Place.own (h : Place key t k i) (hunique : Unique key t)
    (hkeys : ∀ i k, key (t i) = some k → k ∈ keys) (hk : k ∈ keys) (hcard : keys.card ≤ n) {k' : κ}
    (hi : key (t i) = some k') : k' = k := by
  by_contra hne
  have hother : key (t i) ≠ some k := fun heq => hne (Option.some.inj (hi.symm.trans heq))
  have hnone : ∀ j, key (t j) ≠ some k := fun j hj => hother (h.alone j hj ▸ hj)
  have hunused := h.unused hother (hunique.exists_unused hkeys hk hnone hcard)
  rw [hunused] at hi
  exact nomatch hi

/-- And a key that holds a slot still holds one. -/
theorem Place.held (h : Place key t k i) (hunique : Unique key t)
    (hkeys : ∀ i k, key (t i) = some k → k ∈ keys) (hk : k ∈ keys) (hcard : keys.card ≤ n) {a : α}
    (ha : key a = some k) {k' : κ} (hheld : ∃ j, key (t j) = some k') :
    ∃ j, key (Function.update t i a j) = some k' := by
  obtain ⟨j, hj⟩ := hheld
  by_cases hji : j = i
  · obtain rfl := h.own hunique hkeys hk hcard (hji ▸ hj)
    refine ⟨i, ?_⟩
    rw [Function.update_self]
    exact ha
  · refine ⟨j, ?_⟩
    rw [Function.update_of_ne hji]
    exact hj

end Place

end Keyed

/-!
# Rings

A ring of `n` cells and the position written next hold the last `n` of the values
pushed, the latest first.
-/

namespace Ring

variable {α : Type} {n : Nat}

structure Holds (cells : Vector α n) (next : Nat) (values : List α) : Prop where
  next : next = values.length % n
  cells : ∀ k, k < values.length → k < n → cells[(values.length - 1 - k) % n]? = values[k]?

theorem holds_nil (cells : Vector α n) : Holds cells 0 [] where
  next := (Nat.zero_mod n).symm
  cells _ hk := nomatch hk

/-- Two positions less than a round apart differ. -/
theorem mod_ne {a k : Nat} (hk : k < n) (hpos : 0 < k) (hle : k ≤ a) : (a - k) % n ≠ a % n := by
  intro heq
  have hdvd : n ∣ a - (a - k) := (Nat.modEq_iff_dvd' (Nat.sub_le a k)).mp heq
  rw [Nat.sub_sub_self hle] at hdvd
  have hle' := Nat.le_of_dvd hpos hdvd
  omega

theorem Holds.push {cells : Vector α n} {next : Fin n} {values : List α}
    (h : Holds cells next values) (v : α) :
    Holds (cells.set next v) ((next.val + 1) % n) (v :: values) := by
  have hnext := h.next
  constructor
  · rw [hnext, List.length_cons, Nat.mod_add_mod]
  · intro k hk hkn
    rw [List.length_cons] at hk ⊢
    cases k with
    | zero =>
      rw [show (values.length + 1 - 1 - 0) % n = next.val by rw [hnext]; rfl]
      simp
    | succ k =>
      have hlen : k < values.length := by omega
      have hother : (values.length - (k + 1)) % n ≠ next.val := by
        rw [hnext]
        exact mod_ne hkn (Nat.succ_pos k) hlen
      have hcell := h.cells k hlen (by omega)
      rw [show values.length - 1 - k = values.length - (k + 1) by omega] at hcell
      rw [show values.length + 1 - 1 - (k + 1) = values.length - (k + 1) by omega,
        List.getElem?_cons_succ, ← hcell]
      exact Vector.getElem?_set_ne _ (Ne.symm hother)

/-- A full ring writes next where its oldest value lies. -/
theorem Holds.oldest {cells : Vector α n} {next : Nat} {values : List α} (h : Holds cells next values)
    (hpos : 0 < n) (hfull : n ≤ values.length) : cells[next]? = values[n - 1]? := by
  have hcell := h.cells (n - 1) (by omega) (by omega)
  rw [← hcell, h.next]
  congr 1
  rw [show values.length - 1 - (n - 1) = values.length - n by omega]
  exact (Nat.mod_eq_sub_mod hfull)

end Ring
