import Mathlib.Data.List.Induction
import Mathlib.Data.List.Nodup
import Mathlib.Order.Bounds.Basic

/-!
# Tables filled by upserts

A keyed table is the list of its entries. An upsert merges a row into the entry
of its key, or makes one. What is true of every entry and the rows of its key
then follows from what making and merging do.
-/

namespace Upsert

variable {κ ρ σ : Type} [DecidableEq κ]

/-- `INSERT … ON CONFLICT (key) DO UPDATE`. -/
def put (key : ρ → κ) (make : ρ → σ) (merge : σ → ρ → σ) : List (κ × σ) → ρ → List (κ × σ)
  | [], r => [(key r, make r)]
  | (k, s) :: t, r => if k = key r then (k, merge s r) :: t else (k, s) :: put key make merge t r

def table (key : ρ → κ) (make : ρ → σ) (merge : σ → ρ → σ) (rows : List ρ) : List (κ × σ) :=
  rows.foldl (put key make merge) []

/-- One entry a key, which sums up the rows of that key. -/
structure Sums (key : ρ → κ) (Sum : List ρ → σ → Prop) (t : List (κ × σ)) (rows : List ρ) : Prop where
  nodup : (t.map Prod.fst).Nodup
  keys : ∀ k, k ∈ t.map Prod.fst ↔ ∃ r ∈ rows, key r = k
  sum : ∀ e ∈ t, Sum (rows.filter fun r => key r = e.1) e.2

section Put

variable {key : ρ → κ} {make : ρ → σ} {merge : σ → ρ → σ}

theorem keys_put (t : List (κ × σ)) (r : ρ) (k : κ) :
    k ∈ (put key make merge t r).map Prod.fst ↔ k ∈ t.map Prod.fst ∨ key r = k := by
  induction t with
  | nil => simp [put, eq_comm]
  | cons e t ih =>
    obtain ⟨k', s⟩ := e
    unfold put
    split
    · rename_i hk
      simp only [List.map_cons, List.mem_cons]
      constructor
      · exact Or.inl
      · rintro (h | rfl)
        · exact h
        · exact Or.inl hk.symm
    · simp only [List.map_cons, List.mem_cons, ih, or_assoc]

theorem nodup_put {t : List (κ × σ)} (h : (t.map Prod.fst).Nodup) (r : ρ) :
    ((put key make merge t r).map Prod.fst).Nodup := by
  induction t with
  | nil => exact List.nodup_singleton _
  | cons e t ih =>
    obtain ⟨k, s⟩ := e
    obtain ⟨hhead, htail⟩ := List.nodup_cons.mp h
    unfold put
    split
    · exact h
    · rename_i hk
      refine List.nodup_cons.mpr ⟨?_, ih htail⟩
      rw [keys_put]
      rintro (hmem | heq)
      · exact hhead hmem
      · exact hk heq.symm

/-- The entry of the row's key was made or merged, the others are as before. -/
theorem mem_put {t : List (κ × σ)} (h : (t.map Prod.fst).Nodup) {r : ρ} {e : κ × σ}
    (he : e ∈ put key make merge t r) :
    (e.1 ≠ key r ∧ e ∈ t) ∨ (e = (key r, make r) ∧ key r ∉ t.map Prod.fst) ∨
      ∃ s, (key r, s) ∈ t ∧ e = (key r, merge s r) := by
  induction t with
  | nil =>
    refine Or.inr (Or.inl ⟨?_, List.not_mem_nil⟩)
    exact List.mem_singleton.mp he
  | cons a t ih =>
    obtain ⟨k, s⟩ := a
    obtain ⟨hhead, htail⟩ := List.nodup_cons.mp h
    unfold put at he
    split at he
    · rename_i hk
      subst hk
      rcases List.mem_cons.mp he with rfl | he
      · exact Or.inr (Or.inr ⟨s, List.mem_cons_self, rfl⟩)
      · refine Or.inl ⟨?_, List.mem_cons_of_mem _ he⟩
        intro heq
        exact hhead (List.mem_map.mpr ⟨e, he, heq⟩)
    · rename_i hk
      rcases List.mem_cons.mp he with rfl | he
      · exact Or.inl ⟨hk, List.mem_cons_self⟩
      · rcases ih htail he with ⟨hne, hmem⟩ | ⟨rfl, hnot⟩ | ⟨s', hmem, rfl⟩
        · exact Or.inl ⟨hne, List.mem_cons_of_mem _ hmem⟩
        · refine Or.inr (Or.inl ⟨rfl, ?_⟩)
          intro hmem
          rcases List.mem_cons.mp hmem with heq | hmem
          · exact hk heq.symm
          · exact hnot hmem
        · exact Or.inr (Or.inr ⟨s', List.mem_cons_of_mem _ hmem, rfl⟩)

end Put

section Run

variable {key : ρ → κ} {make : ρ → σ} {merge : σ → ρ → σ} {Sum : List ρ → σ → Prop}

theorem Sums.put {t : List (κ × σ)} {rows : List ρ} (h : Sums key Sum t rows)
    (hmake : ∀ r, Sum [r] (make r)) (hmerge : ∀ rs s r, Sum rs s → Sum (rs ++ [r]) (merge s r)) (r : ρ) :
    Sums key Sum (put key make merge t r) (rows ++ [r]) where
  nodup := nodup_put h.nodup r
  keys k := by
    rw [keys_put, h.keys]
    simp [or_and_right, exists_or]
  sum e he := by
    rw [List.filter_append]
    rcases mem_put h.nodup he with ⟨hne, hmem⟩ | ⟨rfl, hnot⟩ | ⟨s, hmem, rfl⟩
    · have hother : [r].filter (fun r' => decide (key r' = e.1)) = [] := by
        refine List.filter_eq_nil_iff.mpr fun r' hr' heq => hne ?_
        rw [← of_decide_eq_true heq, List.mem_singleton.mp hr']
      rw [hother, List.append_nil]
      exact h.sum e hmem
    · have hnone : rows.filter (fun r' => decide (key r' = key r)) = [] := by
        refine List.filter_eq_nil_iff.mpr fun r' hr' heq => hnot ?_
        exact (h.keys _).mpr ⟨r', hr', of_decide_eq_true heq⟩
      have hself : [r].filter (fun r' => decide (key r' = key r)) = [r] := by simp
      rw [hnone, hself, List.nil_append]
      exact hmake r
    · have hself : [r].filter (fun r' => decide (key r' = key r)) = [r] := by simp
      rw [hself]
      exact hmerge _ _ _ (h.sum _ hmem)

/-- What making an entry starts and merging a row keeps holds of the whole table. -/
theorem sums_table (hmake : ∀ r, Sum [r] (make r)) (hmerge : ∀ rs s r, Sum rs s → Sum (rs ++ [r]) (merge s r))
    (rows : List ρ) : Sums key Sum (table key make merge rows) rows := by
  induction rows using List.reverseRecOn with
  | nil => exact ⟨List.nodup_nil, by simp [table], fun e he => absurd he List.not_mem_nil⟩
  | append_singleton rows r ih =>
    unfold table
    rw [List.foldl_append]
    exact ih.put hmake hmerge r

end Run

end Upsert
