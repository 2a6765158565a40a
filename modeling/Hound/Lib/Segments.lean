import Mathlib.Tactic.Linarith

/-!
# Segments through integer points

Linear interpolation with a division that truncates towards zero, and tables of
such segments.
-/

namespace Segments

/-- The line from `p` to `q` at `x`. -/
def segment (p q : Int × Int) (x : Int) : Int := p.2 + ((x - p.1) * (q.2 - p.2)).tdiv (q.1 - p.1)

theorem segment_left (p q : Int × Int) : segment p q p.1 = p.2 := by
  unfold segment
  rw [Int.sub_self, Int.zero_mul, Int.zero_tdiv, Int.add_zero]

theorem segment_right {p q : Int × Int} (h : p.1 < q.1) : segment p q q.1 = q.2 := by
  have hwidth : q.1 - p.1 ≠ 0 := by omega
  unfold segment
  rw [Int.mul_tdiv_cancel_left _ hwidth]
  omega

/-- A step to the right and not down. -/
def Rises (p q : Int × Int) : Prop := p.1 < q.1 ∧ p.2 ≤ q.2

theorem Rises.mono {p q : Int × Int} (h : Rises p q) {x y : Int} (hxy : x ≤ y) :
    segment p q x ≤ segment p q y := by
  have hwidth : 0 < q.1 - p.1 := Int.sub_pos_of_lt h.1
  have hscaled : (x - p.1) * (q.2 - p.2) ≤ (y - p.1) * (q.2 - p.2) :=
    Int.mul_le_mul_of_nonneg_right (by omega) (Int.sub_nonneg_of_le h.2)
  exact Int.add_le_add_left (Int.tdiv_le_tdiv hwidth hscaled) p.2

theorem Rises.le_right {p q : Int × Int} (h : Rises p q) {x : Int} (hx : x ≤ q.1) : segment p q x ≤ q.2 := by
  rw [← segment_right h.1]
  exact h.mono hx

theorem Rises.left_le {p q : Int × Int} (h : Rises p q) {x : Int} (hx : p.1 ≤ x) : p.2 ≤ segment p q x := by
  rw [← segment_left p q]
  exact h.mono hx

/-- The first segment that ends after `x`; from the last point on its height. -/
def table : Int × Int → List (Int × Int) → Int → Int
  | p, [], _ => p.2
  | p, q :: qs, x => if x < q.1 then segment p q x else table q qs x

theorem le_table {p : Int × Int} {qs : List (Int × Int)} (h : List.IsChain Rises (p :: qs)) {x : Int}
    (hx : p.1 ≤ x) : p.2 ≤ table p qs x := by
  induction qs generalizing p with
  | nil => exact Int.le_refl _
  | cons q qs ih =>
    obtain ⟨hrise, hrest⟩ := List.isChain_cons_cons.mp h
    unfold table
    split
    · exact hrise.left_le hx
    · rename_i hpast
      exact hrise.2.trans (ih hrest (Int.not_lt.mp hpast))

theorem table_mono {p : Int × Int} {qs : List (Int × Int)} (h : List.IsChain Rises (p :: qs)) {x y : Int}
    (hxy : x ≤ y) : table p qs x ≤ table p qs y := by
  induction qs generalizing p with
  | nil => exact Int.le_refl _
  | cons q qs ih =>
    obtain ⟨hrise, hrest⟩ := List.isChain_cons_cons.mp h
    unfold table
    by_cases hy : y < q.1
    · rw [if_pos (Int.lt_of_le_of_lt hxy hy), if_pos hy]
      exact hrise.mono hxy
    · rw [if_neg hy]
      split
      · -- the two lie on different segments, with `q` between them
        rename_i hx
        exact (hrise.le_right (Int.le_of_lt hx)).trans (le_table hrest (Int.not_lt.mp hy))
      · exact ih hrest

/-- No table climbs over a bound of its heights. -/
theorem table_le {p : Int × Int} {qs : List (Int × Int)} (h : List.IsChain Rises (p :: qs)) {bound : Int}
    (hp : p.2 ≤ bound) (hqs : ∀ q ∈ qs, q.2 ≤ bound) (x : Int) : table p qs x ≤ bound := by
  induction qs generalizing p with
  | nil => exact hp
  | cons q qs ih =>
    obtain ⟨hrise, hrest⟩ := List.isChain_cons_cons.mp h
    have hq := hqs q List.mem_cons_self
    unfold table
    split
    · rename_i hx
      exact (hrise.le_right (Int.le_of_lt hx)).trans hq
    · exact ih hrest hq fun r hr => hqs r (List.mem_cons_of_mem _ hr)

end Segments
