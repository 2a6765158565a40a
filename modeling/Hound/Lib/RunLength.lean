import Mathlib.Data.List.Basic

/-!
# Runs of equal values

A list as its runs, the runs as pairs that follow each other, and an encoder that
cuts runs at a limit.
-/

namespace RunLength

variable {α : Type}

/-- The values of the runs. -/
def expand (runs : List (Nat × α)) : List α := runs.flatMap fun run => List.replicate run.1 run.2

@[simp] theorem expand_append (runs more : List (Nat × α)) : expand (runs ++ more) = expand runs ++ expand more :=
  List.flatMap_append

@[simp] theorem expand_singleton (n : Nat) (a : α) : expand [(n, a)] = List.replicate n a :=
  List.flatMap_singleton _ _

@[simp] theorem expand_cons (n : Nat) (a : α) (runs : List (Nat × α)) :
    expand ((n, a) :: runs) = List.replicate n a ++ expand runs := rfl

/-- Lengths between one and the limit. -/
def Short (limit : Nat) (runs : List (Nat × α)) : Prop := ∀ run ∈ runs, 1 ≤ run.1 ∧ run.1 ≤ limit

theorem Short.append_run {limit n : Nat} {a : α} {runs : List (Nat × α)} (h : Short limit runs) (hlow : 1 ≤ n)
    (hhigh : n ≤ limit) : Short limit (runs ++ [(n, a)]) := by
  intro run hrun
  rcases List.mem_append.mp hrun with hrun | hrun
  · exact h run hrun
  · rw [List.mem_singleton.mp hrun]
    exact ⟨hlow, hhigh⟩

/-- The finished runs, and the open one of `prev`, after each value. -/
def scan [BEq α] (limit : Nat) : List α → List (Nat × α) → α → Nat → List (Nat × α)
  | [], runs, prev, count => runs ++ [(count, prev)]
  | a :: rest, runs, prev, count =>
      if a == prev && decide (count < limit) then scan limit rest runs prev (count + 1)
      else scan limit rest (runs ++ [(count, prev)]) a 1

/-- The runs are those so far, the open one and the rest, within the limit. -/
theorem scan_spec [BEq α] [LawfulBEq α] {limit : Nat} (hlimit : 1 ≤ limit) (rest : List α) {runs : List (Nat × α)}
    {prev : α} {count : Nat} (hruns : Short limit runs) (hlow : 1 ≤ count) (hhigh : count ≤ limit) :
    expand (scan limit rest runs prev count) = expand runs ++ (List.replicate count prev ++ rest) ∧
      Short limit (scan limit rest runs prev count) := by
  induction rest generalizing runs prev count with
  | nil =>
    unfold scan
    rw [expand_append, expand_singleton, List.append_nil]
    exact ⟨rfl, hruns.append_run hlow hhigh⟩
  | cons a rest ih =>
    unfold scan
    split
    · rename_i hsame
      simp only [Bool.and_eq_true, beq_iff_eq, decide_eq_true_eq] at hsame
      obtain ⟨rfl, hroom⟩ := hsame
      obtain ⟨hexpand, hlimited⟩ := @ih runs a (count + 1) hruns (Nat.le_add_left 1 count) hroom
      refine ⟨?_, hlimited⟩
      rw [hexpand, List.replicate_succ', List.append_assoc]
      rfl
    · obtain ⟨hexpand, hlimited⟩ := @ih (runs ++ [(count, prev)]) a 1 (hruns.append_run hlow hhigh) (Nat.le_refl 1) hlimit
      refine ⟨?_, hlimited⟩
      rw [hexpand, expand_append, expand_singleton, List.append_assoc]
      rfl

/-- Each run as its length and its value. -/
def pairs (runs : List (Nat × Nat)) : List Nat := runs.flatMap fun run => [run.1, run.2]

@[simp] theorem pairs_cons (n a : Nat) (runs : List (Nat × Nat)) : pairs ((n, a) :: runs) = n :: a :: pairs runs := rfl

theorem pairs_append (runs more : List (Nat × Nat)) : pairs (runs ++ more) = pairs runs ++ pairs more :=
  List.flatMap_append

theorem length_pairs (runs : List (Nat × Nat)) : (pairs runs).length = 2 * runs.length := by
  induction runs with
  | nil => rfl
  | cons run runs ih =>
    rw [pairs_cons, List.length_cons, List.length_cons, List.length_cons, ih]
    omega

theorem pairs_even (runs : List (Nat × Nat)) (k : Nat) : (pairs runs)[2 * k]? = runs[k]?.map Prod.fst := by
  induction runs generalizing k with
  | nil => simp [pairs]
  | cons run runs ih =>
    cases k with
    | zero => rfl
    | succ k =>
      rw [pairs_cons, Nat.mul_succ, List.getElem?_cons_succ, List.getElem?_cons_succ, ih, List.getElem?_cons_succ]

end RunLength
