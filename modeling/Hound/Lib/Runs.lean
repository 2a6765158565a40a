import Mathlib

/-!
# Runs of a machine

A machine is a step function. A run is a fold of it, and the states a run
passes through are listed with the input taken in each. Invariants are carried
along a run by one induction, with a guard where a step needs one.
-/

namespace Runs

variable {σ ι : Type} (step : σ → ι → σ)

def run (s : σ) (inputs : List ι) : σ := inputs.foldl step s

/-- The states passed through, each with the input taken in it. -/
def visited : σ → List ι → List (σ × ι)
  | _, [] => []
  | s, i :: inputs => (s, i) :: visited (step s i) inputs

@[simp] theorem run_nil (s : σ) : run step s [] = s := rfl

@[simp] theorem run_cons (s : σ) (i : ι) (inputs : List ι) :
    run step s (i :: inputs) = run step (step s i) inputs := rfl

theorem run_append (s : σ) (before after : List ι) :
    run step s (before ++ after) = run step (run step s before) after := List.foldl_append

@[simp] theorem run_concat (s : σ) (inputs : List ι) (i : ι) :
    run step s (inputs ++ [i]) = step (run step s inputs) i := by
  rw [run_append]
  rfl

@[simp] theorem visited_nil (s : σ) : visited step s [] = [] := rfl

@[simp] theorem visited_cons (s : σ) (i : ι) (inputs : List ι) :
    visited step s (i :: inputs) = (s, i) :: visited step (step s i) inputs := rfl

theorem visited_append (s : σ) (before after : List ι) :
    visited step s (before ++ after) =
      visited step s before ++ visited step (run step s before) after := by
  induction before generalizing s with
  | nil => rfl
  | cons i before ih =>
    rw [List.cons_append, visited_cons, visited_cons, run_cons, ih, List.cons_append]

@[simp] theorem visited_concat (s : σ) (inputs : List ι) (i : ι) :
    visited step s (inputs ++ [i]) = visited step s inputs ++ [(run step s inputs, i)] := by
  rw [visited_append]
  rfl

/-- A state that a run passes through is where a shorter run ends. -/
theorem mem_visited {s : σ} {inputs : List ι} {v : σ × ι} :
    v ∈ visited step s inputs ↔
      ∃ before after, inputs = before ++ v.2 :: after ∧ v.1 = run step s before := by
  induction inputs generalizing s with
  | nil => simp
  | cons i inputs ih =>
    rw [visited_cons, List.mem_cons, ih]
    constructor
    · rintro (rfl | ⟨before, after, rfl, hv⟩)
      · exact ⟨[], inputs, rfl, rfl⟩
      · exact ⟨i :: before, after, rfl, hv⟩
    · rintro ⟨before, after, hsplit, hv⟩
      cases before with
      | nil =>
        obtain ⟨rfl, rfl⟩ := List.cons.inj hsplit
        exact .inl (Prod.ext hv rfl)
      | cons j before =>
        obtain ⟨rfl, rfl⟩ := List.cons.inj hsplit
        exact .inr ⟨before, after, rfl, hv⟩

/-- Either no step of a run is of some kind, or there is a last one that is. -/
theorem exists_last (s : σ) (inputs : List ι) (kind : σ → ι → Bool) :
    (∀ v ∈ visited step s inputs, kind v.1 v.2 = false) ∨
    ∃ before i after, inputs = before ++ i :: after ∧ kind (run step s before) i = true ∧
      ∀ v ∈ visited step (step (run step s before) i) after, kind v.1 v.2 = false := by
  induction inputs generalizing s with
  | nil => exact .inl fun v hv => nomatch hv
  | cons i inputs ih =>
    rcases ih (step s i) with hnone | ⟨before, j, after, rfl, hj, hrest⟩
    · cases hi : kind s i with
      | false =>
        left
        intro v hv
        rcases List.mem_cons.mp hv with rfl | hv
        · exact hi
        · exact hnone v hv
      | true => exact .inr ⟨[], i, inputs, rfl, hi, hnone⟩
    · exact .inr ⟨i :: before, j, after, rfl, hj, hrest⟩

/-! ## Invariants -/

variable {step}

/-- What one step keeps where its guard holds, a run keeps. -/
theorem invariant_of_guard (I : σ → Prop) (guard : σ → ι → Prop)
    (hstep : ∀ s i, guard s i → I s → I (step s i)) {s : σ} {inputs : List ι} (hs : I s)
    (hguard : ∀ v ∈ visited step s inputs, guard v.1 v.2) : I (run step s inputs) := by
  induction inputs generalizing s with
  | nil => exact hs
  | cons i inputs ih =>
    have hfirst := hguard (s, i) List.mem_cons_self
    exact ih (hstep s i hfirst hs) fun v hv => hguard v (List.mem_cons_of_mem _ hv)

theorem invariant (I : σ → Prop) (hstep : ∀ s i, I s → I (step s i)) {s : σ} (hs : I s)
    (inputs : List ι) : I (run step s inputs) :=
  invariant_of_guard I (fun _ _ => True) (fun s i _ => hstep s i) hs fun _ _ => trivial

/-- An invariant holds wherever a run passes. -/
theorem invariant_visited (I : σ → Prop) (hstep : ∀ s i, I s → I (step s i)) {s : σ} (hs : I s)
    {inputs : List ι} : ∀ v ∈ visited step s inputs, I v.1 := by
  intro v hv
  obtain ⟨before, after, -, hrun⟩ := (mem_visited step).mp hv
  rw [hrun]
  exact invariant I hstep hs before

/-- An invariant about a clock that the inputs advance holds wherever a run passes. -/
theorem ordered_visited {κ : Type} (le : κ → κ → Prop) (key : ι → κ) (I : σ → κ → Prop)
    (guard : σ → ι → Prop) (hlater : ∀ s a b, le a b → I s a → I s b)
    (hstep : ∀ s i, guard s i → I s (key i) → I (step s i) (key i)) {s : σ} {inputs : List ι}
    (hordered : inputs.Pairwise fun i j => le (key i) (key j)) (hs : ∀ i ∈ inputs, I s (key i))
    (hguard : ∀ v ∈ visited step s inputs, guard v.1 v.2) :
    ∀ v ∈ visited step s inputs, I v.1 (key v.2) := by
  induction inputs generalizing s with
  | nil => exact fun v hv => nomatch hv
  | cons i inputs ih =>
    obtain ⟨hfirst, hrest⟩ := List.pairwise_cons.mp hordered
    have hi := hs i List.mem_cons_self
    have hnext := hstep s i (hguard (s, i) List.mem_cons_self) hi
    intro v hv
    rcases List.mem_cons.mp hv with rfl | hv
    · exact hi
    · exact ih hrest (fun j hj => hlater _ _ _ (hfirst j hj) hnext)
        (fun w hw => hguard w (List.mem_cons_of_mem _ hw)) v hv

end Runs
