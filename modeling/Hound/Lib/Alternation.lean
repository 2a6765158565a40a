import Mathlib

/-!
# Two alternating slots

A value is kept in two slots, each holding nothing, something unreadable or a
value with its generation. A new value goes to the slot that does not hold the
newest one, with the next generation, so an interrupted write costs the older
value at most.
-/

namespace Alternation

inductive Slot (α : Type) where
  | missing
  | invalid
  | valid (generation : Nat) (value : α)

abbrev Pair (α : Type) := Fin 2 → Slot α

structure Newest (α : Type) where
  slot : Fin 2
  generation : Nat
  value : α

variable {α : Type}

def newest (p : Pair α) : Option (Newest α) :=
  match p 0, p 1 with
  | .valid g v, .valid g' v' => if g < g' then some ⟨1, g', v'⟩ else some ⟨0, g, v⟩
  | .valid g v, _ => some ⟨0, g, v⟩
  | _, .valid g v => some ⟨1, g, v⟩
  | _, _ => none

/-- The slot to write next. -/
def target (p : Pair α) : Fin 2 :=
  match newest p with
  | some n => if n.slot = 0 then 1 else 0
  | none => 0

def generation (p : Pair α) : Nat := (newest p).elim 0 Newest.generation

/-- How one attempt to store a value ends. -/
inductive Event (α : Type) where
  | idle
  | full (value : α)
  | torn

def step (p : Pair α) : Event α → Pair α
  | .idle => p
  | .full v => Function.update p (target p) (.valid (generation p + 1) v)
  | .torn => Function.update p (target p) .invalid

/-- The slot written is never the one that holds the newest value. -/
theorem target_ne {p : Pair α} {n : Newest α} (h : newest p = some n) : target p ≠ n.slot := by
  unfold target
  rw [h]
  simp only
  split
  · rename_i hzero
    rw [hzero]
    decide
  · rename_i hone
    exact fun heq => hone heq.symm

theorem newest_full (p : Pair α) (v : α) :
    newest (step p (.full v)) = some ⟨target p, generation p + 1, v⟩ := by
  unfold step target generation newest
  cases h0 : p 0 with
  | missing | invalid =>
    cases h1 : p 1 with
    | missing | invalid => simp [h1]
    | valid g' v' => simp [h1]
  | valid g v =>
    cases h1 : p 1 with
    | missing | invalid => simp [h0]
    | valid g' v' =>
      by_cases hlt : g < g'
      · simp only [hlt, if_true]
        simp [h1, Nat.not_lt.mpr (Nat.le_of_lt (Nat.lt_succ_self g'))]
      · simp [h0, hlt]

theorem newest_torn (p : Pair α) : newest (step p .torn) = newest p := by
  unfold step target newest
  cases h0 : p 0 with
  | missing | invalid =>
    cases h1 : p 1 with
    | missing | invalid => simp [h1]
    | valid g' v' => simp [h1]
  | valid g v =>
    cases h1 : p 1 with
    | missing | invalid => simp [h0]
    | valid g' v' =>
      by_cases hlt : g < g'
      · simp only [hlt, if_true]
        simp [h1]
      · simp [h0, hlt]

/-- Only a complete write changes what is newest, and it makes its own value that. -/
theorem newest_step (p : Pair α) (e : Event α) :
    newest (step p e) =
      match e with
      | .full v => some ⟨target p, generation p + 1, v⟩
      | _ => newest p := by
  cases e with
  | idle => rfl
  | full v => exact newest_full p v
  | torn => exact newest_torn p

theorem generation_step (p : Pair α) (e : Event α) : generation p ≤ generation (step p e) := by
  unfold generation
  rw [newest_step]
  cases e with
  | idle | torn => exact Nat.le_refl _
  | full v => exact Nat.le_succ _

end Alternation
