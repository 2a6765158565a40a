import Mathlib

/-!
# Writes to a device that can fail

A write is two calls, `set` and `commit`. Each call takes its fate from a
schedule: it succeeds, it reports a failure after or before taking effect, or
power goes off after or before it took effect. On an immediate device `set`
takes effect at once; on a buffered one only `commit` does.

What reaches the device depends on the schedule alone: of a list of writes, the
first `landed` ones.
-/

namespace Faults

inductive Fate where
  | done
  | failed (landed : Bool)
  | cut (landed : Bool)
  deriving DecidableEq, Repr

inductive Status where
  | ok | failed | cut
  deriving DecidableEq, Repr

def Fate.status : Fate → Status
  | .done => .ok
  | .failed _ => .failed
  | .cut _ => .cut

def Fate.landed : Fate → Bool
  | .done => true
  | .failed landed => landed
  | .cut landed => landed

/-- How one write ends, whether it reached the device, and the calls still to come.
An exhausted schedule has no more faults. -/
def outcome (buffered : Bool) (schedule : List Fate) : Status × Bool × List Fate :=
  let set := schedule.headD .done
  if set.status = .ok then
    let commit := schedule.tail.headD .done
    (commit.status, !buffered || commit.landed, schedule.tail.tail)
  else (set.status, !buffered && set.landed, schedule.tail)

/-- How many of `n` writes in a row reach the device. -/
def landed (buffered : Bool) : Nat → List Fate → Nat
  | 0, _ => 0
  | n + 1, schedule =>
      let (status, reached, rest) := outcome buffered schedule
      (if reached then 1 else 0) + (if status = .ok then landed buffered n rest else 0)

/-- The status of `n` writes in a row; a write that does not succeed is the last one. -/
def ending (buffered : Bool) : Nat → List Fate → Status
  | 0, _ => .ok
  | n + 1, schedule =>
      let (status, _, rest) := outcome buffered schedule
      if status = .ok then ending buffered n rest else status

structure Device (σ : Type) where
  store : σ
  schedule : List Fate := []

section Writes

variable {σ : Type} (buffered : Bool)

/-- One write whose effect is `effect`. -/
def Device.write (d : Device σ) (effect : σ → σ) : Status × Device σ :=
  let (status, reached, rest) := outcome buffered d.schedule
  (status, { store := if reached then effect d.store else d.store, schedule := rest })

/-- Writes in a row, up to the first that does not succeed. -/
def Device.writeAll : List (σ → σ) → Device σ → Status × Device σ
  | [], d => (.ok, d)
  | effect :: effects, d =>
      let (status, d) := d.write buffered effect
      if status = .ok then writeAll effects d else (status, d)

theorem outcome_ok {schedule : List Fate} (h : (outcome buffered schedule).1 = .ok) :
    (outcome buffered schedule).2.1 = true := by
  unfold outcome at h ⊢
  by_cases hset : (schedule.headD .done).status = .ok
  · simp only [hset, if_true] at h ⊢
    generalize schedule.tail.headD .done = commit at h ⊢
    cases commit with
    | done => simp [Fate.landed]
    | failed l => exact absurd h (by simp [Fate.status])
    | cut l => exact absurd h (by simp [Fate.status])
  · simp only [hset, if_false] at h

theorem writeAll_store (effects : List (σ → σ)) (d : Device σ) :
    (d.writeAll buffered effects).2.store =
      (effects.take (landed buffered effects.length d.schedule)).foldl (fun s e => e s) d.store := by
  induction effects generalizing d with
  | nil => rfl
  | cons effect effects ih =>
    unfold Device.writeAll Device.write
    simp only [List.length_cons, landed]
    by_cases hok : (outcome buffered d.schedule).1 = .ok
    · have hreached := outcome_ok buffered hok
      simp only [hok, hreached, if_true, Nat.add_comm 1]
      rw [ih]
      rfl
    · simp only [hok, if_false, Nat.add_zero]
      cases hreached : (outcome buffered d.schedule).2.1 with
      | false => rfl
      | true => rfl

theorem writeAll_status (effects : List (σ → σ)) (d : Device σ) :
    (d.writeAll buffered effects).1 = ending buffered effects.length d.schedule := by
  induction effects generalizing d with
  | nil => rfl
  | cons effect effects ih =>
    unfold Device.writeAll Device.write
    simp only [List.length_cons, ending]
    by_cases hok : (outcome buffered d.schedule).1 = .ok
    · simp only [hok, if_true]
      exact ih _
    · simp only [hok, if_false]

end Writes

section Counts

variable (buffered : Bool)

theorem landed_succ_eq (n : Nat) (schedule : List Fate) :
    landed buffered (n + 1) schedule =
      (if (outcome buffered schedule).2.1 then 1 else 0) +
        (if (outcome buffered schedule).1 = .ok then
          landed buffered n (outcome buffered schedule).2.2 else 0) := rfl

theorem landed_le (n : Nat) (schedule : List Fate) : landed buffered n schedule ≤ n := by
  induction n generalizing schedule with
  | zero => exact Nat.le_refl 0
  | succ n ih =>
    have hrest := ih (outcome buffered schedule).2.2
    have hfirst : (if (outcome buffered schedule).2.1 then 1 else 0) ≤ 1 := by
      split <;> omega
    have hmore : (if (outcome buffered schedule).1 = .ok then
        landed buffered n (outcome buffered schedule).2.2 else 0) ≤ n := by
      split <;> omega
    rw [landed_succ_eq]
    omega

/-- A sequence that succeeds has reached the device whole. -/
theorem landed_of_ok (n : Nat) (schedule : List Fate) (h : ending buffered n schedule = .ok) :
    landed buffered n schedule = n := by
  induction n generalizing schedule with
  | zero => rfl
  | succ n ih =>
    simp only [ending] at h
    by_cases hok : (outcome buffered schedule).1 = .ok
    · rw [if_pos hok] at h
      have hreached := outcome_ok buffered hok
      simp only [landed, hok, hreached, if_true, ih _ h]
      omega
    · rw [if_neg hok] at h
      exact absurd h hok

/-- Of one write fewer, as many reach the device, unless all did. -/
theorem landed_succ (n : Nat) (schedule : List Fate) :
    landed buffered n schedule = min n (landed buffered (n + 1) schedule) := by
  induction n generalizing schedule with
  | zero => simp [landed]
  | succ n ih =>
    have hrest := ih (outcome buffered schedule).2.2
    rw [landed_succ_eq, landed_succ_eq]
    by_cases hok : (outcome buffered schedule).1 = .ok
    · have hreached := outcome_ok buffered hok
      simp only [hok, hreached, if_true, hrest]
      omega
    · simp only [hok, if_false]
      split <;> omega

@[simp] theorem landed_nil (n : Nat) : landed buffered n [] = n := by
  induction n with
  | zero => rfl
  | succ n ih =>
    simp [landed, outcome, Fate.status, Fate.landed, ih, Nat.add_comm]

@[simp] theorem ending_nil (n : Nat) : ending buffered n [] = .ok := by
  induction n with
  | zero => rfl
  | succ n ih => simp [ending, outcome, Fate.status, ih]

end Counts

end Faults
