import Mathlib

/-!
# Programs over arrays, with every access checked

A program that reads a buffer by index has three ends: a result, a refusal, and
an access outside its buffer. `Outcome` keeps the third apart from the second,
so that a program shown equal to some `ofOption x` makes no such access.
-/

namespace Checked

inductive Outcome (α : Type) where
  | done (a : α)
  | rejected
  | outside
  deriving DecidableEq, Repr

variable {α β γ : Type}

instance : Monad Outcome where
  pure := .done
  bind x f := match x with
    | .done a => f a
    | .rejected => .rejected
    | .outside => .outside

@[simp] theorem pure_eq (a : α) : (pure a : Outcome α) = .done a := rfl

@[simp] theorem done_bind (a : α) (f : α → Outcome β) : Outcome.done a >>= f = f a := rfl

@[simp] theorem rejected_bind (f : α → Outcome β) : Outcome.rejected >>= f = .rejected := rfl

@[simp] theorem outside_bind (f : α → Outcome β) : Outcome.outside >>= f = .outside := rfl

instance : LawfulMonad Outcome := .mk' Outcome
  (fun x => by cases x <;> rfl)
  (fun _ _ => rfl)
  (fun x _ _ => by cases x <;> rfl)

def ofOption : Option α → Outcome α
  | some a => .done a
  | none => .rejected

@[simp] theorem ofOption_some (a : α) : ofOption (some a) = .done a := rfl

@[simp] theorem ofOption_none : ofOption (none : Option α) = .rejected := rfl

/-! ## Accesses -/

/-- `xs[i]`. -/
def read (xs : List α) (i : Nat) : Outcome α :=
  match xs[i]? with
  | some a => .done a
  | none => .outside

/-- `xs.subspan(i, n)`. -/
def slice (xs : List α) (i n : Nat) : Outcome (List α) :=
  if i + n ≤ xs.length then .done ((xs.drop i).take n) else .outside

/-- `std::copy` of `ys` to the elements of `xs` from `i` on. -/
def store (xs : List α) (i : Nat) (ys : List α) : Outcome (List α) :=
  if i + ys.length ≤ xs.length then .done (xs.take i ++ (ys ++ xs.drop (i + ys.length)))
  else .outside

/-- A call whose refusal is not passed on. -/
def attempt : Outcome α → Outcome (Option α)
  | .done a => .done (some a)
  | .rejected => .done none
  | .outside => .outside

@[simp] theorem attempt_ofOption (x : Option α) : attempt (ofOption x) = .done x := by
  cases x <;> rfl

/-- `if (!b) return false`. -/
def require (b : Bool) : Outcome Unit := if b then .done () else .rejected

@[simp] theorem require_true : require true = .done () := rfl

@[simp] theorem require_false : require false = .rejected := rfl

/-- `i < size && p(xs[i])`. -/
def test (p : α → Bool) (xs : List α) (i : Nat) : Outcome Bool :=
  if i < xs.length then p <$> read xs i else .done false

/-- `while (i < size && p(xs[i])) ++i`, for at most `fuel` rounds. -/
def skip (p : α → Bool) (xs : List α) : Nat → Nat → Outcome Nat
  | 0, i => .done i
  | fuel + 1, i => do if ← test p xs i then skip p xs fuel (i + 1) else .done i

/-! ## What the unread rest says -/

section Rest

variable {xs : List α} {i : Nat}

theorem lt_of_drop {x : α} {rest : List α} (h : xs.drop i = x :: rest) : i < xs.length := by
  have hlen := congrArg List.length h
  simp only [List.length_drop, List.length_cons] at hlen
  omega

theorem drop_succ {x : α} {rest : List α} (h : xs.drop i = x :: rest) : xs.drop (i + 1) = rest := by
  rw [← List.drop_drop, h]
  rfl

theorem le_of_drop_nil (h : xs.drop i = []) : xs.length ≤ i := List.drop_eq_nil_iff.mp h

/-- The bytes left after `ys`. -/
theorem drop_append (ys : List α) {rest : List α} (h : xs.drop i = ys ++ rest) :
    xs.drop (i + ys.length) = rest := by
  rw [← List.drop_drop, h, List.drop_left]

theorem read_drop {x : α} {rest : List α} (h : xs.drop i = x :: rest) : read xs i = .done x := by
  have hget : xs[i]? = some x := by
    have hzero : (xs.drop i)[0]? = some x := by rw [h]; rfl
    simpa using hzero
  simp [read, hget]

theorem read_lt (h : i < xs.length) : read xs i = .done xs[i] := by
  simp [read, h]

theorem test_drop (p : α → Bool) : test p xs i = .done ((xs.drop i).head?.any p) := by
  unfold test
  cases hrest : xs.drop i with
  | nil =>
    have hend := le_of_drop_nil hrest
    rw [if_neg (by omega)]
    rfl
  | cons x rest =>
    rw [if_pos (lt_of_drop hrest), read_drop hrest]
    rfl

/-- The loop stops where the longest run of `p` ends. -/
theorem skip_drop (p : α → Bool) {fuel : Nat} (hfuel : xs.length ≤ i + fuel) :
    skip p xs fuel i = .done (i + ((xs.drop i).takeWhile p).length) := by
  induction fuel generalizing i with
  | zero =>
    have hnil : xs.drop i = [] := List.drop_eq_nil_iff.mpr (by omega)
    simp [skip, hnil]
  | succ fuel ih =>
    rw [skip, test_drop]
    cases hrest : xs.drop i with
    | nil => rfl
    | cons x rest =>
      cases hp : p x with
      | false => simp [hp]
      | true =>
        have hnext := ih (i := i + 1) (by omega)
        rw [drop_succ hrest] at hnext
        simp only [List.head?_cons, Option.any_some, hp, done_bind, if_true, hnext,
          List.takeWhile_cons_of_pos hp, List.length_cons]
        congr 1
        omega

end Rest

/-! ## Readers by cursor and by unread rest

`xs.length - rest.length` is the cursor that stands before the unread `rest`.
-/

section Readers

variable {xs : List α}

def observe (xs : List α) (r : Option (List α)) : Outcome Nat :=
  ofOption (r.map fun rest => xs.length - rest.length)

/-- A reader by cursor gives what a reader by rest does. -/
def Follows (xs : List α) (fast : Nat → Outcome Nat) (slow : List α → Option (List α)) : Prop :=
  ∀ pos, pos ≤ xs.length → fast pos = observe xs (slow (xs.drop pos))

/-- A reader by rest only takes from the front. -/
def Takes (slow : List α → Option (List α)) : Prop := ∀ rest rest', slow rest = some rest' → rest' <:+ rest

theorem drop_cursor {rest : List α} (h : rest <:+ xs) : xs.drop (xs.length - rest.length) = rest := by
  obtain ⟨front, rfl⟩ := h
  simp

theorem cursor_le (rest : List α) : xs.length - rest.length ≤ xs.length := Nat.sub_le _ _

theorem observe_drop {pos : Nat} (h : pos ≤ xs.length) : observe xs (some (xs.drop pos)) = .done pos := by
  simp only [observe, Option.map_some, ofOption_some, List.length_drop]
  congr 1
  omega

theorem Follows.bind {fast fast' : Nat → Outcome Nat} {slow slow' : List α → Option (List α)}
    (h : Follows xs fast slow) (htakes : Takes slow) (h' : Follows xs fast' slow') :
    Follows xs (fun pos => fast pos >>= fast') fun rest => (slow rest).bind slow' := by
  intro pos hpos
  have hfast := h pos hpos
  simp only [hfast]
  cases hslow : slow (xs.drop pos) with
  | none => rfl
  | some rest =>
    have hsuf : rest <:+ xs := (htakes _ _ hslow).trans (List.drop_suffix _ _)
    have hnext := h' (xs.length - rest.length) (cursor_le rest)
    rw [drop_cursor hsuf] at hnext
    simpa [observe] using hnext

theorem Takes.bind {slow slow' : List α → Option (List α)} (h : Takes slow) (h' : Takes slow') :
    Takes fun rest => (slow rest).bind slow' := by
  intro rest rest' hrest
  obtain ⟨mid, hmid, hlast⟩ := Option.bind_eq_some_iff.mp hrest
  exact (h' mid rest' hlast).trans (h rest mid hmid)

theorem follows_skip (p : α → Bool) :
    Follows xs (fun pos => skip p xs (xs.length - pos) pos) fun rest => some (rest.dropWhile p) := by
  intro pos hpos
  have hskip := @skip_drop _ xs pos p (xs.length - pos) (by omega)
  have hsplit := congrArg List.length (List.takeWhile_append_dropWhile (p := p) (l := xs.drop pos))
  simp only [List.length_append, List.length_drop] at hsplit
  simp only [hskip, observe, Option.map_some, ofOption_some]
  congr 1
  omega

theorem takes_dropWhile (p : α → Bool) : Takes fun rest => some (rest.dropWhile p) := by
  intro rest rest' h
  cases h
  exact List.dropWhile_suffix p

end Readers

/-! ## Slices and stores that fit -/

section Stores

theorem slice_fits {xs : List α} {i n : Nat} (h : i + n ≤ xs.length) : slice xs i n = .done ((xs.drop i).take n) :=
  if_pos h

theorem store_fits (xs ys : List α) (i : Nat) (h : i + ys.length ≤ xs.length) :
    ∃ zs, store xs i ys = .done zs ∧ zs.length = xs.length ∧
      zs.take (i + ys.length) = xs.take i ++ ys := by
  refine ⟨_, if_pos h, ?_, ?_⟩
  · simp only [List.length_append, List.length_take, List.length_drop]
    omega
  · have hfront : (xs.take i ++ ys).length = i + ys.length := by
      rw [List.length_append, List.length_take]
      omega
    rw [← List.append_assoc, ← hfront, List.take_left]

end Stores

end Checked
