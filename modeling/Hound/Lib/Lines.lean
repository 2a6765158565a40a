import Mathlib

/-!
# Reading lines

`upTo stop n s` is what a line reader with room for `n` elements takes from the
front of `s`: everything to the first `stop`, that included, unless room or
input ends before.
-/

namespace Lines

variable {α : Type} [DecidableEq α] (stop : α)

def upTo : Nat → List α → List α
  | 0, _ => []
  | _, [] => []
  | n + 1, c :: rest => if c = stop then [c] else c :: upTo n rest

theorem upTo_append_drop (n : Nat) (s : List α) :
    upTo stop n s ++ s.drop (upTo stop n s).length = s := by
  induction n generalizing s with
  | zero => simp [upTo]
  | succ n ih =>
    cases s with
    | nil => simp [upTo]
    | cons c rest =>
      unfold upTo
      split
      · rfl
      · simp [ih]

theorem length_upTo_le (n : Nat) (s : List α) : (upTo stop n s).length ≤ n := by
  induction n generalizing s with
  | zero => simp [upTo]
  | succ n ih =>
    cases s with
    | nil => simp [upTo]
    | cons c rest =>
      unfold upTo
      split
      · simp
      · simpa using ih rest

/-- A line that was taken whole ends in its only `stop`. -/
theorem upTo_of_mem {n : Nat} {s : List α} (h : stop ∈ upTo stop n s) :
    ∃ body, upTo stop n s = body ++ [stop] ∧ stop ∉ body := by
  induction n generalizing s with
  | zero => simp [upTo] at h
  | succ n ih =>
    cases s with
    | nil => simp [upTo] at h
    | cons c rest =>
      unfold upTo at h ⊢
      split at h
      · rename_i hc
        refine ⟨[], ?_, List.not_mem_nil⟩
        rw [if_pos hc, hc, List.nil_append]
      · rename_i hc
        rcases List.mem_cons.mp h with hstop | hmem
        · exact absurd hstop.symm hc
        · obtain ⟨body, hbody, hnot⟩ := ih hmem
          refine ⟨c :: body, ?_, ?_⟩
          · rw [if_neg hc, hbody, List.cons_append]
          · intro hmem'
            rcases List.mem_cons.mp hmem' with hstop | hmem'
            · exact hc hstop.symm
            · exact hnot hmem'

/-- Without a `stop` and with room left, the whole input was taken. -/
theorem upTo_of_not_mem {n : Nat} {s : List α} (h : stop ∉ upTo stop n s)
    (hroom : (upTo stop n s).length < n) : upTo stop n s = s := by
  induction n generalizing s with
  | zero => exact absurd hroom (Nat.not_lt_zero _)
  | succ n ih =>
    cases s with
    | nil => simp [upTo]
    | cons c rest =>
      unfold upTo at h hroom ⊢
      split at h
      · rename_i hc
        exact absurd (List.mem_singleton.mpr hc.symm) h
      · rename_i hc
        rw [if_neg hc] at hroom ⊢
        rw [ih (fun hmem => h (List.mem_cons_of_mem c hmem)) (by simpa using hroom)]

/-! ## A whole text -/

/-- The lines of a text, each with its `stop`. The last one may lack it. -/
def lines : List α → List (List α)
  | [] => []
  | c :: rest =>
    if c = stop then [c] :: lines rest
    else
      match lines rest with
      | [] => [[c]]
      | line :: more => (c :: line) :: more

theorem lines_line {body : List α} (h : stop ∉ body) (rest : List α) :
    lines stop (body ++ stop :: rest) = (body ++ [stop]) :: lines stop rest := by
  induction body with
  | nil => exact if_pos rfl
  | cons c body ih =>
    have hc : c ≠ stop := fun hc => h (hc ▸ List.mem_cons_self)
    have hrest := ih fun hmem => h (List.mem_cons_of_mem c hmem)
    rw [List.cons_append, lines, if_neg hc, hrest]
    rfl

/-- The lines of a text that is put together from lines. -/
theorem lines_flatten {ls : List (List α)} (h : ∀ l ∈ ls, ∃ body, l = body ++ [stop] ∧ stop ∉ body) :
    lines stop ls.flatten = ls := by
  induction ls with
  | nil => rfl
  | cons l ls ih =>
    obtain ⟨body, hbody, hnot⟩ := h l List.mem_cons_self
    rw [List.flatten_cons, hbody, List.append_assoc, List.singleton_append, lines_line stop hnot,
      ih fun l' hl' => h l' (List.mem_cons_of_mem _ hl')]

@[simp] theorem flatten_lines (s : List α) : (lines stop s).flatten = s := by
  induction s with
  | nil => rfl
  | cons c rest ih =>
    unfold lines
    split
    · rw [List.flatten_cons, ih]
      rfl
    · cases hlines : lines stop rest with
      | nil =>
        rw [hlines] at ih
        rw [← ih]
        rfl
      | cons line more =>
        rw [hlines] at ih
        rw [← ih]
        rfl

/-- How a reader with room for `n` elements takes at most `fuel` pieces from a text. -/
def pieces (n : Nat) : Nat → List α → List (List α)
  | 0, _ => []
  | fuel + 1, s =>
    if s = [] then [] else upTo stop n s :: pieces n fuel (s.drop (upTo stop n s).length)

/-- How a reader with room for `n` elements takes a whole text. -/
def chunks (n : Nat) (s : List α) : List (List α) := pieces stop n s.length s

/-- Where each chunk has its `stop`, they are the lines. -/
theorem pieces_eq_lines {n fuel : Nat} {s : List α} (hfuel : s.length ≤ fuel)
    (h : ∀ chunk ∈ pieces stop n fuel s, stop ∈ chunk) : pieces stop n fuel s = lines stop s := by
  induction fuel generalizing s with
  | zero =>
    rw [List.length_eq_zero_iff.mp (Nat.le_zero.mp hfuel)]
    rfl
  | succ fuel ih =>
    unfold pieces at h ⊢
    split
    · rename_i hs
      rw [hs]
      rfl
    · rename_i hs
      rw [if_neg hs] at h
      obtain ⟨body, hbody, hnot⟩ := upTo_of_mem stop (h _ List.mem_cons_self)
      have hsplit : s = body ++ stop :: s.drop (upTo stop n s).length := by
        have happend := upTo_append_drop stop n s
        rw [hbody] at happend ⊢
        rw [List.append_assoc] at happend
        exact happend.symm
      have hshort : (s.drop (upTo stop n s).length).length ≤ fuel := by
        rw [List.length_drop, hbody, List.length_append, List.length_singleton]
        omega
      have hrest := ih hshort fun chunk hmem => h chunk (List.mem_cons_of_mem _ hmem)
      rw [hrest]
      conv_rhs => rw [hsplit, lines_line stop hnot]
      rw [hbody]

theorem chunks_eq_lines {n : Nat} {s : List α} (h : ∀ chunk ∈ chunks stop n s, stop ∈ chunk) :
    chunks stop n s = lines stop s :=
  pieces_eq_lines stop (Nat.le_refl _) h

/-- A line with room enough is taken whole. -/
theorem upTo_line {n : Nat} {body : List α} (h : stop ∉ body) (hroom : body.length < n) (rest : List α) :
    upTo stop n (body ++ stop :: rest) = body ++ [stop] := by
  induction body generalizing n with
  | nil =>
    obtain ⟨m, rfl⟩ := Nat.exists_eq_add_one.mpr hroom
    exact if_pos rfl
  | cons c body ih =>
    obtain ⟨m, rfl⟩ := Nat.exists_eq_add_one.mpr (Nat.zero_lt_of_lt hroom)
    have hc : c ≠ stop := fun hc => h (hc ▸ List.mem_cons_self)
    rw [List.cons_append, upTo, if_neg hc, ih (fun hmem => h (List.mem_cons_of_mem c hmem)) (Nat.lt_of_succ_lt_succ hroom)]
    rfl

/-- Whole lines with room enough are how a text is taken. -/
theorem pieces_of_lines {n fuel : Nat} {s : List α} (hfuel : s.length ≤ fuel)
    (h : ∀ line ∈ lines stop s, ∃ body, line = body ++ [stop] ∧ stop ∉ body ∧ body.length < n) :
    pieces stop n fuel s = lines stop s := by
  induction fuel generalizing s with
  | zero =>
    rw [List.length_eq_zero_iff.mp (Nat.le_zero.mp hfuel)]
    rfl
  | succ fuel ih =>
    have hflat := flatten_lines stop s
    cases hlines : lines stop s with
    | nil =>
      rw [hlines] at hflat
      rw [← hflat]
      rfl
    | cons line more =>
      rw [hlines] at h hflat
      obtain ⟨body, rfl, hnot, hroom⟩ := h line List.mem_cons_self
      rw [List.flatten_cons, List.append_assoc] at hflat
      have htext : s = body ++ stop :: more.flatten := hflat.symm
      have hmore : lines stop more.flatten = more := by
        rw [htext, lines_line stop hnot] at hlines
        exact (List.cons.inj hlines).2
      have hshort : more.flatten.length ≤ fuel := by
        rw [htext, List.length_append, List.length_cons] at hfuel
        omega
      have hdrop : s.drop (body ++ [stop]).length = more.flatten := by
        have hfront : s = (body ++ [stop]) ++ more.flatten := by
          rw [htext, List.append_assoc]
          rfl
        rw [hfront]
        exact List.drop_left
      have htake : upTo stop n s = body ++ [stop] := by
        rw [htext]
        exact upTo_line stop hnot hroom _
      unfold pieces
      rw [if_neg (by rw [htext]; exact List.append_ne_nil_of_right_ne_nil _ (List.cons_ne_nil _ _)), htake, hdrop]
      rw [ih hshort (by rw [hmore]; exact fun l hl => h l (List.mem_cons_of_mem _ hl)), hmore]

end Lines
