import Hound.Lib.JsonTree

/-!
# Decimal texts

The value of a list of digits, numbers of a fixed width, and the shortest text
of a number, which is also its JSON text.
-/

namespace Decimal

open JsonTree

def value (ds : List UInt8) : Nat := ds.foldl (fun n d => n * 10 + (d.toNat - 48)) 0

theorem value_foldl (ds : List UInt8) (n : Nat) :
    ds.foldl (fun n d => n * 10 + (d.toNat - 48)) n = n * 10 ^ ds.length + value ds := by
  induction ds generalizing n with
  | nil => simp [value]
  | cons d ds ih =>
    have hcons : value (d :: ds) = (d.toNat - 48) * 10 ^ ds.length + value ds := by
      unfold value
      rw [List.foldl_cons, ih]
      simp [value]
    rw [List.foldl_cons, ih, hcons, List.length_cons, Nat.pow_succ]
    ring

theorem value_append (a b : List UInt8) : value (a ++ b) = value a * 10 ^ b.length + value b := by
  have hfold : value (a ++ b) = b.foldl (fun n d => n * 10 + (d.toNat - 48)) (value a) :=
    List.foldl_append
  rw [hfold, value_foldl]

/-! ## Fixed width -/

def digit (n : Nat) : UInt8 := (48 + n % 10).toUInt8

theorem digit_toNat (n : Nat) : (digit n).toNat = 48 + n % 10 := by
  have h : n % 10 < 10 := Nat.mod_lt n (by decide)
  simp only [digit, Nat.toUInt8, UInt8.toNat_ofNat']
  omega

theorem isDigit_digit (n : Nat) : isDigit (digit n) = true := by
  have h := digit_toNat n
  have hlt : n % 10 < 10 := Nat.mod_lt n (by decide)
  simp only [isDigit, Bool.and_eq_true, decide_eq_true_eq, UInt8.le_iff_toNat_le, h]
  exact ⟨by simp, by simp; omega⟩

/-- The last `width` digits of `n`. -/
def padded : Nat → Nat → List UInt8
  | 0, _ => []
  | width + 1, n => padded width (n / 10) ++ [digit n]

@[simp] theorem length_padded (width n : Nat) : (padded width n).length = width := by
  induction width generalizing n with
  | zero => rfl
  | succ width ih => simp [padded, ih]

theorem isDigit_padded {width n : Nat} {c : UInt8} (h : c ∈ padded width n) : isDigit c = true := by
  induction width generalizing n with
  | zero => exact nomatch h
  | succ width ih =>
    rcases List.mem_append.mp h with h | h
    · exact ih h
    · rw [List.mem_singleton.mp h]
      exact isDigit_digit n

theorem value_padded (width n : Nat) : value (padded width n) = n % 10 ^ width := by
  induction width generalizing n with
  | zero => simp [padded, value, Nat.mod_one]
  | succ width ih =>
    have hlast : value [digit n] = n % 10 := by
      simp [value, digit_toNat]
    have hpow : 10 ^ (width + 1) = 10 * 10 ^ width := Nat.pow_succ'
    rw [padded, value_append, ih, hlast, List.length_singleton, hpow, Nat.mod_mul]
    omega

/-- The digits of a number that fits are those it was read from. -/
theorem padded_value {ds : List UInt8} (h : ∀ d ∈ ds, isDigit d = true) : padded ds.length (value ds) = ds := by
  induction ds using List.reverseRecOn with
  | nil => rfl
  | append_singleton ds d ih =>
    have hd := h d (List.mem_append_right _ List.mem_cons_self)
    simp only [isDigit, Bool.and_eq_true, decide_eq_true_eq, UInt8.le_iff_toNat_le, UInt8.reduceToNat] at hd
    have hvalue : value (ds ++ [d]) = value ds * 10 + (d.toNat - 48) := by
      rw [value_append]
      simp [value]
    have hdiv : value (ds ++ [d]) / 10 = value ds := by omega
    have hlast : digit (value (ds ++ [d])) = d := by
      rw [← UInt8.toNat_inj, digit_toNat]
      omega
    rw [List.length_append, List.length_singleton, padded, hdiv, hlast]
    rw [ih fun c hc => h c (List.mem_append_left _ hc)]

theorem value_lt {ds : List UInt8} (h : ∀ d ∈ ds, isDigit d = true) : value ds < 10 ^ ds.length := by
  have hmod : value ds = value ds % 10 ^ ds.length := by
    conv_lhs => rw [← padded_value h, value_padded]
  rw [hmod]
  exact Nat.mod_lt _ (Nat.pow_pos (by decide))

/-- Among digit strings of one length the order of strings is that of numbers. -/
theorem lt_iff_value_lt {a b : List UInt8} (ha : ∀ d ∈ a, isDigit d = true) (hb : ∀ d ∈ b, isDigit d = true)
    (hlength : a.length = b.length) : a < b ↔ value a < value b := by
  have hcons : ∀ (d : UInt8) (ds : List UInt8), value (d :: ds) = (d.toNat - 48) * 10 ^ ds.length + value ds := by
    intro d ds
    have h := value_append [d] ds
    simpa [value] using h
  have hdigit : ∀ d : UInt8, isDigit d = true → 48 ≤ d.toNat := by
    intro d hd
    simp only [isDigit, Bool.and_eq_true, decide_eq_true_eq, UInt8.le_iff_toNat_le, UInt8.reduceToNat] at hd
    exact hd.1
  induction a generalizing b with
  | nil =>
    cases b with
    | nil => simp [value]
    | cons d ds => exact nomatch hlength
  | cons c cs ih =>
    cases b with
    | nil => exact nomatch hlength
    | cons d ds =>
      have hlen : cs.length = ds.length := Nat.succ.inj hlength
      have hcs : ∀ x ∈ cs, isDigit x = true := fun x hx => ha x (List.mem_cons_of_mem _ hx)
      have hds : ∀ x ∈ ds, isDigit x = true := fun x hx => hb x (List.mem_cons_of_mem _ hx)
      have hc := hdigit c (ha c List.mem_cons_self)
      have hd := hdigit d (hb d List.mem_cons_self)
      have hrest : cs < ds ↔ value cs < value ds := ih hcs hds hlen
      have hcs' := value_lt hcs
      have hds' := value_lt hds
      rw [List.cons_lt_cons_iff, hcons, hcons, hrest, hlen, UInt8.lt_iff_toNat_lt, ← UInt8.toNat_inj]
      rw [hlen] at hcs'
      generalize 10 ^ ds.length = p at *
      rcases Nat.lt_trichotomy c.toNat d.toNat with hlt | heq | hgt
      · have hmul : (c.toNat - 48 + 1) * p ≤ (d.toNat - 48) * p := Nat.mul_le_mul_right _ (by omega)
        rw [Nat.add_mul] at hmul
        exact iff_of_true (.inl hlt) (by omega)
      · rw [heq]
        omega
      · have hmul : (d.toNat - 48 + 1) * p ≤ (c.toNat - 48) * p := Nat.mul_le_mul_right _ (by omega)
        rw [Nat.add_mul] at hmul
        exact iff_of_false (by omega) (by omega)

/-! ## Shortest texts -/

def natural (n : Nat) : List UInt8 := (Nat.toDigits 10 n).map fun c => c.toNat.toUInt8

theorem natural_eq (n : Nat) :
    natural n = if n < 10 then [digit n] else natural (n / 10) ++ [digit n] := by
  have hchar : ∀ m, m < 10 → (Nat.digitChar m).toNat.toUInt8 = digit m := by decide
  have hmod : n % 10 < 10 := Nat.mod_lt n (by decide)
  have hdigit : digit (n % 10) = digit n := by simp [digit]
  unfold natural
  rw [Nat.toDigits_eq_if (by decide)]
  split
  · rename_i h
    simp [hchar n h]
  · simp [hchar _ hmod, hdigit]

theorem natural_ne_nil (n : Nat) : natural n ≠ [] := by
  simp [natural, Nat.toDigits_ne_nil]

theorem isDigit_natural (n : Nat) : ∀ c ∈ natural n, isDigit c = true := by
  induction n using Nat.strong_induction_on with
  | _ n ih =>
    intro c hc
    rw [natural_eq] at hc
    split at hc
    · rw [List.mem_singleton.mp hc]
      exact isDigit_digit n
    · rcases List.mem_append.mp hc with hc | hc
      · exact ih (n / 10) (by omega) c hc
      · rw [List.mem_singleton.mp hc]
        exact isDigit_digit n

theorem value_natural (n : Nat) : value (natural n) = n := by
  induction n using Nat.strong_induction_on with
  | _ n ih =>
    have hlast : value [digit n] = n % 10 := by
      simp [value, digit_toNat]
    rw [natural_eq]
    split
    · rw [hlast]
      omega
    · rw [value_append, ih (n / 10) (by omega), hlast, List.length_singleton]
      omega

theorem natural_head {n : Nat} (h : (natural n).head? = some 48) : n = 0 := by
  induction n using Nat.strong_induction_on with
  | _ n ih =>
    rw [natural_eq] at h
    split at h
    · have hd : digit n = 48 := by simpa using h
      have := digit_toNat n
      rw [hd] at this
      simp only [UInt8.reduceToNat] at this
      omega
    · rw [List.head?_append_of_ne_nil _ (natural_ne_nil _)] at h
      have := ih (n / 10) (by omega) h
      omega

theorem length_natural_le {n k : Nat} (hk : 0 < k) (h : n < 10 ^ k) : (natural n).length ≤ k := by
  simp only [natural, List.length_map]
  exact (Nat.length_toDigits_le_iff (by decide) hk).mpr h

theorem whole_natural (n : Nat) : Whole (natural n) := by
  by_cases h : (natural n).head? = some 48
  · left
    rw [natural_head h]
    decide
  · right
    exact ⟨⟨natural_ne_nil n, isDigit_natural n⟩, h⟩

def integer (n : Int) : List UInt8 :=
  if n < 0 then 45 :: natural n.natAbs else natural n.natAbs

theorem number_integer (n : Int) : Number (integer n) := by
  have hwhole := whole_natural n.natAbs
  unfold integer
  split
  · exact ⟨[45], _, [], [], by simp, .inr rfl, hwhole, .inl rfl, .inl rfl⟩
  · exact ⟨[], _, [], [], by simp, .inl rfl, hwhole, .inl rfl, .inl rfl⟩

theorem length_integer_le {n : Int} {k : Nat} (hk : 0 < k) (h : n.natAbs < 10 ^ k) :
    (integer n).length ≤ k + 1 := by
  have := length_natural_le hk h
  unfold integer
  split
  · simpa using this
  · omega

end Decimal
