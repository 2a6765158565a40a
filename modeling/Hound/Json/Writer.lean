import Hound.Json.Fields
import Hound.Lib.Decimal

/-!
# The bounded JSON writer

`Writer` of `records.cpp`: appends texts until one does not fit, and from then
on nothing. A chain of writes is one write of the texts joined, so what a
record function produces is decided by the length of its whole text.
-/

namespace Hound

open JsonTree

/-- `out` is the size of the span, `used` the bytes before `used_`. They are
not read again once `ok_` is false, which is `none` here. -/
structure Writer where
  out : Nat
  used : Option Bytes := some []

namespace Writer

def text (w : Writer) (s : Bytes) : Writer :=
  { w with used := w.used.bind fun used =>
      if w.out - used.length ≤ s.length then none else some (used ++ s) }

/-- `%lld`. -/
def number (w : Writer) (n : Int) : Writer := w.text (Decimal.integer n)

/-- A digit of `%04x`. -/
def hexDigit (n : Nat) : UInt8 := if n < 10 then (48 + n).toUInt8 else (87 + n).toUInt8

/-- The text of one character inside quotes. -/
def escape (c : UInt8) : Bytes :=
  if c == 34 then [92, 34]
  else if c == 92 then [92, 92]
  else if c < 32 || 126 < c then
    [92, 117, 48, 48, hexDigit (c.toNat / 16), hexDigit (c.toNat % 16)]
  else [c]

def string (w : Writer) (s : Bytes) : Writer :=
  (s.foldl (fun w c => w.text (escape c)) (w.text [34])).text [34]

/-- `size()`, as the bytes it counts. -/
def written (w : Writer) : Bytes := w.used.getD []

/-! ## A chain of writes -/

theorem text_text (w : Writer) (a b : Bytes) : (w.text a).text b = w.text (a ++ b) := by
  unfold text
  cases w.used with
  | none => rfl
  | some used =>
    by_cases ha : w.out - used.length ≤ a.length
    · have hab : w.out - used.length ≤ (a ++ b).length := by
        rw [List.length_append]
        omega
      simp only [Option.bind_some, ha, hab, if_true, Option.bind_none]
    · have hsplit : w.out - (used ++ a).length ≤ b.length ↔ w.out - used.length ≤ (a ++ b).length := by
        rw [List.length_append, List.length_append]
        omega
      simp only [Option.bind_some, ha, if_false, hsplit, List.append_assoc]

theorem foldl_text {α : Type} (f : α → Bytes) (xs : List α) (w : Writer) (a : Bytes) :
    xs.foldl (fun w x => w.text (f x)) (w.text a) = w.text (a ++ xs.flatMap f) := by
  induction xs generalizing a with
  | nil => simp
  | cons x xs ih => rw [List.foldl_cons, text_text, ih, List.flatMap_cons, List.append_assoc]

/-- The text of a string, quotes included. -/
def literal (s : Bytes) : Bytes := quoted (s.flatMap escape)

theorem string_eq (w : Writer) (s : Bytes) : w.string s = w.text (literal s) := by
  rw [string, foldl_text, text_text]
  rfl

theorem written_text (out : Nat) (s : Bytes) :
    (({ out } : Writer).text s).written = if s.length < out then s else [] := by
  unfold text written
  by_cases h : out ≤ s.length
  · have hfull : ¬ s.length < out := by omega
    simp [h, hfull]
  · have hfits : s.length < out := by omega
    simp [h, hfits]

end Writer

/-! ## Strings read back -/

namespace Json

open Writer

/-- A string `Json::string` can hold. -/
def Readable (s : Bytes) : Prop := ∀ c ∈ s, 0 < c ∧ c < 128

theorem hexDigit_spec {n : Nat} (h : n < 16) :
    isHex (hexDigit n) = true ∧ hexValue (hexDigit n) = n := by
  have hall : ∀ n < 16, isHex (hexDigit n) = true ∧ hexValue (hexDigit n) = n := by decide
  exact hall n h

theorem unicode_escape {c : UInt8} (h : c < 128) :
    unicode 48 48 (hexDigit (c.toNat / 16)) (hexDigit (c.toNat % 16)) = c.toNat := by
  have hlt : c.toNat < 128 := UInt8.lt_iff_toNat_lt.mp h
  have hzero : hexValue 48 = 0 := rfl
  rw [unicode, hzero, (hexDigit_spec (show c.toNat / 16 < 16 by omega)).2,
    (hexDigit_spec (show c.toNat % 16 < 16 by omega)).2]
  omega

theorem unescape_escape {c : UInt8} (h : 0 < c ∧ c < 128) (rest : Bytes) :
    unescape (escape c ++ rest) = (unescape rest).map (c :: ·) := by
  have hne : c ≠ 0 := by
    rintro rfl
    exact absurd h.1 (by decide)
  unfold escape
  split
  · rename_i hc
    rw [beq_iff_eq.mp hc]
    simp [unescape, escaped]
  · split
    · rename_i hc
      rw [beq_iff_eq.mp hc]
      simp [unescape, escaped]
    · rename_i hquote hslash
      split
      · have hcode := unicode_escape h.2
        have hlt : c.toNat < 128 := UInt8.lt_iff_toNat_lt.mp h.2
        have hpos : c.toNat ≠ 0 := fun hz => hne (UInt8.toNat_inj.mp hz)
        have hrange : (c.toNat == 0 || decide (127 < c.toNat)) = false := by
          simp [hpos]
          omega
        have hback : UInt8.ofNat c.toNat = c := UInt8.ofNat_toNat
        simp only [List.cons_append, List.nil_append, unescape, hcode, hrange, hback,
          Bool.false_eq_true, if_false]
      · have hslash' : c ≠ 92 := by simpa using hslash
        simp [unescape, hslash', hne]

theorem unescape_literal {s : Bytes} (h : Readable s) : unescape (s.flatMap escape) = some s := by
  induction s with
  | nil => rfl
  | cons c s ih =>
    have hs := ih fun b hb => h b (List.mem_cons_of_mem c hb)
    rw [List.flatMap_cons, unescape_escape (h c List.mem_cons_self), hs]
    rfl

theorem decode_quoted (size : Nat) (body : Bytes) :
    decode size (quoted body) = (unescape body).filter fun s => decide (s.length < size) := by
  simp [decode, quoted]

theorem decode_literal {s : Bytes} {size : Nat} (h : Readable s) (hsize : s.length < size) :
    decode size (literal s) = some s := by
  rw [literal, decode_quoted, unescape_literal h]
  simp [hsize]

theorem body_escape (c : UInt8) {rest : Bytes} (h : Body rest) : Body (escape c ++ rest) := by
  unfold escape
  split
  · exact .escape (by decide) h
  · split
    · exact .escape (by decide) h
    · rename_i hquote hslash
      split
      · have hlt : c.toNat < 256 := c.toNat_lt
        exact .unicode (by decide) (by decide) (hexDigit_spec (by omega)).1
          (hexDigit_spec (by omega)).1 h
      · rename_i hrange
        have hquote' : c ≠ 34 := by simpa using hquote
        have hslash' : c ≠ 92 := by simpa using hslash
        simp only [Bool.or_eq_true, decide_eq_true_eq, not_or, UInt8.not_lt] at hrange
        exact .plain hrange.1 (by grind) hquote' hslash' h

theorem leaf_literal (s : Bytes) : Leaf .string (literal s) := by
  have hbody : Body (s.flatMap escape) := by
    induction s with
    | nil => exact .nil
    | cons c s ih => exact body_escape c ih
  exact .string hbody

def Printable (s : Bytes) : Prop := ∀ c ∈ s, 32 ≤ c ∧ c ≤ 126

-- byte by byte: the instance for `∀ c, c ∈ s → …` runs through all 256 of them
instance (s : Bytes) : Decidable (Printable s) :=
  decidable_of_iff (s.all (fun c => decide (32 ≤ c) && decide (c ≤ 126)) = true)
    (by simp [Printable, List.all_eq_true])

theorem Printable.readable {s : Bytes} (h : Printable s) : Readable s := by
  intro c hc
  obtain ⟨hlow, hhigh⟩ := h c hc
  exact ⟨by grind, by grind⟩

theorem Printable.append {a b : Bytes} (ha : Printable a) (hb : Printable b) :
    Printable (a ++ b) := by
  intro c hc
  rcases List.mem_append.mp hc with hc | hc
  · exact ha c hc
  · exact hb c hc

theorem length_literal_le {s : Bytes} (h : Printable s) :
    (literal s).length ≤ 2 * s.length + 2 := by
  have hbody : (s.flatMap escape).length ≤ 2 * s.length := by
    induction s with
    | nil => exact Nat.le_refl 0
    | cons c s ih =>
      have hs := ih fun b hb => h b (List.mem_cons_of_mem c hb)
      have hc := h c List.mem_cons_self
      have hone : (escape c).length ≤ 2 := by
        unfold escape
        split
        · simp
        · split
          · simp
          · have hplain : (decide (c < 32) || decide (126 < c)) = false := by grind
            simp [hplain]
      rw [List.flatMap_cons, List.length_append, List.length_cons]
      omega
  simp only [literal, quoted, List.length_cons, List.length_append, List.length_nil]
  omega

/-- Characters that stand for themselves inside quotes. -/
def Plain (s : Bytes) : Prop := ∀ c ∈ s, 32 ≤ c ∧ c ≤ 126 ∧ c ≠ 34 ∧ c ≠ 92

instance (s : Bytes) : Decidable (Plain s) :=
  decidable_of_iff
    (s.all (fun c => decide (32 ≤ c) && decide (c ≤ 126) && c != 34 && c != 92) = true)
    (by simp [Plain, List.all_eq_true, and_assoc])

theorem literal_plain {s : Bytes} (h : Plain s) : literal s = quoted s := by
  have hbody : s.flatMap escape = s := by
    induction s with
    | nil => rfl
    | cons c s ih =>
      have hs := ih fun b hb => h b (List.mem_cons_of_mem c hb)
      obtain ⟨hlow, hhigh, hquote, hslash⟩ := h c List.mem_cons_self
      have hplain : (decide (c < 32) || decide (126 < c)) = false := by grind
      have hone : escape c = [c] := by simp [escape, hquote, hslash, hplain]
      rw [List.flatMap_cons, hs, hone]
      rfl
  rw [literal, hbody]

theorem Plain.printable {s : Bytes} (h : Plain s) : Printable s := by
  intro c hc
  obtain ⟨hlow, hhigh, -, -⟩ := h c hc
  exact ⟨hlow, hhigh⟩

theorem length_literal_plain {s : Bytes} (h : Plain s) : (literal s).length = s.length + 2 := by
  rw [literal_plain h]
  simp [quoted]

end Json

end Hound
