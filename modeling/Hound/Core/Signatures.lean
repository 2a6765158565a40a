import Hound.Core.Types
import Hound.Json.Writer

/-!
# Compiled rules

What `validate` of `compile_signatures.py` guarantees of the fields a log record
shows and of the scores the engine fuses.
-/

namespace Hound

open Json

/-- `[a-z0-9_.]`. -/
def idChar (c : UInt8) : Bool :=
  (decide (97 ≤ c) && decide (c ≤ 122)) || JsonTree.isDigit c || c == 95 || c == 46

/-- The values of `CAPS`. -/
def caps : List UInt8 := [100, 79, 49, 19]

/-- `1 <= len(r[field]) <= limit` and every character printable. -/
def Limited (limit : Nat) (s : Bytes) : Prop := 1 ≤ s.length ∧ s.length ≤ limit ∧ Printable s

/-- The texts of a rule that a log record repeats. -/
structure Rule.Legible (r : Rule) : Prop where
  /-- `[a-z][a-z0-9_.]{1,63}` -/
  id : 2 ≤ r.id.length ∧ r.id.length ≤ 64 ∧ ∀ c ∈ r.id, idChar c = true
  start : ∃ c, r.id.head? = some c ∧ 97 ≤ c ∧ c ≤ 122
  label : Limited 40 r.label
  reason : Limited 120 r.reason

structure Rule.Compiled (r : Rule) : Prop extends Rule.Legible r where
  cap : r.cap ∈ caps
  score : 1 ≤ r.score ∧ r.score ≤ r.cap

theorem Rule.Legible.plain_id {r : Rule} (h : r.Legible) : Plain r.id := by
  intro c hc
  have hchar := h.id.2.2 c hc
  simp only [idChar, JsonTree.isDigit, Bool.or_eq_true, Bool.and_eq_true, decide_eq_true_eq,
    beq_iff_eq] at hchar
  grind

theorem Rule.Legible.id_ne_nil {r : Rule} (h : r.Legible) : r.id ≠ [] := by
  intro hnil
  have := h.id.1
  rw [hnil] at this
  exact absurd this (by decide)

theorem Limited.ne_nil {limit : Nat} {s : Bytes} (h : Limited limit s) : s ≠ [] := by
  rintro rfl
  exact absurd h.1 (by decide)

end Hound
