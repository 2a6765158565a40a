import Hound.Lib.JsonTree

/-!
# What the text of a string stands for

A character of a string is written as itself, after a backslash, or by its number in
four hexadecimal digits. `Spells` reads the numbers of the characters off the text.
-/

namespace JsonTree

/-- The letters after a backslash, and the characters they stand for. -/
def escapes : List (UInt8 × Nat) :=
  [(34, 34), (92, 92), (47, 47), (98, 8), (102, 12), (110, 10), (114, 13), (116, 9)]

def hexNumber (h : UInt8) : Nat :=
  if isDigit h then h.toNat - 48 else if 97 ≤ h then h.toNat - 87 else h.toNat - 55

def fourDigits (a b c d : UInt8) : Nat := ((hexNumber a * 16 + hexNumber b) * 16 + hexNumber c) * 16 + hexNumber d

/-- The characters that stand between two quotes, by their numbers. -/
inductive Spells : List UInt8 → List Nat → Prop where
  | nil : Spells [] []
  | plain {c : UInt8} {rest : List UInt8} {ns : List Nat} (low : 32 ≤ c) (high : c < 128) (quote : c ≠ 34)
      (slash : c ≠ 92) (tail : Spells rest ns) : Spells (c :: rest) (c.toNat :: ns)
  | escape {e : UInt8} {n : Nat} {rest : List UInt8} {ns : List Nat} (h : (e, n) ∈ escapes) (tail : Spells rest ns) :
      Spells (92 :: e :: rest) (n :: ns)
  | unicode {a b c d : UInt8} {rest : List UInt8} {ns : List Nat} (ha : isHex a = true) (hb : isHex b = true)
      (hc : isHex c = true) (hd : isHex d = true) (tail : Spells rest ns) :
      Spells (92 :: 117 :: a :: b :: c :: d :: rest) (fourDigits a b c d :: ns)

theorem mem_escapes {e : UInt8} (h : isEscape e = true) : ∃ n, (e, n) ∈ escapes := by
  simp only [isEscape, Bool.or_eq_true, beq_iff_eq] at h
  rcases h with ((((((rfl | rfl) | rfl) | rfl) | rfl) | rfl) | rfl) | rfl
  all_goals exact ⟨_, by simp only [escapes, List.mem_cons, Prod.mk.injEq, true_and]; simp; rfl⟩

theorem spells_body {body : List UInt8} (h : Body body) : ∃ ns, Spells body ns := by
  induction h with
  | nil => exact ⟨[], .nil⟩
  | plain low high quote slash _ ih =>
    obtain ⟨ns, hns⟩ := ih
    exact ⟨_, .plain low high quote slash hns⟩
  | escape he _ ih =>
    obtain ⟨ns, hns⟩ := ih
    obtain ⟨n, hn⟩ := mem_escapes he
    exact ⟨n :: ns, .escape hn hns⟩
  | unicode ha hb hc hd _ ih =>
    obtain ⟨ns, hns⟩ := ih
    exact ⟨_, .unicode ha hb hc hd hns⟩

end JsonTree
