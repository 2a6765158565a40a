import Mathlib.Data.List.Induction
import Mathlib.Data.Nat.Bitwise

/-!
# Bytes in groups of five bits

The bits of bytes, most significant first, cut into groups of five, the last one
filled with zeros. One letter a group is the unpadded base32 encoding.
-/

namespace BitGroups

/-! ## Bits of a number -/

/-- The `n` low bits of `x`, most significant first. -/
def lowBits : Nat → Nat → List Bool
  | 0, _ => []
  | n + 1, x => x.testBit n :: lowBits n x

@[simp] theorem length_lowBits (n x : Nat) : (lowBits n x).length = n := by
  induction n with
  | zero => rfl
  | succ n ih => rw [lowBits, List.length_cons, ih]

theorem lowBits_congr {n x y : Nat} (h : ∀ i < n, x.testBit i = y.testBit i) : lowBits n x = lowBits n y := by
  induction n with
  | zero => rfl
  | succ n ih => rw [lowBits, lowBits, h n (Nat.lt_succ_self n), ih fun i hi => h i (Nat.lt_succ_of_lt hi)]

theorem lowBits_add (m n x : Nat) : lowBits (m + n) x = lowBits m (x >>> n) ++ lowBits n x := by
  induction m with
  | zero => rw [Nat.zero_add, lowBits, List.nil_append]
  | succ m ih =>
    rw [Nat.succ_add, lowBits, lowBits, ih, Nat.testBit_shiftRight, Nat.add_comm n m]
    rfl

/-- The number that bits spell. -/
def number (bits : List Bool) : Nat := bits.foldl (fun n b => 2 * n + b.toNat) 0

theorem number_append_singleton (bits : List Bool) (b : Bool) : number (bits ++ [b]) = 2 * number bits + b.toNat := by
  unfold number
  rw [List.foldl_append]
  rfl

theorem lowBits_number (bits : List Bool) : lowBits bits.length (number bits) = bits := by
  induction bits using List.reverseRecOn with
  | nil => rfl
  | append_singleton bits b ih =>
    have hrest : (2 * number bits + b.toNat) >>> 1 = number bits := by
      have hbit : b.toNat < 2 := b.toNat_lt
      rw [Nat.shiftRight_eq_div_pow]
      omega
    have hlast : (2 * number bits + b.toNat).testBit 0 = b := by
      cases b <;> simp [Nat.testBit_zero]
    rw [List.length_append, List.length_singleton, lowBits_add, number_append_singleton, hrest, ih]
    simp only [lowBits, hlast]

theorem number_lowBits (n x : Nat) : number (lowBits n x) = x % 2 ^ n := by
  induction n generalizing x with
  | zero => simp [lowBits, number, Nat.mod_one]
  | succ n ih =>
    have hlow : lowBits 1 x = [x.testBit 0] := rfl
    have hhalf : x >>> 1 = x / 2 := Nat.shiftRight_eq_div_pow x 1
    have hbit : (x.testBit 0).toNat = x % 2 := by
      rw [Nat.testBit_zero]
      rcases Nat.mod_two_eq_zero_or_one x with h | h <;> simp [h]
    rw [lowBits_add n 1 x, hlow, number_append_singleton, ih, hhalf, hbit, Nat.pow_succ', Nat.mod_mul]
    omega

/-! ## Bits of bytes -/

def octets (bytes : List UInt8) : List Bool := bytes.flatMap fun b => lowBits 8 b.toNat

theorem length_octets (bytes : List UInt8) : (octets bytes).length = 8 * bytes.length := by
  induction bytes with
  | nil => rfl
  | cons b bytes ih =>
    unfold octets at *
    rw [List.flatMap_cons, List.length_append, ih, length_lowBits, List.length_cons]
    omega

theorem octets_injective {a b : List UInt8} (hlength : a.length = b.length) (h : octets a = octets b) : a = b := by
  induction a generalizing b with
  | nil => exact (List.length_eq_zero_iff.mp hlength.symm).symm
  | cons x xs ih =>
    cases b with
    | nil => exact nomatch hlength
    | cons y ys =>
      unfold octets at h
      rw [List.flatMap_cons, List.flatMap_cons] at h
      obtain ⟨hhead, htail⟩ := List.append_inj h (by rw [length_lowBits, length_lowBits])
      have hbyte := congrArg number hhead
      rw [number_lowBits, number_lowBits, Nat.mod_eq_of_lt x.toNat_lt, Nat.mod_eq_of_lt y.toNat_lt] at hbyte
      rw [UInt8.toNat_inj.mp hbyte, ih (Nat.succ.inj hlength) htail]

/-! ## Groups of five -/

/-- Groups of five bits, the last filled with zeros. -/
def quintets : List Bool → List (List Bool)
  | [] => []
  | a :: b :: c :: d :: e :: rest => [a, b, c, d, e] :: quintets rest
  | short => [short ++ List.replicate (5 - short.length) false]

theorem quintets_cons {q : List Bool} (hq : q.length = 5) (rest : List Bool) :
    quintets (q ++ rest) = q :: quintets rest := by
  match q, hq with
  | [a, b, c, d, e], _ => rfl

theorem quintets_flatten {qs : List (List Bool)} (h : ∀ q ∈ qs, q.length = 5) (rest : List Bool) :
    quintets (qs.flatten ++ rest) = qs ++ quintets rest := by
  induction qs with
  | nil => rfl
  | cons q qs ih =>
    rw [List.flatten_cons, List.append_assoc, quintets_cons (h q List.mem_cons_self),
      ih fun q' hq' => h q' (List.mem_cons_of_mem _ hq'), List.cons_append]

/-- A rest of one to four bits makes one group. -/
theorem quintets_short {bits : List Bool} (hsome : bits ≠ []) (hfew : bits.length < 5) :
    quintets bits = [bits ++ List.replicate (5 - bits.length) false] := by
  match bits, hsome, hfew with
  | [a], _, _ => rfl
  | [a, b], _, _ => rfl
  | [a, b, c], _, _ => rfl
  | [a, b, c, d], _, _ => rfl

/-- Every group has five bits, and together they begin with the bits they were made of. -/
theorem quintets_spec (bits : List Bool) :
    (∀ q ∈ quintets bits, q.length = 5) ∧ (quintets bits).flatten.take bits.length = bits := by
  induction bits using quintets.induct with
  | case1 => exact ⟨fun q hq => absurd hq List.not_mem_nil, rfl⟩
  | case2 a b c d e rest ih =>
    refine ⟨fun q hq => ?_, ?_⟩
    · rcases List.mem_cons.mp hq with rfl | hq
      · rfl
      · exact ih.1 q hq
    · rw [quintets, List.flatten_cons]
      simp only [List.length_cons, List.cons_append, List.nil_append, List.take_succ_cons]
      rw [ih.2]
  | case3 short hsome hlong =>
    have hfew : short.length < 5 := by
      match short, hlong with
      | [], _ => simp
      | [a], _ => simp
      | [a, b], _ => simp
      | [a, b, c], _ => simp
      | [a, b, c, d], _ => simp
      | a :: b :: c :: d :: e :: rest, hlong => exact absurd rfl (hlong a b c d e rest)
    rw [quintets_short hsome hfew]
    refine ⟨fun q hq => ?_, ?_⟩
    · rw [List.mem_singleton.mp hq, List.length_append, List.length_replicate]
      omega
    · rw [List.flatten_singleton, List.take_left]

/-- One letter a group. -/
def encode (letterOf : Nat → UInt8) (bytes : List UInt8) : List UInt8 :=
  (quintets (octets bytes)).map fun q => letterOf (number q)

/-- With different letters for different groups the encoding is injective. -/
theorem encode_injective {letterOf : Nat → UInt8} (hletters : ∀ m < 32, ∀ n < 32, letterOf m = letterOf n → m = n)
    {a b : List UInt8} (hlength : a.length = b.length) (h : encode letterOf a = encode letterOf b) : a = b := by
  have hgroup : ∀ (p q : List Bool), p.length = 5 → q.length = 5 → letterOf (number p) = letterOf (number q) →
      p = q := by
    intro p q hp hq hpq
    have hsmall : ∀ r : List Bool, r.length = 5 → number r < 32 := by
      intro r hr
      have hback := number_lowBits r.length (number r)
      rw [lowBits_number, hr] at hback
      rw [hback]
      exact Nat.mod_lt _ (by decide)
    have hnumber := hletters _ (hsmall p hp) _ (hsmall q hq) hpq
    rw [← lowBits_number p, ← lowBits_number q, hp, hq, hnumber]
  have hlists : ∀ ps qs : List (List Bool), (∀ p ∈ ps, p.length = 5) → (∀ q ∈ qs, q.length = 5) →
      (ps.map fun q => letterOf (number q)) = qs.map (fun q => letterOf (number q)) → ps = qs := by
    intro ps
    induction ps with
    | nil =>
      intro qs _ _ hmap
      exact (List.map_eq_nil_iff.mp hmap.symm).symm
    | cons p ps ih =>
      intro qs hps hqs hmap
      cases qs with
      | nil => exact nomatch hmap
      | cons q qs =>
        rw [List.map_cons, List.map_cons] at hmap
        obtain ⟨hhead, htail⟩ := List.cons.inj hmap
        rw [hgroup p q (hps p List.mem_cons_self) (hqs q List.mem_cons_self) hhead,
          ih qs (fun r hr => hps r (List.mem_cons_of_mem _ hr)) (fun r hr => hqs r (List.mem_cons_of_mem _ hr)) htail]
  obtain ⟨ha, ha'⟩ := quintets_spec (octets a)
  obtain ⟨hb, hb'⟩ := quintets_spec (octets b)
  refine octets_injective hlength ?_
  rw [← ha', ← hb', hlists _ _ ha hb h, length_octets, length_octets, hlength]

end BitGroups
