import Hound.Lib.BitGroups
import Hound.Records.Export

/-!
# The letters of tokens are base32

Both loops keep their bits in a word that overflows. Only its low bits are ever
read, and those are the bits of the digest that no letter holds yet.
-/

namespace Hound

open BitGroups

/-- A letter of RFC 4648. -/
def letterOf (n : Nat) : UInt8 := alphabet.getD n 0

def base32 (bytes : Bytes) : Bytes := encode letterOf bytes

theorem letterOf_injective : ∀ m < 32, ∀ n < 32, letterOf m = letterOf n → m = n := by decide +kernel

/-- `alphabet[x & 31]` is the letter of the five low bits. -/
theorem letter_eq (x : UInt32) : letter x = letterOf (number (lowBits 5 x.toNat)) := by
  have hmask : (x &&& 31).toNat = x.toNat % 2 ^ 5 := by
    rw [UInt32.toNat_and]
    exact Nat.and_two_pow_sub_one_eq_mod x.toNat 5
  unfold letter letterOf
  rw [hmask, number_lowBits]

/-! ## The accumulator -/

/-- The letters and the low bits of the accumulator hold the bits read so far. -/
def Base32.Reads (s : Base32) (bits : List Bool) : Prop :=
  ∃ qs : List (List Bool), (∀ q ∈ qs, q.length = 5) ∧ s.out = qs.map (fun q => letterOf (number q)) ∧
    bits = qs.flatten ++ lowBits s.available s.bits.toNat

theorem reads_empty : ({} : Base32).Reads [] := ⟨[], fun _ h => absurd h List.not_mem_nil, rfl, rfl⟩

/-- A letter takes the five highest bits of the rest. -/
theorem drain_reads (room : Nat → Bool) (word : UInt32) (fuel available : Nat) (out : Bytes) {bits : List Bool}
    (hwidth : available ≤ 32) (h : Base32.Reads ⟨word, available, out⟩ bits) :
    Base32.Reads ⟨word, (drain room word fuel available out).1, (drain room word fuel available out).2⟩ bits := by
  induction fuel generalizing available out with
  | zero => exact h
  | succ fuel ih =>
    unfold drain
    split
    · rename_i hgo
      simp only [Bool.and_eq_true, decide_eq_true_eq] at hgo
      obtain ⟨qs, hqs, hout, hbits⟩ := h
      have hshift : (word >>> (available - 5).toUInt32).toNat = word.toNat >>> (available - 5) := by
        have hsmall : (available - 5).toUInt32.toNat = available - 5 := Nat.mod_eq_of_lt (by omega)
        rw [UInt32.toNat_shiftRight, hsmall, Nat.mod_eq_of_lt (show available - 5 < 32 by omega)]
      have hsplit : lowBits available word.toNat =
          lowBits 5 (word.toNat >>> (available - 5)) ++ lowBits (available - 5) word.toNat := by
        rw [← lowBits_add]
        exact congrArg (lowBits · word.toNat) (by omega)
      refine ih _ _ (by omega) ⟨qs ++ [lowBits 5 (word.toNat >>> (available - 5))], ?_, ?_, ?_⟩
      · intro q hq
        rcases List.mem_append.mp hq with hq | hq
        · exact hqs q hq
        · rw [List.mem_singleton.mp hq, length_lowBits]
      · change out ++ [_] = _
        rw [List.map_append, ← hout, letter_eq, hshift]
        rfl
      · rw [hbits, List.flatten_append, List.flatten_singleton, List.append_assoc]
        exact congrArg (qs.flatten ++ ·) hsplit
    · exact h

/-- Eight more bits move the others up; what leaves the word was in letters already. -/
theorem lowBits_push (word : UInt32) (b : UInt8) {available : Nat} (h : available + 8 ≤ 32) :
    lowBits (available + 8) (word <<< 8 ||| b.toUInt32).toNat =
      lowBits available word.toNat ++ lowBits 8 b.toNat := by
  have hword : (word <<< 8 ||| b.toUInt32).toNat = (word.toNat <<< 8 % 2 ^ 32) ||| b.toNat := by
    rw [UInt32.toNat_or, UInt32.toNat_shiftLeft, UInt8.toNat_toUInt32]
    rfl
  have hbyte : ∀ i, b.toNat.testBit (i + 8) = false := by
    intro i
    refine Nat.testBit_lt_two_pow (Nat.lt_of_lt_of_le b.toNat_lt ?_)
    exact Nat.pow_le_pow_right (by decide) (Nat.le_add_left 8 i)
  have hhigh : lowBits available ((word <<< 8 ||| b.toUInt32).toNat >>> 8) = lowBits available word.toNat := by
    refine lowBits_congr fun i hi => ?_
    have hin : 8 + i < 32 := by omega
    rw [hword, Nat.testBit_shiftRight, Nat.testBit_or, Nat.testBit_mod_two_pow, Nat.testBit_shiftLeft, Nat.add_comm 8 i,
      hbyte, Bool.or_false, Nat.add_sub_cancel, Nat.add_comm i 8]
    simp [hin]
  have hlow : lowBits 8 (word <<< 8 ||| b.toUInt32).toNat = lowBits 8 b.toNat := by
    refine lowBits_congr fun i hi => ?_
    have hout : ¬ 8 ≤ i := by omega
    rw [hword, Nat.testBit_or, Nat.testBit_mod_two_pow, Nat.testBit_shiftLeft]
    simp [hout]
  rw [lowBits_add, hhigh, hlow]

theorem push_reads (room : Nat → Bool) {s : Base32} {bits : List Bool} (b : UInt8) (hwidth : s.available + 8 ≤ 32)
    (h : s.Reads bits) : (s.push room b).Reads (bits ++ lowBits 8 b.toNat) := by
  obtain ⟨qs, hqs, hout, hbits⟩ := h
  refine drain_reads room (s.bits <<< 8 ||| b.toUInt32) (s.available + 8) (s.available + 8) s.out hwidth
    ⟨qs, hqs, hout, ?_⟩
  change _ = qs.flatten ++ lowBits (s.available + 8) (s.bits <<< 8 ||| b.toUInt32).toNat
  rw [lowBits_push _ _ hwidth, hbits, List.append_assoc]

/-! ## The token of a log row -/

/-- What `private_token` hashes. -/
def tokenInput (d : Detection) : Bytes :=
  if samsungIdentity d then samsungInput d 1 else d.address.toList ++ [radioCode d.radio, d.addressType]

theorem foldl_push_reads (bytes : Bytes) {s : Base32} {bits : List Bool} (hfive : s.available < 5) (h : s.Reads bits) :
    (bytes.foldl (Base32.push fun _ => true) s).Reads (bits ++ octets bytes) := by
  induction bytes generalizing s bits with
  | nil =>
    rw [octets, List.flatMap_nil, List.append_nil]
    exact h
  | cons b bytes ih =>
    have hnext := (foldl_push_length [b] s hfive).1
    have hread := ih hnext (push_reads (fun _ => true) b (by omega) h)
    rw [List.append_assoc] at hread
    exact hread

/-- The last letter holds the bits left over, filled with zeros. -/
theorem lastLetter_eq (word : UInt32) {available : Nat} (h : available < 5) :
    letter (word <<< (5 - available).toUInt32) =
      letterOf (number (lowBits available word.toNat ++ List.replicate (5 - available) false)) := by
  have hsmall : (5 - available).toUInt32.toNat = 5 - available := Nat.mod_eq_of_lt (by omega)
  have hword : (word <<< (5 - available).toUInt32).toNat = word.toNat <<< (5 - available) % 2 ^ 32 := by
    rw [UInt32.toNat_shiftLeft, hsmall, Nat.mod_eq_of_lt (show 5 - available < 32 by omega)]
  have hsplit : ∀ x, lowBits 5 x = lowBits available (x >>> (5 - available)) ++ lowBits (5 - available) x := by
    intro x
    rw [← lowBits_add]
    exact congrArg (lowBits · x) (by omega)
  have hhigh : lowBits available ((word.toNat <<< (5 - available) % 2 ^ 32) >>> (5 - available)) =
      lowBits available word.toNat := by
    refine lowBits_congr fun i hi => ?_
    have hin : 5 - available + i < 32 := by omega
    rw [Nat.testBit_shiftRight, Nat.testBit_mod_two_pow, Nat.testBit_shiftLeft, Nat.add_sub_cancel_left]
    simp [hin]
  have hlow : lowBits (5 - available) (word.toNat <<< (5 - available) % 2 ^ 32) = List.replicate (5 - available) false := by
    have hzero : lowBits (5 - available) (word.toNat <<< (5 - available) % 2 ^ 32) = lowBits (5 - available) 0 := by
      refine lowBits_congr fun i hi => ?_
      have hout : ¬ 5 - available ≤ i := by omega
      rw [Nat.testBit_mod_two_pow, Nat.testBit_shiftLeft]
      simp [hout]
    rw [hzero]
    induction 5 - available with
    | zero => rfl
    | succ n ih => rw [lowBits, List.replicate_succ, ih, Nat.zero_testBit]
  rw [letter_eq, hword, hsplit, hhigh, hlow]

theorem privateToken_eq (hmac : Hmac) (key : Bytes) (d : Detection) :
    privateToken hmac key d = (hmac key (tokenInput d)).map fun digest => base32 (digest.toList.take 12) := by
  unfold privateToken
  refine congrArg (fun f => Option.map f _) (funext fun digest => ?_)
  have htake : (digest.toList.take 12).length = 12 := by simp
  obtain ⟨hfive, htotal⟩ := foldl_push_length (digest.toList.take 12) {} (by decide)
  have hreads := foldl_push_reads (digest.toList.take 12) (show ({} : Base32).available < 5 by decide) reads_empty
  rw [htake] at htotal
  rw [List.nil_append] at hreads
  generalize (digest.toList.take 12).foldl (Base32.push fun _ => true) {} = s at *
  simp only [List.length_nil] at htotal
  have hone : s.available = 1 := by omega
  obtain ⟨qs, hqs, hout, hbits⟩ := hreads
  have hrest : lowBits s.available s.bits.toNat ≠ [] := by
    rw [← List.length_pos_iff, length_lowBits, hone]
    decide
  have hfew : (lowBits s.available s.bits.toNat).length < 5 := by
    rw [length_lowBits]
    exact hfive
  have hsome : (s.available != 0) = true := by simp [hone]
  unfold base32 encode
  rw [hbits, quintets_flatten hqs, quintets_short hrest hfew, List.map_append, ← hout, length_lowBits]
  simp only [hsome, if_true, lastLetter_eq s.bits hfive]
  rfl

/-! ## The identifier of an exported row -/

/-- The loop stops at twenty letters, before the digest is used up. -/
theorem exportLetters_base32 (bytes : Bytes) {s : Base32} {bits : List Bool} (hreads : s.Reads bits)
    (hlen : s.out.length < 20) (hfive : s.available < 5)
    (henough : 100 ≤ 5 * s.out.length + s.available + 8 * bytes.length) :
    (exportLetters bytes s).out = ((quintets (bits ++ octets bytes)).map fun q => letterOf (number q)).take 20 := by
  induction bytes generalizing s bits with
  | nil =>
    rw [List.length_nil] at henough
    omega
  | cons b bytes ih =>
    obtain ⟨hsum, hstop⟩ := drain_length (fun k => decide (k < 20)) (s.bits <<< 8 ||| b.toUInt32)
      (s.available + 8) (s.available + 8) s.out (Nat.le_refl _)
    have hnext := push_reads (fun k => decide (k < 20)) b (by omega) hreads
    have hle : (s.push (fun k => decide (k < 20)) b).out.length ≤ 20 :=
      drain_length_le 20 (s.bits <<< 8 ||| b.toUInt32) (s.available + 8) (s.available + 8) s.out (Nat.le_of_lt hlen)
    have hbits : bits ++ octets (b :: bytes) = bits ++ lowBits 8 b.toNat ++ octets bytes := by
      rw [octets, List.flatMap_cons, List.append_assoc]
      rfl
    change 5 * (s.push (fun k => decide (k < 20)) b).out.length + (s.push (fun k => decide (k < 20)) b).available =
      5 * s.out.length + (s.available + 8) at hsum
    change (s.push (fun k => decide (k < 20)) b).available < 5 ∨
      decide ((s.push (fun k => decide (k < 20)) b).out.length < 20) = false at hstop
    unfold exportLetters
    dsimp only
    rw [hbits]
    split
    · rename_i htwenty
      obtain ⟨qs, hqs, hout, hread⟩ := hnext
      rw [beq_iff_eq, hout, List.length_map] at htwenty
      rw [hread, List.append_assoc, quintets_flatten hqs, List.map_append, List.take_left' (by
        rw [List.length_map]
        exact htwenty)]
      exact hout
    · rename_i hmore
      have hless : (s.push (fun k => decide (k < 20)) b).out.length < 20 := by
        have hne : (s.push (fun k => decide (k < 20)) b).out.length ≠ 20 := by simpa using hmore
        omega
      have hrest : (s.push (fun k => decide (k < 20)) b).available < 5 := by
        rcases hstop with hlt | hfull
        · exact hlt
        · exact absurd hless (by simpa using hfull)
      rw [List.length_cons] at henough
      exact ih hnext hless hrest (by omega)

theorem exportId_base32 (id : Bytes) (digest : Digest) : exportId id digest = (base32 digest.toList).take 20 := by
  have hletters := exportLetters_spec digest.toList {} (by simp) (by decide) (by decide) (by simp)
  have hid : exportId id digest = (exportLetters digest.toList {}).out := by
    rw [exportId, List.take_left' hletters.1]
  rw [hid]
  exact exportLetters_base32 digest.toList reads_empty (by decide) (by decide) (by simp)

/-! ## Both copies -/

/-- Letters and a terminator that fit in twenty-one bytes. -/
def FitsToken (s : Bytes) : Prop := IsToken s ∧ (s ++ [0]).length = 21

theorem fitsToken {s : Bytes} (h : IsToken s) : FitsToken s := by
  refine ⟨h, ?_⟩
  rw [List.length_append, h.1]
  rfl

theorem base32_isToken (digest : Digest) : IsToken (base32 (digest.toList.take 12)) := by
  have htoken := privateToken_eq (fun _ _ => some digest) [] {}
  exact privateToken_isToken htoken

/-- Both copies write base32 letters, and a token says the first 96 bits of its digest. -/
theorem tokens_base32 :
    (∀ hmac key d, privateToken hmac key d =
      (hmac key (tokenInput d)).map fun digest => base32 (digest.toList.take 12)) ∧
    (∀ id digest, exportId id digest = (base32 digest.toList).take 20) ∧
    (∀ digest : Digest, FitsToken (base32 (digest.toList.take 12)) ∧ FitsToken ((base32 digest.toList).take 20)) ∧
    ∀ a b : Digest, base32 (a.toList.take 12) = base32 (b.toList.take 12) ↔ a.toList.take 12 = b.toList.take 12 := by
  refine ⟨privateToken_eq, exportId_base32, fun digest => ⟨fitsToken (base32_isToken digest), ?_⟩, fun a b => ⟨?_, ?_⟩⟩
  · rw [← exportId_base32 [] digest]
    exact fitsToken (exportId_isToken [] digest)
  · exact encode_injective letterOf_injective (by simp)
  · intro h
    rw [h]

end Hound
