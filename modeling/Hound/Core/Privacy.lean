import Hound.Core.Types

/-!
# Tokens

`private_token` of `privacy.cpp` and the loop that turns a digest into base32
letters, which `export_log_record` repeats. HMAC-SHA-256 is the platform's: a
parameter that may fail.
-/

namespace Hound

abbrev Digest := Vector UInt8 32

/-- `hmac_sha256(key, input, out)`, `none` where it returns false. -/
abbrev Hmac := Bytes → Bytes → Option Digest

/-- `alphabet[]`. -/
def alphabet : Bytes := ascii "ABCDEFGHIJKLMNOPQRSTUVWXYZ234567"

def letter (bits : UInt32) : UInt8 := alphabet.getD (bits &&& 31).toNat 0

/-- The inner `while`: a letter for every five bits. Each round uses some of
`available`, so as many rounds as bits are enough. -/
def drain (room : Nat → Bool) (bits : UInt32) : Nat → Nat → Bytes → Nat × Bytes
  | 0, available, out => (available, out)
  | fuel + 1, available, out =>
      if 5 ≤ available && room out.length then
        drain room bits fuel (available - 5) (out ++ [letter (bits >>> (available - 5).toUInt32)])
      else (available, out)

structure Base32 where
  bits : UInt32 := 0
  available : Nat := 0
  out : Bytes := []

def Base32.push (room : Nat → Bool) (s : Base32) (b : UInt8) : Base32 :=
  let bits := s.bits <<< 8 ||| b.toUInt32
  let (available, out) := drain room bits (s.available + 8) (s.available + 8) s.out
  { bits, available, out }

/-- `samsung_input`. -/
def samsungInput (d : Detection) (purpose : UInt8) : Bytes :=
  [83, 72, 1, purpose, 7] ++ d.samsung.id.toList

def radioCode : Radio → UInt8
  | .Wifi => 0
  | .Ble => 1

def privateToken (hmac : Hmac) (key : Bytes) (d : Detection) : Option Bytes :=
  let input := if samsungIdentity d then samsungInput d 1
    else d.address.toList ++ [radioCode d.radio, d.addressType]
  (hmac key input).map fun digest =>
    let s := (digest.toList.take 12).foldl (Base32.push fun _ => true) {}
    if s.available != 0 then s.out ++ [letter (s.bits <<< (5 - s.available).toUInt32)] else s.out

/-- `digest_hash`: the first eight bytes, never zero where the digest succeeded. -/
def digestHash (hmac : Hmac) (key input : Bytes) : UInt64 :=
  match hmac key input with
  | none => 0
  | some digest =>
    let value := (digest.toList.take 8).foldl (fun (value : UInt64) b => value <<< 8 ||| b.toUInt64) 0
    if value != 0 then value else 1

def addressHash (hmac : Hmac) (key : Bytes) (d : Detection) : UInt64 :=
  digestHash hmac key (d.address.toList ++ [radioCode d.radio, d.addressType, d.category.code.toUInt8])

def mealHash (hmac : Hmac) (key : Bytes) (d : Detection) : UInt64 :=
  if samsungIdentity d then digestHash hmac key (samsungInput d 2) else addressHash hmac key d

/-! ## What the letters are -/

def IsToken (s : Bytes) : Prop := s.length = 20 ∧ ∀ c ∈ s, c ∈ alphabet

def lowerHexDigits : Bytes := ascii "0123456789abcdef"

/-- A session ID: sixteen bytes as `%02x`. -/
def IsSession (s : Bytes) : Prop := s.length = 32 ∧ ∀ c ∈ s, c ∈ lowerHexDigits

instance (s : Bytes) : Decidable (IsToken s) :=
  decidable_of_iff (s.length = 20 ∧ s.all alphabet.contains = true)
    (by simp [IsToken, List.all_eq_true])

instance (s : Bytes) : Decidable (IsSession s) :=
  decidable_of_iff (s.length = 32 ∧ s.all lowerHexDigits.contains = true)
    (by simp [IsSession, List.all_eq_true])

theorem letter_mem (bits : UInt32) : letter bits ∈ alphabet := by
  have hlt : (bits &&& 31).toNat < 32 := by
    rw [UInt32.toNat_and]
    exact Nat.lt_of_le_of_lt Nat.and_le_right (by decide)
  have hall : ∀ n < 32, alphabet.getD n 0 ∈ alphabet := by decide
  exact hall _ hlt

theorem drain_letters (room : Nat → Bool) (bits : UInt32) (fuel available : Nat) {out : Bytes}
    (h : ∀ c ∈ out, c ∈ alphabet) : ∀ c ∈ (drain room bits fuel available out).2, c ∈ alphabet := by
  induction fuel generalizing available out with
  | zero => exact h
  | succ fuel ih =>
    unfold drain
    split
    · refine ih _ fun c hc => ?_
      rcases List.mem_append.mp hc with hc | hc
      · exact h c hc
      · rw [List.mem_singleton.mp hc]
        exact letter_mem _
    · exact h

/-- Every bit taken is in a letter, and the loop stops for one of its two reasons. -/
theorem drain_length (room : Nat → Bool) (bits : UInt32) (fuel available : Nat) (out : Bytes)
    (hfuel : available ≤ fuel) :
    5 * (drain room bits fuel available out).2.length + (drain room bits fuel available out).1 =
      5 * out.length + available ∧
    ((drain room bits fuel available out).1 < 5 ∨
      room (drain room bits fuel available out).2.length = false) := by
  induction fuel generalizing available out with
  | zero =>
    have hzero : available = 0 := by omega
    simp [drain, hzero]
  | succ fuel ih =>
    unfold drain
    split
    · rename_i hgo
      simp only [Bool.and_eq_true, decide_eq_true_eq] at hgo
      obtain ⟨hsum, hstop⟩ := ih (available - 5)
        (out ++ [letter (bits >>> (available - 5).toUInt32)]) (by omega)
      refine ⟨?_, hstop⟩
      rw [hsum, List.length_append, List.length_singleton]
      omega
    · rename_i hstop
      refine ⟨rfl, ?_⟩
      simp only [Bool.and_eq_true, decide_eq_true_eq, not_and] at hstop
      by_cases hfive : 5 ≤ available
      · exact .inr (Bool.eq_false_of_not_eq_true (hstop hfive))
      · exact .inl (by omega)

theorem push_letters (room : Nat → Bool) (s : Base32) (b : UInt8) (h : ∀ c ∈ s.out, c ∈ alphabet) :
    ∀ c ∈ (s.push room b).out, c ∈ alphabet :=
  drain_letters room (s.bits <<< 8 ||| b.toUInt32) (s.available + 8) (s.available + 8) h

theorem foldl_push_letters (room : Nat → Bool) (bytes : Bytes) (s : Base32)
    (h : ∀ c ∈ s.out, c ∈ alphabet) : ∀ c ∈ (bytes.foldl (Base32.push room) s).out, c ∈ alphabet := by
  induction bytes generalizing s with
  | nil => exact h
  | cons b bytes ih => exact ih _ (push_letters room s b h)

/-- Without a bound on the letters, fewer than five bits are ever left over. -/
theorem foldl_push_length (bytes : Bytes) (s : Base32) (h : s.available < 5) :
    (bytes.foldl (Base32.push fun _ => true) s).available < 5 ∧
      5 * (bytes.foldl (Base32.push fun _ => true) s).out.length +
        (bytes.foldl (Base32.push fun _ => true) s).available =
      5 * s.out.length + s.available + 8 * bytes.length := by
  induction bytes generalizing s with
  | nil => exact ⟨h, rfl⟩
  | cons b bytes ih =>
    obtain ⟨hsum, hstop⟩ := drain_length (fun _ => true) (s.bits <<< 8 ||| b.toUInt32)
      (s.available + 8) (s.available + 8) s.out (Nat.le_refl _)
    have hfive : (s.push (fun _ => true) b).available < 5 := by
      rcases hstop with hlt | hfalse
      · exact hlt
      · exact absurd hfalse (by decide)
    obtain ⟨hlast, htotal⟩ := ih (s.push (fun _ => true) b) hfive
    refine ⟨hlast, ?_⟩
    have hone : 5 * (s.push (fun _ => true) b).out.length + (s.push (fun _ => true) b).available =
        5 * s.out.length + (s.available + 8) := hsum
    rw [List.foldl_cons, htotal, List.length_cons]
    omega

theorem privateToken_isToken {hmac : Hmac} {key : Bytes} {d : Detection} {token : Bytes}
    (h : privateToken hmac key d = some token) : IsToken token := by
  unfold privateToken at h
  obtain ⟨digest, -, rfl⟩ := Option.map_eq_some_iff.mp h
  have htake : (digest.toList.take 12).length = 12 := by simp
  obtain ⟨hfive, htotal⟩ := foldl_push_length (digest.toList.take 12) {} (by decide)
  have hletters := foldl_push_letters (fun _ => true) (digest.toList.take 12) {} (by simp)
  rw [htake] at htotal
  generalize (digest.toList.take 12).foldl (Base32.push fun _ => true) {} = s at *
  simp only [List.length_nil] at htotal
  have hone : s.available = 1 := by omega
  have hlen : s.out.length = 19 := by omega
  have hsome : (s.available != 0) = true := by simp [hone]
  simp only [hsome, if_true]
  refine ⟨by simp [hlen], fun c hc => ?_⟩
  rcases List.mem_append.mp hc with hc | hc
  · exact hletters c hc
  · rw [List.mem_singleton.mp hc]
    exact letter_mem _

end Hound
