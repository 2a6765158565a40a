import Mathlib

/-!
# Memory layouts

A layout says how a value of a fixed-size record lies in memory: how many bytes
it takes, how it is written and how it is read back. Reading ignores padding
and whatever follows the record. Records are built from words, padding, arrays
and sequencing, and every layout carries the proof of its own round trip.
-/

/-! ## Little-endian words -/

/-- The `n` low bytes of `v`, least significant first. -/
def littleEndian : Nat → Nat → List UInt8
  | 0, _ => []
  | n + 1, v => UInt8.ofNat v :: littleEndian n (v / 256)

/-- The number the first `n` bytes spell; absent bytes count as zero. -/
def fromLittleEndian : Nat → List UInt8 → Nat
  | 0, _ => 0
  | n + 1, bytes => (bytes.headD 0).toNat + 256 * fromLittleEndian n bytes.tail

@[simp] theorem length_littleEndian (n v : Nat) : (littleEndian n v).length = n := by
  induction n generalizing v with
  | zero => rfl
  | succ n ih => simp [littleEndian, ih]

theorem fromLittleEndian_littleEndian (n v : Nat) (rest : List UInt8) :
    fromLittleEndian n (littleEndian n v ++ rest) = v % 256 ^ n := by
  induction n generalizing v with
  | zero => simp [fromLittleEndian, Nat.mod_one]
  | succ n ih =>
    have hsplit : v % 256 ^ (n + 1) = v % 256 + 256 * (v / 256 % 256 ^ n) := by
      rw [pow_succ', Nat.mod_mul]
    simp only [littleEndian, fromLittleEndian, List.cons_append, List.headD_cons, List.tail_cons]
    rw [ih, hsplit]
    simp

theorem fromLittleEndian_lt (n : Nat) (bytes : List UInt8) :
    fromLittleEndian n bytes < 256 ^ n := by
  induction n generalizing bytes with
  | zero => simp [fromLittleEndian]
  | succ n ih =>
    have hbyte := (bytes.headD 0).toNat_lt
    have hrest := ih bytes.tail
    rw [pow_succ']
    simp only [fromLittleEndian]
    omega

/-! ## Layouts -/

structure Layout (α : Type) where
  size : Nat
  write : α → List UInt8
  read : List UInt8 → α
  length_write : ∀ a, (write a).length = size
  read_write : ∀ a rest, read (write a ++ rest) = a

namespace Layout

variable {α β : Type}

theorem read_write_self (l : Layout α) (a : α) : l.read (l.write a) = a := by
  simpa using l.read_write a []

def u8 : Layout UInt8 where
  size := 1
  write a := [a]
  read bytes := bytes.headD 0
  length_write _ := rfl
  read_write _ _ := rfl

def i8 : Layout Int8 where
  size := 1
  write a := [a.toUInt8]
  read bytes := (bytes.headD 0).toInt8
  length_write _ := rfl
  read_write a rest := by simp

def u16 : Layout UInt16 where
  size := 2
  write a := littleEndian 2 a.toNat
  read bytes := UInt16.ofNat (fromLittleEndian 2 bytes)
  length_write _ := length_littleEndian _ _
  read_write a rest := by
    have h : a.toNat % 256 ^ 2 = a.toNat := Nat.mod_eq_of_lt a.toNat_lt
    rw [fromLittleEndian_littleEndian, h, UInt16.ofNat_toNat]

def u32 : Layout UInt32 where
  size := 4
  write a := littleEndian 4 a.toNat
  read bytes := UInt32.ofNat (fromLittleEndian 4 bytes)
  length_write _ := length_littleEndian _ _
  read_write a rest := by
    have h : a.toNat % 256 ^ 4 = a.toNat := Nat.mod_eq_of_lt a.toNat_lt
    rw [fromLittleEndian_littleEndian, h, UInt32.ofNat_toNat]

def u64 : Layout UInt64 where
  size := 8
  write a := littleEndian 8 a.toNat
  read bytes := UInt64.ofNat (fromLittleEndian 8 bytes)
  length_write _ := length_littleEndian _ _
  read_write a rest := by
    have h : a.toNat % 256 ^ 8 = a.toNat := Nat.mod_eq_of_lt a.toNat_lt
    rw [fromLittleEndian_littleEndian, h, UInt64.ofNat_toNat]

/-- One field after another. -/
def seq (a : Layout α) (b : Layout β) : Layout (α × β) where
  size := a.size + b.size
  write v := a.write v.1 ++ b.write v.2
  read bytes := (a.read bytes, b.read (bytes.drop a.size))
  length_write v := by simp [a.length_write, b.length_write]
  read_write v rest := by
    have hdrop : (a.write v.1 ++ (b.write v.2 ++ rest)).drop a.size = b.write v.2 ++ rest :=
      List.drop_left' (a.length_write v.1)
    rw [List.append_assoc, a.read_write, hdrop, b.read_write]

/-- `n` unused bytes after a field. -/
def padded (a : Layout α) (n : Nat) : Layout α where
  size := a.size + n
  write v := a.write v ++ List.replicate n 0
  read := a.read
  length_write v := by simp [a.length_write]
  read_write v rest := by rw [List.append_assoc, a.read_write]

/-- The record whose fields lie as `a` says. -/
def record (a : Layout α) (fields : β → α) (build : α → β) (h : ∀ b, build (fields b) = b) :
    Layout β where
  size := a.size
  write v := a.write (fields v)
  read bytes := build (a.read bytes)
  length_write v := a.length_write (fields v)
  read_write v rest := by rw [a.read_write, h]

/-! ## Arrays -/

theorem length_flatMap_write (a : Layout α) (vs : List α) :
    (vs.flatMap a.write).length = vs.length * a.size := by
  induction vs with
  | nil => simp
  | cons v vs ih => simp [ih, a.length_write, Nat.add_mul, Nat.add_comm]

theorem read_drop_flatMap (a : Layout α) (vs : List α) (rest : List UInt8) (i : Nat)
    (h : i < vs.length) :
    a.read ((vs.flatMap a.write ++ rest).drop (i * a.size)) = vs[i] := by
  induction vs generalizing i with
  | nil => exact absurd h (Nat.not_lt_zero i)
  | cons v vs ih =>
    cases i with
    | zero => simp [List.append_assoc, a.read_write]
    | succ i =>
      have hdrop : ((v :: vs).flatMap a.write ++ rest).drop ((i + 1) * a.size) =
          (vs.flatMap a.write ++ rest).drop (i * a.size) := by
        rw [List.flatMap_cons, List.append_assoc, Nat.add_mul, Nat.one_mul, Nat.add_comm,
          ← List.drop_drop, List.drop_left' (a.length_write v)]
      rw [hdrop, ih i (Nat.lt_of_succ_lt_succ h)]
      rfl

def array (n : Nat) (a : Layout α) : Layout (Vector α n) where
  size := n * a.size
  write v := v.toList.flatMap a.write
  read bytes := Vector.ofFn fun i => a.read (bytes.drop (i * a.size))
  length_write v := by rw [length_flatMap_write, Vector.length_toList]
  read_write v rest := by
    ext i hi
    have h := read_drop_flatMap a v.toList rest i (by simpa using hi)
    simpa using h

/-! ## Layouts without padding

Such a layout writes back what it read, so no two images hold the same value. -/

def Canonical (l : Layout α) : Prop := ∀ bytes, l.size ≤ bytes.length → l.write (l.read bytes) = bytes.take l.size

theorem u8_canonical : Canonical u8 := by
  intro bytes h
  cases bytes with
  | nil => exact absurd h (by decide)
  | cons b bytes => rfl

theorem littleEndian_fromLittleEndian (n : Nat) (bytes : List UInt8) (h : n ≤ bytes.length) :
    littleEndian n (fromLittleEndian n bytes) = bytes.take n := by
  induction n generalizing bytes with
  | zero => rfl
  | succ n ih =>
    cases bytes with
    | nil => exact absurd h (Nat.not_succ_le_zero n)
    | cons b bytes =>
      have hbyte := b.toNat_lt
      have hrest : (b.toNat + 256 * fromLittleEndian n bytes) / 256 = fromLittleEndian n bytes := by omega
      have hlow : UInt8.ofNat (b.toNat + 256 * fromLittleEndian n bytes) = b := by
        rw [← UInt8.toNat_inj, UInt8.toNat_ofNat']
        omega
      simp only [littleEndian, fromLittleEndian, List.headD_cons, List.tail_cons, List.take_succ_cons]
      rw [hrest, hlow, ih bytes (Nat.le_of_succ_le_succ h)]

theorem u64_canonical : Canonical u64 := by
  intro bytes h
  have hfits : (UInt64.ofNat (fromLittleEndian 8 bytes)).toNat = fromLittleEndian 8 bytes :=
    Nat.mod_eq_of_lt (fromLittleEndian_lt 8 bytes)
  change littleEndian 8 (UInt64.ofNat (fromLittleEndian 8 bytes)).toNat = bytes.take 8
  rw [hfits]
  exact littleEndian_fromLittleEndian 8 bytes h

theorem Canonical.seq {a : Layout α} {b : Layout β} (ha : a.Canonical) (hb : b.Canonical) :
    (a.seq b).Canonical := by
  intro bytes h
  have hsize : a.size + b.size ≤ bytes.length := h
  have hrest : b.size ≤ (bytes.drop a.size).length := by
    rw [List.length_drop]
    omega
  change a.write (a.read bytes) ++ b.write (b.read (bytes.drop a.size)) = bytes.take (a.size + b.size)
  rw [ha bytes (by omega), hb _ hrest, List.take_add]

/-- A record keeps it when its fields determine it. -/
theorem Canonical.record {a : Layout α} (ha : a.Canonical) {fields : β → α} {build : α → β}
    (h : ∀ b, build (fields b) = b) (hback : ∀ v, fields (build v) = v) :
    (a.record fields build h).Canonical := by
  intro bytes hsize
  change a.write (fields (build (a.read bytes))) = bytes.take a.size
  rw [hback]
  exact ha bytes hsize

theorem Canonical.entries {a : Layout α} (ha : a.Canonical) (bytes : List UInt8) {n : Nat}
    (h : n * a.size ≤ bytes.length) :
    ((List.range n).flatMap fun i => a.write (a.read (bytes.drop (i * a.size)))) = bytes.take (n * a.size) := by
  induction n with
  | zero => simp
  | succ n ih =>
    rw [Nat.add_mul, Nat.one_mul] at h ⊢
    have hlast : a.size ≤ (bytes.drop (n * a.size)).length := by
      rw [List.length_drop]
      omega
    rw [List.range_succ, List.flatMap_append, List.flatMap_singleton, ih (by omega), ha _ hlast, List.take_add]

theorem Canonical.array {a : Layout α} (ha : a.Canonical) (n : Nat) : (array n a).Canonical := by
  intro bytes hsize
  have hentries : (Vector.ofFn fun i : Fin n => a.read (bytes.drop (i * a.size))).toList.flatMap a.write =
      (List.range n).flatMap fun i => a.write (a.read (bytes.drop (i * a.size))) := by
    rw [Vector.toList_ofFn, List.ofFn_eq_map, List.flatMap_map, ← List.map_coe_finRange_eq_range, List.flatMap_map]
  exact hentries.trans (ha.entries bytes hsize)

end Layout
