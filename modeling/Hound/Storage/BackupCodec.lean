import Hound.Core.Matches
import Hound.Storage.BackupSafety

/-!
# The image of an ignore list

The loops of `decode` and `backup_ignores`, offset by offset. Both are the layout
of `contents`, which has no padding, so the format is canonical.
-/

namespace Hound

namespace IgnoreBackup

/-! ## Writing at offsets -/

/-- `std::copy` to an offset of a buffer. -/
def splice (buffer : Bytes) (offset : Nat) (chunk : Bytes) : Bytes :=
  buffer.take offset ++ (chunk ++ buffer.drop (offset + chunk.length))

/-- A zeroed buffer whose start has been written. -/
def filled (size : Nat) (done : Bytes) : Bytes := done ++ List.replicate (size - done.length) 0

/-- Writing right behind what was written extends it. -/
theorem splice_filled {size offset : Nat} {done chunk : Bytes} (hoffset : done.length = offset) :
    splice (filled size done) offset chunk = filled size (done ++ chunk) := by
  unfold splice filled
  rw [List.take_left' hoffset, ← hoffset, ← List.drop_drop, List.drop_left, List.drop_replicate,
    List.append_assoc, List.length_append, Nat.sub_sub]

theorem filled_full {size : Nat} {done : Bytes} (h : done.length = size) : filled size done = done := by
  unfold filled
  rw [h, Nat.sub_self, List.replicate_zero, List.append_nil]

theorem take_filled {size count : Nat} {done : Bytes} (h : done.length = count) :
    (filled size done).take count = done := List.take_left' h

/-! ## Encoding -/

/-- `bytes[8 + i] = uint8_t(gen >> (i * 8))`. -/
def writeGeneration (gen : UInt64) (bytes : Bytes) : Bytes :=
  (List.range 8).foldl (fun bytes i => splice bytes (8 + i) [(gen >>> (i * 8).toUInt64).toUInt8]) bytes

/-- The loop over the entries, from entry `i` on. -/
def writeEntries (bytes : Bytes) (i : Nat) : List IgnoredScent → Bytes
  | [] => bytes
  | entry :: entries =>
      writeEntries (splice (splice bytes (16 + i * 9) entry.digest.toList) (24 + i * 9) [entry.category])
        (i + 1) entries

/-- `bytes` of `backup_ignores` before it is signed. -/
def unsigned (list : IgnoreList) (gen : UInt64) : Bytes :=
  writeEntries (writeGeneration gen (splice (List.replicate ignoreBackupBytes 0) 0 magic)) 0 list.toList

/-- The image, `none` where `hmac_sha256` fails. -/
def encode (hmac : Hmac) (key : Bytes) (list : IgnoreList) (gen : UInt64) : Option Bytes :=
  (hmac key ((unsigned list gen).take signedSize)).map fun mac => splice (unsigned list gen) signedSize mac.toList

/-! ## Decoding -/

/-- `difference`. -/
def macDifference (mac : Digest) (bytes : Bytes) : UInt8 :=
  (List.finRange 32).foldl (fun difference i => difference ||| (mac.get i ^^^ byteAt bytes (signedSize + i))) 0

/-- `gen |= uint64_t(bytes[8 + i]) << (8 * i)`. -/
def readGeneration (bytes : Bytes) : UInt64 :=
  (List.range 8).foldl (fun gen i => gen ||| (byteAt bytes (8 + i)).toUInt64 <<< (8 * i).toUInt64) 0

def readEntries (bytes : Bytes) : IgnoreList :=
  Vector.ofFn fun i =>
    { digest := Vector.ofFn fun k => byteAt bytes (16 + i * 9 + k)
      category := byteAt bytes (24 + i * 9) }

/-- `decode` by its offsets. -/
def decodeBytes (hmac : Hmac) (key bytes : Bytes) : Option (IgnoreList × UInt64) :=
  if !keyOk key || bytes.take 8 != magic then none
  else
    match hmac key (bytes.take signedSize) with
    | none => none
    | some mac =>
      if macDifference mac bytes != 0 then none
      else if readGeneration bytes == 0 then none
      else if !validIgnores (readEntries bytes) then none
      else some (readEntries bytes, readGeneration bytes)

/-! ## The encoder writes the layout -/

theorem byte_shiftRight (gen : UInt64) {i : Nat} (h : i < 8) :
    (gen >>> (i * 8).toUInt64).toUInt8 = UInt8.ofNat (gen.toNat / 256 ^ i) := by
  have hshift : (i * 8).toUInt64.toNat = i * 8 := Nat.mod_eq_of_lt (by omega)
  have hpow : 2 ^ (i * 8) = 256 ^ i := by rw [Nat.mul_comm, Nat.pow_mul]
  rw [← UInt8.toNat_inj, UInt64.toNat_toUInt8, UInt64.toNat_shiftRight, hshift, UInt8.toNat_ofNat',
    Nat.mod_eq_of_lt (show i * 8 < 64 by omega), Nat.shiftRight_eq_div_pow, hpow]

theorem littleEndian_eq (n v : Nat) :
    littleEndian n v = (List.range n).map fun i => UInt8.ofNat (v / 256 ^ i) := by
  induction n generalizing v with
  | zero => rfl
  | succ n ih =>
    have hnext : ∀ i, v / 256 / 256 ^ i = v / 256 ^ (i + 1) := by
      intro i
      rw [Nat.div_div_eq_div_mul, Nat.pow_succ']
    rw [List.range_succ_eq_map, List.map_cons, List.map_map, littleEndian, ih, Nat.pow_zero, Nat.div_one]
    refine congrArg (List.cons _) (List.map_congr_left fun i _ => ?_)
    rw [hnext]
    rfl

theorem writeGeneration_filled (gen : UInt64) {done : Bytes} (h : done.length = 8) :
    writeGeneration gen (filled ignoreBackupBytes done) =
      filled ignoreBackupBytes (done ++ Layout.u64.write gen) := by
  have hloop : ∀ n, (List.range n).foldl
      (fun bytes i => splice bytes (8 + i) [(gen >>> (i * 8).toUInt64).toUInt8]) (filled ignoreBackupBytes done) =
        filled ignoreBackupBytes (done ++ (List.range n).map fun i => (gen >>> (i * 8).toUInt64).toUInt8) := by
    intro n
    induction n with
    | zero => simp
    | succ n ih =>
      rw [List.range_succ, List.foldl_append, ih, List.foldl_cons, List.foldl_nil,
        splice_filled (by simp [h]), List.map_append, List.append_assoc]
      rfl
  have hbytes : ((List.range 8).map fun i => (gen >>> (i * 8).toUInt64).toUInt8) = littleEndian 8 gen.toNat := by
    rw [littleEndian_eq]
    exact List.map_congr_left fun i hi => byte_shiftRight gen (List.mem_range.mp hi)
  unfold writeGeneration
  rw [hloop, hbytes]
  rfl

theorem write_digest (digest : Vector UInt8 8) : (Layouts.bytes 8).write digest = digest.toList :=
  List.flatMap_singleton' _

theorem writeEntries_filled (entries : List IgnoredScent) {i : Nat} {done : Bytes} (h : done.length = 16 + i * 9) :
    writeEntries (filled ignoreBackupBytes done) i entries =
      filled ignoreBackupBytes (done ++ entries.flatMap Layouts.ignored.write) := by
  induction entries generalizing i done with
  | nil => simp [writeEntries]
  | cons entry entries ih =>
    have hdigest : (done ++ entry.digest.toList).length = 24 + i * 9 := by
      rw [List.length_append, Vector.length_toList]
      omega
    have hentry : Layouts.ignored.write entry = entry.digest.toList ++ [entry.category] :=
      congrArg (· ++ [entry.category]) (write_digest entry.digest)
    rw [writeEntries, splice_filled h, splice_filled hdigest]
    have hnext : (done ++ entry.digest.toList ++ [entry.category]).length = 16 + (i + 1) * 9 := by
      rw [List.length_append, hdigest, List.length_singleton]
      omega
    rw [ih hnext, List.flatMap_cons, hentry]
    simp only [List.append_assoc]

theorem unsigned_eq (list : IgnoreList) (gen : UInt64) :
    unsigned list gen = filled ignoreBackupBytes (magic ++ contents.write (gen, list)) := by
  have hzero : List.replicate ignoreBackupBytes (0 : UInt8) = filled ignoreBackupBytes [] := rfl
  have hstart : splice (filled ignoreBackupBytes []) 0 magic = filled ignoreBackupBytes ([] ++ magic) :=
    splice_filled List.length_nil
  have hhead : (magic ++ Layout.u64.write gen).length = 16 := by
    rw [List.length_append, Layout.u64.length_write]
    rfl
  unfold unsigned
  rw [hzero, hstart, List.nil_append, writeGeneration_filled gen rfl, writeEntries_filled _ hhead]
  rw [List.append_assoc]
  rfl

theorem length_signed (list : IgnoreList) (gen : UInt64) :
    (magic ++ contents.write (gen, list)).length = signedSize := by
  rw [List.length_append, length_contents]
  rfl

theorem encode_eq (hmac : Hmac) (key : Bytes) (list : IgnoreList) (gen : UInt64) :
    encode hmac key list gen = (hmac key (magic ++ contents.write (gen, list))).map
      fun mac => magic ++ contents.write (gen, list) ++ mac.toList := by
  have hlength := length_signed list gen
  unfold encode
  rw [unsigned_eq, take_filled hlength]
  refine congrArg (fun f => Option.map f _) (funext fun mac => ?_)
  rw [splice_filled hlength, filled_full (length_image gen list mac)]

/-! ## The decoder reads the layout -/

theorem byteAt_drop (bytes : Bytes) (n i : Nat) : byteAt (bytes.drop n) i = byteAt bytes (n + i) := by
  simp [byteAt, List.getD_eq_getElem?_getD, List.getElem?_drop]

theorem fromLittleEndian_succ (n : Nat) (bytes : Bytes) :
    fromLittleEndian (n + 1) bytes = fromLittleEndian n bytes + (byteAt bytes n).toNat * 256 ^ n := by
  induction n generalizing bytes with
  | zero => cases bytes <;> simp [fromLittleEndian, byteAt]
  | succ n ih =>
    have htail : byteAt bytes.tail n = byteAt bytes (n + 1) := by
      cases bytes <;> simp [byteAt]
    rw [fromLittleEndian, ih bytes.tail, htail]
    conv_rhs => rw [fromLittleEndian]
    rw [Nat.pow_succ']
    ring

theorem readGeneration_eq (bytes : Bytes) : readGeneration bytes = Layout.u64.read (bytes.drop 8) := by
  have hloop : ∀ n, n ≤ 8 → ((List.range n).foldl
      (fun gen i => gen ||| (byteAt bytes (8 + i)).toUInt64 <<< (8 * i).toUInt64) (0 : UInt64)).toNat =
        fromLittleEndian n (bytes.drop 8) := by
    intro n hn
    induction n with
    | zero => rfl
    | succ n ih =>
      have hlow := fromLittleEndian_lt n (bytes.drop 8)
      have hpow : 2 ^ (8 * n) = 256 ^ n := Nat.pow_mul 2 8 n
      have hshift : (8 * n).toUInt64.toNat = 8 * n := Nat.mod_eq_of_lt (by omega)
      have hbyte : (byteAt bytes (8 + n)).toNat * 2 ^ (8 * n) < 2 ^ 64 := calc
        (byteAt bytes (8 + n)).toNat * 2 ^ (8 * n) < 2 ^ 8 * 2 ^ (8 * n) :=
          Nat.mul_lt_mul_of_pos_right (UInt8.toNat_lt _) (Nat.two_pow_pos _)
        _ = 2 ^ (8 + 8 * n) := (Nat.pow_add 2 8 (8 * n)).symm
        _ ≤ 2 ^ 64 := Nat.pow_le_pow_right (by decide) (by omega)
      have hmoved : ((byteAt bytes (8 + n)).toUInt64 <<< (8 * n).toUInt64).toNat =
          (byteAt bytes (8 + n)).toNat <<< (8 * n) := by
        rw [UInt64.toNat_shiftLeft, hshift, Nat.mod_eq_of_lt (show 8 * n < 64 by omega), UInt8.toNat_toUInt64]
        rw [Nat.shiftLeft_eq]
        exact Nat.mod_eq_of_lt hbyte
      -- the new byte lies above the bits read so far
      rw [List.range_succ, List.foldl_append, List.foldl_cons, List.foldl_nil, UInt64.toNat_or, ih (by omega),
        hmoved, Nat.or_comm, ← Nat.shiftLeft_add_eq_or_of_lt (by rw [hpow]; exact hlow), Nat.shiftLeft_eq, hpow,
        fromLittleEndian_succ, byteAt_drop, Nat.add_comm]
  rw [← UInt64.toNat_inj]
  exact (hloop 8 (Nat.le_refl 8)).trans (Nat.mod_eq_of_lt (fromLittleEndian_lt 8 _)).symm

theorem read_u8 (bytes : Bytes) (n : Nat) : Layout.u8.read (bytes.drop n) = byteAt bytes n := by
  change (bytes.drop n).headD 0 = _
  simp [byteAt, List.headD_eq_head?_getD, List.head?_drop, List.getD_eq_getElem?_getD]

theorem readEntries_eq (bytes : Bytes) :
    readEntries bytes = (Layout.array 64 Layouts.ignored).read ((bytes.drop 8).drop 8) := by
  have hentry : ∀ i : Fin 64, Layouts.ignored.read (((bytes.drop 8).drop 8).drop (i * 9)) =
      { digest := Vector.ofFn fun k : Fin 8 => byteAt bytes (16 + i * 9 + k), category := byteAt bytes (24 + i * 9) } := by
    intro i
    have hcategory : Layout.u8.read ((((bytes.drop 8).drop 8).drop (i * 9)).drop 8) = byteAt bytes (24 + i * 9) := by
      rw [List.drop_drop, List.drop_drop, List.drop_drop, read_u8]
      exact congrArg (byteAt bytes) (by omega)
    have hdigest : ∀ k : Fin 8, Layout.u8.read ((((bytes.drop 8).drop 8).drop (i * 9)).drop (k * 1)) =
        byteAt bytes (16 + i * 9 + k) := by
      intro k
      rw [List.drop_drop, List.drop_drop, List.drop_drop, read_u8]
      exact congrArg (byteAt bytes) (by omega)
    have hbytes : (Layouts.bytes 8).read (((bytes.drop 8).drop 8).drop (i * 9)) =
        Vector.ofFn fun k : Fin 8 => byteAt bytes (16 + i * 9 + k) :=
      congrArg Vector.ofFn (funext hdigest)
    change IgnoredScent.mk ((Layouts.bytes 8).read _) (Layout.u8.read _) = _
    rw [hbytes]
    exact congrArg (IgnoredScent.mk _) hcategory
  exact congrArg Vector.ofFn (funext fun i => (hentry i).symm)

/-- No bit of the stored MAC may differ. -/
theorem macDifference_eq_zero (mac : Digest) {bytes : Bytes} (h : bytes.length = ignoreBackupBytes) :
    macDifference mac bytes = 0 ↔ mac.toList = bytes.drop signedSize := by
  have hloop : ∀ (is : List (Fin 32)) (d : UInt8),
      is.foldl (fun difference i => difference ||| (mac.get i ^^^ byteAt bytes (signedSize + i))) d = 0 ↔
        d = 0 ∧ ∀ i ∈ is, mac.get i = byteAt bytes (signedSize + i) := by
    intro is
    induction is with
    | nil => simp
    | cons i is ih =>
      intro d
      rw [List.foldl_cons, ih, UInt8.or_eq_zero_iff, UInt8.xor_eq_zero_iff]
      simp [and_assoc]
  have hsize : (bytes.drop signedSize).length = 32 := by
    rw [List.length_drop, h]
    rfl
  unfold macDifference
  rw [hloop]
  constructor
  · rintro ⟨-, hall⟩
    refine List.ext_getElem (by rw [Vector.length_toList, hsize]) fun i hi hi' => ?_
    rw [hsize] at hi'
    have hbyte := hall ⟨i, hi'⟩ (List.mem_finRange _)
    have hin : signedSize + i < bytes.length := by
      rw [h]
      exact Nat.add_lt_add_left hi' signedSize
    have hstored : byteAt bytes (signedSize + i) = bytes[signedSize + i] := by
      simp [byteAt, List.getD_eq_getElem?_getD, List.getElem?_eq_getElem hin]
    rw [List.getElem_drop, ← hstored, ← hbyte, Vector.getElem_toList]
    rfl
  · intro heq
    refine ⟨rfl, fun i _ => ?_⟩
    have hget : byteAt mac.toList i = mac.get i := by
      simp [byteAt, List.getD_eq_getElem?_getD]
      rfl
    rw [← byteAt_drop, ← heq, hget]

theorem decodeBytes_eq (hmac : Hmac) (key : Bytes) {bytes : Bytes} (h : bytes.length = ignoreBackupBytes) :
    decodeBytes hmac key bytes = decode hmac key bytes := by
  have hread : contents.read (bytes.drop 8) = (readGeneration bytes, readEntries bytes) := by
    rw [readGeneration_eq, readEntries_eq]
    rfl
  unfold decodeBytes decode
  rw [hread]
  split
  · rfl
  · cases hmac key (bytes.take signedSize) with
    | none => rfl
    | some mac =>
      have hmac' : (macDifference mac bytes != 0) = (mac.toList != bytes.drop signedSize) := by
        rw [Bool.eq_iff_iff, bne_iff_ne, bne_iff_ne, Ne, macDifference_eq_zero mac h]
      simp only [hmac']

/-! ## The codec -/

theorem ignored_canonical : Layouts.ignored.Canonical :=
  ((Layout.u8_canonical.array 8).seq Layout.u8_canonical).record _ fun _ => rfl

theorem contents_canonical : contents.Canonical := Layout.u64_canonical.seq (ignored_canonical.array 64)

/-- What an accepted image passed, and so what it is. -/
theorem decode_eq_some {hmac : Hmac} {key bytes : Bytes} {list : IgnoreList} {gen : UInt64}
    (hlength : bytes.length = ignoreBackupBytes) (h : decode hmac key bytes = some (list, gen)) :
    validIgnores list = true ∧ ∃ mac, hmac key (magic ++ contents.write (gen, list)) = some mac ∧
      bytes = magic ++ contents.write (gen, list) ++ mac.toList := by
  unfold decode at h
  split at h
  · exact nomatch h
  rename_i hgo
  simp only [Bool.or_eq_true, Bool.not_eq_true', bne_iff_ne, ne_eq, not_or, Decidable.not_not] at hgo
  split at h
  · exact nomatch h
  rename_i mac hsigned
  split at h
  · exact nomatch h
  rename_i hmac'
  simp only [bne_iff_ne, ne_eq, Decidable.not_not] at hmac'
  simp only at h
  split at h
  · exact nomatch h
  split at h
  · exact nomatch h
  rename_i hlist
  simp only [Bool.not_eq_true', Bool.not_eq_false] at hlist
  obtain ⟨hl, hg⟩ := Prod.mk.inj (Option.some.inj h)
  have hread : contents.read (bytes.drop 8) = (gen, list) := Prod.ext hg hl
  -- the signed part is the magic and what was read behind it
  have hsize : contents.size ≤ (bytes.drop 8).length := by
    rw [List.length_drop, hlength]
    exact Nat.le_of_ble_eq_true rfl
  have hwritten := contents_canonical (bytes.drop 8) hsize
  have hsplit : signedSize = 8 + contents.size := rfl
  have hsignedPart : bytes.take signedSize = magic ++ contents.write (gen, list) := by
    rw [← hread, hwritten, ← hgo.2, hsplit, List.take_add]
  have hlist' : validIgnores list = true := by
    rw [← hl]
    exact hlist
  refine ⟨hlist', mac, ?_, ?_⟩
  · rw [← hsignedPart]
    exact hsigned
  · rw [← hsignedPart, hmac']
    exact (List.take_append_drop signedSize bytes).symm

/-- The image that `backup_ignores` builds is that of the list and the next generation. -/
theorem prepare_encode {hmac : Hmac} {key base : Bytes} {faults : Slot → ReadFault} {list : IgnoreList} {card : Card}
    {slot : Slot} {image : Bytes} (h : prepare hmac key base faults list card = .ok (slot, image)) :
    encode hmac key list ((latest hmac key base faults card).generation + 1) = some image := by
  unfold prepare at h
  split at h
  · exact nomatch h
  simp only at h
  split at h
  · exact nomatch h
  split at h
  · exact nomatch h
  split at h
  · exact nomatch h
  rename_i mac hsigned
  generalize (if (latest hmac key base faults card).slot == some 0 then (1 : Slot) else 0) = target at h
  split at h
  · exact nomatch h
  rw [encode_eq, hsigned]
  exact congrArg some (Prod.mk.inj (Except.ok.inj h)).2

/-- Encoder and decoder are inverse to each other on the lists, generations and images
they accept, and `backup_ignores` writes what the encoder builds. -/
theorem image_bijection (hmac : Hmac) (key : Bytes) (hkey : keyOk key = true) :
    (∀ list gen mac, validIgnores list = true → gen ≠ 0 →
      hmac key ((unsigned list gen).take signedSize) = some mac →
        ∃ image, encode hmac key list gen = some image ∧ image.length = ignoreBackupBytes ∧
          decodeBytes hmac key image = some (list, gen)) ∧
    (∀ image list gen, image.length = ignoreBackupBytes → decodeBytes hmac key image = some (list, gen) →
      validIgnores list = true ∧ gen ≠ 0 ∧ encode hmac key list gen = some image) ∧
    (∀ image image' v, image.length = ignoreBackupBytes → image'.length = ignoreBackupBytes →
      decodeBytes hmac key image = some v → decodeBytes hmac key image' = some v → image = image') ∧
    ∀ base faults list card slot image, prepare hmac key base faults list card = .ok (slot, image) →
      encode hmac key list ((latest hmac key base faults card).generation + 1) = some image := by
  have hback : ∀ image list gen, image.length = ignoreBackupBytes →
      decodeBytes hmac key image = some (list, gen) →
        validIgnores list = true ∧ gen ≠ 0 ∧ encode hmac key list gen = some image := by
    intro image list gen hlength h
    rw [decodeBytes_eq hmac key hlength] at h
    obtain ⟨hlist, mac, hsigned, himage⟩ := decode_eq_some hlength h
    refine ⟨hlist, (decode_generation hmac key h).1, ?_⟩
    rw [encode_eq, hsigned, himage]
    rfl
  refine ⟨?_, hback, ?_, fun base faults list card slot image => prepare_encode⟩
  · intro list gen mac hlist hgen hsigned
    rw [unsigned_eq, take_filled (length_signed list gen)] at hsigned
    have hlength := length_image gen list mac
    refine ⟨_, ?_, hlength, ?_⟩
    · rw [encode_eq, hsigned]
      rfl
    · rw [decodeBytes_eq hmac key hlength]
      exact decode_image hmac key hkey hgen hlist hsigned
  · rintro image image' ⟨list, gen⟩ hlength hlength' h h'
    have hencoded := (hback image list gen hlength h).2.2
    rw [(hback image' list gen hlength' h').2.2] at hencoded
    exact (Option.some.inj hencoded).symm

/-- One ignored device. -/
def oneDevice : IgnoreList := Slots.put (Vector.replicate 64 {}) 0 (IgnoredScent.ofHash 77 3)

def deviceKey : Bytes := List.replicate 32 1

/-- HMAC-SHA-256 under that key of the fifth generation's image. -/
def deviceDigest : Digest :=
  #v[184, 135, 124, 220, 164, 26, 187, 97, 132, 239, 213, 97, 107, 103, 248, 90, 45, 83, 247, 128, 80, 125, 25, 192, 221,
    201, 130, 226, 134, 223, 165, 80]

theorem image_bijection_one :
    ∃ image, encode (fun _ _ => some deviceDigest) deviceKey oneDevice 5 = some image ∧
      image.length = ignoreBackupBytes ∧
      decodeBytes (fun _ _ => some deviceDigest) deviceKey image = some (oneDevice, 5) :=
  (image_bijection (fun _ _ => some deviceDigest) deviceKey (by decide)).1 oneDevice 5 deviceDigest
    (by decide +kernel) (by decide) rfl

end IgnoreBackup

end Hound
