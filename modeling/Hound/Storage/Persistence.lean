import Hound.Storage.StateStore

/-!
# What `persist` wrote is what `load` reads

A published generation that holds a valid state is read back as that state. A
published generation with a part missing, damaged or of another generation is
not read at all, and a refused `load` writes nothing.
-/

namespace Hound

open Faults

/-! ## One part -/

theorem slot_succ (gen : UInt32) : slot (gen + 1) = !slot gen := by
  unfold slot
  grind

@[simp] theorem length_envelope {α : Type} (p : Part α) (gen : UInt32) (v : α)
    (h : 12 ≤ p.header) : (p.envelope gen v).length = p.header + p.layout.size := by
  have h32 : Layout.u32.size = 4 := rfl
  simp only [Part.envelope, List.length_append, Layout.length_write, List.length_replicate, h32]
  omega

theorem drop_header_envelope {α : Type} (p : Part α) (gen : UInt32) (v : α)
    (h : 12 ≤ p.header) : (p.envelope gen v).drop p.header = p.layout.write v := by
  have hsplit : p.envelope gen v =
      (Layout.u32.write 1 ++ Layout.u32.write gen ++
        Layout.u32.write (checksum (p.layout.write v)) ++ List.replicate (p.header - 12) 0) ++
        p.layout.write v := by
    simp only [Part.envelope, List.append_assoc]
  have h32 : Layout.u32.size = 4 := rfl
  rw [hsplit]
  refine List.drop_left' ?_
  simp only [List.length_append, Layout.length_write, List.length_replicate, h32]
  omega

theorem accepts_envelope {α : Type} (p : Part α) (gen : UInt32) (v : α) (h : 12 ≤ p.header) :
    p.accepts gen (p.envelope gen v) = true := by
  have hversion : Layout.u32.read (p.envelope gen v) = 1 := Layout.read_write _ _ _
  have hdrop4 : (p.envelope gen v).drop 4 =
      Layout.u32.write gen ++ (Layout.u32.write (checksum (p.layout.write v)) ++
        (List.replicate (p.header - 12) 0 ++ p.layout.write v)) :=
    List.drop_left' (Layout.length_write _ _)
  have hgen : Layout.u32.read ((p.envelope gen v).drop 4) = gen := by
    rw [hdrop4]
    exact Layout.read_write _ _ _
  have hcrc : Layout.u32.read ((p.envelope gen v).drop 8) = checksum (p.layout.write v) := by
    have hdrop8 : (p.envelope gen v).drop 8 = ((p.envelope gen v).drop 4).drop 4 := by
      rw [List.drop_drop]
    have hfield : (Layout.u32.write gen ++ (Layout.u32.write (checksum (p.layout.write v)) ++
        (List.replicate (p.header - 12) 0 ++ p.layout.write v))).drop 4 =
        Layout.u32.write (checksum (p.layout.write v)) ++
          (List.replicate (p.header - 12) 0 ++ p.layout.write v) :=
      List.drop_left' (Layout.length_write _ _)
    rw [hdrop8, hdrop4, hfield]
    exact Layout.read_write _ _ _
  simp only [Part.accepts, length_envelope p gen v h, drop_header_envelope p gen v h, hversion,
    hgen, hcrc, beq_self_eq_true, Bool.and_self]

theorem readPart_envelope {α : Type} (f : Flash) (p : Part α) (gen : UInt32) (v : α)
    (hheader : 12 ≤ p.header) (h : f.blob p.space (slot gen) = some (p.envelope gen v)) :
    f.readPart p gen = some v := by
  unfold Flash.readPart
  rw [h, Option.filter_some, if_pos (accepts_envelope p gen v hheader), Option.map_some,
    drop_header_envelope p gen v hheader, Layout.read_write_self]

/-! ## One generation -/

/-- Generation `gen` is published and its five blobs are those of `s`. -/
structure Holds (f : Flash) (gen : UInt32) (s : State) : Prop where
  published : f.generation = some gen
  blobs : ∀ space, f.blob space (slot gen) = some (s.blob gen space)

theorem version_of_validCurrent {s : State} (h : validCurrent s = true) : s.version = 5 := by
  simp only [validCurrent, validState, Bool.and_eq_true, beq_iff_eq] at h
  exact h.1.1.1.1.1.1.1.1.2

theorem validAppearance_of_validCurrent {s : State} (h : validCurrent s = true) :
    validAppearance s.appearance = true := by
  simp only [validCurrent, Bool.and_eq_true] at h
  exact h.1.1.1.1.1.2

theorem readBoot_of_holds {f : Flash} {gen : UInt32} {s : State} (h : Holds f gen s)
    (valid : validCurrent s = true) (xp : UInt32) :
    f.readBoot gen xp = some (⟨s.boots, s.resetReason⟩, s.companion, s.appearance) := by
  have hboot := readPart_envelope f bootPart gen _ (by decide) (h.blobs .system)
  have hcompanion : f.readCompanion gen = some s.companion := by
    unfold Flash.readCompanion
    rw [readPart_envelope f companionPart gen _ (by decide) (h.blobs .companion)]
  have hlook : f.readLook gen = some s.appearance := by
    unfold Flash.readLook
    rw [readPart_envelope f lookPart gen _ (by decide) (h.blobs .look), Option.filter_some,
      if_pos (validAppearance_of_validCurrent valid)]
  unfold Flash.readBoot
  rw [hboot]
  simp [hcompanion, hlook]

theorem readGeneration_of_holds {f : Flash} {gen : UInt32} {s : State} (h : Holds f gen s)
    (valid : validCurrent s = true) : f.readGeneration gen = some s := by
  have hconfig := readPart_envelope f configPart gen _ (by decide) (h.blobs .settings)
  have hpet := readPart_envelope f petPart gen _ (by decide) (h.blobs .pet)
  have hsame : s = { s with version := 5 } := by rw [← version_of_validCurrent valid]
  unfold Flash.readGeneration
  rw [hconfig, hpet]
  simp only [readBoot_of_holds h valid]
  rw [hsame] at valid ⊢
  exact if_pos valid

/-! ## What a sequence of part writes leaves -/

theorem setBlob_blob (space : Space) (key : Bool) (bytes : Bytes) (f : Flash) (space' : Space)
    (key' : Bool) :
    (f.setBlob space key bytes).blob space' key' =
      if space' = space ∧ key' = key then some bytes else f.blob space' key' := by
  unfold Flash.setBlob
  by_cases hs : space' = space
  · subst hs
    by_cases hk : key' = key
    · subst hk
      simp
    · simp [hk]
  · simp [hs]

/-- The part writes of `spaces`, in order. -/
def Flash.putParts (f : Flash) (s : State) (gen : UInt32) (spaces : List Space) : Flash :=
  spaces.foldl (fun f space => f.setBlob space (slot gen) (s.blob gen space)) f

@[simp] theorem putParts_generation (f : Flash) (s : State) (gen : UInt32) (spaces : List Space) :
    (f.putParts s gen spaces).generation = f.generation := by
  induction spaces generalizing f with
  | nil => rfl
  | cons space spaces ih => exact ih _

theorem putParts_other_slot (f : Flash) (s : State) (gen : UInt32) (spaces : List Space)
    (space : Space) (key : Bool) (h : key ≠ slot gen) :
    (f.putParts s gen spaces).blob space key = f.blob space key := by
  induction spaces generalizing f with
  | nil => rfl
  | cons first spaces ih =>
    have hstep := ih (f.setBlob first (slot gen) (s.blob gen first))
    rw [setBlob_blob, if_neg (fun hk => h hk.2)] at hstep
    exact hstep

theorem putParts_blob (f : Flash) (s : State) (gen : UInt32) (spaces : List Space) (space : Space) :
    (f.putParts s gen spaces).blob space (slot gen) =
      if space ∈ spaces then some (s.blob gen space) else f.blob space (slot gen) := by
  induction spaces generalizing f with
  | nil => simp [Flash.putParts]
  | cons first spaces ih =>
    have hstep := ih (f.setBlob first (slot gen) (s.blob gen first))
    rw [setBlob_blob] at hstep
    refine hstep.trans ?_
    by_cases hmem : space ∈ spaces
    · simp [hmem]
    · by_cases hfirst : space = first
      · simp [hfirst]
      · simp [hmem, hfirst]

theorem putParts_all (f : Flash) (s : State) (gen : UInt32) (space : Space) :
    (f.putParts s gen Space.all).blob space (slot gen) = some (s.blob gen space) := by
  rw [putParts_blob, if_pos (Space.mem_all space)]

/-! ## `persist` -/

/-- What `persist` has stored when `k` of its six writes reached the flash. -/
def Flash.advanced (f : Flash) (s : State) (gen : UInt32) (k : Nat) : Flash :=
  if k ≤ 5 then f.putParts s gen (Space.all.take k)
  else (f.putParts s gen Space.all).publish gen

theorem foldl_writes (f : Flash) (s : State) (gen : UInt32) (k : Nat) :
    ((s.parts gen ++ [Flash.publish gen]).take k).foldl (fun f write => write f) f =
      f.advanced s gen k := by
  have hlen : (s.parts gen).length = 5 := rfl
  unfold Flash.advanced
  by_cases hk : k ≤ 5
  · rw [if_pos hk, List.take_append_of_le_length (by omega), State.parts, ← List.map_take,
      List.foldl_map]
    rfl
  · have htake : (s.parts gen ++ [Flash.publish gen]).take k =
        s.parts gen ++ [Flash.publish gen] :=
      List.take_of_length_le (by simp only [List.length_append, hlen, List.length_singleton]; omega)
    rw [if_neg hk, htake, List.foldl_append, State.parts, List.foldl_map]
    rfl

/-- Everything `persist` can do: refuse, or let some prefix of its writes through. -/
theorem persist_cases (buffered : Bool) (n : Nvs) (s : State) :
    ((validCurrent s = false ∨ n.generation + 1 = 0) ∧ n.persist buffered s = (.failed, n)) ∨
    (validCurrent s = true ∧ n.generation + 1 ≠ 0 ∧
      (n.persist buffered s).1 = ending buffered 6 n.device.schedule ∧
      (n.persist buffered s).2.device.store =
        n.device.store.advanced s (n.generation + 1) (landed buffered 6 n.device.schedule) ∧
      (n.persist buffered s).2.generation =
        if ending buffered 6 n.device.schedule = .ok then n.generation + 1 else n.generation) := by
  have hlen : (s.parts (n.generation + 1) ++ [Flash.publish (n.generation + 1)]).length = 6 := rfl
  unfold Nvs.persist
  cases hvalid : validCurrent s with
  | false => exact .inl ⟨.inl rfl, rfl⟩
  | true =>
    by_cases hnext : n.generation + 1 = 0
    · exact .inl ⟨.inr hnext, by simp [hnext]⟩
    · refine .inr ⟨rfl, hnext, ?_⟩
      have hstatus := writeAll_status buffered
        (s.parts (n.generation + 1) ++ [Flash.publish (n.generation + 1)]) n.device
      have hstore := writeAll_store buffered
        (s.parts (n.generation + 1) ++ [Flash.publish (n.generation + 1)]) n.device
      rw [hlen] at hstatus hstore
      rw [foldl_writes] at hstore
      simp [hnext, hstatus, hstore]

theorem holds_advanced (f : Flash) (s : State) (gen : UInt32) : Holds (f.advanced s gen 6) gen s := by
  refine ⟨rfl, fun space => ?_⟩
  exact putParts_all f s gen space

/-- A `persist` that returned true has published its state. -/
theorem holds_of_persist {buffered : Bool} {n : Nvs} {s : State}
    (h : (n.persist buffered s).1 = .ok) :
    validCurrent s = true ∧ (n.persist buffered s).2.generation = n.generation + 1 ∧
      Holds (n.persist buffered s).2.device.store (n.generation + 1) s := by
  obtain ⟨-, hrefused⟩ | ⟨hvalid, -, hstatus, hstore, hgen⟩ := persist_cases buffered n s
  · rw [hrefused] at h
    exact absurd h (by simp)
  · have hending : ending buffered 6 n.device.schedule = .ok := hstatus ▸ h
    rw [landed_of_ok buffered 6 _ hending] at hstore
    refine ⟨hvalid, by rw [hgen, if_pos hending], ?_⟩
    rw [hstore]
    exact holds_advanced _ s _

/-! ## `load` -/

/-- A booted device: nothing fails, and RAM holds whatever it holds. -/
def Nvs.powerOn (f : Flash) (ram : UInt32) : Nvs := { device := { store := f }, generation := ram }

theorem validCurrent_rebooted {s : State} (h : validCurrent s = true) (reason : UInt32) :
    validCurrent (s.rested.booted reason) = true := h

theorem load_of_holds {f : Flash} {gen : UInt32} {s : State} (h : Holds f gen s)
    (valid : validCurrent s = true) (buffered : Bool) (reason : UInt32) (random : MealKey)
    (state : State) (ram : UInt32) :
    (Nvs.powerOn f ram).load buffered reason random state =
      (((Nvs.powerOn f gen).persist buffered (s.rested.booted reason)).1, s.rested.booted reason,
        ((Nvs.powerOn f gen).persist buffered (s.rested.booted reason)).2) := by
  unfold Nvs.load
  simp only [Nvs.powerOn, h.published, readGeneration_of_holds h valid]

theorem persist_powerOn {buffered : Bool} {f : Flash} {gen : UInt32} {s : State}
    (valid : validCurrent s = true) (room : gen + 1 ≠ 0) :
    ((Nvs.powerOn f gen).persist buffered s).1 = .ok := by
  obtain ⟨hbad | hfull, -⟩ | ⟨-, -, hstatus, -, -⟩ := persist_cases buffered (Nvs.powerOn f gen) s
  · rw [valid] at hbad
    exact absurd hbad (by decide)
  · exact absurd hfull room
  · rw [hstatus]
    exact ending_nil buffered 6

theorem load_holds_ok {f : Flash} {gen : UInt32} {s : State} (h : Holds f gen s)
    (valid : validCurrent s = true) (room : gen + 1 ≠ 0) (buffered : Bool) (reason : UInt32)
    (random : MealKey) (state : State) (ram : UInt32) :
    ((Nvs.powerOn f ram).load buffered reason random state).1 = .ok ∧
      ((Nvs.powerOn f ram).load buffered reason random state).2.1 = s.rested.booted reason := by
  rw [load_of_holds h valid]
  exact ⟨persist_powerOn (validCurrent_rebooted valid reason) room, rfl⟩

/-- A `load` that returned true has published the state it returned. -/
theorem holds_of_load {buffered : Bool} {reason : UInt32} {random : MealKey} {state : State}
    {n : Nvs} (h : (n.load buffered reason random state).1 = .ok) :
    validCurrent (n.load buffered reason random state).2.1 = true ∧
      Holds (n.load buffered reason random state).2.2.device.store
        (n.load buffered reason random state).2.2.generation
        (n.load buffered reason random state).2.1 := by
  have hboot (s : State) (m : Nvs) (hs : (m.persist buffered s).1 = .ok) :
      validCurrent s = true ∧
        Holds (m.persist buffered s).2.device.store (m.persist buffered s).2.generation s := by
    obtain ⟨hvalid, hgen, hholds⟩ := holds_of_persist hs
    exact ⟨hvalid, hgen ▸ hholds⟩
  unfold Nvs.load at h ⊢
  cases hgen : n.device.store.generation with
  | some gen =>
    simp only [hgen] at h ⊢
    cases hread : n.device.store.readGeneration gen with
    | none => simp [hread] at h
    | some loaded =>
      simp only [hread] at h ⊢
      exact hboot _ _ h
  | none =>
    simp only [hgen] at h ⊢
    cases hold : n.device.store.readOld with
    | failed => simp [hold] at h
    | notFound =>
      simp only [hold] at h ⊢
      exact hboot _ _ h
    | ok loaded =>
      simp only [hold] at h ⊢
      cases hvalid : validCurrent loaded with
      | false => simp [hvalid] at h
      | true =>
        simp only [hvalid, if_true] at h ⊢
        exact hboot _ _ h

/-! ## Damaged parts -/

/-- The slot holds an intact record of this layout and generation with value `v`. -/
def Flash.Stores {α : Type} (f : Flash) (p : Part α) (gen : UInt32) (v : α) : Prop :=
  ∃ bytes, f.blob p.space (slot gen) = some bytes ∧ bytes.length = p.header + p.layout.size ∧
    Layout.u32.read bytes = 1 ∧ Layout.u32.read (bytes.drop 4) = gen ∧
    Layout.u32.read (bytes.drop 8) = checksum (bytes.drop p.header) ∧
    p.layout.read (bytes.drop p.header) = v

/-- Some part that the stored boot record requires is not there in any layout
`load` knows. -/
inductive Broken (f : Flash) (gen : UInt32) : Prop where
  | settings (missing : ∀ c, ¬ f.Stores configPart gen c)
  | pet (missing : ∀ p, ¬ f.Stores petPart gen p)
  | system (missing : ∀ b, ¬ f.Stores bootPart gen b) (old : ∀ b, ¬ f.Stores bootV3Part gen b)
  | companion (b : BootRecord) (boot : f.Stores bootPart gen b)
      (version : b.version = 4 ∨ b.version = 5) (missing : ∀ c, ¬ f.Stores companionPart gen c)
      (old : ∀ c, f.Stores companionV1Part gen c → migrateCompanion c = none)
  | look (b : BootRecord) (boot : f.Stores bootPart gen b) (version : b.version = 5)
      (missing : ∀ a, f.Stores lookPart gen a → validAppearance a = false)
      (old2 : ∀ a, f.Stores lookV2Part gen a → migrateAppearanceV2 a = none)
      (old1 : ∀ a, f.Stores lookV1Part gen a → migrateAppearanceV1 a = none)

theorem readPart_eq_some {α : Type} {f : Flash} {p : Part α} {gen : UInt32} {v : α} :
    f.readPart p gen = some v ↔ f.Stores p gen v := by
  simp only [Flash.readPart, Flash.Stores, Option.map_eq_some_iff, Option.filter_eq_some_iff,
    Part.accepts, Bool.and_eq_true, beq_iff_eq, and_assoc]

theorem readPart_eq_none {α : Type} {f : Flash} {p : Part α} {gen : UInt32}
    (h : ∀ v, ¬ f.Stores p gen v) : f.readPart p gen = none := by
  cases hread : f.readPart p gen with
  | none => rfl
  | some v => exact absurd (readPart_eq_some.mp hread) (h v)

theorem readPart_bind_none {α β : Type} {f : Flash} {p : Part α} {gen : UInt32}
    {g : α → Option β} (h : ∀ v, f.Stores p gen v → g v = none) :
    (f.readPart p gen).bind g = none := by
  cases hread : f.readPart p gen with
  | none => rfl
  | some v => exact h v (readPart_eq_some.mp hread)

theorem readCompanion_none {f : Flash} {gen : UInt32}
    (missing : ∀ c, ¬ f.Stores companionPart gen c)
    (old : ∀ c, f.Stores companionV1Part gen c → migrateCompanion c = none) :
    f.readCompanion gen = none := by
  unfold Flash.readCompanion
  rw [readPart_eq_none missing, readPart_bind_none old]

theorem readLook_none {f : Flash} {gen : UInt32}
    (missing : ∀ a, f.Stores lookPart gen a → validAppearance a = false)
    (old2 : ∀ a, f.Stores lookV2Part gen a → migrateAppearanceV2 a = none)
    (old1 : ∀ a, f.Stores lookV1Part gen a → migrateAppearanceV1 a = none) :
    f.readLook gen = none := by
  have hfilter : (f.readPart lookPart gen).filter validAppearance = none := by
    cases hread : f.readPart lookPart gen with
    | none => rfl
    | some a => simp [missing a (readPart_eq_some.mp hread)]
  unfold Flash.readLook
  rw [hfilter, readPart_bind_none old2, readPart_bind_none old1]

theorem readGeneration_of_broken {f : Flash} {gen : UInt32} (h : Broken f gen) :
    f.readGeneration gen = none := by
  have hboot (hnone : ∀ xp, f.readBoot gen xp = none) : f.readGeneration gen = none := by
    unfold Flash.readGeneration
    cases f.readPart configPart gen with
    | none => rfl
    | some c =>
      cases f.readPart petPart gen with
      | none => rfl
      | some p => simp [hnone]
  cases h with
  | settings missing =>
    unfold Flash.readGeneration
    rw [readPart_eq_none missing]
  | pet missing =>
    unfold Flash.readGeneration
    rw [readPart_eq_none missing]
    cases f.readPart configPart gen <;> rfl
  | system missing old =>
    refine hboot fun xp => ?_
    unfold Flash.readBoot
    rw [readPart_eq_none missing, readPart_eq_none old]
    rfl
  | companion b boot version missing old =>
    refine hboot fun xp => ?_
    unfold Flash.readBoot
    rw [readPart_eq_some.mpr boot]
    simp [readCompanion_none missing old]
  | look b boot version missing old2 old1 =>
    refine hboot fun xp => ?_
    unfold Flash.readBoot
    rw [readPart_eq_some.mpr boot]
    cases f.readCompanion gen with
    | none => simp
    | some c => simp [version, readLook_none missing old2 old1]

theorem load_of_broken {n : Nvs} {gen : UInt32} (published : n.device.store.generation = some gen)
    (h : Broken n.device.store gen) (buffered : Bool) (reason : UInt32) (random : MealKey)
    (state : State) :
    (n.load buffered reason random state).1 = .failed ∧
      (n.load buffered reason random state).2.2.device = n.device := by
  unfold Nvs.load
  simp [published, readGeneration_of_broken h]

theorem Holds.published_setBlob {f : Flash} {gen : UInt32} {s : State} (h : Holds f gen s) {space : Space} {key : Bool}
    {bytes : Bytes} {ram : UInt32} : (Nvs.powerOn (f.setBlob space key bytes) ram).device.store.generation = some gen :=
  h.published

/-- Three layouts of an appearance have one header, and no record with a wrong checksum is read in any. -/
theorem Holds.broken_look {f : Flash} {gen : UInt32} {s : State} (h : Holds f gen s) {bytes : Bytes}
    (hcrc : Layout.u32.read (bytes.drop 8) ≠ checksum (bytes.drop 12)) : Broken (f.setBlob .look (slot gen) bytes) gen := by
  have hboot : (f.setBlob .look (slot gen) bytes).readPart bootPart gen =
      some { boots := s.boots, reason := s.resetReason } := by
    refine readPart_envelope _ bootPart gen _ (by decide) ?_
    rw [setBlob_blob, if_neg (fun h => Space.noConfusion h.1)]
    exact h.blobs .system
  have hdamaged : ∀ {α : Type} (p : Part α) (v : α), p.space = .look → p.header = 12 →
      ¬ (f.setBlob .look (slot gen) bytes).Stores p gen v := by
    rintro α p v hspace hheader ⟨stored, hblob, -, -, -, hsum, -⟩
    rw [hspace, setBlob_blob, if_pos ⟨rfl, rfl⟩] at hblob
    obtain rfl := Option.some.inj hblob
    rw [hheader] at hsum
    exact hcrc hsum
  exact .look _ (readPart_eq_some.mp hboot) rfl (fun a h => absurd h (hdamaged lookPart a rfl rfl))
    (fun a h => absurd h (hdamaged lookV2Part a rfl rfl)) fun a h => absurd h (hdamaged lookV1Part a rfl rfl)

/-! ## Faithful and fail-closed -/

/-- A state that `persist` accepted and published below the last generation
number is what the next `load` returns, but for the fields a boot rewrites; a
published generation with a broken part is refused and nothing is written. -/
theorem persist_load_faithful :
    (∀ (buffered : Bool) (n : Nvs) (s : State) (reason ram : UInt32) (random : MealKey)
        (state : State),
      (n.persist buffered s).1 = .ok → (n.persist buffered s).2.generation ≠ 0xffffffff →
      ((Nvs.powerOn (n.persist buffered s).2.device.store ram).load buffered reason random
          state).1 = .ok ∧
        ((Nvs.powerOn (n.persist buffered s).2.device.store ram).load buffered reason random
          state).2.1 =
          { s with
            pet := { s.pet with decayMs := 0 }, boots := s.boots + 1, resetReason := reason }) ∧
    ∀ (buffered : Bool) (n : Nvs) (gen reason : UInt32) (random : MealKey) (state : State),
      n.device.store.generation = some gen → Broken n.device.store gen →
      (n.load buffered reason random state).1 = .failed ∧
        (n.load buffered reason random state).2.2.device = n.device := by
  constructor
  · intro buffered n s reason ram random state hok hlast
    obtain ⟨valid, hgen, hholds⟩ := holds_of_persist hok
    have room : n.generation + 1 + 1 ≠ 0 := by
      rw [hgen] at hlast
      grind
    exact load_holds_ok hholds valid room buffered reason random state ram
  · intro buffered n gen reason random state published hbroken
    exact load_of_broken published hbroken buffered reason random state

/-- A first boot's state: everything at its default, and a key. -/
def keyed : State := { mealKey := Vector.replicate 32 0x5a }

/-- The state of a pet that was walked for a while, on a board that was calibrated. -/
def walked : State :=
  { settings := { brightness := 90, character := 3, threshold := 80, sound := .ofBool true, onboarded := .ofBool true }
    pet := { xp := 250, meals := 12, unique := 5, categoryMask := 9, fullness := 40, mood := 95, decayMs := 123456 }
    calibration := { ax := ⟨0x3dcccccd⟩, cx := ⟨0xc1480000⟩, bY := ⟨0x3e000000⟩, cy := ⟨0x41a00000⟩, valid := .ofBool true }
    recent := (Vector.replicate 32 {}).set 0 { hash := 77, remainingMs := 900000 }
    mealKey := Vector.replicate 32 0x5a, boots := 6, resetReason := 3
    battery := { adc := #v[1500, 1800, 2100], enabled := .ofBool true }
    companion := {
      scents := (Vector.replicate 19 {}).set 2 {
        firstUtc := 1700000000, lastUtc := 1700000600, observations := 3, bestScore := 80, lastScore := 70, strongest := -60 }
      ignored := (Vector.replicate 64 {}).set 5 { digest := #v[1, 2, 3, 4, 5, 6, 7, 8], category := 4 }
      equipped := 1, unlocked := 3 }
    appearance := { theme := 2, scene := 1, inverted := 1 } }

/-- The first boot's state is saved, and then this one. -/
def rewritten : Nvs := (((Nvs.powerOn {} 0).persist false keyed).2.persist false walked).2

/-- The appearance of the published generation has lost a byte. The other four parts are good. -/
def scuffed : Flash :=
  rewritten.device.store.setBlob .look (slot 2) ((lookPart.envelope 2 walked.appearance).set 16 0xff)

theorem rewritten_holds : Holds rewritten.device.store 2 walked := by
  have hok : (((Nvs.powerOn {} 0).persist false keyed).2.persist false walked).1 = .ok := by decide
  obtain ⟨-, -, hholds⟩ := holds_of_persist hok
  rwa [show ((Nvs.powerOn {} 0).persist false keyed).2.generation + 1 = 2 by decide] at hholds

/-- What was saved over another state is loaded, and with its appearance damaged nothing is. -/
theorem persist_load_walked :
    (((Nvs.powerOn rewritten.device.store 7).load false 1 keyed.mealKey {}).1 = .ok ∧
      ((Nvs.powerOn rewritten.device.store 7).load false 1 keyed.mealKey {}).2.1 = { walked with
        pet := { walked.pet with decayMs := 0 }, boots := walked.boots + 1, resetReason := 1 }) ∧
    ((Nvs.powerOn scuffed 7).load false 1 keyed.mealKey {}).1 = .failed ∧
      ((Nvs.powerOn scuffed 7).load false 1 keyed.mealKey {}).2.2.device = (Nvs.powerOn scuffed 7).device := by
  unfold rewritten
  refine ⟨persist_load_faithful.1 false ((Nvs.powerOn {} 0).persist false keyed).2 walked 1 7 keyed.mealKey {}
    (by decide) (by decide), persist_load_faithful.2 false (Nvs.powerOn scuffed 7) 2 1 keyed.mealKey {} ?_ ?_⟩
  · exact rewritten_holds.published_setBlob
  · exact rewritten_holds.broken_look (by decide +kernel)

/-- The last generation number is published, and then never loads again. -/
theorem persist_load_last :
    ¬ ∀ (buffered : Bool) (n : Nvs) (s : State) (reason ram : UInt32) (random : MealKey)
        (state : State),
      (n.persist buffered s).1 = .ok →
      ((Nvs.powerOn (n.persist buffered s).2.device.store ram).load buffered reason random
        state).1 = .ok := by
  intro h
  have hpersist : ((Nvs.powerOn {} 0xfffffffe).persist false keyed).1 = .ok := by decide
  obtain ⟨valid, -, hholds⟩ := holds_of_persist hpersist
  have hload := h false (Nvs.powerOn {} 0xfffffffe) keyed 1 0 keyed.mealKey {} hpersist
  rw [load_of_holds hholds valid] at hload
  obtain ⟨-, hrefused⟩ | ⟨-, hroom, -⟩ := persist_cases false
    (Nvs.powerOn ((Nvs.powerOn {} 0xfffffffe).persist false keyed).2.device.store
      ((Nvs.powerOn {} 0xfffffffe).generation + 1)) (keyed.rested.booted 1)
  · rw [hrefused] at hload
    exact absurd hload (by simp)
  · exact hroom (by decide)

end Hound
