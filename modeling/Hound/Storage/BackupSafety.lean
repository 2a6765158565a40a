import Hound.Lib.Alternation
import Hound.Storage.IgnoreBackup

/-!
# Interrupted backups

The two files, read without faults, are a pair of alternating slots, and every
call is one attempt on that pair. The newest list survives whatever goes wrong.
A first write that is torn leaves a pair without any list, and then every call
fails.
-/

namespace Hound

namespace IgnoreBackup

open Alternation (Pair newest)

variable (hmac : Hmac) (key base : Bytes)

/-! ## The image of a list -/

theorem length_contents (v : UInt64 × IgnoreList) : (contents.write v).length = 584 :=
  contents.length_write v

theorem length_image (generation : UInt64) (list : IgnoreList) (mac : Digest) :
    (magic ++ contents.write (generation, list) ++ mac.toList).length = ignoreBackupBytes := by
  have hmagic : magic.length = 8 := rfl
  simp only [List.length_append, length_contents, hmagic, Vector.length_toList]
  rfl

theorem decode_image {generation : UInt64} {list : IgnoreList} {mac : Digest} (hkey : keyOk key = true)
    (hgen : generation ≠ 0) (hlist : validIgnores list = true)
    (hmac' : hmac key (magic ++ contents.write (generation, list)) = some mac) :
    decode hmac key (magic ++ contents.write (generation, list) ++ mac.toList) =
      some (list, generation) := by
  have hmagic : magic.length = 8 := rfl
  have hlength : (magic ++ contents.write (generation, list)).length = signedSize := by
    rw [List.length_append, length_contents, hmagic]
    rfl
  have htake8 : (magic ++ contents.write (generation, list) ++ mac.toList).take 8 = magic := by
    rw [List.append_assoc, List.take_left' hmagic]
  have htake : (magic ++ contents.write (generation, list) ++ mac.toList).take signedSize =
      magic ++ contents.write (generation, list) := List.take_left' hlength
  have hdrop : (magic ++ contents.write (generation, list) ++ mac.toList).drop signedSize =
      mac.toList := List.drop_left' hlength
  have hdrop8 : (magic ++ contents.write (generation, list) ++ mac.toList).drop 8 =
      contents.write (generation, list) ++ mac.toList := by
    rw [List.append_assoc, List.drop_left' hmagic]
  unfold decode
  rw [htake8, htake, hmac', hdrop, hdrop8, contents.read_write]
  simp [hkey, hgen, hlist]

theorem decode_generation {bytes : Bytes} {list : IgnoreList} {generation : UInt64}
    (h : decode hmac key bytes = some (list, generation)) : generation ≠ 0 ∧ keyOk key = true := by
  unfold decode at h
  split at h
  · exact nomatch h
  · rename_i hgo
    simp only [Bool.or_eq_true, Bool.not_eq_true', not_or, Bool.not_eq_false] at hgo
    split at h
    · exact nomatch h
    · split at h
      · exact nomatch h
      · simp only at h
        split at h
        · exact nomatch h
        · rename_i hzero
          split at h
          · exact nomatch h
          · obtain ⟨-, rfl⟩ := Prod.mk.inj (Option.some.inj h)
            exact ⟨by simpa using hzero, hgo.1⟩

/-! ## The card as a pair of slots -/

theorem path_slot (base : Bytes) (slot slot' : Slot) : (path base slot).isNone = (path base slot').isNone := by
  have hlength : ∀ slot : Slot, (base ++ (ascii "-" ++
      ((if slot = 0 then ascii "0" else ascii "1") ++ ascii ".BIN"))).length = base.length + 6 := by
    intro slot
    rw [List.length_append]
    split <;> rfl
  have hpath : ∀ slot : Slot, (path base slot).isNone = decide (192 ≤ base.length + 6) := by
    intro slot
    unfold path
    simp only [hlength]
    split
    · rename_i hlt
      simp [Nat.not_le.mpr hlt]
    · rename_i hge
      simp [Nat.not_lt.mp hge]
  rw [hpath, hpath]

def Read.toSlot : Read → Alternation.Slot IgnoreList
  | .Missing => .missing
  | .Valid list generation => .valid generation.toNat list
  | _ => .invalid

/-- What the card holds, read without faults. -/
def view (card : Card) : Pair IgnoreList :=
  fun slot => (readSlot hmac key base slot {} (card slot)).toSlot

variable {hmac key base}

theorem readSlot_fault {slot : Slot} {fault : ReadFault} {file : Option Bytes}
    (h : readSlot hmac key base slot fault file ≠ .Error) :
    readSlot hmac key base slot fault file = readSlot hmac key base slot {} file := by
  unfold readSlot at h ⊢
  split
  · rfl
  · rename_i hpath
    simp only [hpath] at h
    cases hopened : fault.opened with
    | false => simp [hopened] at h
    | true =>
      cases file with
      | none => rfl
      | some bytes =>
        cases hfault : fault.error || !fault.closed with
        | true => simp [hopened, hfault] at h
        | false => simp

theorem readSlot_valid {slot : Slot} {fault : ReadFault} {file : Option Bytes} {list : IgnoreList}
    {generation : UInt64} (h : readSlot hmac key base slot fault file = .Valid list generation) :
    generation ≠ 0 := by
  unfold readSlot at h
  split at h
  · exact nomatch h
  · split at h
    · exact nomatch h
    · split at h
      · exact nomatch h
      · split at h
        · exact nomatch h
        · split at h
          · split at h
            · rename_i hdecode
              obtain ⟨rfl, rfl⟩ := Read.Valid.inj h
              exact (decode_generation hmac key hdecode).1
            · exact nomatch h
          · exact nomatch h

/-- `latest` finds the newest of two slots. -/
theorem visit_visit {a b : Read} (ha : a ≠ .Error) (hb : b ≠ .Error)
    (ga : ∀ l g, a = .Valid l g → g ≠ 0) (gb : ∀ l g, b = .Valid l g → g ≠ 0)
    {p : Pair IgnoreList} (h0 : p 0 = a.toSlot) (h1 : p 1 = b.toSlot) :
    ((({} : Latest).visit 0 a).visit 1 b).error = false ∧
    ((({} : Latest).visit 0 a).visit 1 b).existing = (a != .Missing || b != .Missing) ∧
    ((({} : Latest).visit 0 a).visit 1 b).slot = (newest p).map Alternation.Newest.slot ∧
    ((({} : Latest).visit 0 a).visit 1 b).generation.toNat = Alternation.generation p ∧
    (∀ n, newest p = some n → ((({} : Latest).visit 0 a).visit 1 b).out = n.value) := by
  have hpos : ∀ {g : UInt64}, g ≠ 0 → (0 : UInt64) < g := fun h => UInt64.pos_iff_ne_zero.mpr h
  unfold Alternation.generation newest
  rw [h0, h1]
  cases a with
  | Error => exact absurd rfl ha
  | Missing | Invalid =>
    cases b with
    | Error => exact absurd rfl hb
    | Missing | Invalid => simp [Latest.visit, Read.toSlot]
    | Valid l g =>
      have hg := hpos (gb l g rfl)
      simp [Latest.visit, Read.toSlot, hg]
  | Valid l g =>
    have hg := hpos (ga l g rfl)
    cases b with
    | Error => exact absurd rfl hb
    | Missing | Invalid => simp [Latest.visit, Read.toSlot, hg]
    | Valid l' g' =>
      by_cases hlt : g < g'
      · have hnat : g.toNat < g'.toNat := UInt64.lt_iff_toNat_lt.mp hlt
        simp [Latest.visit, Read.toSlot, hg, hlt, hnat]
      · have hnat : ¬ g.toNat < g'.toNat := fun h => hlt (UInt64.lt_iff_toNat_lt.mpr h)
        simp [Latest.visit, Read.toSlot, hg, hlt, hnat]

theorem visit_error (r : Latest) (slot : Slot) (status : Read) :
    (r.visit slot status).error = (r.error || status == .Error) := by
  unfold Latest.visit
  cases status with
  | Valid l g =>
    simp only
    split <;> rfl
  | Missing | Invalid | Error => rfl

variable (hmac key base)

/-- What `latest` finds: an error, or the newest value as a read without faults sees it. -/
structure Finds (card : Card) (found : Latest) : Prop where
  existing : found.existing = false ↔ ∀ slot, view hmac key base card slot = .missing
  slot : found.slot = (newest (view hmac key base card)).map Alternation.Newest.slot
  generation : found.generation.toNat = Alternation.generation (view hmac key base card)
  out : ∀ n, newest (view hmac key base card) = some n → found.out = n.value

theorem latest_finds (faults : Slot → ReadFault) (card : Card) :
    (latest hmac key base faults card).error = true ∨
      (latest hmac key base faults card).error = false ∧
        Finds hmac key base card (latest hmac key base faults card) := by
  by_cases h0 : readSlot hmac key base 0 (faults 0) (card 0) = .Error
  · left
    rw [latest, visit_error, visit_error, h0]
    simp
  by_cases h1 : readSlot hmac key base 1 (faults 1) (card 1) = .Error
  · left
    rw [latest, visit_error, h1]
    simp
  right
  have hview0 : view hmac key base card 0 =
      (readSlot hmac key base 0 (faults 0) (card 0)).toSlot := by rw [readSlot_fault h0]; rfl
  have hview1 : view hmac key base card 1 =
      (readSlot hmac key base 1 (faults 1) (card 1)).toSlot := by rw [readSlot_fault h1]; rfl
  obtain ⟨herror, hexisting, hslot, hgeneration, hout⟩ :=
    visit_visit h0 h1 (fun _ _ => readSlot_valid) (fun _ _ => readSlot_valid) hview0 hview1
  refine ⟨herror, ?_, hslot, hgeneration, hout⟩
  have hmissing : ∀ r : Read, r ≠ .Error → (r = .Missing ↔ r.toSlot = .missing) := by
    intro r hr
    cases r with
    | Missing => simp [Read.toSlot]
    | Invalid => simp [Read.toSlot]
    | Error => exact absurd rfl hr
    | Valid l g => simp [Read.toSlot]
  rw [latest, hexisting, Bool.or_eq_false_iff, bne_eq_false_iff_eq, bne_eq_false_iff_eq,
    hmissing _ h0, hmissing _ h1, ← hview0, ← hview1, Fin.forall_fin_two]

/-! ## One call is one attempt -/

/-- Everything known when `backup_ignores` opens a file for writing. -/
structure Prepared (list : IgnoreList) (card : Card) (slot : Slot) (image : Bytes) : Prop where
  named : (path base slot).isNone = false
  target : slot = Alternation.target (view hmac key base card)
  refuse : newest (view hmac key base card) = none → ∀ slot, view hmac key base card slot = .missing
  image : ∃ (generation : UInt64) (mac : Digest),
    image = magic ++ contents.write (generation, list) ++ mac.toList ∧
    hmac key (magic ++ contents.write (generation, list)) = some mac ∧
    generation.toNat = Alternation.generation (view hmac key base card) + 1
  key : keyOk key = true
  list : validIgnores list = true

variable {hmac key base} in
theorem prepare_ok {faults : Slot → ReadFault} {list : IgnoreList} {card : Card} {slot : Slot}
    {image : Bytes} (h : prepare hmac key base faults list card = .ok (slot, image)) :
    Prepared hmac key base list card slot image := by
  unfold prepare at h
  split at h
  · exact nomatch h
  · rename_i hvalid
    simp only [Bool.or_eq_true, Bool.not_eq_true', not_or, Bool.not_eq_false] at hvalid
    simp only at h
    split at h
    · exact nomatch h
    · rename_i hgo
      simp only [Bool.or_eq_true, Bool.and_eq_true, beq_iff_eq, not_or, not_and, Bool.not_eq_true] at hgo
      obtain ⟨⟨hno, hexisting⟩, hmax⟩ := hgo
      obtain herror | ⟨-, finds⟩ := latest_finds hmac key base faults card
      · rw [hno] at herror
        exact nomatch herror
      split at h
      · exact nomatch h
      · split at h
        · exact nomatch h
        · rename_i mac hmac'
          have htarget : (if (latest hmac key base faults card).slot == some 0 then (1 : Slot) else 0) =
              Alternation.target (view hmac key base card) := by
            unfold Alternation.target
            rw [finds.slot]
            cases newest (view hmac key base card) with
            | none => rfl
            | some n => simp
          rw [htarget] at h
          split at h
          · exact nomatch h
          · rename_i hpath
            obtain ⟨rfl, rfl⟩ := Prod.mk.inj (Except.ok.inj h)
            refine ⟨Bool.eq_false_of_not_eq_true hpath, rfl, ?_, ⟨_, mac, rfl, hmac', ?_⟩, hvalid.1, hvalid.2⟩
            · intro hnone
              refine finds.existing.mp (hexisting ?_)
              rw [finds.slot, hnone]
              rfl
            · rw [← finds.generation]
              have hlt : (latest hmac key base faults card).generation.toNat + 1 < 2 ^ 64 := by
                have hbound := (latest hmac key base faults card).generation.toNat_lt
                have hne : (latest hmac key base faults card).generation.toNat ≠ 2 ^ 64 - 1 :=
                  fun heq => hmax (UInt64.toNat_inj.mp heq)
                omega
              rw [UInt64.toNat_add]
              exact Nat.mod_eq_of_lt hlt

variable {hmac key base} in
theorem readSlot_image {slot : Slot} {list : IgnoreList} {generation : UInt64} {mac : Digest}
    (named : (path base slot).isNone = false) (hkey : keyOk key = true) (hgen : generation ≠ 0)
    (hlist : validIgnores list = true)
    (hmac' : hmac key (magic ++ contents.write (generation, list)) = some mac) :
    readSlot hmac key base slot {} (some (magic ++ contents.write (generation, list) ++ mac.toList)) =
      .Valid list generation := by
  unfold readSlot
  have hlength := length_image generation list mac
  simp only [named, hlength, decode_image hmac key hkey hgen hlist hmac']
  simp

variable {hmac key base} in
theorem readSlot_short {slot : Slot} {bytes : Bytes} (named : (path base slot).isNone = false)
    (h : bytes.length < ignoreBackupBytes) : readSlot hmac key base slot {} (some bytes) = .Invalid := by
  unfold readSlot
  have hne : (bytes.length == ignoreBackupBytes) = false := by simpa using Nat.ne_of_lt h
  simp only [named, hne]
  simp

theorem view_update (card : Card) (slot : Slot) (file : Option Bytes) :
    view hmac key base (Function.update card slot file) =
      Function.update (view hmac key base card) slot (readSlot hmac key base slot {} file).toSlot := by
  funext i
  unfold view
  by_cases hi : i = slot
  · subst hi
    rw [Function.update_self, Function.update_self]
  · rw [Function.update_of_ne hi, Function.update_of_ne hi]

/-- The whole image reaches the file. -/
def Call.lands (card : Card) (call : Call) : Bool :=
  match prepare hmac key base call.reads call.list card with
  | .error _ => false
  | .ok _ => call.write.opened && (call.write.ok || decide (ignoreBackupBytes ≤ call.write.kept))

/-- The attempt a call makes on the pair of slots. -/
def Call.event (card : Card) (call : Call) : Alternation.Event IgnoreList :=
  match prepare hmac key base call.reads call.list card with
  | .error _ => .idle
  | .ok _ =>
    if call.lands hmac key base card then .full call.list
    else if call.write.opened || call.write.emptied then .torn
    else .idle

theorem view_step (card : Card) (call : Call) :
    view hmac key base (call.step hmac key base card) =
      Alternation.step (view hmac key base card) (call.event hmac key base card) := by
  unfold Call.step backupIgnores Call.event
  cases hprepare : prepare hmac key base call.reads call.list card with
  | error result => rfl
  | ok target =>
    obtain ⟨slot, image⟩ := target
    have h := prepare_ok hprepare
    obtain ⟨generation, mac, himage, hmac', hgeneration⟩ := h.image
    have hgen : generation ≠ 0 := by
      rintro rfl
      simp at hgeneration
    have hfull : (readSlot hmac key base slot {} (some image)).toSlot =
        .valid (Alternation.generation (view hmac key base card) + 1) call.list := by
      rw [himage, readSlot_image h.named h.key hgen h.list hmac', ← hgeneration]
      rfl
    have hlength : image.length = ignoreBackupBytes := by
      rw [himage]
      exact length_image generation call.list mac
    have hshort : ∀ kept < ignoreBackupBytes,
        (readSlot hmac key base slot {} (some (image.take kept))).toSlot = .invalid := by
      intro kept hkept
      rw [readSlot_short h.named]
      · rfl
      · rw [List.length_take, hlength]
        omega
    have hlands : call.lands hmac key base card =
        (call.write.opened && (call.write.ok || decide (ignoreBackupBytes ≤ call.write.kept))) := by
      rw [Call.lands, hprepare]
    simp only [hlands]
    cases hopened : call.write.opened with
    | false =>
      cases hemptied : call.write.emptied with
      | false => simp [Alternation.step]
      | true =>
        have hempty := hshort 0 (by decide)
        rw [List.take_zero] at hempty
        simp [Alternation.step, view_update hmac key base, hempty, ← h.target]
    | true =>
      cases hok : call.write.ok with
      | true => simp [Alternation.step, view_update hmac key base, hfull, ← h.target]
      | false =>
        by_cases hkept : ignoreBackupBytes ≤ call.write.kept
        · have htake : image.take call.write.kept = image := List.take_of_length_le (by omega)
          simp [Alternation.step, view_update hmac key base, hkept, htake, hfull, ← h.target]
        · have htorn := hshort call.write.kept (by omega)
          simp [Alternation.step, view_update hmac key base, hkept, htorn, ← h.target]

/-! ## Runs of calls -/

theorem event_lands {card : Card} {call : Call} (h : call.lands hmac key base card = true) :
    call.event hmac key base card = .full call.list := by
  unfold Call.event
  split
  · rename_i hprepare
    rw [Call.lands, hprepare] at h
    exact nomatch h
  · rw [if_pos h]

theorem newest_lands {card : Card} {call : Call} (h : call.lands hmac key base card = true) :
    ∃ n, newest (view hmac key base (call.step hmac key base card)) = some n ∧ n.value = call.list := by
  rw [view_step, event_lands hmac key base h, Alternation.newest_full]
  exact ⟨_, rfl, rfl⟩

theorem newest_misses {card : Card} {call : Call} (h : call.lands hmac key base card = false) :
    newest (view hmac key base (call.step hmac key base card)) = newest (view hmac key base card) := by
  rw [view_step, Alternation.newest_step]
  have hevent : ∀ v, call.event hmac key base card ≠ .full v := by
    intro v
    unfold Call.event
    split
    · simp
    · rw [h]
      split
      · rename_i hcontra
        exact nomatch hcontra
      · split <;> simp
  cases he : call.event hmac key base card with
  | full v => exact absurd he (hevent v)
  | idle | torn => rfl

variable {hmac key base} in
theorem prepare_written {faults : Slot → ReadFault} {list : IgnoreList} {card : Card}
    (h : prepare hmac key base faults list card = .error .Written) : False := by
  unfold prepare at h
  split at h
  · exact nomatch h
  · simp only at h
    split at h
    · exact nomatch h
    · split at h
      · exact nomatch h
      · split at h
        · exact nomatch h
        · generalize (if (latest hmac key base faults card).slot == some 0 then (1 : Slot) else 0) = slot at h
          split at h
          · exact nomatch h
          · exact nomatch h

theorem lands_of_written {card : Card} {call : Call} (h : call.result hmac key base card = .Written) :
    call.lands hmac key base card = true ∧ (path base 0).isNone = false := by
  unfold Call.result backupIgnores at h
  unfold Call.lands
  cases hprepare : prepare hmac key base call.reads call.list card with
  | error result =>
    rw [hprepare] at h
    have herror : result = .Written := h
    rw [herror] at hprepare
    exact (prepare_written hprepare).elim
  | ok target =>
    obtain ⟨slot, image⟩ := target
    have hnamed := (prepare_ok hprepare).named
    rw [path_slot base slot 0] at hnamed
    refine ⟨?_, hnamed⟩
    rw [hprepare] at h
    simp only at h ⊢
    cases hopened : call.write.opened with
    | false => simp [hopened] at h
    | true =>
      cases hok : call.write.ok with
      | false => simp [hopened, hok] at h
      | true => rfl

theorem finds_noFaults (card : Card) (named : (path base 0).isNone = false) :
    (latest hmac key base noFaults card).error = false ∧
      Finds hmac key base card (latest hmac key base noFaults card) := by
  have hread : ∀ slot, readSlot hmac key base slot {} (card slot) ≠ .Error := by
    intro slot
    unfold readSlot
    rw [path_slot base slot 0, named]
    cases card slot with
    | none => simp
    | some bytes =>
      simp only [Bool.false_eq_true, if_false, Bool.not_true, Bool.or_self]
      split
      · split <;> simp
      · simp
  obtain herror | hfinds := latest_finds hmac key base noFaults card
  · rw [latest, visit_error, visit_error] at herror
    simp only [Bool.false_or, Bool.or_eq_true, beq_iff_eq] at herror
    exact (herror.elim (hread 0) (hread 1)).elim
  · exact hfinds

/-- Reading without faults gives the newest value with its generation. -/
theorem read_noFaults (card : Card) (named : (path base 0).isNone = false) {list : IgnoreList}
    {generation : UInt64} :
    readIgnoreBackup hmac key base noFaults card = some (list, generation) ↔
      ∃ n, newest (view hmac key base card) = some n ∧ n.value = list ∧
        n.generation = generation.toNat := by
  obtain ⟨herror, finds⟩ := finds_noFaults hmac key base card named
  have hgeneration := finds.generation
  unfold readIgnoreBackup
  simp only [herror, Bool.false_eq_true, if_false, finds.slot]
  unfold Alternation.generation at hgeneration
  cases hnewest : newest (view hmac key base card) with
  | none => simp
  | some n =>
    rw [hnewest] at hgeneration
    have hout := finds.out n hnewest
    simp only [Option.map_some, Option.some.injEq, Prod.mk.injEq, hout]
    constructor
    · rintro ⟨rfl, rfl⟩
      exact ⟨n, rfl, rfl, hgeneration.symm⟩
    · rintro ⟨_, rfl, rfl, hn⟩
      exact ⟨rfl, UInt64.toNat_inj.mp (hgeneration.trans hn)⟩

theorem named_of_read {card : Card} {result : IgnoreList × UInt64}
    (h : readIgnoreBackup hmac key base noFaults card = some result) : (path base 0).isNone = false := by
  unfold readIgnoreBackup at h
  simp only at h
  split at h
  · exact nomatch h
  · rename_i herror
    cases hpath : (path base 0).isNone with
    | false => rfl
    | true =>
      refine absurd ?_ herror
      rw [latest, visit_error, visit_error]
      simp [readSlot, hpath]

theorem generation_mono (card : Card) (calls : List Call) :
    Alternation.generation (view hmac key base card) ≤
      Alternation.generation (view hmac key base (Runs.run (Call.step hmac key base) card calls)) := by
  refine Runs.invariant (fun c => Alternation.generation (view hmac key base card) ≤
    Alternation.generation (view hmac key base c)) (fun c call hc => ?_) (Nat.le_refl _) calls
  rw [view_step]
  exact Nat.le_trans hc (Alternation.generation_step _ _)

/-- Whatever is torn or fails, the list of the last image that reached the card is
read back; the file that holds it is not opened for writing, and generations do
not go back. -/
theorem backup_crash_safe (calls : List Call) :
    (∀ before call after, calls = before ++ call :: after → call.returns = true →
      call.result hmac key base (run hmac key base before) = .Written →
      ∃ before' call' after' generation, calls = before' ++ call' :: after' ∧
        before.length ≤ before'.length ∧
        call'.lands hmac key base (run hmac key base before') = true ∧
        (∀ v ∈ Runs.visited (Call.step hmac key base)
            (call'.step hmac key base (run hmac key base before')) after',
          v.2.lands hmac key base v.1 = false) ∧
        readIgnoreBackup hmac key base noFaults (run hmac key base calls) =
          some (call'.list, generation)) ∧
    (∀ v ∈ Runs.visited (Call.step hmac key base) blank calls, ∀ slot image,
      prepare hmac key base v.2.reads v.2.list v.1 = .ok (slot, image) →
      (latest hmac key base noFaults v.1).slot ≠ some slot) ∧
    (∀ before after list generation list' generation', calls = before ++ after →
      readIgnoreBackup hmac key base noFaults (run hmac key base before) = some (list, generation) →
      readIgnoreBackup hmac key base noFaults (run hmac key base calls) = some (list', generation') →
      generation ≤ generation') := by
  refine ⟨?_, ?_, ?_⟩
  · rintro before call after rfl - hwritten
    obtain ⟨hlands, named⟩ := lands_of_written hmac key base hwritten
    -- the last call from here on whose image landed
    obtain ⟨more, call', after', hsplit, hlands', hrest⟩ : ∃ more call' after',
        call :: after = more ++ call' :: after' ∧
        call'.lands hmac key base (run hmac key base (before ++ more)) = true ∧
        ∀ v ∈ Runs.visited (Call.step hmac key base)
            (call'.step hmac key base (run hmac key base (before ++ more))) after',
          v.2.lands hmac key base v.1 = false := by
      obtain hnone | ⟨more, call', after', hsplit, hlands', hrest⟩ :=
        Runs.exists_last (Call.step hmac key base) (run hmac key base before) (call :: after)
          fun card call => call.lands hmac key base card
      · have hfirst := hnone (run hmac key base before, call) List.mem_cons_self
        simp only at hfirst
        rw [hlands] at hfirst
        exact nomatch hfirst
      · have hrun : Runs.run (Call.step hmac key base) (run hmac key base before) more =
            run hmac key base (before ++ more) := by rw [run, run, Runs.run_append]
        rw [hrun] at hlands' hrest
        exact ⟨more, call', after', hsplit, hlands', hrest⟩
    obtain ⟨n, hn, hvalue⟩ := newest_lands hmac key base hlands'
    have hrun : run hmac key base (before ++ call :: after) =
        Runs.run (Call.step hmac key base)
          (call'.step hmac key base (run hmac key base (before ++ more))) after' := by
      rw [hsplit, ← List.append_assoc, run, Runs.run_append]
      rfl
    have hnewest : newest (view hmac key base (run hmac key base (before ++ call :: after))) = some n := by
      rw [hrun]
      refine Runs.invariant_of_guard (fun c => newest (view hmac key base c) = some n)
        (fun c call => call.lands hmac key base c = false) (fun c call hguard hc => ?_) hn hrest
      rw [newest_misses hmac key base hguard]
      exact hc
    have hgeneration := (finds_noFaults hmac key base (run hmac key base (before ++ call :: after))
      named).2.generation
    refine ⟨before ++ more, call', after',
      (latest hmac key base noFaults (run hmac key base (before ++ call :: after))).generation,
      by rw [hsplit, List.append_assoc], by simp, hlands', hrest, ?_⟩
    refine (read_noFaults hmac key base _ named).mpr ⟨n, hnewest, hvalue, ?_⟩
    rw [hgeneration, Alternation.generation, hnewest]
    rfl
  · intro v hv slot image hprepare hslot
    have h := prepare_ok hprepare
    have named : (path base 0).isNone = false := by rw [path_slot base 0 slot, h.named]
    rw [(finds_noFaults hmac key base v.1 named).2.slot] at hslot
    obtain ⟨n, hn, rfl⟩ := Option.map_eq_some_iff.mp hslot
    exact Alternation.target_ne hn h.target.symm
  · rintro before after list generation list' generation' rfl hbefore hafter
    have named := named_of_read hmac key base hbefore
    obtain ⟨n, hn, -, hgen⟩ := (read_noFaults hmac key base _ named).mp hbefore
    obtain ⟨n', hn', -, hgen'⟩ := (read_noFaults hmac key base _ named).mp hafter
    have hmono := generation_mono hmac key base (run hmac key base before) after
    have hrun : Runs.run (Call.step hmac key base) (run hmac key base before) after =
        run hmac key base (before ++ after) := by rw [run, run, Runs.run_append]
    rw [hrun, Alternation.generation, Alternation.generation, hn, hn'] at hmono
    have hle : n.generation ≤ n'.generation := hmono
    rw [hgen, hgen'] at hle
    exact UInt64.le_iff_toNat_le.mpr hle

/-! ## A concrete card -/

def boardKey : Bytes := List.replicate 32 0xa5

def boardBase : Bytes := ascii "/sd/SURVSNIFF/IGNORES/0123456789ABCDEF"

def emptyList : IgnoreList := Vector.replicate 64 {}

def oneIgnored : IgnoreList := emptyList.set 0 (IgnoredScent.ofHash 12345 1)

/-- HMAC-SHA-256 under `boardKey` of the first generation's image and of the second's. -/
def emptyDigest : Digest :=
  #v[157, 10, 230, 176, 196, 75, 198, 145, 172, 139, 113, 21, 124, 17, 172, 215, 248, 191, 35, 20,
    198, 14, 38, 254, 248, 111, 31, 96, 101, 35, 69, 196]

def oneDigest : Digest :=
  #v[90, 186, 96, 80, 77, 94, 1, 223, 106, 13, 170, 103, 118, 181, 139, 6, 99, 190, 44, 130, 180, 0,
    59, 49, 104, 220, 212, 237, 9, 73, 251, 80]

def boardHmac : Hmac := fun _ input =>
  if input == magic ++ contents.write (2, oneIgnored) then some oneDigest else some emptyDigest

/-- A write that loses power after a hundred bytes. -/
def tornCall (list : IgnoreList) : Call :=
  { list, write := { kept := 100, wrote := false }, returns := false }

theorem backup_crash_safe_torn : ∃ before' call' after' generation,
    [{ list := emptyList }, tornCall oneIgnored] = before' ++ call' :: after' ∧ 0 ≤ before'.length ∧
      call'.lands boardHmac boardKey boardBase (run boardHmac boardKey boardBase before') = true ∧
      (∀ v ∈ Runs.visited (Call.step boardHmac boardKey boardBase)
          (call'.step boardHmac boardKey boardBase (run boardHmac boardKey boardBase before')) after',
        v.2.lands boardHmac boardKey boardBase v.1 = false) ∧
      readIgnoreBackup boardHmac boardKey boardBase noFaults
        (run boardHmac boardKey boardBase [{ list := emptyList }, tornCall oneIgnored]) =
          some (call'.list, generation) :=
  (backup_crash_safe boardHmac boardKey boardBase [{ list := emptyList }, tornCall oneIgnored]).1
    [] { list := emptyList } [tornCall oneIgnored] rfl rfl (by decide)

/-! ## The next call -/

/-- With a valid list, without faults, a call fails only where the card holds
something but no list, or no generation is left. -/
theorem result_noFaults {card : Card} {list : IgnoreList} (hkey : keyOk key = true)
    (named : (path base 0).isNone = false) (hlist : validIgnores list = true)
    (works : ∀ input, ∃ mac, hmac key input = some mac)
    (hlast : ∀ l g, readIgnoreBackup hmac key base noFaults card = some (l, g) → g ≠ 0xffffffffffffffff) :
    (backupIgnores hmac key base noFaults {} list card).1 ≠ .Failed ↔
      (newest (view hmac key base card) ≠ none ∨ ∀ slot, view hmac key base card slot = .missing) := by
  obtain ⟨herror, finds⟩ := finds_noFaults hmac key base card named
  have hmax : (latest hmac key base noFaults card).generation ≠ 0xffffffffffffffff := by
    intro heq
    have hgeneration := finds.generation
    rw [heq] at hgeneration
    unfold Alternation.generation at hgeneration
    cases hn : newest (view hmac key base card) with
    | none =>
      rw [hn] at hgeneration
      exact nomatch hgeneration
    | some n =>
      rw [hn] at hgeneration
      exact hlast n.value 0xffffffffffffffff
        ((read_noFaults hmac key base card named).mpr ⟨n, hn, rfl, hgeneration.symm⟩) rfl
  have hrefuse : ((latest hmac key base noFaults card).slot.isNone &&
      (latest hmac key base noFaults card).existing) = false ↔
      (newest (view hmac key base card) ≠ none ∨ ∀ slot, view hmac key base card slot = .missing) := by
    rw [Bool.and_eq_false_iff, finds.existing, finds.slot]
    cases newest (view hmac key base card) with
    | none => simp
    | some n => simp
  rw [← hrefuse]
  unfold backupIgnores prepare
  simp only [hkey, hlist, herror, hmax, Bool.not_true, Bool.or_self, Bool.false_eq_true, if_false,
    Bool.false_or, beq_iff_eq, or_false, Bool.or_eq_true]
  cases hstop : (latest hmac key base noFaults card).slot.isNone &&
      (latest hmac key base noFaults card).existing with
  | true => simp
  | false =>
    simp only [Bool.false_eq_true, if_false, iff_true]
    cases hsame : (latest hmac key base noFaults card).slot.isSome &&
        (latest hmac key base noFaults card).out == list with
    | true => simp
    | false =>
      obtain ⟨mac, hmac'⟩ := works
        (magic ++ contents.write ((latest hmac key base noFaults card).generation + 1, list))
      rw [hmac']
      generalize (if (latest hmac key base noFaults card).slot = some 0 then (1 : Slot) else 0) = slot
      simp [path_slot base slot 0, named, WriteFault.ok]

theorem view_missing (card : Card) (named : (path base 0).isNone = false) (slot : Slot) :
    view hmac key base card slot = .missing ↔ card slot = none := by
  unfold view readSlot
  rw [path_slot base slot 0, named]
  cases card slot with
  | none => simp [Read.toSlot]
  | some bytes =>
    simp only [Bool.false_eq_true, if_false, Bool.not_true, Bool.or_self, reduceCtorEq, iff_false]
    split
    · split <;> simp [Read.toSlot]
    · simp [Read.toSlot]

theorem newest_stays {card : Card} (h : newest (view hmac key base card) ≠ none) (call : Call) :
    newest (view hmac key base (call.step hmac key base card)) ≠ none := by
  cases hlands : call.lands hmac key base card with
  | true =>
    obtain ⟨n, hn, -⟩ := newest_lands hmac key base hlands
    simp [hn]
  | false =>
    rw [newest_misses hmac key base hlands]
    exact h

/-- A card that holds something but no list stays as it is. -/
theorem step_stuck {card : Card} (hnone : newest (view hmac key base card) = none) {slot : Slot}
    (hslot : view hmac key base card slot ≠ .missing) (call : Call) :
    call.step hmac key base card = card := by
  unfold Call.step backupIgnores
  cases hprepare : prepare hmac key base call.reads call.list card with
  | error result => rfl
  | ok target => exact absurd ((prepare_ok hprepare).refuse hnone slot) hslot

/-- After any calls the next one fails exactly if the first file ever made on the
card was left without the whole image. -/
theorem backup_after_interruption (list : IgnoreList) (calls : List Call) (hkey : keyOk key = true)
    (named : (path base 0).isNone = false) (hlist : validIgnores list = true)
    (works : ∀ input, ∃ mac, hmac key input = some mac)
    (hlast : ∀ l g, readIgnoreBackup hmac key base noFaults (run hmac key base calls) = some (l, g) →
      g ≠ 0xffffffffffffffff) :
    (run hmac key base calls = blank →
      (backupIgnores hmac key base noFaults {} list (run hmac key base calls)).1 ≠ .Failed) ∧
    (∀ before call after, calls = before ++ call :: after → run hmac key base before = blank →
      run hmac key base (before ++ [call]) ≠ blank →
      ((backupIgnores hmac key base noFaults {} list (run hmac key base calls)).1 ≠ .Failed ↔
        call.lands hmac key base (run hmac key base before) = true)) := by
  have hresult := result_noFaults hmac key base hkey named hlist works hlast
  constructor
  · intro hblank
    refine hresult.mpr (.inr fun slot => ?_)
    rw [view_missing hmac key base _ named, hblank]
    rfl
  · rintro before call after rfl hblank hmade
    have hrun : run hmac key base (before ++ call :: after) =
        Runs.run (Call.step hmac key base) (run hmac key base (before ++ [call])) after := by
      rw [run, run, ← Runs.run_append, List.append_assoc]
      rfl
    have hone : run hmac key base (before ++ [call]) = call.step hmac key base (run hmac key base before) :=
      Runs.run_concat _ _ _ _
    rw [hresult]
    cases hlands : call.lands hmac key base (run hmac key base before) with
    | true =>
      refine iff_of_true (.inl ?_) rfl
      rw [hrun]
      refine Runs.invariant (fun c => newest (view hmac key base c) ≠ none)
        (fun c call hc => newest_stays hmac key base hc call) ?_ after
      obtain ⟨n, hn, -⟩ := newest_lands hmac key base hlands
      rw [hone, hn]
      simp
    | false =>
      have hnone : newest (view hmac key base (run hmac key base (before ++ [call]))) = none := by
        have hempty : ∀ slot, view hmac key base (run hmac key base before) slot = .missing := by
          intro slot
          rw [view_missing hmac key base _ named, hblank]
          rfl
        rw [hone, newest_misses hmac key base hlands]
        unfold newest
        rw [hempty 0, hempty 1]
      obtain ⟨slot, hslot⟩ : ∃ slot, view hmac key base (run hmac key base (before ++ [call])) slot ≠
          .missing := by
        by_contra hall
        refine hmade (funext fun slot => ?_)
        have hmissing : view hmac key base (run hmac key base (before ++ [call])) slot = .missing := by
          by_contra hne
          exact hall ⟨slot, hne⟩
        exact (view_missing hmac key base _ named slot).mp hmissing
      have hstuck : Runs.run (Call.step hmac key base) (run hmac key base (before ++ [call])) after =
          run hmac key base (before ++ [call]) :=
        Runs.invariant (fun c => c = run hmac key base (before ++ [call]))
          (fun c call hc => by rw [hc]; exact step_stuck hmac key base hnone hslot call) rfl after
      rw [hrun, hstuck]
      simp only [Bool.false_eq_true, iff_false, not_or, ne_eq, not_not]
      exact ⟨hnone, fun hall => hslot (hall slot)⟩

theorem backup_after_interruption_later :
    (backupIgnores boardHmac boardKey boardBase noFaults {} oneIgnored
      (run boardHmac boardKey boardBase [{ list := emptyList }, tornCall oneIgnored])).1 ≠ .Failed := by
  have hread : readIgnoreBackup boardHmac boardKey boardBase noFaults
      (run boardHmac boardKey boardBase [{ list := emptyList }, tornCall oneIgnored]) =
        some (emptyList, 1) := by decide +kernel
  refine ((backup_after_interruption boardHmac boardKey boardBase oneIgnored
    [{ list := emptyList }, tornCall oneIgnored] (by decide) (by decide)
    (by decide) (fun input => ?_) (fun l g h => ?_)).2 [] { list := emptyList }
    [tornCall oneIgnored] rfl rfl (by decide)).mpr (by decide)
  · unfold boardHmac
    split
    · exact ⟨_, rfl⟩
    · exact ⟨_, rfl⟩
  · rw [hread] at h
    obtain ⟨-, rfl⟩ := Prod.mk.inj (Option.some.inj h)
    decide

/-- Where the very first write is torn, the next call fails. -/
theorem backup_after_interruption_first : validIgnores emptyList = true ∧ keyOk boardKey = true ∧
    (backupIgnores boardHmac boardKey boardBase noFaults {} emptyList
      (run boardHmac boardKey boardBase [tornCall emptyList])).1 = .Failed := by
  decide

end IgnoreBackup

end Hound
