import Hound.Core.WifiCursor
import Hound.Json.Writer
import Hound.Lib.JsonStrings

/-!
# Printable names

Every name `parse_ble` shows is printable. `parse_wifi` hands the name it already
has to `parse_pwnagotchi`, which writes to it before its last checks, so a payload
that fails one of them leaves its own text behind.
-/

namespace Hound

open JsonTree Json

/-- The text of a name in its 33 bytes. -/
structure PrintableName (name : Bytes) : Prop where
  terminated : name.length ≤ 32
  printable : ∀ c ∈ name, 0x20 ≤ c ∧ c ≤ 0x7e

theorem printableName_sanitize (v : Bytes) : PrintableName (sanitize 32 v) where
  terminated := by
    unfold sanitize
    rw [List.length_map]
    exact List.length_take_le 32 v
  printable := by
    intro c hc
    obtain ⟨b, -, rfl⟩ := List.mem_map.mp hc
    split
    · rename_i hrange
      simpa using hrange
    · decide

theorem printable_nil : PrintableName [] := ⟨Nat.zero_le 32, fun _ h => absurd h List.not_mem_nil⟩

/-! ## Advertisements -/

theorem advertisedName_printable (ads : List Ad) : PrintableName (advertisedName ads) := by
  unfold advertisedName
  split
  · exact printableName_sanitize _
  · split
    · exact printableName_sanitize _
    · exact printable_nil

theorem parseBle_name {data : Bytes} {output o : Observation} (h : parseBle data output = some o) :
    PrintableName o.name := by
  obtain ⟨ads, -, rfl⟩ := parseBle_eq_some.mp h
  exact advertisedName_printable ads

/-! ## Strings written over a buffer -/

/-- A character `Json::string` writes. -/
def SevenBit (n : Nat) : Prop := 0 < n ∧ n < 128

instance : DecidablePred SevenBit := fun n => inferInstanceAs (Decidable (0 < n ∧ n < 128))

/-- All of these characters can be written where there is room for `room` of them. -/
def FitsRoom (room : Nat) (ns : List Nat) : Prop := ns.length ≤ room ∧ ∀ n ∈ ns, SevenBit n

instance (room : Nat) (ns : List Nat) : Decidable (FitsRoom room ns) :=
  inferInstanceAs (Decidable (ns.length ≤ room ∧ ∀ n ∈ ns, SevenBit n))

/-- Those before the first that cannot be written. -/
def writtenFront (room : Nat) (ns : List Nat) : Bytes :=
  ((ns.take room).takeWhile fun n => decide (SevenBit n)).map UInt8.ofNat

/-- What `Json::string` makes of a buffer. -/
def copied : List Nat → Bytes → Bool × Bytes
  | [], out => (true, out.set 0 0)
  | n :: ns, out =>
    if SevenBit n ∧ 1 < out.length then ((copied ns out.tail).1, UInt8.ofNat n :: (copied ns out.tail).2)
    else (false, out)

theorem escapes_spec {e : UInt8} {n : Nat} (h : (e, n) ∈ escapes) :
    e ≠ 117 ∧ Json.escaped e = UInt8.ofNat n ∧ (Json.escaped e == 0) = false ∧ SevenBit n := by
  have hall : ∀ p ∈ escapes, p.1 ≠ 117 ∧ Json.escaped p.1 = UInt8.ofNat p.2 ∧ (Json.escaped p.1 == 0) = false ∧
      SevenBit p.2 := by decide
  exact hall (e, n) h

theorem hexValue_eq {h : UInt8} (hhex : isHex h = true) : Json.hexValue h = hexNumber h := by
  have hall : ∀ n < 256, isHex (UInt8.ofNat n) = true → Json.hexValue (UInt8.ofNat n) = hexNumber (UInt8.ofNat n) := by
    decide +kernel
  have hback := hall h.toNat h.toNat_lt
  rw [UInt8.ofNat_toNat] at hback
  exact hback hhex

theorem unicode_eq {a b c d : UInt8} (ha : isHex a = true) (hb : isHex b = true) (hc : isHex c = true)
    (hd : isHex d = true) : Json.unicode a b c d = fourDigits a b c d := by
  unfold Json.unicode fourDigits
  rw [hexValue_eq ha, hexValue_eq hb, hexValue_eq hc, hexValue_eq hd]

theorem sevenBit_plain {c : UInt8} (low : 32 ≤ c) (high : c < 128) : (c == 0) = false ∧ SevenBit c.toNat := by
  have hlow : 32 ≤ c.toNat := UInt8.le_iff_toNat_le.mp low
  have hhigh : c.toNat < 128 := UInt8.lt_iff_toNat_lt.mp high
  refine ⟨?_, by omega, hhigh⟩
  rw [beq_eq_false_iff_ne]
  rintro rfl
  exact absurd low (by decide)

/-- One character, behind those that have been written. -/
theorem unescapeInto_step {next : Nat → Bytes → Bool × Bytes} {n : Nat} {ns : List Nat} (front : Bytes) {out : Bytes}
    (hn : SevenBit n) (hout : out ≠ []) (hnext : ∀ front' out' : Bytes, out' ≠ [] →
      next front'.length (front' ++ out') = ((copied ns out').1, front' ++ (copied ns out').2)) :
    (if (front ++ out).length ≤ front.length + 1 then (false, front ++ out)
      else next (front.length + 1) ((front ++ out).set front.length (UInt8.ofNat n))) =
        ((copied (n :: ns) out).1, front ++ (copied (n :: ns) out).2) := by
  obtain ⟨b, out, rfl⟩ := List.exists_cons_of_ne_nil hout
  unfold copied
  rw [List.length_append, List.length_cons, List.tail_cons]
  by_cases hend : out = []
  · rw [if_pos (by rw [hend]; exact Nat.le_refl _), if_neg (by rw [hend]; simp)]
  · have hpos : 0 < out.length := List.length_pos_of_ne_nil hend
    have hset : (front ++ b :: out).set front.length (UInt8.ofNat n) = (front ++ [UInt8.ofNat n]) ++ out := by
      rw [List.set_append_right _ _ (Nat.le_refl _), Nat.sub_self, List.append_assoc]
      rfl
    have hrest := hnext (front ++ [UInt8.ofNat n]) out hend
    rw [List.length_append, List.length_singleton, List.append_assoc front] at hrest
    rw [if_neg (by omega), if_pos ⟨hn, by omega⟩, hset, List.append_assoc, hrest]
    simp only [List.append_assoc, List.singleton_append]

theorem unescapeInto_spells {body : Bytes} {ns : List Nat} (h : Spells body ns) (front out : Bytes) (hout : out ≠ []) :
    Json.unescapeInto body front.length (front ++ out) = ((copied ns out).1, front ++ (copied ns out).2) := by
  induction h generalizing front out with
  | nil =>
    unfold Json.unescapeInto copied
    rw [List.set_append_right _ _ (Nat.le_refl _), Nat.sub_self]
  | @plain c rest ns low high quote slash _ ih =>
    obtain ⟨hzero, hseven⟩ := sevenBit_plain low high
    rw [Json.unescapeInto.eq_5 _ _ _ _ (by grind) (by grind) (by grind), hzero, Bool.or_false]
    have hstep := unescapeInto_step front hseven hout ih
    rw [UInt8.ofNat_toNat] at hstep
    rw [← hstep]
    simp only [decide_eq_true_eq]
  | @escape e n rest ns he _ ih =>
    obtain ⟨hu, hescaped, hzero, hseven⟩ := escapes_spec he
    rw [Json.unescapeInto.eq_3 _ _ _ _ (by grind), hzero, Bool.or_false, hescaped]
    have hstep := unescapeInto_step front hseven hout ih
    rw [← hstep]
    simp only [decide_eq_true_eq]
  | @unicode a b c d rest ns ha hb hc hd _ ih =>
    rw [Json.unescapeInto, unicode_eq ha hb hc hd]
    by_cases hseven : SevenBit (fourDigits a b c d)
    · have hstep := unescapeInto_step front hseven hout ih
      rw [← hstep]
      have hrange : (fourDigits a b c d == 0) = false ∧ decide (127 < fourDigits a b c d) = false := by
        obtain ⟨hpos, hlt⟩ := hseven
        exact ⟨beq_eq_false_iff_ne.mpr (by omega), decide_eq_false (by omega)⟩
      simp only [hrange.1, hrange.2, Bool.or_self, Bool.false_or, decide_eq_true_eq]
    · have hrange : (fourDigits a b c d == 0 || decide (127 < fourDigits a b c d)) = true := by
        unfold SevenBit at hseven
        simp only [Bool.or_eq_true, beq_iff_eq, decide_eq_true_eq]
        omega
      rw [hrange, Bool.true_or, if_pos rfl]
      unfold copied
      rw [if_neg fun h => hseven h.1]

theorem unescape_spells {body : Bytes} {ns : List Nat} (h : Spells body ns) :
    Json.unescape body = if ∀ n ∈ ns, SevenBit n then some (ns.map UInt8.ofNat) else none := by
  have hcons : ∀ {n : Nat} {ns : List Nat}, SevenBit n →
      (if ∀ m ∈ ns, SevenBit m then some (ns.map UInt8.ofNat) else none).map (UInt8.ofNat n :: ·) =
        if ∀ m ∈ n :: ns, SevenBit m then some ((n :: ns).map UInt8.ofNat) else none := by
    intro n ns hn
    by_cases hall : ∀ m ∈ ns, SevenBit m
    · rw [if_pos hall, if_pos (List.forall_mem_cons.mpr ⟨hn, hall⟩)]
      rfl
    · rw [if_neg hall, if_neg fun h => hall (List.forall_mem_cons.mp h).2]
      rfl
  induction h with
  | nil => rfl
  | @plain c rest ns low high quote slash _ ih =>
    obtain ⟨hzero, hseven⟩ := sevenBit_plain low high
    rw [Json.unescape.eq_5 _ _ (by grind) (by grind) (by grind), hzero, ih, ← hcons hseven, UInt8.ofNat_toNat]
    rfl
  | @escape e n rest ns he _ ih =>
    obtain ⟨hu, hescaped, hzero, hseven⟩ := escapes_spec he
    rw [Json.unescape.eq_3 _ _ (by grind), hzero, hescaped, ih, ← hcons hseven]
    rfl
  | @unicode a b c d rest ns ha hb hc hd _ ih =>
    rw [Json.unescape, unicode_eq ha hb hc hd]
    by_cases hseven : SevenBit (fourDigits a b c d)
    · have hrange : (fourDigits a b c d == 0 || decide (127 < fourDigits a b c d)) = false := by
        obtain ⟨hpos, hlt⟩ := hseven
        rw [beq_eq_false_iff_ne.mpr (by omega), decide_eq_false (by omega)]
        rfl
      rw [hrange, ih, ← hcons hseven]
      rfl
    · have hrange : (fourDigits a b c d == 0 || decide (127 < fourDigits a b c d)) = true := by
        unfold SevenBit at hseven
        simp only [Bool.or_eq_true, beq_iff_eq, decide_eq_true_eq]
        omega
      rw [hrange, if_pos rfl, if_neg fun h => hseven (h _ List.mem_cons_self)]

/-! ## What is left of a name -/

/-- A name in its array, as it is before `parse_pwnagotchi`. -/
def inArray (name : Bytes) : Bytes := name ++ List.replicate (33 - name.length) 0

/-- The name after these characters were written over it. -/
def leftName (room : Nat) (ns : List Nat) (name : Bytes) : Bytes :=
  if FitsRoom room ns then ns.map UInt8.ofNat
  else writtenFront room ns ++ name.drop (writtenFront room ns).length

theorem fitsRoom_cons {room n : Nat} {ns : List Nat} : FitsRoom (room + 1) (n :: ns) ↔ SevenBit n ∧ FitsRoom room ns := by
  unfold FitsRoom
  rw [List.length_cons, Nat.add_le_add_iff_right, List.forall_mem_cons]
  exact ⟨fun h => ⟨h.2.1, h.1, h.2.2⟩, fun h => ⟨h.2.1, h.1, h.2.2⟩⟩

theorem writtenFront_cons {room n : Nat} {ns : List Nat} (hn : SevenBit n) :
    writtenFront (room + 1) (n :: ns) = UInt8.ofNat n :: writtenFront room ns := by
  unfold writtenFront
  rw [List.take_succ_cons, List.takeWhile_cons_of_pos (by simpa using hn), List.map_cons]

theorem leftName_cons {room n : Nat} {ns : List Nat} (hn : SevenBit n) (name : Bytes) :
    leftName (room + 1) (n :: ns) name = UInt8.ofNat n :: leftName room ns name.tail := by
  unfold leftName
  by_cases hfits : FitsRoom room ns
  · rw [if_pos hfits, if_pos (fitsRoom_cons.mpr ⟨hn, hfits⟩), List.map_cons]
  · rw [if_neg hfits, if_neg fun h => hfits (fitsRoom_cons.mp h).2, writtenFront_cons hn, List.cons_append, List.length_cons,
      List.drop_tail]

/-- Nothing can be written: no room, or another character. -/
theorem leftName_stop {room n : Nat} {ns : List Nat} (h : room = 0 ∨ ¬ SevenBit n) (name : Bytes) :
    ¬ FitsRoom room (n :: ns) ∧ leftName room (n :: ns) name = name := by
  have hfits : ¬ FitsRoom room (n :: ns) := by
    rintro ⟨hshort, hall⟩
    rcases h with rfl | hn
    · exact absurd hshort (by simp)
    · exact hn (hall n List.mem_cons_self)
  have hnone : writtenFront room (n :: ns) = [] := by
    unfold writtenFront
    rcases h with rfl | hn
    · rfl
    · cases room with
      | zero => rfl
      | succ room => rw [List.take_succ_cons, List.takeWhile_cons_of_neg (by simpa using hn), List.map_nil]
  refine ⟨hfits, ?_⟩
  unfold leftName
  rw [if_neg hfits, hnone]
  rfl

theorem cString_cons {c : UInt8} (hc : c ≠ 0) (out : Bytes) : cString (c :: out) = c :: cString out := by
  unfold cString
  rw [List.takeWhile_cons_of_pos (by simpa using hc)]

/-- A text without NUL before at least one NUL. -/
theorem copied_name (ns : List Nat) (name : Bytes) (more : Nat) (hclean : ∀ c ∈ name, (c != 0) = true) :
    ((copied ns (name ++ List.replicate (more + 1) 0)).1 = true ↔ FitsRoom (name.length + more) ns) ∧
      cString (copied ns (name ++ List.replicate (more + 1) 0)).2 = leftName (name.length + more) ns name := by
  induction ns generalizing name more with
  | nil =>
    have hfits : FitsRoom (name.length + more) [] := ⟨Nat.zero_le _, nofun⟩
    refine ⟨iff_of_true rfl hfits, ?_⟩
    unfold leftName copied
    rw [if_pos hfits]
    cases name with
    | nil => rfl
    | cons c name => rfl
  | cons n ns ih =>
    have hlength : (name ++ List.replicate (more + 1) (0 : UInt8)).length = name.length + more + 1 := by
      rw [List.length_append, List.length_replicate, Nat.add_assoc]
    by_cases hgoes : SevenBit n ∧ 1 < (name ++ List.replicate (more + 1) (0 : UInt8)).length
    · obtain ⟨hn, hroom⟩ := hgoes
      have hne : UInt8.ofNat n ≠ 0 := by
        intro hzero
        have hmod : n % 256 = 0 := congrArg UInt8.toNat hzero
        obtain ⟨hpos, hlt⟩ := hn
        omega
      -- the first byte of the array is written, the rest is an array again
      obtain ⟨more', hrest, hcount⟩ : ∃ more', (name ++ List.replicate (more + 1) (0 : UInt8)).tail =
          name.tail ++ List.replicate (more' + 1) 0 ∧ name.length + more = (name.tail.length + more') + 1 := by
        cases name with
        | nil =>
          obtain ⟨more', rfl⟩ : ∃ more', more = more' + 1 := ⟨more - 1, by simp at hroom; omega⟩
          exact ⟨more', rfl, by simp⟩
        | cons c name => exact ⟨more, rfl, by simp; omega⟩
      obtain ⟨hflag, hname⟩ := ih name.tail more' fun c hc => hclean c (List.mem_of_mem_tail hc)
      unfold copied
      rw [if_pos ⟨hn, hroom⟩, hrest, hcount, fitsRoom_cons, leftName_cons hn, cString_cons hne, hname]
      exact ⟨⟨fun h => ⟨hn, hflag.mp h⟩, fun h => hflag.mpr h.2⟩, rfl⟩
    · have hstop : name.length + more = 0 ∨ ¬ SevenBit n := by
        by_cases hn : SevenBit n
        · left
          have hshort : ¬ 1 < (name ++ List.replicate (more + 1) (0 : UInt8)).length := fun h => hgoes ⟨hn, h⟩
          omega
        · exact .inr hn
      obtain ⟨hfits, hleft⟩ := @leftName_stop _ _ ns hstop name
      unfold copied
      rw [if_neg hgoes, hleft]
      exact ⟨iff_of_false Bool.false_ne_true hfits, WifiArrays.cString_padded hclean _⟩

theorem leftName_length {room : Nat} {name : Bytes} (ns : List Nat) (h : name.length ≤ room) :
    (leftName room ns name).length ≤ room := by
  unfold leftName
  split
  · rename_i hfits
    rw [List.length_map]
    exact hfits.1
  · have hfront : (writtenFront room ns).length ≤ room := by
      unfold writtenFront
      rw [List.length_map]
      exact (List.takeWhile_sublist _).length_le.trans (List.length_take_le _ _)
    rw [List.length_append, List.length_drop]
    omega

theorem leftName_ne {room : Nat} {ns : List Nat} {name : Bytes} :
    leftName room ns name ≠ name ↔ (FitsRoom room ns → ns.map UInt8.ofNat ≠ name) ∧
      (¬ FitsRoom room ns → ¬ writtenFront room ns <+: name) := by
  unfold leftName
  by_cases hfits : FitsRoom room ns
  · rw [if_pos hfits]
    exact ⟨fun h => ⟨fun _ => h, fun hno => absurd hfits hno⟩, fun h => h.1 hfits⟩
  · rw [if_neg hfits, ne_eq, ← List.prefix_iff_eq_append]
    exact ⟨fun h => ⟨fun hyes => absurd hyes hfits, fun _ => h⟩, fun h => h.2 hfits⟩

theorem PrintableName.clean {name : Bytes} (h : PrintableName name) : ∀ c ∈ name, (c != 0) = true := by
  intro c hc
  rw [bne_iff_ne]
  rintro rfl
  exact absurd (h.printable 0 hc).1 (by decide)

theorem copied_inArray (ns : List Nat) {name : Bytes} (h : PrintableName name) :
    ((copied ns (inArray name)).1 = true ↔ FitsRoom 32 ns) ∧ cString (copied ns (inArray name)).2 = leftName 32 ns name := by
  have hshort := h.terminated
  have hmore : 33 - name.length = (32 - name.length) + 1 := by omega
  have hroom : name.length + (32 - name.length) = 32 := by omega
  have hcopied := copied_name ns name (32 - name.length) h.clean
  rw [hroom] at hcopied
  unfold inArray
  rw [hmore]
  exact hcopied

theorem cString_inArray {name : Bytes} (h : PrintableName name) : cString (inArray name) = name :=
  WifiArrays.cString_padded h.clean _

/-! ## Payloads -/

/-- The member is a string of these characters. -/
def Spelled (items : List (Item Field)) (key : Bytes) (ns : List Nat) : Prop :=
  ∃ body, field items key = some (.leaf .string (quoted body)) ∧ Spells body ns

/-- The member is a string that is not empty and fits 33 bytes. -/
def Filled (items : List (Item Field)) (key : Bytes) : Prop := ∃ ns, Spelled items key ns ∧ FitsRoom 32 ns ∧ ns ≠ []

/-- The text of a whole number from zero to the last of 32 bits. -/
def CountText (text : Bytes) : Prop :=
  ∃ digits, Digits digits ∧ Decimal.value digits ≤ 0xffffffff ∧
    (text = digits ∨ text = 45 :: digits ∧ Decimal.value digits = 0)

/-- The payload is an object with a count. -/
structure MeshPayload (payload : Bytes) (items : List (Item Field)) : Prop where
  document : ∃ d : Document, d.Ok ∧ payload = d.text ∧ d.root = Shape.group .object items
  count : ∃ text, field items (ascii "pwnd_tot") = some (.leaf .number text) ∧ CountText text

/-- What the payload of a Pwnagotchi has besides its count. -/
structure Admitted (items : List (Item Field)) (ns : List Nat) : Prop where
  fits : FitsRoom 32 ns
  nonempty : ns ≠ []
  printable : ∀ n ∈ ns, 32 ≤ n ∧ n ≤ 126
  version : Filled items (ascii "version")

/-- A value that is no container is a leaf. -/
theorem leaf_of_kind {f : Field} (ok : fieldGrammar.ok f) (h : (kindOf f).container = false) :
    ∃ text, f = .leaf (kindOf f) text := by
  cases f with
  | leaf kind text => exact ⟨text, rfl⟩
  | empty kind blank =>
    have hkind : kind.container = true := ok.1
    rw [show kind.container = false from h] at hkind
    exact Bool.noConfusion hkind
  | group kind items =>
    have hkind : kind.container = true := ok.1
    rw [show kind.container = false from h] at hkind
    exact Bool.noConfusion hkind

theorem string_leaf {f : Field} (ok : fieldGrammar.ok f) (h : kindOf f = .string) :
    ∃ body, f = .leaf .string (quoted body) ∧ Body body := by
  obtain ⟨text, hleaf⟩ := leaf_of_kind ok (by rw [h]; rfl)
  rw [hleaf, h] at ok
  rw [hleaf, h]
  cases ok with
  | string hbody => exact ⟨_, rfl, hbody⟩

theorem fromChars_count {text : Bytes} :
    (∃ v, fromChars text = some v ∧ 0 ≤ v ∧ v ≤ 0xffffffff) ↔ CountText text := by
  have hdigits : ∀ ds : Bytes, (ds.isEmpty || !ds.all isDigit) = false ↔ Digits ds := by
    intro ds
    unfold Digits
    simp
  have hvalue : ∀ ds : Bytes, ds.foldl (fun n d => n * 10 + (d.toNat - 48)) 0 = Decimal.value ds := fun _ => rfl
  unfold fromChars CountText
  simp only [hvalue]
  by_cases hsign : (text.head? == some 45) = true
  · obtain ⟨ds, rfl⟩ : ∃ ds, text = 45 :: ds := by
      cases text with
      | nil => exact Bool.noConfusion hsign
      | cons c ds =>
        simp only [List.head?_cons, Option.some_beq_some, beq_iff_eq] at hsign
        exact ⟨ds, by rw [hsign]⟩
    simp only [hsign, if_true, List.tail_cons]
    constructor
    · rintro ⟨v, hv, hlow, hhigh⟩
      split at hv
      · exact nomatch hv
      · rename_i hok
        rw [Bool.not_eq_true, hdigits] at hok
        split at hv
        · have hneg := Option.some.inj hv
          exact ⟨ds, hok, by omega, .inr ⟨rfl, by omega⟩⟩
        · exact nomatch hv
    · rintro ⟨digits, hok, hlow, hsame⟩
      have hboth : digits = ds ∧ Decimal.value ds = 0 := by
        rcases hsame with rfl | ⟨hcons, hzero⟩
        · exact absurd (hok.2 45 List.mem_cons_self) (by decide)
        · obtain rfl := (List.cons.inj hcons).2
          exact ⟨rfl, hzero⟩
      obtain ⟨rfl, hzero⟩ := hboth
      refine ⟨0, ?_, Int.le_refl 0, by decide⟩
      rw [(hdigits digits).mpr hok, hzero]
      rfl
  · simp only [hsign, Bool.false_eq_true, if_false]
    constructor
    · rintro ⟨v, hv, hlow, hhigh⟩
      split at hv
      · exact nomatch hv
      · rename_i hok
        rw [Bool.not_eq_true, hdigits] at hok
        split at hv
        · have hpos := Option.some.inj hv
          exact ⟨text, hok, by omega, .inl rfl⟩
        · exact nomatch hv
    · rintro ⟨digits, hok, hlow, hsame⟩
      obtain rfl : digits = text := by
        rcases hsame with rfl | ⟨rfl, -⟩
        · rfl
        · exact absurd rfl hsign
      refine ⟨(Decimal.value digits : Int), ?_, by omega, by omega⟩
      rw [(hdigits digits).mpr hok, if_neg Bool.false_ne_true, if_pos ⟨by omega, by omega⟩]

section Members

variable {d : Document} {items : List (Item Field)} {key : Bytes} {ns : List Nat}

theorem field_ok (ok : d.Ok) (hroot : d.root = Shape.group .object items) {f : Field} (h : field items key = some f) :
    fieldGrammar.ok f := by
  obtain ⟨-, hnone⟩ | ⟨t, f', pos, -, hsome, hplaced⟩ := member_cases ok hroot key
  · rw [h] at hnone
    exact nomatch hnone
  · rw [h] at hsome
    rw [Option.some.inj hsome]
    exact hplaced.ok

theorem stringInto_spelled (ok : d.Ok) (hroot : d.root = Shape.group .object items) (h : Spelled items key ns) {out : Bytes}
    (hout : out ≠ []) : d.json.stringInto (d.json.member 0 key) out = copied ns out := by
  obtain ⟨body, hfield, hspells⟩ := h
  obtain ⟨-, hnone⟩ | ⟨t, f, pos, hmember, hsome, hplaced⟩ := member_cases ok hroot key
  · rw [hfield] at hnone
    exact nomatch hnone
  · rw [hfield] at hsome
    obtain rfl := Option.some.inj hsome
    have htoken := Placed.token hplaced
    have hraw := Placed.raw hplaced
    have hempty : out.isEmpty = false := by simpa using hout
    have htext : ((quoted body).tail.dropLast : Bytes) = body := List.dropLast_concat
    have hcopied := unescapeInto_spells hspells [] out hout
    unfold Json.stringInto
    rw [hmember, Option.bind_some, htoken, hraw, hempty]
    change Json.unescapeInto (quoted body).tail.dropLast 0 out = _
    rw [htext]
    exact hcopied

theorem stringInto_unspelled (ok : d.Ok) (hroot : d.root = Shape.group .object items) (h : ∀ ns, ¬ Spelled items key ns)
    (out : Bytes) : d.json.stringInto (d.json.member 0 key) out = (false, out) := by
  obtain ⟨hmember, -⟩ | ⟨t, f, pos, hmember, hsome, hplaced⟩ := member_cases ok hroot key
  · rw [hmember]
    rfl
  · have hkind : kindOf f ≠ .string := by
      intro hstring
      obtain ⟨body, rfl, hbody⟩ := string_leaf hplaced.ok hstring
      obtain ⟨ns, hns⟩ := spells_body hbody
      exact h ns ⟨body, hsome, hns⟩
    have htoken := Placed.token hplaced
    have hno : (kindOf f == TokenType.string) = false := by simpa using hkind
    unfold Json.stringInto
    rw [hmember, Option.bind_some, htoken]
    simp only [hno, Bool.false_and, Bool.false_eq_true, if_false]

theorem filled_iff (ok : d.Ok) (hroot : d.root = Shape.group .object items) :
    (d.json.string (d.json.member 0 key) 33).any (!·.isEmpty) = true ↔ Filled items key := by
  have hread : ∀ {body : Bytes} {ns : List Nat}, Spells body ns →
      ((Field.string 33 (.leaf .string (quoted body))).any (!·.isEmpty) = true ↔ FitsRoom 32 ns ∧ ns ≠ []) := by
    intro body ns hspells
    have hdecode : Field.string 33 (.leaf .string (quoted body)) = decode 33 (quoted body) := rfl
    rw [hdecode, decode_quoted, unescape_spells hspells]
    unfold FitsRoom
    by_cases hall : ∀ n ∈ ns, SevenBit n
    · rw [if_pos hall, Option.filter_some, List.length_map]
      by_cases hshort : ns.length ≤ 32
      · rw [if_pos (decide_eq_true (Nat.lt_succ_of_le hshort)), Option.any_some]
        cases ns with
        | nil => exact iff_of_false Bool.false_ne_true fun h => h.2 rfl
        | cons n ns => exact iff_of_true rfl ⟨⟨hshort, hall⟩, List.cons_ne_nil n ns⟩
      · rw [if_neg fun h => hshort (Nat.le_of_lt_succ (of_decide_eq_true h))]
        exact iff_of_false Bool.false_ne_true fun h => hshort h.1.1
    · rw [if_neg hall]
      exact iff_of_false Bool.false_ne_true fun h => hall h.1.2
  rw [string_member ok hroot]
  constructor
  · intro h
    cases hfield : field items key with
    | none =>
      rw [hfield] at h
      exact Bool.noConfusion h
    | some f =>
      rw [hfield, Option.bind_some] at h
      have hkind : kindOf f = .string := by
        by_contra hother
        have hno : (kindOf f == TokenType.string) = false := by simpa using hother
        unfold Field.string at h
        rw [hno] at h
        exact Bool.noConfusion h
      obtain ⟨body, rfl, hbody⟩ := string_leaf (field_ok ok hroot hfield) hkind
      obtain ⟨ns, hspells⟩ := spells_body hbody
      obtain ⟨hfits, hne⟩ := (hread hspells).mp h
      exact ⟨ns, ⟨body, hfield, hspells⟩, hfits, hne⟩
  · rintro ⟨ns, ⟨body, hfield, hspells⟩, hfits, hne⟩
    rw [hfield, Option.bind_some]
    exact (hread hspells).mpr ⟨hfits, hne⟩

end Members

/-! ## What `parse_pwnagotchi` returns -/

section Payload

variable {payload name : Bytes} {items : List (Item Field)} {ns : List Nat}

theorem root_kind (d : Document) (ok : d.Ok) : d.json.tokens[0]?.map Token.kind = some (kindOf d.root) := by
  have hplaced : Placed (Shape.grammar fieldGrammar keyName) d.json d.before.length 0 d.root :=
    ⟨ok.root, ⟨d.after, by
      have hinput : d.json.input = d.before ++ ((grammar keyName 9).text d.root ++ d.after) := rfl
      rw [hinput, List.drop_left]
      rfl⟩, List.prefix_rfl⟩
  rw [hplaced.token]
  rfl

theorem count_member {d : Document} (ok : d.Ok) (hroot : d.root = Shape.group .object items) :
    (d.json.integer (d.json.member 0 (ascii "pwnd_tot"))).any
        (fun count => decide (0 ≤ count) && decide (count ≤ 0xffffffff)) = true ↔
      ∃ text, field items (ascii "pwnd_tot") = some (.leaf .number text) ∧ CountText text := by
  rw [integer_member ok hroot]
  constructor
  · intro h
    cases hfield : field items (ascii "pwnd_tot") with
    | none =>
      rw [hfield] at h
      exact Bool.noConfusion h
    | some f =>
      rw [hfield, Option.bind_some] at h
      unfold Field.integer at h
      by_cases hkind : kindOf f = .number
      · obtain ⟨text, hleaf⟩ := leaf_of_kind (field_ok ok hroot hfield) (by rw [hkind]; rfl)
        rw [hkind] at hleaf h
        have htext : f.text = text := by rw [hleaf]; rfl
        rw [beq_self_eq_true, if_pos rfl, htext] at h
        refine ⟨text, congrArg some hleaf, fromChars_count.mp ?_⟩
        cases hread : fromChars text with
        | none =>
          rw [hread] at h
          exact Bool.noConfusion h
        | some v =>
          rw [hread, Option.any_some, Bool.and_eq_true, decide_eq_true_eq, decide_eq_true_eq] at h
          exact ⟨v, rfl, h⟩
      · have hno : (kindOf f == TokenType.number) = false := by simpa using hkind
        rw [hno] at h
        exact Bool.noConfusion h
  · rintro ⟨text, hfield, hcount⟩
    obtain ⟨v, hv, hrange⟩ := fromChars_count.mpr hcount
    have hinteger : Field.integer (.leaf .number text) = some v := hv
    rw [hfield, Option.bind_some, hinteger, Option.any_some, Bool.and_eq_true, decide_eq_true_eq, decide_eq_true_eq]
    exact hrange

/-- The document, if it passes the checks before the name is read. -/
def meshJson (payload : Bytes) : Option Json :=
  (Json.parse payload).filter fun j =>
    (j.tokens[0]?.map Token.kind) == some .object &&
      (j.integer (j.member 0 (ascii "pwnd_tot"))).any fun count => decide (0 ≤ count) && decide (count ≤ 0xffffffff)

theorem MeshPayload.json (h : MeshPayload payload items) :
    ∃ d : Document, d.Ok ∧ d.root = Shape.group .object items ∧ meshJson payload = some d.json := by
  obtain ⟨d, ok, htext, hroot⟩ := h.document
  refine ⟨d, ok, hroot, ?_⟩
  unfold meshJson
  rw [Json.parse_eq_some.mpr ⟨d, ok, htext, rfl⟩, Option.filter_some, root_kind d ok, hroot,
    (count_member ok hroot).mpr h.count]
  rfl

theorem meshPayload_of_json {j : Json} (h : meshJson payload = some j) : ∃ items, MeshPayload payload items := by
  unfold meshJson at h
  obtain ⟨hparse, hchecks⟩ := Option.filter_eq_some_iff.mp h
  obtain ⟨d, ok, htext, rfl⟩ := Json.parse_eq_some.mp hparse
  rw [root_kind d ok, Bool.and_eq_true, beq_iff_eq, Option.some.injEq] at hchecks
  obtain ⟨hkind, hcount⟩ := hchecks
  cases hroot : d.root with
  | leaf kind text =>
    have hok := ok.root
    rw [hroot] at hok hkind
    obtain rfl : kind = .object := hkind
    cases hok
  | empty kind blank =>
    -- an object without members has no count
    rw [hroot] at hkind
    obtain rfl : kind = .object := hkind
    have htokens : d.json.tokens = [⟨d.before.length, blank.length + 2, 0 + 1, .object⟩] := by
      rw [Document.json, hroot]
      rfl
    have hnone : d.json.member 0 (ascii "pwnd_tot") = none := by
      unfold Json.member
      rw [htokens]
      rfl
    rw [hnone] at hcount
    exact Bool.noConfusion hcount
  | group kind items =>
    rw [hroot] at hkind
    obtain rfl : kind = .object := hkind
    exact ⟨items, ⟨d, ok, htext, hroot⟩, (count_member ok hroot).mp hcount⟩

/-- What it leaves when it reads the name, and when it does not. -/
theorem parsePwnagotchi_eq (payload buffer : Bytes) :
    parsePwnagotchi payload buffer = match meshJson payload with
      | none => (false, buffer)
      | some j =>
        let r := j.stringInto (j.member 0 (ascii "name")) buffer
        (r.1 && !(cString r.2).isEmpty && (cString r.2).all (fun c => 32 ≤ c && c ≤ 126) &&
          (j.string (j.member 0 (ascii "version")) 33).any (!·.isEmpty), r.2) := by
  have hprintable : ∀ s : Bytes, (s.any fun c => decide (c < 32) || decide (126 < c)) =
      !s.all fun c => decide (32 ≤ c) && decide (c ≤ 126) := by
    intro s
    rw [List.not_all_eq_any_not]
    refine congrArg s.any (funext fun c => ?_)
    rw [Bool.not_and, ← decide_not, ← decide_not]
    simp only [UInt8.not_le]
  unfold parsePwnagotchi meshJson
  cases Json.parse payload with
  | none => rfl
  | some j =>
    dsimp only
    rw [Option.filter_some]
    by_cases hroot : (j.tokens[0]?.map Token.kind == some .object) = true
    · rw [hroot, Bool.true_and, if_neg (by rw [bne, hroot]; exact Bool.false_ne_true)]
      cases j.integer (j.member 0 (ascii "pwnd_tot")) with
      | none => rfl
      | some count =>
        dsimp only
        rw [Option.any_some]
        by_cases hrange : 0 ≤ count ∧ count ≤ 0xffffffff
        · have hinside : (decide (count < 0) || decide (0xffffffff < count)) = false := by
            rw [Bool.or_eq_false_iff, decide_eq_false_iff_not, decide_eq_false_iff_not]
            omega
          rw [hinside, decide_eq_true hrange.1, decide_eq_true hrange.2, if_neg Bool.false_ne_true, Bool.and_self, if_pos rfl]
          dsimp only
          generalize j.stringInto (j.member 0 (ascii "name")) buffer = r
          rw [hprintable]
          cases r.1 with
          | false => rfl
          | true =>
            cases (cString r.2).isEmpty with
            | true => rfl
            | false =>
              cases (cString r.2).all fun c => decide (32 ≤ c) && decide (c ≤ 126) with
              | false => rfl
              | true => cases j.string (j.member 0 (ascii "version")) 33 <;> rfl
        · have houtside : (decide (count < 0) || decide (0xffffffff < count)) = true := by
            rw [Bool.or_eq_true, decide_eq_true_eq, decide_eq_true_eq]
            omega
          rw [houtside, if_pos rfl, if_neg]
          rw [Bool.and_eq_true, decide_eq_true_eq, decide_eq_true_eq]
          exact hrange
    · rw [if_pos (by simpa [bne] using hroot), if_neg fun h => hroot (Bool.and_eq_true_iff.mp h).1]

theorem printable_ofNat {n : Nat} (h : SevenBit n) :
    ((32 : UInt8) ≤ UInt8.ofNat n ∧ UInt8.ofNat n ≤ 126) ↔ 32 ≤ n ∧ n ≤ 126 := by
  have hn : (UInt8.ofNat n).toNat = n := by
    rw [UInt8.toNat_ofNat']
    exact Nat.mod_eq_of_lt (h.2.trans (by decide))
  rw [UInt8.le_iff_toNat_le, UInt8.le_iff_toNat_le, hn]
  rfl

/-- A payload whose name is spelled is read as its text says. -/
theorem parsePwnagotchi_spelled (h : MeshPayload payload items) (hspelled : Spelled items (ascii "name") ns)
    (hname : PrintableName name) :
    ((parsePwnagotchi payload (inArray name)).1 = true ↔ Admitted items ns) ∧
      cString (parsePwnagotchi payload (inArray name)).2 = leftName 32 ns name := by
  obtain ⟨d, ok, hroot, hjson⟩ := h.json
  have hbuffer : inArray name ≠ [] := by
    intro hempty
    have hlength := congrArg List.length hempty
    unfold inArray at hlength
    rw [List.length_append, List.length_replicate, List.length_nil] at hlength
    have hshort := hname.terminated
    omega
  obtain ⟨hfits, hleft⟩ := copied_inArray ns hname
  rw [parsePwnagotchi_eq, hjson]
  dsimp only
  rw [stringInto_spelled ok hroot hspelled hbuffer, hleft]
  refine ⟨?_, rfl⟩
  simp only [Bool.and_eq_true, hfits, filled_iff ok hroot, Bool.not_eq_true', List.isEmpty_eq_false_iff, List.all_eq_true,
    decide_eq_true_eq]
  constructor
  · rintro ⟨⟨⟨hroom, hne⟩, hprint⟩, hversion⟩
    unfold leftName at hne hprint
    rw [if_pos hroom] at hne hprint
    refine ⟨hroom, fun hempty => hne (by rw [hempty]; rfl), fun n hn => ?_, hversion⟩
    rw [← printable_ofNat (hroom.2 n hn)]
    exact hprint _ (List.mem_map_of_mem hn)
  · rintro ⟨hroom, hne, hprint, hversion⟩
    unfold leftName
    rw [if_pos hroom]
    refine ⟨⟨⟨hroom, fun hempty => hne (List.map_eq_nil_iff.mp hempty)⟩, fun c hc => ?_⟩, hversion⟩
    obtain ⟨n, hn, rfl⟩ := List.mem_map.mp hc
    exact (printable_ofNat (hroom.2 n hn)).mpr (hprint n hn)

/-- Any other payload leaves the name alone. -/
theorem parsePwnagotchi_unspelled (h : ∀ items, MeshPayload payload items → ∀ ns, ¬ Spelled items (ascii "name") ns)
    (name : Bytes) : parsePwnagotchi payload name = (false, name) := by
  rw [parsePwnagotchi_eq]
  cases hjson : meshJson payload with
  | none => rfl
  | some j =>
    obtain ⟨items, hmesh⟩ := meshPayload_of_json hjson
    obtain ⟨d, ok, hroot, hdocument⟩ := hmesh.json
    rw [hjson] at hdocument
    obtain rfl := Option.some.inj hdocument
    dsimp only
    rw [stringInto_unspelled ok hroot (h items hmesh)]
    rfl

theorem parsePwnagotchi_length (payload : Bytes) (hname : PrintableName name) :
    (cString (parsePwnagotchi payload (inArray name)).2).length ≤ 32 := by
  by_cases hspelled : ∃ items ns, MeshPayload payload items ∧ Spelled items (ascii "name") ns
  · obtain ⟨items, ns, hpayload, hspelled⟩ := hspelled
    rw [(parsePwnagotchi_spelled hpayload hspelled hname).2]
    exact leftName_length ns hname.terminated
  · rw [parsePwnagotchi_unspelled (fun items hpayload ns hs => hspelled ⟨items, ns, hpayload, hs⟩), cString_inArray hname]
    exact hname.terminated

end Payload

/-! ## Frames -/

/-- The sanitised SSID of a list of elements. -/
def ssidText (es : List Element) : Bytes := sanitize 32 ((valuesOf 0 es).headD [])

/-- What the product relies on: the name is printable, and it is the SSID's unless a payload was read. -/
def NameShown (frame : Bytes) (o : Observation) : Prop :=
  PrintableName o.name ∧
    (o.pwnagotchi = false → ∀ es, Advertisement frame → FrameBody frame es → o.name = ssidText es)

/-- A beacon from the signature address whose payload spells a name, but not what a Pwnagotchi sends:
the name is cut off, empty or not printable, or there is no version. What was written of it, up to its
end or to the first character that cannot be written, is not what the SSID already says. -/
structure Overwritten (frame : Bytes) (es : List Element) (items : List (Item Field)) (ns : List Nat) : Prop where
  body : FrameBody frame es
  beacon : subtypeOf frame = 8
  mesh : addressAt frame 10 = meshAddress
  payload : MeshPayload (valuesOf 222 es).flatten items
  name : Spelled items (ascii "name") ns
  refused : ¬ FitsRoom 32 ns ∨ ns = [] ∨ (∃ n ∈ ns, n < 32 ∨ 126 < n) ∨ ¬ Filled items (ascii "version")
  complete : FitsRoom 32 ns → ns.map UInt8.ofNat ≠ ssidText es
  cutOff : ¬ FitsRoom 32 ns → ¬ writtenFront 32 ns <+: ssidText es

theorem not_admitted {items : List (Item Field)} {ns : List Nat} :
    ¬ Admitted items ns ↔
      ¬ FitsRoom 32 ns ∨ ns = [] ∨ (∃ n ∈ ns, n < 32 ∨ 126 < n) ∨ ¬ Filled items (ascii "version") := by
  have hsplit : Admitted items ns ↔
      FitsRoom 32 ns ∧ ns ≠ [] ∧ (∀ n ∈ ns, 32 ≤ n ∧ n ≤ 126) ∧ Filled items (ascii "version") :=
    ⟨fun ⟨hfits, hne, hprint, hversion⟩ => ⟨hfits, hne, hprint, hversion⟩,
      fun ⟨hfits, hne, hprint, hversion⟩ => ⟨hfits, hne, hprint, hversion⟩⟩
  rw [hsplit]
  simp only [not_and_or, not_forall, not_le, ne_eq, not_not, exists_prop]

section Frames

variable {frame : Bytes} {output : Observation}

/-- The name and the flag after the elements of a frame: a beacon from the signature address goes through
`parse_pwnagotchi`. -/
theorem finish_name (es : List Element) :
    ((Elements.of (wifiBase frame output) es).finish frame).o.name =
        (if subtypeOf frame = 8 ∧ addressAt frame 10 = meshAddress then
          cString (parsePwnagotchi (valuesOf 222 es).flatten (inArray (ssidText es))).2 else ssidText es) ∧
      ((Elements.of (wifiBase frame output) es).finish frame).o.pwnagotchi =
        (decide (subtypeOf frame = 8 ∧ addressAt frame 10 = meshAddress) &&
          (parsePwnagotchi (valuesOf 222 es).flatten (inArray (ssidText es))).1) := by
  have hname : (Elements.of (wifiBase frame output) es).o.name = ssidText es := rfl
  have hpwn : (Elements.of (wifiBase frame output) es).pwn = (valuesOf 222 es).flatten := rfl
  have hsubtype : (Elements.of (wifiBase frame output) es).o.subtype = subtypeOf frame := rfl
  have haddress : (Elements.of (wifiBase frame output) es).o.address = addressAt frame 10 := rfl
  have hflag : (Elements.of (wifiBase frame output) es).o.pwnagotchi = false := rfl
  have hssid : PrintableName (ssidText es) := printableName_sanitize _
  unfold Elements.finish
  rw [hname, hpwn, hsubtype, haddress]
  by_cases hbeacon : subtypeOf frame = 8
  · by_cases hmesh : addressAt frame 10 = meshAddress
    · rw [if_pos (And.intro hbeacon hmesh), decide_eq_true (And.intro hbeacon hmesh), hbeacon, hmesh]
      by_cases hempty : (valuesOf 222 es).flatten = []
      · rw [hempty, parsePwnagotchi_nil, cString_inArray hssid]
        exact ⟨hname, hflag⟩
      · have hsome : (valuesOf 222 es).flatten.isEmpty = false := by simpa using hempty
        rw [hsome]
        exact ⟨rfl, (Bool.true_and _).symm⟩
    · have hother : ¬ (subtypeOf frame = 8 ∧ addressAt frame 10 = meshAddress) := fun h => hmesh h.2
      have hno : (addressAt frame 10 == meshAddress) = false := by simpa using hmesh
      rw [if_neg hother, decide_eq_false hother, hno]
      split
      · exact ⟨rfl, rfl⟩
      · exact ⟨hname, hflag⟩
  · have hother : ¬ (subtypeOf frame = 8 ∧ addressAt frame 10 = meshAddress) := fun h => hbeacon h.1
    have hno : (subtypeOf frame == 8) = false := by simpa using hbeacon
    rw [if_neg hother, decide_eq_false hother, hno, Bool.and_false]
    exact ⟨hname, hflag⟩

/-- An accepted frame without elements shows no name; any other one went through `finish`. -/
theorem parseWifi_cases {o : Observation} (h : parseWifi frame output = some o) :
    (o.name = [] ∧ (subtypeOf frame = 10 ∨ subtypeOf frame = 12)) ∨
      (Advertisement frame ∧ ∃ es, FrameBody frame es ∧
        o = ((Elements.of (wifiBase frame output) es).finish frame).o) := by
  obtain ⟨hlong, hversion, hdirection⟩ := header_of_some h
  rw [parseWifi_of_header hlong hversion hdirection] at h
  split at h
  · rename_i hset
    have hdismissal : subtypeOf frame = 10 ∨ subtypeOf frame = 12 := by simpa using hset
    split at h
    · exact nomatch h
    · obtain rfl : wifiHeader frame output = o := Option.some.inj h
      exact .inl ⟨rfl, hdismissal⟩
  · split at h
    · exact nomatch h
    · rename_i hkind
      obtain ⟨e, hread, haccepted⟩ := Option.bind_eq_some_iff.mp h
      obtain ⟨es, hbody, rfl⟩ := body_of_read hread
      refine .inr ⟨(advertisement_iff hlong).mpr hkind, es, hbody, ?_⟩
      unfold Elements.accepted at haccepted
      split at haccepted
      · exact nomatch haccepted
      · exact (Option.some.inj haccepted).symm

/-- A frame has one list of elements. -/
theorem body_unique {es es' : List Element} (h : FrameBody frame es) (h' : FrameBody frame es') :
    Elements.of (wifiBase frame {}) es = Elements.of (wifiBase frame {}) es' := by
  have hread := @read_body frame {} es h
  rw [read_body h'] at hread
  exact (Option.some.inj hread).symm

theorem Overwritten.other {es es' : List Element} {items : List (Item Field)} {ns : List Nat} (h : Overwritten frame es' items ns)
    (hbody : FrameBody frame es) : Overwritten frame es items ns := by
  have hof := body_unique h.body hbody
  have hssid : ssidText es' = ssidText es := congrArg (fun e => e.o.name) hof
  have hpayload : (valuesOf 222 es').flatten = (valuesOf 222 es).flatten := congrArg Elements.pwn hof
  refine { h with body := hbody, payload := ?_, complete := ?_, cutOff := ?_ }
  · rw [← hpayload]
    exact h.payload
  · rw [← hssid]
    exact h.complete
  · rw [← hssid]
    exact h.cutOff

/-- An overwritten name is not the SSID's, and the frame is not a Pwnagotchi's. -/
theorem Overwritten.shown {es : List Element} {items : List (Item Field)} {ns : List Nat} (h : Overwritten frame es items ns) :
    ((Elements.of (wifiBase frame output) es).finish frame).o.pwnagotchi = false ∧
      ((Elements.of (wifiBase frame output) es).finish frame).o.name ≠ ssidText es := by
  have hssid : PrintableName (ssidText es) := printableName_sanitize _
  obtain ⟨hresult, htext⟩ := parsePwnagotchi_spelled h.payload h.name hssid
  obtain ⟨hname, hflag⟩ := @finish_name frame output es
  rw [hname, hflag, if_pos ⟨h.beacon, h.mesh⟩, htext]
  have hno : (parsePwnagotchi (valuesOf 222 es).flatten (inArray (ssidText es))).1 = false := by
    rw [← Bool.not_eq_true, hresult, not_admitted]
    exact h.refused
  rw [hno, Bool.and_false]
  exact ⟨rfl, leftName_ne.mpr ⟨h.complete, h.cutOff⟩⟩

/-- Without such a payload the name is printable, and the SSID's unless a Pwnagotchi was read. -/
theorem shown_of_not_overwritten {es : List Element} (hbody : FrameBody frame es)
    (h : ∀ items ns, ¬ Overwritten frame es items ns) :
    PrintableName ((Elements.of (wifiBase frame output) es).finish frame).o.name ∧
      (((Elements.of (wifiBase frame output) es).finish frame).o.pwnagotchi = false →
        ((Elements.of (wifiBase frame output) es).finish frame).o.name = ssidText es) := by
  have hssid : PrintableName (ssidText es) := printableName_sanitize _
  obtain ⟨hname, hflag⟩ := @finish_name frame output es
  rw [hname, hflag]
  by_cases hmesh : subtypeOf frame = 8 ∧ addressAt frame 10 = meshAddress
  · rw [if_pos hmesh, decide_eq_true hmesh, Bool.true_and]
    by_cases hspelled : ∃ items ns, MeshPayload (valuesOf 222 es).flatten items ∧ Spelled items (ascii "name") ns
    · obtain ⟨items, ns, hpayload, hspelled⟩ := hspelled
      obtain ⟨hresult, htext⟩ := parsePwnagotchi_spelled hpayload hspelled hssid
      rw [htext]
      by_cases hadmitted : Admitted items ns
      · refine ⟨⟨leftName_length ns hssid.terminated, fun c hc => ?_⟩, fun hno => ?_⟩
        · unfold leftName at hc
          rw [if_pos hadmitted.fits] at hc
          obtain ⟨n, hn, rfl⟩ := List.mem_map.mp hc
          exact (printable_ofNat (hadmitted.fits.2 n hn)).mpr (hadmitted.printable n hn)
        · rw [hresult.mpr hadmitted] at hno
          exact nomatch hno
      · have hsame : leftName 32 ns (ssidText es) = ssidText es := by
          by_contra hdiffers
          obtain ⟨hcomplete, hcut⟩ := leftName_ne.mp hdiffers
          exact h items ns ⟨hbody, hmesh.1, hmesh.2, hpayload, hspelled, not_admitted.mp hadmitted, hcomplete, hcut⟩
        rw [hsame]
        exact ⟨hssid, fun _ => rfl⟩
    · rw [parsePwnagotchi_unspelled (fun items hpayload ns hs => hspelled ⟨items, ns, hpayload, hs⟩), cString_inArray hssid]
      exact ⟨hssid, fun _ => rfl⟩
  · rw [if_neg hmesh]
    exact ⟨hssid, fun _ => rfl⟩

theorem nameShown_iff {o : Observation} (h : parseWifi frame output = some o) :
    NameShown frame o ↔ ¬ ∃ es items ns, Overwritten frame es items ns := by
  rcases parseWifi_cases h with ⟨hempty, hdismissal⟩ | ⟨hadvertisement, es, hbody, rfl⟩
  · refine iff_of_true ⟨?_, fun _ es hadvertisement => ?_⟩ ?_
    · rw [hempty]
      exact printable_nil
    · unfold Advertisement at hadvertisement
      rcases hdismissal with hd | hd
      · simp [hd] at hadvertisement
      · simp [hd] at hadvertisement
    · rintro ⟨es, items, ns, hover⟩
      rw [hover.beacon] at hdismissal
      exact absurd hdismissal (by decide)
  · have hsame : ∀ es', FrameBody frame es' → ssidText es' = ssidText es := fun es' hbody' =>
      congrArg (fun e => e.o.name) (body_unique hbody' hbody)
    constructor
    · rintro ⟨-, hshown⟩ ⟨es', items, ns, hover⟩
      have hover' : Overwritten frame es items ns := hover.other hbody
      obtain ⟨hflag, hne⟩ := @Overwritten.shown frame output es items ns hover'
      exact hne (hshown hflag es hadvertisement hbody)
    · intro hno
      obtain ⟨hprintable, hssid⟩ :=
        @shown_of_not_overwritten frame output es hbody fun items ns hover => hno ⟨es, items, ns, hover⟩
      refine ⟨hprintable, fun hflag es' _ hbody' => ?_⟩
      rw [hsame es' hbody']
      exact hssid hflag

/-- An accepted frame's name ends in its array, whatever was written to it. -/
theorem parseWifi_terminated {o : Observation} (h : parseWifi frame output = some o) : o.name.length ≤ 32 := by
  rcases parseWifi_cases h with ⟨hempty, -⟩ | ⟨-, es, -, rfl⟩
  · rw [hempty]
    exact Nat.zero_le 32
  · have hssid : PrintableName (ssidText es) := printableName_sanitize _
    rw [(@finish_name frame output es).1]
    split
    · exact parsePwnagotchi_length _ hssid
    · exact hssid.terminated

end Frames

/-- Names are printable but for the payload that is refused after its name was written. -/
theorem names_printable (data frame : Bytes) (output : Observation) :
    (∀ o, parseBle data output = some o → PrintableName o.name) ∧
      ∀ o, parseWifi frame output = some o →
        o.name.length ≤ 32 ∧ (NameShown frame o ↔ ¬ ∃ es items ns, Overwritten frame es items ns) :=
  ⟨fun _ => parseBle_name, fun _ h => ⟨parseWifi_terminated h, nameShown_iff h⟩⟩

/-- A beacon for the network "A" whose payload has a control character for a name. -/
def scrawledFrame : Bytes :=
  [0x80, 0, 0, 0, 255, 255, 255, 255, 255, 255, 0xde, 0xad, 0xbe, 0xef, 0xde, 0xad, 0xde, 0xad, 0xbe, 0xef, 0xde, 0xad,
    0, 0] ++ (List.replicate 12 0 ++ ([0, 1, 65] ++ ([222, 30] ++ ascii "\x7b\"pwnd_tot\":1,\"name\":\"\\u0001\"\x7d")))

theorem scrawled_name :
    ∃ o, parseWifi scrawledFrame {} = some o ∧ o.pwnagotchi = false ∧ o.name = [1] ∧ ¬ NameShown scrawledFrame o := by
  have hread : (parseWifi scrawledFrame {}).map (fun o => (o.pwnagotchi, o.name)) = some (false, [1]) := by
    decide +kernel
  obtain ⟨o, hparse, hfields⟩ := Option.map_eq_some_iff.mp hread
  obtain ⟨hflag, hname⟩ := Prod.mk.inj hfields
  refine ⟨o, hparse, hflag, hname, fun hshown => ?_⟩
  have hlow := (hshown.1.printable 1 (by rw [hname]; exact List.mem_cons_self)).1
  exact absurd hlow (by decide)

end Hound
