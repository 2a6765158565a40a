import Hound.Json.Writer

/-!
# Compact rows

A `Row` is an object as the writers produce it: plain distinct names, no blanks
inside, a newline at the end. Its text parses, and each member reads as the
value stored under its name.
-/

namespace Hound

open JsonTree Json Writer

/-! ## Values -/

def stringField (s : Bytes) : Field := .leaf .string (literal s)

def numberField (n : Int) : Field := .leaf .number (Decimal.integer n)

def nullField : Field := .leaf .null wordNull

def boolField (b : Bool) : Field := .leaf .boolean (if b then wordTrue else wordFalse)

def stringItem (s : Bytes) : Item (Tree 7) := { node := Shape.leaf .string (literal s) }

def stringsField (ss : List Bytes) : Field := .group .array (ss.map stringItem)

@[simp] theorem text_stringField (s : Bytes) : (stringField s).text = literal s := rfl

@[simp] theorem text_numberField (n : Int) : (numberField n).text = Decimal.integer n := rfl

@[simp] theorem text_nullField : nullField.text = wordNull := rfl

@[simp] theorem text_boolField (b : Bool) :
    (boolField b).text = if b then wordTrue else wordFalse := rfl

@[simp] theorem count_stringField (s : Bytes) : (stringField s).count = 1 := rfl

@[simp] theorem count_numberField (n : Int) : (numberField n).count = 1 := rfl

@[simp] theorem count_nullField : nullField.count = 1 := rfl

@[simp] theorem count_boolField (b : Bool) : (boolField b).count = 1 := rfl

theorem ok_stringField (s : Bytes) : fieldGrammar.ok (stringField s) := leaf_literal s

theorem ok_numberField (n : Int) : fieldGrammar.ok (numberField n) :=
  .number (Decimal.number_integer n)

theorem ok_nullField : fieldGrammar.ok nullField := .null

theorem ok_boolField (b : Bool) : fieldGrammar.ok (boolField b) := by
  cases b
  · exact .false
  · exact .true

theorem string_stringField {s : Bytes} {size : Nat} (h : Readable s) (hsize : s.length < size) :
    (stringField s).string size = some s := decode_literal h hsize

theorem fromChars_natural (n : Nat) (h : n ≤ 9223372036854775807) :
    fromChars (Decimal.natural n) = some (n : Int) := by
  have hdigits := Decimal.isDigit_natural n
  have hhead : ((Decimal.natural n).head? == some 45) = false := by
    cases hn : Decimal.natural n with
    | nil => rfl
    | cons c tail =>
      have hc := hdigits c (hn ▸ List.mem_cons_self)
      have hne : c ≠ 45 := by
        rintro rfl
        exact absurd hc (by decide)
      simpa using hne
  have hbad : ((Decimal.natural n).isEmpty || !(Decimal.natural n).all isDigit) = false := by
    have hall : (Decimal.natural n).all isDigit = true := List.all_eq_true.mpr hdigits
    simp [hall, Decimal.natural_ne_nil n]
  have hvalue : (Decimal.natural n).foldl (fun n d => n * 10 + (d.toNat - 48)) 0 = n :=
    Decimal.value_natural n
  have hrange : -9223372036854775808 ≤ (n : Int) ∧ (n : Int) ≤ 9223372036854775807 := by
    omega
  simp only [fromChars, hhead, Bool.false_eq_true, if_false, hbad, hvalue, hrange, and_self, if_true]

theorem fromChars_negative (n : Nat) (h : n ≤ 9223372036854775808) :
    fromChars (45 :: Decimal.natural n) = some (-(n : Int)) := by
  have hdigits := Decimal.isDigit_natural n
  have hbad : ((Decimal.natural n).isEmpty || !(Decimal.natural n).all isDigit) = false := by
    have hall : (Decimal.natural n).all isDigit = true := List.all_eq_true.mpr hdigits
    simp [hall, Decimal.natural_ne_nil n]
  have hvalue : (Decimal.natural n).foldl (fun n d => n * 10 + (d.toNat - 48)) 0 = n :=
    Decimal.value_natural n
  have hrange : -9223372036854775808 ≤ -(n : Int) ∧ -(n : Int) ≤ 9223372036854775807 := by
    omega
  simp only [fromChars, List.head?_cons, beq_self_eq_true, if_true, List.tail_cons, hbad,
    Bool.false_eq_true, if_false, hvalue, hrange, and_self]

theorem integer_numberField {n : Int} (hlow : -9223372036854775808 ≤ n)
    (hhigh : n ≤ 9223372036854775807) : (numberField n).integer = some n := by
  have hread : (numberField n).integer = fromChars (Decimal.integer n) := rfl
  rw [hread, Decimal.integer]
  split
  · rw [fromChars_negative _ (by omega)]
    congr 1
    omega
  · rw [fromChars_natural _ (by omega)]
    congr 1
    omega

/-! ## Arrays of strings -/

theorem itemsText_cons_flatMap {ν : Type} (g : Grammar ν) (i : Item ν) (items : List (Item ν)) :
    itemsText g (i :: items) = i.text g ++ items.flatMap fun i => 44 :: i.text g := by
  induction items generalizing i with
  | nil => simp [itemsText]
  | cons i' items ih => rw [itemsText_cons_cons, ih, List.flatMap_cons, List.cons_append]

theorem text_stringItem (s : Bytes) : (stringItem s).text (grammar keyName 7) = literal s := by
  simp [Item.text, Item.label, stringItem, grammar, Shape.grammar]

theorem text_stringsField (s : Bytes) (ss : List Bytes) :
    (stringsField (s :: ss)).text = 91 :: (literal s ++ (ss.flatMap fun s => 44 :: literal s) ++ [93]) := by
  have hgroup : (stringsField (s :: ss)).text =
      91 :: (itemsText (grammar keyName 7) (stringItem s :: ss.map stringItem) ++ [93]) := rfl
  rw [hgroup, itemsText_cons_flatMap, text_stringItem, List.flatMap_map]
  simp only [text_stringItem]

theorem count_stringItem (s : Bytes) : (stringItem s).count (grammar keyName 7) = 1 := rfl

theorem itemsCount_stringItem (ss : List Bytes) :
    itemsCount (grammar keyName 7) (ss.map stringItem) = ss.length := by
  induction ss with
  | nil => rfl
  | cons s ss ih =>
    rw [List.map_cons, itemsCount_cons, count_stringItem, ih, List.length_cons, Nat.add_comm]

theorem count_stringsField (ss : List Bytes) : (stringsField ss).count = 1 + ss.length := by
  have hgroup : (stringsField ss).count = 1 + itemsCount (grammar keyName 7) (ss.map stringItem) := rfl
  rw [hgroup, itemsCount_stringItem]

theorem itemsOk_stringItem (seen : List Bytes) (ss : List Bytes) :
    ItemsOk (grammar keyName 7) keyName .array seen (ss.map stringItem) := by
  induction ss with
  | nil => exact trivial
  | cons s ss ih => exact ⟨blank_nil, blank_nil, leaf_literal s, rfl, ih⟩

theorem ok_stringsField {ss : List Bytes} (h : ss ≠ []) : fieldGrammar.ok (stringsField ss) :=
  ⟨rfl, by simpa using h, itemsOk_stringItem [] ss⟩

/-- The tokens after an array's own are its strings, in order. -/
theorem string_stringItem {j : Json} {pos t : Nat} {ss : List Bytes}
    (h : PlacedItems (grammar keyName 7) j pos t (ss.map stringItem)) (i : Nat) {s : Bytes}
    (hs : ss[i]? = some s) (size : Nat) : j.string (some (t + i)) size = decode size (literal s) := by
  induction ss generalizing pos t i with
  | nil => simp at hs
  | cons first ss ih =>
    cases i with
    | zero =>
      obtain rfl : first = s := by simpa using hs
      have hnode : Placed (grammar keyName 7) j pos t (Shape.leaf .string (literal first)) := by
        simpa [stringItem, Item.label, Item.keyCount] using h.node (leaf_literal first)
      exact Placed.string hnode size
    | succ i =>
      have htail := h.tail (regular 7)
      rw [count_stringItem] at htail
      have hread := ih htail i (by simpa using hs)
      rwa [Nat.add_assoc, Nat.add_comm 1 i] at hread

theorem string_stringsField {j : Json} {pos t : Nat} {ss : List Bytes}
    (h : Placed fieldGrammar j pos t (stringsField ss)) (i : Nat) {s : Bytes}
    (hs : ss[i]? = some s) (size : Nat) :
    j.string (some (t + 1 + i)) size = decode size (literal s) := by
  have htext := h.text
  have htokens := h.tokens
  have hitems : PlacedItems (grammar keyName 7) j (pos + 1) (t + 1) (ss.map stringItem) :=
    ⟨(prefix_drop_append (prefix_drop_cons htext).2).1, (prefix_drop_cons htokens).2⟩
  exact string_stringItem hitems i hs size

/-! ## No line breaks inside values -/

theorem isDigit_low {c : UInt8} (h : isDigit c = true) : 32 ≤ c := by
  simp only [isDigit, Bool.and_eq_true, decide_eq_true_eq] at h
  grind

theorem body_low {body : Bytes} (h : Body body) : ∀ c ∈ body, 32 ≤ c := by
  have hhex : ∀ c, isHex c = true → 32 ≤ c := by
    intro c hc
    simp only [isHex, isDigit, Bool.or_eq_true, Bool.and_eq_true, decide_eq_true_eq] at hc
    grind
  have hescape : ∀ c, isEscape c = true → 32 ≤ c := by
    intro c hc
    simp only [isEscape, Bool.or_eq_true, beq_iff_eq] at hc
    grind
  induction h with
  | nil => exact List.forall_mem_nil _
  | plain low _ _ _ _ ih => exact List.forall_mem_cons.mpr ⟨low, ih⟩
  | escape h _ ih =>
    simp only [List.forall_mem_cons]
    exact ⟨by decide, hescape _ h, ih⟩
  | unicode ha hb hc hd _ ih =>
    simp only [List.forall_mem_cons]
    exact ⟨by decide, by decide, hhex _ ha, hhex _ hb, hhex _ hc, hhex _ hd, ih⟩

theorem literal_low (s : Bytes) : ∀ c ∈ literal s, 32 ≤ c := by
  obtain ⟨body, hbody, htext⟩ : ∃ body, Body body ∧ literal s = quoted body := by
    generalize hl : literal s = text
    have hleaf := leaf_literal s
    rw [hl] at hleaf
    cases hleaf with
    | string h => exact ⟨_, h, rfl⟩
  rw [htext, quoted]
  intro c hc
  rcases List.mem_cons.mp hc with rfl | hc
  · decide
  · rcases List.mem_append.mp hc with hc | hc
    · exact body_low hbody c hc
    · rw [List.mem_singleton.mp hc]
      decide

theorem integer_low (n : Int) : ∀ c ∈ Decimal.integer n, 32 ≤ c := by
  intro c hc
  unfold Decimal.integer at hc
  split at hc
  · rcases List.mem_cons.mp hc with rfl | hc
    · decide
    · exact isDigit_low (Decimal.isDigit_natural _ c hc)
  · exact isDigit_low (Decimal.isDigit_natural _ c hc)

theorem stringsField_low (s : Bytes) (ss : List Bytes) :
    ∀ c ∈ (stringsField (s :: ss)).text, 32 ≤ c := by
  rw [text_stringsField]
  intro c hc
  simp only [List.mem_cons, List.mem_append, List.mem_flatMap, List.not_mem_nil, or_false] at hc
  rcases hc with rfl | (hc | ⟨s', -, rfl | hc⟩) | rfl
  · decide
  · exact literal_low s c hc
  · decide
  · exact literal_low s' c hc
  · decide

/-- What a row needs of a value: it is well formed and stays on its line. -/
structure Fit (f : Field) : Prop where
  ok : fieldGrammar.ok f
  low : ∀ c ∈ f.text, 32 ≤ c

theorem fit_stringField (s : Bytes) : Fit (stringField s) := ⟨ok_stringField s, literal_low s⟩

theorem fit_numberField (n : Int) : Fit (numberField n) := ⟨ok_numberField n, integer_low n⟩

theorem fit_nullField : Fit nullField := ⟨ok_nullField, by simp [wordNull]⟩

theorem fit_boolField (b : Bool) : Fit (boolField b) := by
  refine ⟨ok_boolField b, ?_⟩
  cases b <;> simp [wordTrue, wordFalse]

theorem fit_stringsField {ss : List Bytes} (h : ss ≠ []) : Fit (stringsField ss) := by
  refine ⟨ok_stringsField h, ?_⟩
  cases ss with
  | nil => exact absurd rfl h
  | cons s ss => exact stringsField_low s ss

theorem length_stringsField_le {ss : List Bytes} {limit : Nat} (hne : ss ≠ [])
    (h : ∀ s ∈ ss, (literal s).length ≤ limit) :
    (stringsField ss).text.length ≤ 1 + (limit + 1) * ss.length := by
  have htail : ∀ ss : List Bytes, (∀ s ∈ ss, (literal s).length ≤ limit) →
      (ss.flatMap fun s => 44 :: literal s).length ≤ (limit + 1) * ss.length := by
    intro ss h
    induction ss with
    | nil => exact Nat.le_refl 0
    | cons s ss ih =>
      have hs := h s List.mem_cons_self
      have hss := ih fun s' hs' => h s' (List.mem_cons_of_mem s hs')
      rw [List.flatMap_cons, List.length_append, List.length_cons, List.length_cons, Nat.mul_succ]
      omega
  cases ss with
  | nil => exact absurd rfl hne
  | cons s ss =>
    have hs := h s List.mem_cons_self
    have hss := htail ss fun s' hs' => h s' (List.mem_cons_of_mem s hs')
    rw [text_stringsField]
    simp only [List.length_cons, List.length_append, List.length_nil, Nat.mul_succ]
    omega

/-! ## Rows -/

abbrev Row := List (Bytes × Field)

namespace Row

def item (m : Bytes × Field) : Item Field := { key := some { text := quoted m.1 }, node := m.2 }

def document (row : Row) : Document :=
  { root := Shape.group .object (row.map item), after := [10] }

def text (row : Row) : Bytes := row.document.text

theorem root_document (row : Row) :
    row.document.root = Shape.group (ν := Field) .object (row.map item) := rfl

/-- The member after its comma or brace. -/
def memberText (m : Bytes × Field) : Bytes := quoted m.1 ++ 58 :: m.2.text

theorem text_item (m : Bytes × Field) : (item m).text fieldGrammar = memberText m := by
  simp [Item.text, Item.label, Key.bytes, item, memberText, Field.text]

theorem text_cons (m : Bytes × Field) (row : Row) :
    text (m :: row) = 123 :: (memberText m ++ (row.flatMap fun m => 44 :: memberText m) ++ [125, 10]) := by
  have hroot := text_root (root_document (m :: row))
  rw [List.map_cons] at hroot
  rw [text, hroot, itemsText_cons_flatMap, text_item, List.flatMap_map]
  simp only [text_item]
  simp [document]

/-- Every member costs its two quotes, its colon and one comma or brace. -/
theorem length_text {row : Row} (h : row ≠ []) :
    row.text.length = 2 + ((row.map Prod.fst).map List.length).sum +
      (row.map fun m => m.2.text.length).sum + 4 * row.length := by
  have hmember : ∀ m, (memberText m).length = m.1.length + m.2.text.length + 3 := by
    intro m
    simp only [memberText, quoted, List.length_cons, List.length_append, List.length_nil]
    omega
  have htail : ∀ row : Row, (row.flatMap fun m => 44 :: memberText m).length =
      ((row.map Prod.fst).map List.length).sum + (row.map fun m => m.2.text.length).sum +
        4 * row.length := by
    intro row
    induction row with
    | nil => rfl
    | cons m row ih =>
      simp only [List.flatMap_cons, List.length_append, List.length_cons, hmember, ih, List.map_cons,
        List.sum_cons]
      omega
  cases row with
  | nil => exact absurd rfl h
  | cons m row =>
    rw [text_cons]
    simp only [List.length_cons, List.length_append, List.length_nil, hmember, htail, List.map_cons,
      List.sum_cons]
    omega

/-- The newline at the end of a row is its only control character. -/
theorem text_low {row : Row} (h : row ≠ []) (plain : ∀ m ∈ row, Plain m.1)
    (low : ∀ m ∈ row, ∀ c ∈ m.2.text, 32 ≤ c) : ∃ body, row.text = body ++ [10] ∧ ∀ c ∈ body, 32 ≤ c := by
  have hmember : ∀ m ∈ row, ∀ c ∈ memberText m, 32 ≤ c := by
    intro m hm c hc
    simp only [memberText, quoted, List.cons_append, List.mem_cons, List.mem_append,
      List.not_mem_nil, or_false] at hc
    rcases hc with rfl | (hc | rfl) | rfl | hc
    · decide
    · exact (plain m hm c hc).1
    · decide
    · decide
    · exact low m hm c hc
  cases row with
  | nil => exact absurd rfl h
  | cons m row =>
    refine ⟨123 :: (memberText m ++ (row.flatMap fun m => 44 :: memberText m) ++ [125]), ?_, fun c hc => ?_⟩
    · rw [text_cons]
      simp
    · simp only [List.mem_cons, List.mem_append, List.mem_flatMap, List.not_mem_nil, or_false] at hc
      rcases hc with rfl | (hc | ⟨m', hm', rfl | hc⟩) | rfl
      · decide
      · exact hmember m List.mem_cons_self c hc
      · decide
      · exact hmember m' (List.mem_cons_of_mem m hm') c hc
      · decide

/-- The newline at the end of a row is its only one. -/
theorem text_newline {row : Row} (h : row ≠ []) (plain : ∀ m ∈ row, Plain m.1)
    (low : ∀ m ∈ row, ∀ c ∈ m.2.text, 32 ≤ c) : ∃ body, row.text = body ++ [10] ∧ 10 ∉ body := by
  obtain ⟨body, hbody, hlow⟩ := text_low h plain low
  exact ⟨body, hbody, fun hten => absurd (hlow 10 hten) (by decide)⟩

structure Ok (row : Row) : Prop where
  nonempty : row ≠ []
  plain : ∀ m ∈ row, Plain m.1 ∧ m.1.length < 80
  distinct : (row.map Prod.fst).Nodup
  fields : ∀ m ∈ row, fieldGrammar.ok m.2
  size : row.text.length ≤ 2048
  count : 1 + (row.map fun m => 1 + m.2.count).sum ≤ 160

theorem name_item {m : Bytes × Field} (h : Plain m.1 ∧ m.1.length < 80) :
    itemName (item m) = some m.1 := by
  have hliteral : quoted m.1 = literal m.1 := (literal_plain h.1).symm
  have hread : itemName (item m) = decode 80 (quoted m.1) := rfl
  rw [hread, hliteral]
  exact decode_literal h.1.printable.readable h.2

theorem itemsOk {row : Row} {seen : List Bytes} (plain : ∀ m ∈ row, Plain m.1 ∧ m.1.length < 80)
    (distinct : (seen ++ row.map Prod.fst).Nodup) (fields : ∀ m ∈ row, fieldGrammar.ok m.2) :
    ItemsOk fieldGrammar keyName .object seen (row.map item) := by
  induction row generalizing seen with
  | nil => exact trivial
  | cons m row ih =>
    have hm := plain m List.mem_cons_self
    have hnew : m.1 ∉ seen := by
      intro hmem
      have hdisjoint := (List.nodup_append.mp distinct).2.2 m.1 hmem m.1 (by simp)
      exact hdisjoint rfl
    have htail : ((seen ++ [m.1]) ++ row.map Prod.fst).Nodup := by
      simpa using distinct
    have hleaf : Leaf .string (quoted m.1) := by
      rw [← literal_plain hm.1]
      exact leaf_literal m.1
    refine ⟨blank_nil, blank_nil, fields m List.mem_cons_self, rfl, m.1, ?_, ?_⟩
    · exact ⟨hleaf, blank_nil, blank_nil, name_item hm, hnew⟩
    · exact ih (fun n hn => plain n (List.mem_cons_of_mem m hn)) htail
        fun n hn => fields n (List.mem_cons_of_mem m hn)

theorem itemsCount_item (row : Row) :
    itemsCount fieldGrammar (row.map item) = (row.map fun m => 1 + m.2.count).sum := by
  unfold itemsCount
  rw [List.map_map]
  rfl

theorem Ok.document {row : Row} (h : row.Ok) : row.document.Ok := by
  refine ⟨blank_nil, ⟨rfl, ?_, ?_⟩, ?_, h.size, ?_⟩
  · exact fun hnil => h.nonempty (List.map_eq_nil_iff.mp hnil)
  · exact itemsOk h.plain (by simpa using h.distinct) h.fields
  · intro b hb
    rw [List.mem_singleton.mp hb]
    decide
  · have hcount : (grammar keyName 9).count row.document.root =
        1 + itemsCount fieldGrammar (row.map item) := rfl
    rw [hcount, itemsCount_item]
    exact h.count

/-- The text of a row parses to the row's tokens. -/
theorem parse_text {row : Row} (h : row.Ok) : Json.parse row.text = some row.document.json :=
  Json.parse_eq_some.mpr ⟨row.document, h.document, rfl, rfl⟩

theorem field_item {row : Row} (plain : ∀ m ∈ row, Plain m.1 ∧ m.1.length < 80) (key : Bytes) :
    field (row.map item) key = row.lookup key := by
  induction row with
  | nil => rfl
  | cons m row ih =>
    have hname := name_item (plain m List.mem_cons_self)
    have htail := ih fun n hn => plain n (List.mem_cons_of_mem m hn)
    unfold field at htail ⊢
    rw [List.map_cons, List.lookup_cons]
    by_cases hkey : m.1 = key
    · rw [List.find?_cons_of_pos (by simp [hname, hkey])]
      simp [hkey, item]
    · rw [List.find?_cons_of_neg (by simp [hname, hkey]), htail]
      have hne : (key == m.1) = false := by simpa using fun h : key = m.1 => hkey h.symm
      rw [hne]

theorem string_lookup {row : Row} (h : row.Ok) (key : Bytes) (size : Nat) :
    row.document.json.string (row.document.json.member 0 key) size =
      (row.lookup key).bind (Field.string size) := by
  rw [string_member h.document (root_document row), field_item h.plain]

theorem integer_lookup {row : Row} (h : row.Ok) (key : Bytes) :
    row.document.json.integer (row.document.json.member 0 key) =
      (row.lookup key).bind Field.integer := by
  rw [integer_member h.document (root_document row), field_item h.plain]

theorem raw_lookup {row : Row} (h : row.Ok) (key : Bytes) :
    row.document.json.raw (row.document.json.member 0 key) =
      ((row.lookup key).map Field.text).getD [] := by
  rw [raw_member h.document (root_document row), field_item h.plain]

/-- `member` finds the token of the value stored under the name, if there is one. -/
theorem member_lookup {row : Row} (h : row.Ok) (key : Bytes) :
    (row.document.json.member 0 key = none ∧ row.lookup key = none) ∨
    ∃ t f pos, row.document.json.member 0 key = some t ∧ row.lookup key = some f ∧
      Placed fieldGrammar row.document.json pos t f := by
  have hcases := member_cases h.document (root_document row) key
  rwa [field_item h.plain] at hcases

end Row

end Hound
