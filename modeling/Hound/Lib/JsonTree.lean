import Mathlib

/-!
# Concrete syntax trees of 7-bit JSON

A tree keeps every byte of the text it stands for: blanks, escapes, the way a
number is written. `Tree level` is a value nested at most `level` deep, so the
depth limit of a reader is a type here. What a property needs of the values one
level down is bundled as a `Grammar`; `Shape.grammar` is the one step from a
level to the next, and `grammar` iterates it.
-/

namespace JsonTree

/-! ## Tokens -/

inductive TokenType where
  | object | array | string | number | boolean | null
  deriving DecidableEq, Repr

/-- A value's or key's extent in the text, and the index after its subtree. -/
structure Token where
  start : Nat
  size : Nat
  after : Nat
  kind : TokenType
  deriving DecidableEq, Repr

/-! ## Character classes -/

def isBlank (b : UInt8) : Bool := b == 32 || b == 10 || b == 13 || b == 9

def Blank (bytes : List UInt8) : Prop := ∀ b ∈ bytes, isBlank b = true

def isDigit (b : UInt8) : Bool := decide (48 ≤ b) && decide (b ≤ 57)

def isHex (b : UInt8) : Bool :=
  isDigit b || (decide (97 ≤ b) && decide (b ≤ 102)) || (decide (65 ≤ b) && decide (b ≤ 70))

/-- The characters that may follow a backslash, `u` apart. -/
def isEscape (b : UInt8) : Bool :=
  b == 34 || b == 92 || b == 47 || b == 98 || b == 102 || b == 110 || b == 114 || b == 116

/-! ## Leaves -/

/-- What may stand between two quotes. -/
inductive Body : List UInt8 → Prop where
  | nil : Body []
  | plain {c : UInt8} {rest : List UInt8} (low : 32 ≤ c) (high : c < 128) (quote : c ≠ 34)
      (slash : c ≠ 92) (tail : Body rest) : Body (c :: rest)
  | escape {e : UInt8} {rest : List UInt8} (h : isEscape e = true) (tail : Body rest) :
      Body (92 :: e :: rest)
  | unicode {a b c d : UInt8} {rest : List UInt8} (ha : isHex a = true) (hb : isHex b = true)
      (hc : isHex c = true) (hd : isHex d = true) (tail : Body rest) :
      Body (92 :: 117 :: a :: b :: c :: d :: rest)

/-- One or more digits. -/
def Digits (bytes : List UInt8) : Prop := bytes ≠ [] ∧ ∀ b ∈ bytes, isDigit b = true

/-- Zero, or digits that do not begin with zero. -/
def Whole (bytes : List UInt8) : Prop := bytes = [48] ∨ (Digits bytes ∧ bytes.head? ≠ some 48)

def Fraction (bytes : List UInt8) : Prop := bytes = [] ∨ ∃ ds, bytes = 46 :: ds ∧ Digits ds

def Sign (bytes : List UInt8) : Prop := bytes = [] ∨ bytes = [45]

def Exponent (bytes : List UInt8) : Prop :=
  bytes = [] ∨ ∃ e sign ds, bytes = e :: (sign ++ ds) ∧ (e = 101 ∨ e = 69) ∧
    (Sign sign ∨ sign = [43]) ∧ Digits ds

def Number (bytes : List UInt8) : Prop :=
  ∃ sign whole fraction exponent, bytes = sign ++ (whole ++ (fraction ++ exponent)) ∧
    Sign sign ∧ Whole whole ∧ Fraction fraction ∧ Exponent exponent

def wordTrue : List UInt8 := [116, 114, 117, 101]
def wordFalse : List UInt8 := [102, 97, 108, 115, 101]
def wordNull : List UInt8 := [110, 117, 108, 108]

def quoted (body : List UInt8) : List UInt8 := 34 :: (body ++ [34])

/-- The values without parts. -/
inductive Leaf : TokenType → List UInt8 → Prop where
  | string {body : List UInt8} (h : Body body) : Leaf .string (quoted body)
  | number {text : List UInt8} (h : Number text) : Leaf .number text
  | true : Leaf .boolean wordTrue
  | false : Leaf .boolean wordFalse
  | null : Leaf .null wordNull

/-! ## Shapes -/

/-- A key with the blanks before and after its colon. -/
structure Key where
  text : List UInt8
  gap : List UInt8 := []
  lead : List UInt8 := []

structure Item (ν : Type) where
  before : List UInt8 := []
  key : Option Key := none
  node : ν
  after : List UInt8 := []

/-- A value whose parts are of type `ν`. -/
inductive Shape (ν : Type) where
  | leaf (kind : TokenType) (text : List UInt8)
  | empty (kind : TokenType) (blank : List UInt8)
  | group (kind : TokenType) (items : List (Item ν))

def Key.bytes (k : Key) : List UInt8 := k.text ++ (k.gap ++ 58 :: k.lead)

/-- What stands before the item's value. -/
def Item.label {ν : Type} (i : Item ν) : List UInt8 :=
  i.before ++ match i.key with
    | none => []
    | some k => k.bytes

def Item.keyCount {ν : Type} (i : Item ν) : Nat := if i.key.isSome then 1 else 0

def TokenType.opening : TokenType → UInt8
  | .object => 123
  | _ => 91

def TokenType.closing : TokenType → UInt8
  | .object => 125
  | _ => 93

def TokenType.container : TokenType → Bool
  | .object => true
  | .array => true
  | _ => false

/-- How the values of one level are written, counted, indexed and constrained. -/
structure Grammar (ν : Type) where
  text : ν → List UInt8
  count : ν → Nat
  tokens : ν → Nat → Nat → List Token
  ok : ν → Prop

section Step

variable {ν : Type} (g : Grammar ν)

def Item.text (i : Item ν) : List UInt8 := i.label ++ (g.text i.node ++ i.after)

def Item.count (i : Item ν) : Nat := i.keyCount + g.count i.node

/-- The tokens of an item whose text starts at `pos` and whose first token is `idx`. -/
def Item.tokens (i : Item ν) (pos idx : Nat) : List Token :=
  (match i.key with
    | none => []
    | some k => [⟨pos + i.before.length, k.text.length, idx + 1, .string⟩]) ++
  g.tokens i.node (pos + i.label.length) (idx + i.keyCount)

/-- Items with commas between them. -/
def itemsText : List (Item ν) → List UInt8
  | [] => []
  | [i] => i.text g
  | i :: rest => i.text g ++ 44 :: itemsText rest

def itemsCount (items : List (Item ν)) : Nat := (items.map (Item.count g)).sum

def itemsTokens : List (Item ν) → Nat → Nat → List Token
  | [], _, _ => []
  | i :: rest, pos, idx =>
      i.tokens g pos idx ++ itemsTokens rest (pos + (i.text g).length + 1) (idx + i.count g)

/-- The constraint on a key: a string whose name is known and new. -/
def Key.ok (name : List UInt8 → Option (List UInt8)) (seen : List (List UInt8)) (k : Key)
    (n : List UInt8) : Prop :=
  Leaf .string k.text ∧ Blank k.gap ∧ Blank k.lead ∧ name k.text = some n ∧ n ∉ seen

/-- Items of a container after the keys `seen`: keys exactly in objects, each one new. -/
def ItemsOk (name : List UInt8 → Option (List UInt8)) (kind : TokenType) :
    List (List UInt8) → List (Item ν) → Prop
  | _, [] => True
  | seen, i :: rest =>
      Blank i.before ∧ Blank i.after ∧ g.ok i.node ∧
      match i.key with
      | none => kind = .array ∧ ItemsOk name kind seen rest
      | some k => kind = .object ∧ ∃ n, k.ok name seen n ∧ ItemsOk name kind (seen ++ [n]) rest

def Shape.grammar (name : List UInt8 → Option (List UInt8)) : Grammar (Shape ν) where
  text
    | .leaf _ text => text
    | .empty kind blank => kind.opening :: (blank ++ [kind.closing])
    | .group kind items => kind.opening :: (itemsText g items ++ [kind.closing])
  count
    | .group _ items => 1 + itemsCount g items
    | _ => 1
  tokens
    | .leaf kind text, pos, idx => [⟨pos, text.length, idx + 1, kind⟩]
    | .empty kind blank, pos, idx => [⟨pos, blank.length + 2, idx + 1, kind⟩]
    | .group kind items, pos, idx =>
        ⟨pos, (itemsText g items).length + 2, idx + 1 + itemsCount g items, kind⟩ ::
          itemsTokens g items (pos + 1) (idx + 1)
  ok
    | .leaf kind text => Leaf kind text
    | .empty kind blank => kind.container = true ∧ Blank blank
    | .group kind items =>
        kind.container = true ∧ items ≠ [] ∧ ItemsOk g name kind [] items

end Step

/-! ## Trees -/

/-- A value nested at most `level` deep. -/
def Tree : Nat → Type
  | 0 => Empty
  | level + 1 => Shape (Tree level)

def grammar (name : List UInt8 → Option (List UInt8)) : (level : Nat) → Grammar (Tree level)
  | 0 => { text := nofun, count := nofun, tokens := nofun, ok := nofun }
  | level + 1 => Shape.grammar (grammar name level) name

/-! ## Objects -/

/-- A member of an object: the name of its key and the token of its value. -/
structure Member where
  name : List UInt8
  value : Nat
  deriving DecidableEq, Repr

section Objects

variable {ν : Type} (name : List UInt8 → Option (List UInt8)) (g : Grammar ν)

/-- The members of items whose first token is `idx`; a value follows its key. -/
def itemsMembers : List (Item ν) → Nat → List Member
  | [], _ => []
  | i :: rest, idx =>
      ((i.key.bind fun k => name k.text).map fun n => ⟨n, idx + 1⟩).toList ++
        itemsMembers rest (idx + i.count g)

variable (inner : ν → Nat → List (Nat × List Member))

def itemsObjects : List (Item ν) → Nat → List (Nat × List Member)
  | [], _ => []
  | i :: rest, idx => inner i.node (idx + i.keyCount) ++ itemsObjects rest (idx + i.count g)

/-- The objects of a value whose first token is `idx`: each one's token and members. -/
def Shape.objects : Shape ν → Nat → List (Nat × List Member)
  | .leaf _ _, _ => []
  | .empty kind _, idx => if kind = .object then [(idx, [])] else []
  | .group kind items, idx =>
      (if kind = .object then [(idx, itemsMembers name g items (idx + 1))] else []) ++
        itemsObjects g inner items (idx + 1)

end Objects

def objects (name : List UInt8 → Option (List UInt8)) :
    (level : Nat) → Tree level → Nat → List (Nat × List Member)
  | 0, node, _ => nomatch node
  | level + 1, node, idx => Shape.objects name (grammar name level) (objects name level) node idx

/-! ## Sizes -/

section Sizes

variable {ν : Type} (g : Grammar ν)

theorem itemsText_cons_cons (i j : Item ν) (rest : List (Item ν)) :
    itemsText g (i :: j :: rest) = i.text g ++ 44 :: itemsText g (j :: rest) := rfl

@[simp] theorem itemsCount_cons (i : Item ν) (rest : List (Item ν)) :
    itemsCount g (i :: rest) = i.count g + itemsCount g rest := by
  simp [itemsCount]

/-- Every value has exactly `count` tokens. -/
def Grammar.Counted (g : Grammar ν) : Prop :=
  ∀ node pos idx, (g.tokens node pos idx).length = g.count node

theorem length_itemTokens (h : g.Counted) (i : Item ν) (pos idx : Nat) :
    (i.tokens g pos idx).length = i.count g := by
  unfold Item.tokens Item.count Item.keyCount
  cases i.key with
  | none => simp [h i.node]
  | some k => simp [h i.node, Nat.add_comm]

theorem length_itemsTokens (h : g.Counted) (items : List (Item ν)) (pos idx : Nat) :
    (itemsTokens g items pos idx).length = itemsCount g items := by
  induction items generalizing pos idx with
  | nil => rfl
  | cons i rest ih =>
    simp only [itemsTokens, List.length_append, length_itemTokens g h, ih, itemsCount_cons]

theorem Shape.counted (name : List UInt8 → Option (List UInt8)) (h : g.Counted) :
    (Shape.grammar g name).Counted := by
  intro node pos idx
  cases node with
  | leaf kind text => rfl
  | empty kind blank => rfl
  | group kind items =>
    simp only [Shape.grammar, List.length_cons, length_itemsTokens g h]
    omega

theorem counted (name : List UInt8 → Option (List UInt8)) (level : Nat) :
    (grammar name level).Counted := by
  induction level with
  | zero => exact fun node => nomatch node
  | succ level ih => exact Shape.counted _ name ih

end Sizes

/-! ## Blanks in front of the first item -/

section Indent

variable {ν : Type} (g : Grammar ν)

/-- The same item with more blanks in front. -/
def Item.indent (blank : List UInt8) (i : Item ν) : Item ν := { i with before := blank ++ i.before }

theorem label_indent (blank : List UInt8) (i : Item ν) :
    (i.indent blank).label = blank ++ i.label := by
  simp only [Item.label, Item.indent, List.append_assoc]

theorem itemsText_indent (blank : List UInt8) (i : Item ν) (rest : List (Item ν)) :
    itemsText g (i.indent blank :: rest) = blank ++ itemsText g (i :: rest) := by
  have htext : (i.indent blank).text g = blank ++ i.text g := by
    rw [Item.text, label_indent, List.append_assoc]
    rfl
  cases rest with
  | nil => exact htext
  | cons j rest => rw [itemsText_cons_cons, itemsText_cons_cons, htext, List.append_assoc]

theorem itemsCount_indent (blank : List UInt8) (i : Item ν) (rest : List (Item ν)) :
    itemsCount g (i.indent blank :: rest) = itemsCount g (i :: rest) := rfl

theorem itemsTokens_indent (blank : List UInt8) (i : Item ν) (rest : List (Item ν))
    (pos idx : Nat) :
    itemsTokens g (i.indent blank :: rest) pos idx =
      itemsTokens g (i :: rest) (pos + blank.length) idx := by
  have htokens : (i.indent blank).tokens g pos idx = i.tokens g (pos + blank.length) idx := by
    rw [Item.tokens, Item.tokens, label_indent]
    simp only [Item.indent, Item.keyCount, List.length_append, ← Nat.add_assoc]
    rfl
  have hlength : ((i.indent blank).text g).length = blank.length + (i.text g).length := by
    rw [Item.text, label_indent, List.append_assoc, List.length_append]
    rfl
  rw [itemsTokens, itemsTokens, htokens, hlength, ← Nat.add_assoc]
  rfl

theorem itemsOk_indent {name : List UInt8 → Option (List UInt8)} {kind : TokenType}
    {seen : List (List UInt8)} {blank : List UInt8} (hblank : Blank blank) {i : Item ν}
    {rest : List (Item ν)} (h : ItemsOk g name kind seen (i :: rest)) :
    ItemsOk g name kind seen (i.indent blank :: rest) := by
  obtain ⟨hbefore, htail⟩ := h
  refine ⟨fun b hb => ?_, htail⟩
  rcases List.mem_append.mp hb with hb | hb
  · exact hblank b hb
  · exact hbefore b hb

/-- Every first item is one without blanks, indented. -/
theorem indent_bare (i : Item ν) : ({ i with before := [] } : Item ν).indent i.before = i := by
  simp [Item.indent]

theorem itemsOk_bare {name : List UInt8 → Option (List UInt8)} {kind : TokenType}
    {seen : List (List UInt8)} {i : Item ν} {rest : List (Item ν)}
    (h : ItemsOk g name kind seen (i :: rest)) :
    ItemsOk g name kind seen ({ i with before := [] } :: rest) :=
  ⟨List.forall_mem_nil _, h.2⟩

end Indent

end JsonTree
