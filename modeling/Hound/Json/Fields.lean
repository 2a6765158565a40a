import Hound.Json.Exact

/-!
# Reading a parsed tree

`Placed` says where a tree stands in a parsed input: its tokens from an index
on, its text from a position on. Everything the readers return for a token is
then a function of the tree placed there, and `member` finds the item whose key
decodes to the wanted name.
-/

namespace Hound.Json

open JsonTree

/-! ## Prefixes of a rest -/

theorem prefix_drop_append {α : Type} {a b l : List α} {n : Nat} (h : a ++ b <+: l.drop n) :
    a <+: l.drop n ∧ b <+: l.drop (n + a.length) := by
  obtain ⟨more, hmore⟩ := h
  constructor
  · exact ⟨b ++ more, by rw [← hmore, List.append_assoc]⟩
  · refine ⟨more, ?_⟩
    rw [← List.drop_drop, ← hmore, List.append_assoc, List.drop_left]

theorem prefix_drop_cons {α : Type} {a : α} {b l : List α} {n : Nat} (h : a :: b <+: l.drop n) :
    l[n]? = some a ∧ b <+: l.drop (n + 1) := by
  obtain ⟨more, hmore⟩ := h
  constructor
  · have hget : (l.drop n)[0]? = some a := by rw [← hmore]; rfl
    simpa using hget
  · have hsplit : [a] ++ b <+: l.drop n := ⟨more, hmore⟩
    exact (prefix_drop_append hsplit).2

/-! ## Trees in place -/

structure Placed {ν : Type} (g : Grammar ν) (j : Json) (pos t : Nat) (node : ν) : Prop where
  ok : g.ok node
  text : g.text node <+: j.input.drop pos
  tokens : g.tokens node pos t <+: j.tokens.drop t

structure PlacedItems {ν : Type} (g : Grammar ν) (j : Json) (pos t : Nat) (items : List (Item ν)) :
    Prop where
  text : itemsText g items <+: j.input.drop pos
  tokens : itemsTokens g items pos t <+: j.tokens.drop t

theorem raw_of_token {j : Json} {t : Nat} {tok : Token} {text : Bytes}
    (htok : j.tokens[t]? = some tok) (htext : text <+: j.input.drop tok.start)
    (hsize : tok.size = text.length) : j.raw (some t) = text := by
  have hraw : j.raw (some t) = (j.input.drop tok.start).take tok.size := by
    simp [raw, htok]
  rw [hraw, hsize, ← List.prefix_iff_eq_take.mp htext]

section Items

variable {ν : Type} {g : Grammar ν} {j : Json}

/-- The name an item's key decodes to. -/
def itemName (i : Item ν) : Option Bytes := i.key.bind fun k => keyName k.text

/-- The value of the item with the name `key`. -/
def field (items : List (Item ν)) (key : Bytes) : Option ν :=
  (items.find? fun i => itemName i == some key).map Item.node

theorem itemsText_cons (i : Item ν) (rest : List (Item ν)) :
    ∃ more, itemsText g (i :: rest) = i.text g ++ more ∧
      itemsText g rest <+: more.drop 1 := by
  cases rest with
  | nil => exact ⟨[], (List.append_nil _).symm, List.nil_prefix⟩
  | cons i' rest => exact ⟨44 :: itemsText g (i' :: rest), rfl, List.prefix_rfl⟩

theorem PlacedItems.tail (hg : Regular g) {pos t : Nat} {i : Item ν} {rest : List (Item ν)}
    (h : PlacedItems g j pos t (i :: rest)) :
    PlacedItems g j (pos + (i.text g).length + 1) (t + i.count g) rest := by
  obtain ⟨more, hmore, hrest⟩ := itemsText_cons (g := g) i rest
  have htext := h.text
  rw [hmore] at htext
  have htokens := (prefix_drop_append h.tokens).2
  rw [length_itemTokens g hg.counted] at htokens
  refine ⟨hrest.trans ?_, htokens⟩
  have hdrop := (prefix_drop_append htext).2.drop 1
  rwa [List.drop_drop] at hdrop

theorem PlacedItems.node {pos t : Nat} {i : Item ν} {rest : List (Item ν)}
    (h : PlacedItems g j pos t (i :: rest)) (ok : g.ok i.node) :
    Placed g j (pos + i.label.length) (t + i.keyCount) i.node := by
  obtain ⟨more, hmore, -⟩ := itemsText_cons (g := g) i rest
  have htext := h.text
  rw [hmore, Item.text, List.append_assoc, List.append_assoc] at htext
  have hnode := (prefix_drop_append (prefix_drop_append htext).2).1
  have hitem : i.tokens g pos t <+: j.tokens.drop t := (prefix_drop_append h.tokens).1
  refine ⟨ok, hnode, ?_⟩
  unfold Item.tokens at hitem
  unfold Item.keyCount at hitem ⊢
  cases hkey : i.key with
  | none => simpa [hkey] using hitem
  | some k =>
    rw [hkey] at hitem
    simpa using (prefix_drop_cons hitem).2

/-- The token of an item's key reads as the item's name. -/
theorem PlacedItems.key {pos t : Nat} {i : Item ν} {rest : List (Item ν)} {k : Key}
    (h : PlacedItems g j pos t (i :: rest)) (hkey : i.key = some k) :
    j.string (some t) 80 = itemName i := by
  obtain ⟨more, hmore, -⟩ := itemsText_cons (g := g) i rest
  have htext := h.text
  have hlabel : i.label = i.before ++ (k.text ++ (k.gap ++ 58 :: k.lead)) := by
    simp [Item.label, hkey, Key.bytes]
  rw [hmore, Item.text, hlabel] at htext
  simp only [List.append_assoc] at htext
  have hquoted := (prefix_drop_append (prefix_drop_append htext).2).1
  have hitem : i.tokens g pos t <+: j.tokens.drop t := (prefix_drop_append h.tokens).1
  unfold Item.tokens at hitem
  rw [hkey] at hitem
  obtain ⟨htok, -⟩ := prefix_drop_cons hitem
  have hraw : j.raw (some t) = k.text := raw_of_token htok hquoted rfl
  simp [string, htok, hraw, itemName, hkey, keyName]

theorem find_key (hg : Regular g) (key : Bytes) {seen : List Bytes} {items : List (Item ν)}
    {pos t fuel stop : Nat} (ok : ItemsOk g keyName .object seen items)
    (h : PlacedItems g j pos t items) (hstop : stop = t + itemsCount g items)
    (hfuel : itemsCount g items ≤ fuel) :
    ((keyTokens j.tokens stop fuel t).find? (fun i => j.string (some i) 80 == some key) = none ∧
      items.find? (fun i => itemName i == some key) = none) ∨
    ∃ k i start, (keyTokens j.tokens stop fuel t).find?
        (fun i => j.string (some i) 80 == some key) = some k ∧
      items.find? (fun i => itemName i == some key) = some i ∧
      Placed g j start (k + 1) i.node := by
  induction items generalizing seen pos t fuel with
  | nil =>
    have hnone : keyTokens j.tokens stop fuel t = [] := by
      cases fuel with
      | zero => rfl
      | succ fuel => simp [keyTokens, hstop, itemsCount]
    rw [hnone]
    exact .inl ⟨rfl, rfl⟩
  | cons i rest ih =>
    obtain ⟨-, -, hnode, hkey⟩ := ok
    cases hk : i.key with
    | none =>
      rw [hk] at hkey
      exact absurd hkey.1 (by decide)
    | some k =>
      rw [hk] at hkey
      obtain ⟨-, n, -, htail⟩ := hkey
      have hcount : i.keyCount = 1 := by simp [Item.keyCount, hk]
      have hplaced := h.node hnode
      rw [hcount] at hplaced
      obtain ⟨tok, more, htokens, hafter⟩ := hg.first i.node (pos + i.label.length) (t + 1) hnode
      have hfirst := hplaced.tokens
      rw [htokens] at hfirst
      obtain ⟨hget, -⟩ := prefix_drop_cons hfirst
      have hsum : itemsCount g (i :: rest) = 1 + g.count i.node + itemsCount g rest := by
        rw [itemsCount_cons, Item.count, hcount]
      have hnext : tok.after = t + i.count g := by
        rw [hafter, Item.count, hcount]
        omega
      rw [hsum] at hfuel hstop
      cases fuel with
      | zero => omega
      | succ fuel =>
        have hlt : t < stop := by omega
        simp only [keyTokens, hlt, if_true, hget]
        have hread := h.key hk
        by_cases hname : itemName i = some key
        · rw [List.find?_cons_of_pos (by simp [hread, hname]),
            List.find?_cons_of_pos (by simp [hname])]
          exact .inr ⟨t, i, _, rfl, rfl, hplaced⟩
        · rw [List.find?_cons_of_neg (by simp [hread, hname]),
            List.find?_cons_of_neg (by simp [hname])]
          have hrest := h.tail hg
          rw [← hnext] at hrest
          refine ih htail hrest ?_ (by omega)
          rw [hnext, Item.count, hcount]
          omega

end Items

/-! ## What the readers make of a placed tree -/

section Shapes

variable {ν : Type} {g : Grammar ν} {j : Json} {pos t : Nat} {node : Shape ν}

def kindOf : Shape ν → TokenType
  | .leaf kind _ => kind
  | .empty kind _ => kind
  | .group kind _ => kind

theorem Placed.token (h : Placed (Shape.grammar g keyName) j pos t node) :
    j.tokens[t]? = some ⟨pos, ((Shape.grammar g keyName).text node).length,
      t + (Shape.grammar g keyName).count node, kindOf node⟩ := by
  have htokens := h.tokens
  cases node with
  | leaf kind text => exact (prefix_drop_cons htokens).1
  | empty kind blank =>
    have hlen : ((Shape.grammar g keyName).text (.empty kind blank)).length = blank.length + 2 := by
      simp [Shape.grammar]
    rw [hlen]
    exact (prefix_drop_cons htokens).1
  | group kind items =>
    have hlen : ((Shape.grammar g keyName).text (.group kind items)).length =
        (itemsText g items).length + 2 := by
      simp [Shape.grammar]
    have hcount : t + (Shape.grammar g keyName).count (.group kind items) =
        t + 1 + itemsCount g items := (Nat.add_assoc t 1 _).symm
    rw [hlen, hcount]
    exact (prefix_drop_cons htokens).1

theorem Placed.raw (h : Placed (Shape.grammar g keyName) j pos t node) :
    j.raw (some t) = (Shape.grammar g keyName).text node :=
  raw_of_token h.token h.text rfl

theorem Placed.string (h : Placed (Shape.grammar g keyName) j pos t node) (size : Nat) :
    j.string (some t) size =
      if kindOf node == .string then decode size ((Shape.grammar g keyName).text node) else none := by
  simp [Json.string, h.token, h.raw]

theorem Placed.integer (h : Placed (Shape.grammar g keyName) j pos t node) :
    j.integer (some t) =
      if kindOf node == .number then fromChars ((Shape.grammar g keyName).text node) else none := by
  simp [Json.integer, h.token, h.raw]

end Shapes

/-! ## The members of a line's object -/

/-- The value of a member of the outermost object. -/
abbrev Field := Shape (Tree 7)

def fieldGrammar : Grammar Field := grammar keyName 8

namespace Field

def text (f : Field) : Bytes := fieldGrammar.text f

def count (f : Field) : Nat := fieldGrammar.count f

def string (size : Nat) (f : Field) : Option Bytes :=
  if kindOf f == .string then decode size f.text else none

def integer (f : Field) : Option Int := if kindOf f == .number then fromChars f.text else none

end Field

section Root

variable {d : Document} {items : List (Item Field)}

theorem text_root (hroot : d.root = Shape.group .object items) :
    d.text = d.before ++ 123 :: (itemsText fieldGrammar items ++ 125 :: d.after) := by
  have hgroup : (grammar keyName 9).text d.root = 123 :: (itemsText fieldGrammar items ++ [125]) := by
    rw [hroot]
    rfl
  rw [Document.text, hgroup, List.cons_append, List.append_assoc]
  rfl

theorem tokens_root (hroot : d.root = Shape.group .object items) :
    d.json.tokens = ⟨d.before.length, (itemsText fieldGrammar items).length + 2,
      1 + itemsCount fieldGrammar items, .object⟩ ::
        itemsTokens fieldGrammar items (d.before.length + 1) 1 := by
  rw [Document.json, hroot]
  rfl

theorem items_ok (ok : d.Ok) (hroot : d.root = Shape.group .object items) :
    ItemsOk fieldGrammar keyName .object [] items := by
  have hok := ok.root
  rw [hroot] at hok
  exact hok.2.2

theorem placed_items (hroot : d.root = Shape.group .object items) :
    PlacedItems fieldGrammar d.json (d.before.length + 1) 1 items := by
  constructor
  · refine ⟨125 :: d.after, ?_⟩
    have hinput : d.json.input =
        (d.before ++ [123]) ++ (itemsText fieldGrammar items ++ 125 :: d.after) := by
      rw [List.append_assoc]
      exact text_root hroot
    rw [hinput, List.drop_left' (by simp)]
  · refine ⟨[], ?_⟩
    rw [tokens_root hroot, List.append_nil]
    rfl

/-- `member` finds the value of the item with that name, or there is none. -/
theorem member_cases (ok : d.Ok) (hroot : d.root = Shape.group .object items) (key : Bytes) :
    (d.json.member 0 key = none ∧ field items key = none) ∨
    ∃ t f pos, d.json.member 0 key = some t ∧ field items key = some f ∧
      Placed fieldGrammar d.json pos t f := by
  have hfind := find_key (regular 8) key (items_ok ok hroot) (placed_items hroot) rfl
    (Nat.le_add_left (itemsCount fieldGrammar items) 1)
  have hmember : d.json.member 0 key =
      ((keyTokens d.json.tokens (1 + itemsCount fieldGrammar items)
        (1 + itemsCount fieldGrammar items) 1).find?
          fun i => d.json.string (some i) 80 == some key).map (· + 1) := by
    unfold member
    simp only [tokens_root hroot, List.getElem?_cons_zero, beq_self_eq_true, if_true, Nat.zero_add]
  rw [hmember]
  unfold field
  obtain ⟨hk, hi⟩ | ⟨k, i, start, hk, hi, h⟩ := hfind
  · exact .inl ⟨congrArg _ hk, congrArg _ hi⟩
  · exact .inr ⟨k + 1, i.node, start, congrArg _ hk, congrArg _ hi, h⟩

theorem string_member (ok : d.Ok) (hroot : d.root = Shape.group .object items) (key : Bytes)
    (size : Nat) :
    d.json.string (d.json.member 0 key) size = (field items key).bind (Field.string size) := by
  obtain ⟨hm, hf⟩ | ⟨t, f, pos, hm, hf, h⟩ := member_cases ok hroot key
  · rw [hm, hf]
    rfl
  · rw [hm, hf]
    exact Placed.string h size

theorem integer_member (ok : d.Ok) (hroot : d.root = Shape.group .object items) (key : Bytes) :
    d.json.integer (d.json.member 0 key) = (field items key).bind Field.integer := by
  obtain ⟨hm, hf⟩ | ⟨t, f, pos, hm, hf, h⟩ := member_cases ok hroot key
  · rw [hm, hf]
    rfl
  · rw [hm, hf]
    exact Placed.integer h

theorem raw_member (ok : d.Ok) (hroot : d.root = Shape.group .object items) (key : Bytes) :
    d.json.raw (d.json.member 0 key) = ((field items key).map Field.text).getD [] := by
  obtain ⟨hm, hf⟩ | ⟨t, f, pos, hm, hf, h⟩ := member_cases ok hroot key
  · rw [hm, hf]
    rfl
  · rw [hm, hf]
    exact Placed.raw h

end Root

end Hound.Json
