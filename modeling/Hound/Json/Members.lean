import Hound.Json.Fields

/-!
# Looking up the members of any object

`objects` lists what a tree's objects hold. In a placed tree every object token
is in that list, and `member` at that token finds the value of the wanted name.
-/

namespace Hound.Json

open JsonTree

/-- `member` at token `o` looks up the list `ms`. -/
structure ReadsMembers (j : Json) (o : Nat) (ms : List Member) : Prop where
  object : ∃ tok, j.tokens[o]? = some tok ∧ tok.kind = .object
  distinct : (ms.map Member.name).Nodup
  member : ∀ key, j.member o key = (ms.find? (·.name == key)).map Member.value

section Items

variable {ν : Type} {g : Grammar ν} {j : Json}

theorem itemsMembers_keyed {i : Item ν} {k : Key} {n : Bytes} (hkey : i.key = some k)
    (hname : keyName k.text = some n) (rest : List (Item ν)) (t : Nat) :
    itemsMembers keyName g (i :: rest) t =
      ⟨n, t + 1⟩ :: itemsMembers keyName g rest (t + i.count g) := by
  simp [itemsMembers, hkey, hname]

theorem names_distinct {seen : List Bytes} {items : List (Item ν)}
    (ok : ItemsOk g keyName .object seen items) (t : Nat) :
    ((itemsMembers keyName g items t).map Member.name).Nodup ∧
      ∀ m ∈ itemsMembers keyName g items t, m.name ∉ seen := by
  induction items generalizing seen t with
  | nil => simp [itemsMembers]
  | cons i rest ih =>
    obtain ⟨-, -, -, hkey⟩ := ok
    cases hk : i.key with
    | none =>
      rw [hk] at hkey
      exact absurd hkey.1 (by decide)
    | some k =>
      rw [hk] at hkey
      obtain ⟨-, n, ⟨-, -, -, hname, hnew⟩, htail⟩ := hkey
      obtain ⟨hnodup, hfresh⟩ := ih htail (t + i.count g)
      rw [itemsMembers_keyed hk hname]
      constructor
      · rw [List.map_cons, List.nodup_cons]
        refine ⟨fun hmem => ?_, hnodup⟩
        obtain ⟨m, hm, hsame⟩ := List.mem_map.mp hmem
        have hn : m.name = n := hsame
        exact hfresh m hm (by simp [hn])
      · intro m hm
        rcases List.mem_cons.mp hm with rfl | hm
        · exact hnew
        · intro hseen
          exact hfresh m hm (List.mem_append_left _ hseen)

/-- The walk from key to key meets the members in order. -/
theorem find_member (hg : Regular g) (key : Bytes) {seen : List Bytes} {items : List (Item ν)}
    {pos t : Nat} (fuel stop : Nat) (ok : ItemsOk g keyName .object seen items)
    (h : PlacedItems g j pos t items) (hstop : stop = t + itemsCount g items)
    (hfuel : itemsCount g items ≤ fuel) :
    ((keyTokens j.tokens stop fuel t).find? fun i => j.string (some i) 80 == some key).map (· + 1) =
      ((itemsMembers keyName g items t).find? (·.name == key)).map Member.value := by
  induction items generalizing seen pos t fuel with
  | nil =>
    have hnone : keyTokens j.tokens stop fuel t = [] := by
      cases fuel with
      | zero => rfl
      | succ fuel => simp [keyTokens, hstop, itemsCount]
    rw [hnone]
    rfl
  | cons i rest ih =>
    obtain ⟨-, -, hnode, hkey⟩ := ok
    cases hk : i.key with
    | none =>
      rw [hk] at hkey
      exact absurd hkey.1 (by decide)
    | some k =>
      rw [hk] at hkey
      obtain ⟨-, n, ⟨-, -, -, hname, -⟩, htail⟩ := hkey
      have hcount : i.keyCount = 1 := by simp [Item.keyCount, hk]
      have hplaced := h.node hnode
      rw [hcount] at hplaced
      obtain ⟨tok, more, htokens, hafter⟩ := hg.first i.node (pos + i.label.length) (t + 1) hnode
      have hfirst := hplaced.tokens
      rw [htokens] at hfirst
      obtain ⟨hget, -⟩ := prefix_drop_cons hfirst
      have hsum : itemsCount g (i :: rest) = 1 + g.count i.node + itemsCount g rest := by
        rw [itemsCount_cons, Item.count, hcount]
      have hnext : tok.after = t + i.count g := by
        rw [hafter, Item.count, hcount]
        omega
      rw [hsum] at hfuel hstop
      rw [itemsMembers_keyed hk hname]
      cases fuel with
      | zero => omega
      | succ fuel =>
        have hlt : t < stop := by omega
        have hread : j.string (some t) 80 = some n := by
          rw [h.key hk]
          simp [itemName, hk, hname]
        simp only [keyTokens, hlt, if_true, hget]
        by_cases hsame : n = key
        · rw [List.find?_cons_of_pos (by simp [hread, hsame]),
            List.find?_cons_of_pos (by simp [hsame])]
          rfl
        · rw [List.find?_cons_of_neg (by simp [hread, hsame]),
            List.find?_cons_of_neg (by simp [hsame])]
          have hrest := h.tail hg
          rw [← hnext] at hrest
          rw [hnext, ← hnext]
          refine ih fuel htail hrest ?_ (by omega)
          rw [hnext, Item.count, hcount]
          omega

/-- A key the walk meets has its value before `stop`. -/
theorem keyTokens_within (hg : Regular g) {seen : List Bytes} {items : List (Item ν)}
    {pos t stop : Nat} (fuel : Nat) (ok : ItemsOk g keyName .object seen items)
    (h : PlacedItems g j pos t items) (hstop : stop = t + itemsCount g items) :
    ∀ k ∈ keyTokens j.tokens stop fuel t, k + 1 < stop := by
  induction items generalizing seen pos t fuel with
  | nil =>
    have hnone : keyTokens j.tokens stop fuel t = [] := by
      cases fuel with
      | zero => rfl
      | succ fuel => simp [keyTokens, hstop, itemsCount]
    simp [hnone]
  | cons i rest ih =>
    obtain ⟨-, -, hnode, hkey⟩ := ok
    cases hk : i.key with
    | none =>
      rw [hk] at hkey
      exact absurd hkey.1 (by decide)
    | some k =>
      rw [hk] at hkey
      obtain ⟨-, n, -, htail⟩ := hkey
      have hcount : i.keyCount = 1 := by simp [Item.keyCount, hk]
      have hplaced := h.node hnode
      rw [hcount] at hplaced
      obtain ⟨tok, more, htokens, hafter⟩ := hg.first i.node (pos + i.label.length) (t + 1) hnode
      have hfirst := hplaced.tokens
      rw [htokens] at hfirst
      obtain ⟨hget, -⟩ := prefix_drop_cons hfirst
      have hpos := hg.count_pos hnode
      have hsum : itemsCount g (i :: rest) = 1 + g.count i.node + itemsCount g rest := by
        rw [itemsCount_cons, Item.count, hcount]
      have hnext : tok.after = t + i.count g := by
        rw [hafter, Item.count, hcount]
        omega
      rw [hsum] at hstop
      cases fuel with
      | zero => simp [keyTokens]
      | succ fuel =>
        have hlt : t < stop := by omega
        have hrest := h.tail hg
        rw [← hnext] at hrest
        have hstop' : stop = tok.after + itemsCount g rest := by
          rw [hnext, Item.count, hcount]
          omega
        simp only [keyTokens, hlt, if_true, hget]
        intro k hmem
        rcases List.mem_cons.mp hmem with rfl | hmem
        · omega
        · exact ih fuel htail hrest hstop' k hmem

end Items

/-! ## One level -/

/-- `objs` lists the objects of every placed value, and no other token is one. -/
structure Listed {ν : Type} (g : Grammar ν) (objs : ν → Nat → List (Nat × List Member)) : Prop where
  reads : ∀ {j : Json} {pos t : Nat} {node : ν}, Placed g j pos t node →
    ∀ o ms, (o, ms) ∈ objs node t → ReadsMembers j o ms
  all : ∀ {j : Json} {pos t : Nat} {node : ν}, Placed g j pos t node →
    ∀ o tok, t ≤ o → o < t + g.count node → j.tokens[o]? = some tok → tok.kind = .object →
      ∃ ms, (o, ms) ∈ objs node t

section Level

variable {ν : Type} {g : Grammar ν} {objs : ν → Nat → List (Nat × List Member)} {j : Json}
  {pos t : Nat}

theorem Placed.items {kind : TokenType} {items : List (Item ν)}
    (h : Placed (Shape.grammar g keyName) j pos t (.group kind items)) :
    PlacedItems g j (pos + 1) (t + 1) items := by
  constructor
  · have hbody := (prefix_drop_cons h.text).2
    exact (prefix_drop_append hbody).1
  · exact (prefix_drop_cons h.tokens).2

/-- An item's value is well formed, whatever the container. -/
theorem ItemsOk.nodes {kind : TokenType} {seen : List Bytes} {i : Item ν} {rest : List (Item ν)}
    (ok : ItemsOk g keyName kind seen (i :: rest)) :
    g.ok i.node ∧ ∃ seen', ItemsOk g keyName kind seen' rest := by
  obtain ⟨-, -, hnode, hkey⟩ := ok
  refine ⟨hnode, ?_⟩
  cases hk : i.key with
  | none =>
    rw [hk] at hkey
    exact ⟨seen, hkey.2⟩
  | some k =>
    rw [hk] at hkey
    obtain ⟨-, n, -, htail⟩ := hkey
    exact ⟨seen ++ [n], htail⟩

theorem items_reads (hg : Regular g) (hl : Listed g objs) {kind : TokenType} {seen : List Bytes}
    {items : List (Item ν)} (ok : ItemsOk g keyName kind seen items)
    (h : PlacedItems g j pos t items) {o : Nat} {ms : List Member}
    (hmem : (o, ms) ∈ itemsObjects g objs items t) : ReadsMembers j o ms := by
  induction items generalizing seen pos t with
  | nil => simp [itemsObjects] at hmem
  | cons i rest ih =>
    obtain ⟨hnode, seen', htail⟩ := ItemsOk.nodes ok
    rcases List.mem_append.mp hmem with hmem | hmem
    · exact hl.reads (h.node hnode) o ms hmem
    · exact ih htail (h.tail hg) hmem

/-- A key's token is no object. -/
theorem PlacedItems.key_kind {i : Item ν} {rest : List (Item ν)} {k : Key} {tok : Token}
    (h : PlacedItems g j pos t (i :: rest)) (hkey : i.key = some k) (htok : j.tokens[t]? = some tok) :
    tok.kind = .string := by
  have hitem : i.tokens g pos t <+: j.tokens.drop t := (prefix_drop_append h.tokens).1
  unfold Item.tokens at hitem
  rw [hkey] at hitem
  obtain ⟨hget, -⟩ := prefix_drop_cons hitem
  rw [hget] at htok
  cases htok
  rfl

theorem items_all (hg : Regular g) (hl : Listed g objs) {kind : TokenType} {seen : List Bytes}
    {items : List (Item ν)} (ok : ItemsOk g keyName kind seen items)
    (h : PlacedItems g j pos t items) {o : Nat} {tok : Token} (hlow : t ≤ o)
    (hhigh : o < t + itemsCount g items) (htok : j.tokens[o]? = some tok)
    (hobject : tok.kind = .object) : ∃ ms, (o, ms) ∈ itemsObjects g objs items t := by
  induction items generalizing seen pos t with
  | nil =>
    simp [itemsCount] at hhigh
    omega
  | cons i rest ih =>
    obtain ⟨hnode, seen', htail⟩ := ItemsOk.nodes ok
    rw [itemsCount_cons] at hhigh
    by_cases hlater : t + i.count g ≤ o
    · obtain ⟨ms, hms⟩ := ih htail (h.tail hg) hlater (by omega)
      exact ⟨ms, List.mem_append_right _ hms⟩
    · have hvalue : t + i.keyCount ≤ o := by
        unfold Item.keyCount
        cases hk : i.key with
        | none => simpa using hlow
        | some k =>
          by_cases heq : o = t
          · subst heq
            rw [h.key_kind hk htok] at hobject
            cases hobject
          · simp only [Option.isSome_some, if_true]
            omega
      have hend : o < t + i.keyCount + g.count i.node := by
        unfold Item.count at hlater
        omega
      obtain ⟨ms, hms⟩ := hl.all (h.node hnode) o tok hvalue hend htok hobject
      exact ⟨ms, List.mem_append_left _ hms⟩

theorem reads_empty {blank : Bytes}
    (h : Placed (Shape.grammar g keyName) j pos t (.empty .object blank)) : ReadsMembers j t [] := by
  have htok := h.token
  refine ⟨⟨_, htok, rfl⟩, List.nodup_nil, fun key => ?_⟩
  have hwalk : keyTokens j.tokens (t + 1) (t + 1) (t + 1) = [] := by simp [keyTokens]
  have hafter : t + (Shape.grammar g keyName).count (.empty .object blank) = t + 1 := rfl
  rw [hafter] at htok
  simp only [Json.member, htok]
  simp [kindOf, hwalk]

theorem reads_group (hg : Regular g) {items : List (Item ν)}
    (h : Placed (Shape.grammar g keyName) j pos t (.group .object items)) :
    ReadsMembers j t (itemsMembers keyName g items (t + 1)) := by
  have htok := h.token
  have ok : ItemsOk g keyName .object [] items := h.ok.2.2
  refine ⟨⟨_, htok, rfl⟩, (names_distinct ok (t + 1)).1, fun key => ?_⟩
  have hafter : t + (Shape.grammar g keyName).count (.group .object items) =
      t + 1 + itemsCount g items := (Nat.add_assoc t 1 _).symm
  rw [hafter] at htok
  have hfind := find_member hg key (t + 1 + itemsCount g items) (t + 1 + itemsCount g items) ok
    h.items rfl (by omega)
  rw [← hfind]
  simp only [Json.member, htok]
  rfl

theorem shape_listed (hg : Regular g) (hl : Listed g objs) :
    Listed (Shape.grammar g keyName) (Shape.objects keyName g objs) := by
  constructor
  · intro j pos t node h o ms hmem
    cases node with
    | leaf kind text => simp [Shape.objects] at hmem
    | empty kind blank =>
      simp only [Shape.objects] at hmem
      split at hmem
      · rename_i hkind
        subst hkind
        obtain ⟨rfl, rfl⟩ : o = t ∧ ms = [] := by simpa using hmem
        exact reads_empty h
      · simp at hmem
    | group kind items =>
      rcases List.mem_append.mp hmem with hroot | hinner
      · split at hroot
        · rename_i hkind
          subst hkind
          obtain ⟨rfl, rfl⟩ : o = t ∧ ms = itemsMembers keyName g items (t + 1) := by
            simpa using hroot
          exact reads_group hg h
        · simp at hroot
      · exact items_reads hg hl h.ok.2.2 h.items hinner
  · intro j pos t node h o tok hlow hhigh htok hobject
    by_cases hroot : o = t
    · subst hroot
      rw [h.token] at htok
      cases htok
      cases node with
      | leaf kind text =>
        have hleaf : Leaf kind text := h.ok
        have hkind : kind = .object := hobject
        rw [hkind] at hleaf
        cases hleaf
      | empty kind blank =>
        have hkind : kind = .object := hobject
        exact ⟨[], by simp [Shape.objects, hkind]⟩
      | group kind items =>
        have hkind : kind = .object := hobject
        exact ⟨_, List.mem_append_left _ (by simp only [hkind, if_true]; exact List.mem_cons_self)⟩
    · cases node with
      | leaf kind text =>
        simp [Shape.grammar] at hhigh
        omega
      | empty kind blank =>
        simp [Shape.grammar] at hhigh
        omega
      | group kind items =>
        have hcount : (Shape.grammar g keyName).count (.group kind items) =
            1 + itemsCount g items := rfl
        rw [hcount] at hhigh
        obtain ⟨ms, hms⟩ := items_all hg hl h.ok.2.2 h.items (by omega) (by omega) htok hobject
        exact ⟨ms, List.mem_append_right _ hms⟩

end Level

theorem listed (level : Nat) : Listed (grammar keyName level) (objects keyName level) := by
  induction level with
  | zero =>
    constructor
    · intro j pos t node
      exact nomatch node
    · intro j pos t node
      exact nomatch node
  | succ level ih => exact shape_listed (regular level) ih

/-! ## Whole documents -/

/-- The objects of a document: each one's token, and its members. -/
def Document.objects (d : Document) : List (Nat × List Member) := JsonTree.objects keyName 9 d.root 0

theorem Document.placed {d : Document} (ok : d.Ok) :
    Placed (grammar keyName 9) d.json d.before.length 0 d.root := by
  refine ⟨ok.root, ⟨d.after, ?_⟩, List.prefix_rfl⟩
  have hinput : d.json.input = d.before ++ ((grammar keyName 9).text d.root ++ d.after) := rfl
  rw [hinput, List.drop_left]

theorem Document.reads {d : Document} (ok : d.Ok) {o : Nat} {ms : List Member}
    (h : (o, ms) ∈ d.objects) : ReadsMembers d.json o ms :=
  (listed 9).reads (Document.placed ok) o ms h

/-- Every other token has no members. -/
theorem Document.member_none {d : Document} (ok : d.Ok) {o : Nat}
    (h : ∀ ms, (o, ms) ∉ d.objects) (key : Bytes) : d.json.member o key = none := by
  unfold member
  cases htok : d.json.tokens[o]? with
  | none => rfl
  | some tok =>
    have hkind : tok.kind ≠ .object := by
      intro hobject
      have hlen := (List.getElem?_eq_some_iff.mp htok).1
      have hcount : d.json.tokens.length = (grammar keyName 9).count d.root :=
        counted keyName 9 d.root d.before.length 0
      rw [hcount] at hlen
      obtain ⟨ms, hms⟩ := (listed 9).all (Document.placed ok) o tok (Nat.zero_le o) (by omega) htok
        hobject
      exact h ms hms
    simp [hkind]

end Hound.Json
