import Hound.Json.Leaves

/-!
# The reader accepts exactly the trees

`Exact` says of a parser and a grammar that the parser takes blanks and one
value off the input, appends that value's tokens, and does so for every value
of the grammar that fits. `value level` is exact for `Tree level`.
-/

namespace Hound.Json

open JsonTree

/-- The name a quoted key stands for: its contents in a buffer of 80. -/
def keyName (quoted : Bytes) : Option Bytes := decode 80 quoted

/-! ## Positions -/

def append (j : Json) (toks : List Token) : Json := { j with tokens := j.tokens ++ toks }

@[simp] theorem append_input (j : Json) (toks : List Token) : (j.append toks).input = j.input := rfl

@[simp] theorem append_tokens (j : Json) (toks : List Token) :
    (j.append toks).tokens = j.tokens ++ toks := rfl

theorem append_append (j : Json) (a b : List Token) :
    (j.append a).append b = j.append (a ++ b) := by
  simp [append, List.append_assoc]

theorem append_nil (j : Json) : j.append [] = j := by
  simp [append]

theorem pos_append {j : Json} {text rest : Bytes} (h : text ++ rest <:+ j.input) :
    j.pos rest = j.pos (text ++ rest) + text.length := by
  have hlen := h.length_le
  simp only [pos, List.length_append] at hlen ⊢
  omega

theorem suffix_of_append {text rest input : Bytes} (h : text ++ rest <:+ input) : rest <:+ input :=
  (List.suffix_append text rest).trans h

/-- The bytes a token covers, when its text stands at that place of the input. -/
theorem raw_eq {j : Json} {i : Nat} {tok : Token} {text rest : Bytes}
    (htok : j.tokens[i]? = some tok) (hsuf : text ++ rest <:+ j.input)
    (hstart : tok.start = j.pos (text ++ rest)) (hsize : tok.size = text.length) :
    j.raw (some i) = text := by
  obtain ⟨pre, hpre⟩ := hsuf
  have hpos : j.pos (text ++ rest) = pre.length := by
    have := congrArg List.length hpre
    simp only [pos, List.length_append] at this ⊢
    omega
  have hraw : j.raw (some i) = (j.input.drop tok.start).take tok.size := by
    simp [raw, htok]
  rw [hraw, hstart, hpos, hsize, ← hpre, List.drop_left, List.take_left]

theorem string_eq {j : Json} {i : Nat} {tok : Token} {text rest : Bytes} (size : Nat)
    (htok : j.tokens[i]? = some tok) (hkind : tok.kind = .string)
    (hsuf : text ++ rest <:+ j.input) (hstart : tok.start = j.pos (text ++ rest))
    (hsize : tok.size = text.length) : j.string (some i) size = decode size text := by
  have hraw := raw_eq htok hsuf hstart hsize
  simp [string, htok, hkind, hraw]

/-- Later tokens do not change what earlier ones say. -/
theorem string_append {j : Json} {i : Nat} (toks : List Token) (size : Nat)
    (h : i < j.tokens.length) : (j.append toks).string (some i) size = j.string (some i) size := by
  have hget : (j.tokens ++ toks)[i]? = j.tokens[i]? := List.getElem?_append_left h
  simp [string, raw, hget]

/-! ## Walking the keys -/

/-- The walk from key to key: each key's value ends where the next key begins. -/
inductive Walked (tokens : List Token) : Nat → Nat → List Nat → Prop where
  | nil (i : Nat) : Walked tokens i i []
  | cons {i stop : Nat} {v : Token} {ks : List Nat} (h : tokens[i + 1]? = some v)
      (later : i < v.after) (tail : Walked tokens v.after stop ks) :
      Walked tokens i stop (i :: ks)

theorem Walked.le {tokens : List Token} {i stop : Nat} {ks : List Nat}
    (h : Walked tokens i stop ks) : i ≤ stop := by
  induction h with
  | nil i => exact Nat.le_refl i
  | cons _ later _ ih => omega

theorem Walked.mem_lt {tokens : List Token} {i stop : Nat} {ks : List Nat}
    (h : Walked tokens i stop ks) : ∀ k ∈ ks, k < stop := by
  induction h with
  | nil => simp
  | cons _ later tail ih =>
    intro k hk
    rcases List.mem_cons.mp hk with rfl | hk
    · have := tail.le
      omega
    · exact ih k hk

theorem Walked.append {tokens : List Token} {i stop : Nat} {ks : List Nat}
    (h : Walked tokens i stop ks) (more : List Token) : Walked (tokens ++ more) i stop ks := by
  induction h with
  | nil i => exact .nil i
  | cons hget later _ ih =>
    refine .cons ?_ later ih
    rw [List.getElem?_append_left (List.getElem?_eq_some_iff.mp hget).1]
    exact hget

theorem Walked.trans {tokens : List Token} {i mid stop : Nat} {ks ls : List Nat}
    (h : Walked tokens i mid ks) (h' : Walked tokens mid stop ls) :
    Walked tokens i stop (ks ++ ls) := by
  induction h with
  | nil => exact h'
  | cons hget later _ ih => exact .cons hget later (ih h')

theorem keyTokens_eq {tokens : List Token} {i stop fuel : Nat} {ks : List Nat}
    (h : Walked tokens i stop ks) (hfuel : stop ≤ i + fuel) : keyTokens tokens stop fuel i = ks := by
  induction h generalizing fuel with
  | nil i =>
    cases fuel with
    | zero => rfl
    | succ fuel => simp [keyTokens]
  | @cons i stop v ks hget later tail ih =>
    have hle := tail.le
    cases fuel with
    | zero => omega
    | succ fuel =>
      have hlt : i < stop := by omega
      simp only [keyTokens, hlt, if_true, hget]
      rw [ih (by omega)]

/-! ## What the proofs need of a grammar -/

structure Regular {ν : Type} (g : Grammar ν) : Prop where
  counted : g.Counted
  starts : ∀ node, g.ok node → ∃ c tail, g.text node = c :: tail ∧ isBlank c = false ∧ c ≠ 93 ∧ c ≠ 125
  first : ∀ node pos idx, g.ok node → ∃ tok rest, g.tokens node pos idx = tok :: rest ∧
    tok.after = idx + g.count node
  string : ∀ node, g.ok node → (g.text node).head? = some 34 → Leaf .string (g.text node) ∧
    g.count node = 1 ∧
    ∀ pos idx, g.tokens node pos idx = [⟨pos, (g.text node).length, idx + 1, .string⟩]
  key : ∀ node text, g.ok node → Leaf .string text → ∃ k, g.ok k ∧ g.text k = text ∧
    g.count k = 1 ∧ ∀ pos idx, g.tokens k pos idx = [⟨pos, text.length, idx + 1, .string⟩]

theorem Regular.count_pos {ν : Type} {g : Grammar ν} (h : Regular g) {node : ν} (ok : g.ok node) :
    0 < g.count node := by
  obtain ⟨tok, rest, htokens, -⟩ := h.first node 0 0 ok
  rw [← h.counted node 0 0, htokens]
  exact Nat.succ_pos _

/-- The parser takes one value off the front of the input, and leaves its tokens. -/
structure Exact {ν : Type} (p : Json → Bytes → Option (Json × Bytes)) (g : Grammar ν) : Prop where
  sound : ∀ {j j' : Json} {rest rest' : Bytes}, rest <:+ j.input → p j rest = some (j', rest') →
    ∃ blank node, Blank blank ∧ rest = blank ++ (g.text node ++ rest') ∧ g.ok node ∧
      j' = j.append (g.tokens node (j.pos rest + blank.length) j.tokens.length) ∧
      j.tokens.length + g.count node ≤ 160
  complete : ∀ (j : Json) (blank : Bytes) (node : ν) (rest' : Bytes), Blank blank → g.ok node →
    Delimited rest' → j.tokens.length + g.count node ≤ 160 →
    blank ++ (g.text node ++ rest') <:+ j.input →
    p j (blank ++ (g.text node ++ rest')) =
      some (j.append (g.tokens node (j.pos (g.text node ++ rest')) j.tokens.length), rest')

/-! ## Keys -/

/-- Container `t` is open, and its keys so far have the names `seen`. -/
def Keyed (j : Json) (t : Nat) (seen : List Bytes) : Prop :=
  ∃ ks, Walked j.tokens (t + 1) j.tokens.length ks ∧
    ks.map (fun i => j.string (some i) 80) = seen.map some

theorem keyed_open {j : Json} {t : Nat} (h : j.tokens.length = t + 1) : Keyed j t [] :=
  ⟨[], by rw [h]; exact .nil _, rfl⟩

/-- One more key and its value. -/
theorem Keyed.item {j : Json} {t : Nat} {seen : List Bytes} (h : Keyed j t seen)
    {keyTok v : Token} {vs : List Token} {name : Bytes}
    (hname : (j.append [keyTok]).string (some j.tokens.length) 80 = some name)
    (hafter : v.after = j.tokens.length + 1 + (v :: vs).length) :
    Keyed (j.append (keyTok :: v :: vs)) t (seen ++ [name]) := by
  obtain ⟨ks, hwalk, hnames⟩ := h
  have hlast : Walked (j.tokens ++ keyTok :: v :: vs) j.tokens.length
      (j.tokens ++ keyTok :: v :: vs).length [j.tokens.length] := by
    have hget : (j.tokens ++ keyTok :: v :: vs)[j.tokens.length + 1]? = some v := by
      rw [List.getElem?_append_right (by omega)]
      simp
    have hend : v.after = (j.tokens ++ keyTok :: v :: vs).length := by
      rw [hafter]
      simp only [List.length_append, List.length_cons]
      omega
    refine .cons hget (by rw [hafter]; simp only [List.length_cons]; omega) ?_
    rw [hend]
    exact .nil _
  refine ⟨ks ++ [j.tokens.length], (hwalk.append _).trans hlast, ?_⟩
  have hold : ks.map (fun i => (j.append (keyTok :: v :: vs)).string (some i) 80) =
      ks.map fun i => j.string (some i) 80 :=
    List.map_congr_left fun i hi => string_append _ 80 (hwalk.mem_lt i hi)
  have hnew : (j.append (keyTok :: v :: vs)).string (some j.tokens.length) 80 = some name := by
    rw [← hname, show keyTok :: v :: vs = [keyTok] ++ v :: vs from rfl, ← append_append]
    exact string_append _ 80 (by simp)
  rw [List.map_append, hold, hnames, List.map_append]
  simp [hnew]

theorem space_of_blank {blank : Bytes} {c : UInt8} (h : Blank blank) (hc : isBlank c = false)
    (rest : Bytes) : space (blank ++ c :: rest) = c :: rest := by
  refine space_blank h fun b hb => ?_
  obtain rfl : c = b := by simpa using hb
  exact hc

/-- Blanks in front of a character that is none are no blanks at all. -/
theorem blank_eq_nil {blank text : Bytes} {c : UInt8} (h : Blank blank) (hc : isBlank c = false)
    (hhead : (blank ++ text).head? = some c) : blank = [] := by
  cases blank with
  | nil => rfl
  | cons b blank =>
    obtain rfl : b = c := by simpa using hhead
    have := h b List.mem_cons_self
    rw [hc] at this
    exact absurd this (by decide)

section Members

variable {ν : Type} {p : Json → Bytes → Option (Json × Bytes)} {g : Grammar ν}

theorem keys_new {j : Json} {t : Nat} {seen : List Bytes} (h : Keyed j t seen) (tok : Token)
    (name : Bytes) :
    (keyTokens (j.append [tok]).tokens j.tokens.length j.tokens.length (t + 1)).all
      (fun i => ((j.append [tok]).string (some i) 80).any (· != name)) = true ↔ name ∉ seen := by
  obtain ⟨ks, hwalk, hnames⟩ := h
  have hkeys : keyTokens (j.append [tok]).tokens j.tokens.length j.tokens.length (t + 1) = ks :=
    keyTokens_eq (hwalk.append [tok]) (by omega)
  have hold : ks.map (fun i => (j.append [tok]).string (some i) 80) = seen.map some := by
    rw [← hnames]
    exact List.map_congr_left fun i hi => string_append _ 80 (hwalk.mem_lt i hi)
  have hall : ks.all (fun i => ((j.append [tok]).string (some i) 80).any (· != name)) =
      (seen.map some).all fun s => s.any (· != name) := by
    rw [← hold, List.all_map]
    rfl
  rw [hkeys, hall]
  simp only [List.all_map, List.all_eq_true, Function.comp_apply, Option.any_some, bne_iff_ne, ne_eq]
  exact ⟨fun hne hmem => hne name hmem rfl, fun hmem s hs heq => hmem (heq ▸ hs)⟩

/-- A key token just read decodes to the name of its text. -/
theorem key_string {j : Json} {text rest : Bytes} {start : Nat} (hsuf : text ++ rest <:+ j.input)
    (hstart : start = j.pos (text ++ rest)) :
    (j.append [⟨start, text.length, j.tokens.length + 1, .string⟩]).string
      (some j.tokens.length) 80 = keyName text := by
  have hget : (j.append [⟨start, text.length, j.tokens.length + 1, .string⟩]).tokens[
      j.tokens.length]? = some ⟨start, text.length, j.tokens.length + 1, .string⟩ := by
    simp
  exact string_eq 80 hget rfl hsuf hstart rfl

theorem key_sound (hp : Exact p g) (hg : Regular g) {t : Nat} {j j' : Json} {rest rest' : Bytes}
    {seen : List Bytes} (hsuf : rest <:+ j.input) (hkeyed : Keyed j t seen)
    (h : key p t j rest = some (j', rest')) :
    ∃ before text gap name, Blank before ∧ Leaf .string text ∧ Blank gap ∧
      keyName text = some name ∧ name ∉ seen ∧ rest = before ++ (text ++ (gap ++ 58 :: rest')) ∧
      j' = j.append [⟨j.pos rest + before.length, text.length, j.tokens.length + 1, .string⟩] ∧
      j'.string (some j.tokens.length) 80 = some name := by
  obtain ⟨before, hbefore, hsplit⟩ := space_split rest
  unfold key at h
  split at h
  · simp at h
  · rename_i hquote
    have hhead : (space rest).head? = some 34 := by simpa using hquote
    have hsuf' : space rest <:+ j.input := by
      rw [hsplit] at hsuf
      exact suffix_of_append hsuf
    cases hval : p j (space rest) with
    | none => simp [hval] at h
    | some r =>
      obtain ⟨j₁, rest₁⟩ := r
      simp only [hval] at h
      obtain ⟨blank, node, hblank, hrest, hok, rfl, -⟩ := hp.sound hsuf' hval
      have hnil : blank = [] := blank_eq_nil hblank (by decide) (hrest ▸ hhead)
      subst hnil
      simp only [List.nil_append, List.length_nil, Nat.add_zero] at hrest h
      obtain ⟨c, tail, htext, -⟩ := hg.starts node hok
      have hstart : (g.text node).head? = some 34 := by
        rw [hrest, htext] at hhead
        rw [htext]
        simpa using hhead
      obtain ⟨hleaf, -, htokens⟩ := hg.string node hok hstart
      rw [htokens] at h
      have hpos : j.pos (space rest) = j.pos rest + before.length := by
        have hwhole : before ++ space rest <:+ j.input := hsplit ▸ hsuf
        have := pos_append hwhole
        rwa [← hsplit] at this
      have hdecode : (j.append [⟨j.pos (space rest), (g.text node).length, j.tokens.length + 1,
          .string⟩]).string (some j.tokens.length) 80 = keyName (g.text node) :=
        key_string (hrest ▸ hsuf') (by rw [← hrest])
      rw [hdecode] at h
      cases hname : keyName (g.text node) with
      | none => simp [hname] at h
      | some name =>
        simp only [hname] at h
        split at h
        · rename_i hall
          have hnew := (keys_new hkeyed _ name).mp hall
          obtain ⟨gap, hgap, hgapsplit⟩ := space_split rest₁
          split at h
          · rename_i tail₁ hcolon
            obtain ⟨rfl, rfl⟩ : _ ∧ tail₁ = rest' := by simpa using h
            refine ⟨before, g.text node, gap, name, hbefore, hleaf, hgap, hname, hnew, ?_, ?_, ?_⟩
            · rw [← hcolon, ← hgapsplit, ← hrest]
              exact hsplit
            · rw [hpos]
            · rw [hdecode, hname]
          · simp at h
        · simp at h

theorem key_complete (hp : Exact p g) (hg : Regular g) {t : Nat} {j : Json} {rest' : Bytes}
    {seen : List Bytes} {before text gap name : Bytes} {node : ν} (hok : g.ok node)
    (hkeyed : Keyed j t seen) (hbefore : Blank before) (hleaf : Leaf .string text)
    (hgap : Blank gap) (hname : keyName text = some name) (hnew : name ∉ seen)
    (hroom : j.tokens.length + 1 ≤ 160)
    (hsuf : before ++ (text ++ (gap ++ 58 :: rest')) <:+ j.input) :
    key p t j (before ++ (text ++ (gap ++ 58 :: rest'))) =
      some (j.append [⟨j.pos (text ++ (gap ++ 58 :: rest')), text.length, j.tokens.length + 1,
        .string⟩], rest') := by
  obtain ⟨c, tail, htext, hblank, -, -, -, -, -, hquote⟩ := leaf_head hleaf
  obtain rfl : c = 34 := hquote.mp rfl
  obtain ⟨k, hkok, hktext, hkcount, hktokens⟩ := hg.key node text hok hleaf
  have hsuf' : text ++ (gap ++ 58 :: rest') <:+ j.input := suffix_of_append hsuf
  have hspace : space (before ++ (text ++ (gap ++ 58 :: rest'))) = text ++ (gap ++ 58 :: rest') := by
    rw [htext]
    exact space_of_blank hbefore hblank _
  have hdelim : Delimited (gap ++ 58 :: rest') :=
    delimited_blank hgap (delimited_cons (.inr (.inl rfl)) rest')
  have hval := hp.complete j [] k (gap ++ 58 :: rest') blank_nil hkok hdelim
    (by rw [hkcount]; exact hroom) (by rw [hktext]; exact hsuf')
  rw [hktext, hktokens, List.nil_append] at hval
  have hdecode := key_string hsuf' rfl
  have hhead : (text ++ (gap ++ 58 :: rest')).head? = some 34 := by
    rw [htext]
    rfl
  have hcolon : space (gap ++ 58 :: rest') = 58 :: rest' := space_of_blank hgap (by decide) rest'
  have hall := (keys_new hkeyed ⟨j.pos (text ++ (gap ++ 58 :: rest')), text.length,
    j.tokens.length + 1, .string⟩ name).mpr hnew
  unfold key
  simp only [hspace, hhead, hval, hdecode, hname, hall, hcolon, bne_self_eq_false, if_true]
  rfl

/-! ## One item -/

/-- A key when the container is an object, then a value. -/
theorem item_sound (hp : Exact p g) (hg : Regular g) {t : Nat} {kind : TokenType}
    (hkind : kind.container = true) {j j₁ j₂ : Json} {rest rest₁ rest₂ : Bytes}
    {seen : List Bytes} (hsuf : rest <:+ j.input) (hkeyed : kind = .object → Keyed j t seen)
    (hkey : (if kind == .object then key p t j rest else some (j, rest)) = some (j₁, rest₁))
    (hval : p j₁ rest₁ = some (j₂, rest₂)) :
    ∃ (i : Item ν) (seen' : List Bytes),
      (∀ after more, Blank after → ItemsOk g keyName kind seen' more →
        ItemsOk g keyName kind seen ({ i with after } :: more)) ∧
      rest = i.label ++ (g.text i.node ++ rest₂) ∧
      j₂ = j.append (i.tokens g (j.pos rest) j.tokens.length) ∧
      j.tokens.length + i.count g ≤ 160 ∧ (kind = .object → Keyed j₂ t seen') := by
  cases hobj : kind == .object with
  | true =>
    obtain rfl : kind = .object := by simpa using hobj
    rw [if_pos hobj] at hkey
    obtain ⟨before, text, gap, name, hbefore, hleaf, hgap, hname, hnew, rfl, hj₁, hdecode⟩ :=
      key_sound hp hg hsuf (hkeyed rfl) hkey
    have hinput : j₁.input = j.input := by rw [hj₁, append_input]
    have hlength : j₁.tokens.length = j.tokens.length + 1 := by
      rw [hj₁, append_tokens, List.length_append, List.length_singleton]
    have hsplit (tail : Bytes) : before ++ (text ++ (gap ++ 58 :: tail)) =
        (before ++ (text ++ (gap ++ [58]))) ++ tail := by
      simp only [List.append_assoc, List.cons_append, List.nil_append]
    have hsuf₁ : rest₁ <:+ j₁.input := by
      rw [hinput]
      exact suffix_of_append (hsplit rest₁ ▸ hsuf)
    obtain ⟨lead, node, hlead, hrest₁, hok, hj₂, hcount⟩ := hp.sound hsuf₁ hval
    have hpos : j₁.pos rest₁ = j.pos (before ++ (text ++ (gap ++ 58 :: rest₁))) +
        (before ++ (text ++ (gap ++ [58]))).length := by
      rw [pos, hinput]
      rw [hsplit] at hsuf ⊢
      exact pos_append hsuf
    rw [hlength] at hj₂ hcount
    refine ⟨{ before, key := some ⟨text, gap, lead⟩, node }, seen ++ [name], ?_, ?_, ?_, ?_, ?_⟩
    · intro after more hafter hmore
      exact ⟨hbefore, hafter, hok, rfl, name, ⟨hleaf, hgap, hlead, hname, hnew⟩, hmore⟩
    · rw [hrest₁]
      simp only [Item.label, Key.bytes, List.append_assoc, List.cons_append]
    · have hplace : j₁.pos rest₁ + lead.length =
          j.pos (before ++ (text ++ (gap ++ 58 :: rest₁))) +
            (before ++ (text ++ (gap ++ 58 :: lead))).length := by
        rw [hpos]
        simp only [List.length_append, List.length_cons, List.length_nil]
        omega
      rw [hj₂, hplace, hj₁, append_append]
      rfl
    · simp only [Item.count, Item.keyCount, Option.isSome_some, if_true]
      omega
    · intro _
      obtain ⟨v, vs, htokens, hafter⟩ := hg.first node (j₁.pos rest₁ + lead.length)
        (j.tokens.length + 1) hok
      have hlen := hg.counted node (j₁.pos rest₁ + lead.length) (j.tokens.length + 1)
      rw [htokens] at hlen
      rw [hj₁] at hdecode
      rw [hj₂, htokens, hj₁, append_append]
      exact (hkeyed rfl).item hdecode (by rw [hafter, hlen])
  | false =>
    have hne : kind ≠ .object := by simpa using hobj
    have harray : kind = .array := by
      cases kind <;> simp_all [TokenType.container]
    rw [if_neg (by simp [hobj])] at hkey
    obtain ⟨rfl, rfl⟩ : j = j₁ ∧ rest = rest₁ := by simpa using hkey
    obtain ⟨before, node, hbefore, rfl, hok, rfl, hcount⟩ := hp.sound hsuf hval
    refine ⟨{ before, node }, seen, ?_, ?_, ?_, ?_, fun h => absurd h hne⟩
    · intro after more hafter hmore
      exact ⟨hbefore, hafter, hok, harray, hmore⟩
    · simp [Item.label]
    · simp [Item.tokens, Item.label, Item.keyCount]
    · simpa [Item.count, Item.keyCount] using hcount

/-- The item before `members` looks at what follows it. -/
theorem item_complete (hp : Exact p g) (hg : Regular g) {t : Nat} {kind : TokenType} {j : Json}
    {rest : Bytes} {seen : List Bytes} {i : Item ν} {more : List (Item ν)}
    (hkeyed : kind = .object → Keyed j t seen) (hitems : ItemsOk g keyName kind seen (i :: more))
    (hdelim : Delimited rest) (hroom : j.tokens.length + i.count g ≤ 160)
    (hsuf : i.label ++ (g.text i.node ++ rest) <:+ j.input) :
    ∃ j₁ rest₁ seen',
      (if kind == .object then key p t j (i.label ++ (g.text i.node ++ rest))
        else some (j, i.label ++ (g.text i.node ++ rest))) = some (j₁, rest₁) ∧
      p j₁ rest₁ = some (j.append (i.tokens g (j.pos (i.label ++ (g.text i.node ++ rest)))
        j.tokens.length), rest) ∧
      ItemsOk g keyName kind seen' more ∧
      (kind = .object → Keyed (j.append (i.tokens g (j.pos (i.label ++ (g.text i.node ++ rest)))
        j.tokens.length)) t seen') := by
  obtain ⟨before, ikey, node, after⟩ := i
  cases ikey with
  | none =>
    obtain ⟨hbefore, -, hok, rfl, hmore⟩ := hitems
    simp only [Item.label, Item.count, Item.keyCount, Item.tokens, List.append_nil,
      Option.isSome_none, Bool.false_eq_true, if_false, Nat.zero_add, Nat.add_zero,
      List.nil_append] at hroom hsuf ⊢
    have hval := hp.complete j before node rest hbefore hok hdelim hroom hsuf
    rw [pos_append hsuf] at hval
    exact ⟨j, _, seen, by simp, hval, hmore, fun h => by cases h⟩
  | some k =>
    obtain ⟨text, gap, lead⟩ := k
    obtain ⟨hbefore, -, hok, rfl, name, ⟨hleaf, hgap, hlead, hname, hnew⟩, hmore⟩ := hitems
    have htext : (Item.mk before (some ⟨text, gap, lead⟩) node after).label ++ (g.text node ++ rest) =
        before ++ (text ++ (gap ++ 58 :: (lead ++ (g.text node ++ rest)))) := by
      simp only [Item.label, Key.bytes, List.append_assoc, List.cons_append]
    simp only [htext] at hsuf ⊢
    have hcount : (Item.mk before (some ⟨text, gap, lead⟩) node after).count g = 1 + g.count node := rfl
    rw [hcount] at hroom
    have hpos := hg.count_pos hok
    have hkey := key_complete hp hg hok (hkeyed rfl) hbefore hleaf hgap hname hnew (by omega) hsuf
    have hstart : j.pos (text ++ (gap ++ 58 :: (lead ++ (g.text node ++ rest)))) =
        j.pos (before ++ (text ++ (gap ++ 58 :: (lead ++ (g.text node ++ rest))))) + before.length :=
      pos_append hsuf
    have hdecode := key_string (suffix_of_append hsuf) rfl
    rw [hname] at hdecode
    generalize hj₁ : j.append [⟨j.pos (text ++ (gap ++ 58 :: (lead ++ (g.text node ++ rest)))),
      text.length, j.tokens.length + 1, .string⟩] = j₁ at hkey hdecode
    have hlength : j₁.tokens.length = j.tokens.length + 1 := by
      rw [← hj₁, append_tokens, List.length_append, List.length_singleton]
    have hinput : j₁.input = j.input := by rw [← hj₁, append_input]
    have hsplit : before ++ (text ++ (gap ++ 58 :: (lead ++ (g.text node ++ rest)))) =
        (before ++ (text ++ (gap ++ 58 :: lead))) ++ (g.text node ++ rest) := by
      simp only [List.append_assoc, List.cons_append]
    have hsuf₁ : lead ++ (g.text node ++ rest) <:+ j₁.input := by
      rw [hinput]
      exact (List.suffix_cons 58 _).trans
        (suffix_of_append (suffix_of_append (suffix_of_append hsuf)))
    have hval := hp.complete j₁ lead node rest hlead hok hdelim (by omega) hsuf₁
    have hplace : j₁.pos (g.text node ++ rest) =
        j.pos (before ++ (text ++ (gap ++ 58 :: (lead ++ (g.text node ++ rest))))) +
          (before ++ (text ++ (gap ++ 58 :: lead))).length := by
      rw [pos, hinput]
      rw [hsplit] at hsuf ⊢
      exact pos_append hsuf
    have hjoin : j₁.append (g.tokens node (j₁.pos (g.text node ++ rest)) j₁.tokens.length) =
        j.append ((Item.mk before (some ⟨text, gap, lead⟩) node after).tokens g
          (j.pos (before ++ (text ++ (gap ++ 58 :: (lead ++ (g.text node ++ rest))))))
          j.tokens.length) := by
      rw [hlength, hplace, ← hj₁, append_append, hstart]
      rfl
    rw [hjoin] at hval
    refine ⟨j₁, _, seen ++ [name], by simpa using hkey, hval, hmore, fun _ => ?_⟩
    obtain ⟨v, vs, htokens, hafter⟩ := hg.first node (j₁.pos (g.text node ++ rest))
      j₁.tokens.length hok
    have hlen := hg.counted node (j₁.pos (g.text node ++ rest)) j₁.tokens.length
    rw [htokens] at hlen
    rw [← hjoin, htokens, ← hj₁, append_append]
    rw [← hj₁] at hdecode
    refine (hkeyed rfl).item hdecode ?_
    rw [hafter, hlen, hlength]

/-! ## All items -/

theorem members_sound (hp : Exact p g) (hg : Regular g) {t : Nat} {kind : TokenType}
    (hkind : kind.container = true) (fuel : Nat) {j j' : Json} {rest rest' : Bytes}
    {seen : List Bytes} (hsuf : rest <:+ j.input) (hkeyed : kind = .object → Keyed j t seen)
    (h : members p t kind fuel j rest = some (j', rest')) :
    ∃ items, items ≠ [] ∧ ItemsOk g keyName kind seen items ∧
      rest = itemsText g items ++ kind.closing :: rest' ∧
      j' = j.append (itemsTokens g items (j.pos rest) j.tokens.length) ∧
      j.tokens.length + itemsCount g items ≤ 160 := by
  induction fuel generalizing j rest seen with
  | zero => simp [members] at h
  | succ fuel ih =>
    simp only [members] at h
    cases hkey : (if kind == .object then key p t j rest else some (j, rest)) with
    | none =>
      simp only [hkey] at h
      exact nomatch h
    | some r₁ =>
      obtain ⟨j₁, rest₁⟩ := r₁
      simp only [hkey] at h
      cases hval : p j₁ rest₁ with
      | none => simp [hval] at h
      | some r₂ =>
        obtain ⟨j₂, rest₂⟩ := r₂
        simp only [hval] at h
        obtain ⟨i, seen', hitems, hrest, hj₂, hcount, hkeyed'⟩ :=
          item_sound hp hg hkind hsuf hkeyed hkey hval
        obtain ⟨after, hafter, hsplit⟩ := space_split rest₂
        cases hnext : space rest₂ with
        | nil => simp [hnext] at h
        | cons next rest₃ =>
          simp only [hnext] at h
          have hrest' : rest = ({ i with after } : Item ν).text g ++ next :: rest₃ := by
            have hlabel : ({ i with after } : Item ν).label = i.label := rfl
            rw [hrest, hsplit, hnext, Item.text, hlabel]
            simp only [List.append_assoc]
          split at h
          · rename_i hclose
            obtain rfl : next = kind.closing := by simpa using hclose
            obtain ⟨rfl, rfl⟩ : j₂ = j' ∧ rest₃ = rest' := by simpa using h
            refine ⟨[{ i with after }], by simp, hitems after [] hafter trivial, hrest', ?_, ?_⟩
            · rw [hj₂, itemsTokens, itemsTokens, List.append_nil]
              rfl
            · rw [itemsCount_cons, show ({ i with after } : Item ν).count g = i.count g from rfl]
              exact hcount
          · split at h
            · simp at h
            · rename_i hcomma
              obtain rfl : next = 44 := by simpa using hcomma
              have hlen : j₂.tokens.length = j.tokens.length + i.count g := by
                rw [hj₂, append_tokens, List.length_append, length_itemTokens g hg.counted]
              have hinput : j₂.input = j.input := by rw [hj₂, append_input]
              have hsplit₃ : ({ i with after } : Item ν).text g ++ 44 :: rest₃ =
                  (({ i with after } : Item ν).text g ++ [44]) ++ rest₃ := by simp
              have hsuf₃ : rest₃ <:+ j₂.input := by
                rw [hinput]
                rw [hrest', hsplit₃] at hsuf
                exact suffix_of_append hsuf
              obtain ⟨items, hne, hok, hrest₃, hj', hcount'⟩ := ih hsuf₃ hkeyed' h
              have hpos : j₂.pos rest₃ =
                  j.pos rest + (({ i with after } : Item ν).text g).length + 1 := by
                rw [pos, hinput]
                rw [hrest', hsplit₃] at hsuf ⊢
                have := pos_append hsuf
                simp only [List.length_append, List.length_singleton, ← Nat.add_assoc] at this
                exact this
              cases items with
              | nil => exact absurd rfl hne
              | cons i' items =>
                refine ⟨{ i with after } :: i' :: items, by simp, hitems after _ hafter hok, ?_, ?_, ?_⟩
                · rw [hrest', hrest₃, itemsText_cons_cons]
                  simp only [List.append_assoc, List.cons_append]
                · rw [hj', hpos, hlen, hj₂, append_append]
                  rfl
                · rw [hlen] at hcount'
                  rw [itemsCount_cons, show ({ i with after } : Item ν).count g = i.count g from rfl]
                  omega

theorem members_complete (hp : Exact p g) (hg : Regular g) {t : Nat} {kind : TokenType}
    (hkind : kind.container = true) (i : Item ν) (items : List (Item ν)) {fuel : Nat} {j : Json}
    {seen : List Bytes} {rest' : Bytes} (hfuel : items.length < fuel)
    (hitems : ItemsOk g keyName kind seen (i :: items))
    (hkeyed : kind = .object → Keyed j t seen)
    (hroom : j.tokens.length + itemsCount g (i :: items) ≤ 160)
    (hsuf : itemsText g (i :: items) ++ kind.closing :: rest' <:+ j.input) :
    members p t kind fuel j (itemsText g (i :: items) ++ kind.closing :: rest') =
      some (j.append (itemsTokens g (i :: items)
        (j.pos (itemsText g (i :: items) ++ kind.closing :: rest')) j.tokens.length), rest') := by
  have hclosing : isBlank kind.closing = false ∧
      (kind.closing = 44 ∨ kind.closing = 58 ∨ kind.closing = 93 ∨ kind.closing = 125) ∧
      kind.closing ≠ 44 := by
    cases kind <;> decide
  induction items generalizing i fuel j seen with
  | nil =>
    cases fuel with
    | zero => omega
    | succ fuel =>
      have hafter : Blank i.after := hitems.2.1
      have htext : itemsText g [i] ++ kind.closing :: rest' =
          i.label ++ (g.text i.node ++ (i.after ++ kind.closing :: rest')) := by
        simp only [itemsText, Item.text, List.append_assoc]
      rw [htext] at hsuf ⊢
      obtain ⟨j₁, rest₁, seen', hkey, hval, -, -⟩ := item_complete hp hg hkeyed hitems
        (delimited_blank hafter (delimited_cons hclosing.2.1 rest'))
        (by simpa [itemsCount] using hroom) hsuf
      simp only [members, hkey, hval, space_of_blank hafter hclosing.1, beq_self_eq_true, if_true,
        itemsTokens, List.append_nil]
  | cons i' items ih =>
    cases fuel with
    | zero => simp at hfuel
    | succ fuel =>
      have hafter : Blank i.after := hitems.2.1
      have htext : itemsText g (i :: i' :: items) ++ kind.closing :: rest' =
          i.label ++ (g.text i.node ++
            (i.after ++ 44 :: (itemsText g (i' :: items) ++ kind.closing :: rest'))) := by
        simp only [itemsText_cons_cons, Item.text, List.append_assoc, List.cons_append]
      rw [itemsCount_cons] at hroom
      rw [htext] at hsuf ⊢
      obtain ⟨j₁, rest₁, seen', hkey, hval, hmore, hkeyed'⟩ := item_complete hp hg hkeyed hitems
        (delimited_blank hafter (delimited_cons (.inl rfl) _)) (by omega) hsuf
      have hcomma : (44 == kind.closing) = false := by
        simpa using Ne.symm hclosing.2.2
      have hsplit : i.label ++ (g.text i.node ++
            (i.after ++ 44 :: (itemsText g (i' :: items) ++ kind.closing :: rest'))) =
          (i.text g ++ [44]) ++ (itemsText g (i' :: items) ++ kind.closing :: rest') := by
        simp only [Item.text, List.append_assoc, List.cons_append, List.nil_append]
      generalize hj₂ : j.append (i.tokens g (j.pos (i.label ++ (g.text i.node ++
        (i.after ++ 44 :: (itemsText g (i' :: items) ++ kind.closing :: rest')))))
          j.tokens.length) = j₂ at hval hkeyed'
      have hinput : j₂.input = j.input := by rw [← hj₂, append_input]
      have hlen : j₂.tokens.length = j.tokens.length + i.count g := by
        rw [← hj₂, append_tokens, List.length_append, length_itemTokens g hg.counted]
      have hsuf₂ : itemsText g (i' :: items) ++ kind.closing :: rest' <:+ j₂.input := by
        rw [hinput]
        rw [hsplit] at hsuf
        exact suffix_of_append hsuf
      have hstep := ih i' (by simpa using hfuel) hmore hkeyed' (by rw [hlen]; omega) hsuf₂
      have hpos : j₂.pos (itemsText g (i' :: items) ++ kind.closing :: rest') =
          j.pos (i.label ++ (g.text i.node ++
            (i.after ++ 44 :: (itemsText g (i' :: items) ++ kind.closing :: rest')))) +
              (i.text g).length + 1 := by
        rw [pos, hinput]
        rw [hsplit] at hsuf ⊢
        have := pos_append hsuf
        simp only [List.length_append, List.length_singleton, ← Nat.add_assoc] at this
        exact this
      simp only [members, hkey, hval, space_of_blank hafter (show isBlank 44 = false by decide),
        hcomma, Bool.false_eq_true, if_false, bne_self_eq_false, hstep]
      rw [hpos, hlen, ← hj₂, append_append]
      rfl

/-! ## Containers -/

theorem length_le_itemsText (hg : Regular g) {kind : TokenType} {seen : List Bytes}
    {items : List (Item ν)} (h : ItemsOk g keyName kind seen items) :
    items.length ≤ (itemsText g items).length := by
  have hitem (i : Item ν) (hok : g.ok i.node) : 1 ≤ (i.text g).length := by
    obtain ⟨c, tail, htext, -⟩ := hg.starts i.node hok
    rw [Item.text, htext]
    simp only [List.length_append, List.length_cons]
    omega
  induction items generalizing seen with
  | nil => exact Nat.le_refl 0
  | cons i items ih =>
    have hok : g.ok i.node := h.2.2.1
    have hfirst := hitem i hok
    obtain ⟨seen', hmore⟩ : ∃ seen', ItemsOk g keyName kind seen' items := by
      obtain ⟨before, key, node, after⟩ := i
      cases key with
      | none => exact ⟨seen, h.2.2.2.2⟩
      | some k =>
        obtain ⟨-, -, -, -, n, -, hmore⟩ := h
        exact ⟨seen ++ [n], hmore⟩
    cases items with
    | nil => simpa [itemsText] using hfirst
    | cons i' items =>
      have hrest := ih hmore
      rw [itemsText_cons_cons, List.length_append, List.length_cons]
      simp only [List.length_cons] at hrest ⊢
      omega

/-- The first character of items without blanks in front. -/
theorem itemsText_head (hg : Regular g) {kind : TokenType} {seen : List Bytes} {i : Item ν}
    {items : List (Item ν)} (h : ItemsOk g keyName kind seen (i :: items)) (hbare : i.before = []) :
    ∃ c tail, itemsText g (i :: items) = c :: tail ∧ isBlank c = false ∧ c ≠ 93 ∧ c ≠ 125 := by
  obtain ⟨before, key, node, after⟩ := i
  obtain rfl : before = [] := hbare
  have hfirst : ∃ c tail, (Item.mk [] key node after).text g = c :: tail ∧ isBlank c = false ∧
      c ≠ 93 ∧ c ≠ 125 := by
    cases key with
    | none =>
      obtain ⟨c, tail, htext, hblank, harray, hobject⟩ := hg.starts node h.2.2.1
      exact ⟨c, tail ++ after, by simp [Item.text, Item.label, htext], hblank, harray, hobject⟩
    | some k =>
      obtain ⟨-, -, -, -, n, hkey, -⟩ := h
      obtain ⟨c, tail, htext, hblank, -, -, harray, hobject, -⟩ := leaf_head hkey.1
      exact ⟨c, tail ++ (k.gap ++ 58 :: k.lead) ++ (g.text node ++ after),
        by simp only [Item.text, Item.label, Key.bytes, htext, List.nil_append, List.cons_append],
        hblank, harray, hobject⟩
  obtain ⟨c, tail, htext, hc⟩ := hfirst
  cases items with
  | nil => exact ⟨c, tail, htext, hc⟩
  | cons i' items =>
    rw [itemsText_cons_cons, htext]
    exact ⟨c, _, rfl, hc⟩

/-- Changing the element after `front`. -/
theorem modify_length_append {α : Type} (front : List α) (a : α) (back : List α) (f : α → α) :
    (front ++ a :: back).modify front.length f = front ++ f a :: back := by
  induction front with
  | nil => rfl
  | cons b front ih => simpa using ih

theorem close_eq (j : Json) (tok : Token) (more : List Token) (rest : Bytes) :
    ((j.push tok).append more).close j.tokens.length rest =
      j.append ({ tok with
        size := j.pos rest - tok.start, after := j.tokens.length + 1 + more.length } :: more) := by
  have hlast := modify_length_append j.tokens tok more
  simp only [close, push, append, List.append_assoc, List.singleton_append]
  rw [hlast]
  simp only [List.length_append, List.length_cons]
  congr 4
  omega

/-- What `container` leaves, and the node it read. -/
theorem container_sound (hp : Exact p g) (hg : Regular g) {kind : TokenType}
    (hkind : kind.container = true) {j j' : Json} {t : Nat} (ht : j.tokens.length = t + 1)
    {rest rest' : Bytes} (hsuf : rest <:+ j.input) (hfull : t < 160)
    (h : container p t kind j rest = some (j', rest')) :
    ∃ node : Shape ν, (Shape.grammar g keyName).ok node ∧
      kind.opening :: rest = (Shape.grammar g keyName).text node ++ rest' ∧
      t + (Shape.grammar g keyName).count node ≤ 160 ∧
      ∃ more, j' = j.append more ∧ ∀ pos, j.pos rest = pos + 1 →
        (Shape.grammar g keyName).tokens node pos t =
          ⟨pos, ((Shape.grammar g keyName).text node).length, t + 1 + more.length, kind⟩ :: more := by
  obtain ⟨blank, hblank, hsplit⟩ := space_split rest
  unfold container at h
  split at h
  · rename_i hclose
    obtain ⟨rfl, rfl⟩ : j = j' ∧ (space rest).tail = rest' := by simpa using h
    have hclosed : space rest = kind.closing :: (space rest).tail := by
      cases hs : space rest with
      | nil => simp [hs] at hclose
      | cons c tail =>
        obtain rfl : c = kind.closing := by simpa [hs] using hclose
        rfl
    refine ⟨.empty kind blank, ⟨hkind, hblank⟩, ?_, ?_, [], (append_nil j).symm, ?_⟩
    · have hrest : rest = blank ++ kind.closing :: (space rest).tail := hclosed ▸ hsplit
      have htext : (Shape.grammar g keyName).text (.empty kind blank) ++ (space rest).tail =
          kind.opening :: (blank ++ kind.closing :: (space rest).tail) := by
        simp [Shape.grammar]
      rw [htext, ← hrest]
    · exact hfull
    · intro pos _
      simp [Shape.grammar]
  · have hsuf' : space rest <:+ j.input := by
      rw [hsplit] at hsuf
      exact suffix_of_append hsuf
    have hwhole : blank ++ space rest <:+ j.input := hsplit ▸ hsuf
    have hpos := pos_append hwhole
    rw [← hsplit] at hpos
    obtain ⟨items, hne, hok, hrest, rfl, hcount⟩ :=
      members_sound hp hg hkind _ hsuf' (fun _ => keyed_open ht) h
    cases items with
    | nil => exact absurd rfl hne
    | cons i items =>
      refine ⟨.group kind (i.indent blank :: items),
        ⟨hkind, by simp, itemsOk_indent g hblank hok⟩, ?_, ?_, _, rfl, ?_⟩
      · simp only [Shape.grammar, itemsText_indent, List.cons_append, List.append_assoc,
          List.nil_append]
        rw [← hrest, ← hsplit]
      · simp only [Shape.grammar, itemsCount_indent]
        omega
      · intro pos hstart
        have hplace : j.pos (space rest) = pos + 1 + blank.length := by omega
        simp only [Shape.grammar, itemsTokens_indent, itemsCount_indent, hplace, ht,
          length_itemsTokens g hg.counted, List.length_cons, List.length_append, List.length_nil]

theorem container_complete (hp : Exact p g) (hg : Regular g) {kind : TokenType}
    (hkind : kind.container = true) {j : Json} {t : Nat} (ht : j.tokens.length = t + 1)
    {i : Item ν} {items : List (Item ν)} {rest' : Bytes}
    (hok : ItemsOk g keyName kind [] (i :: items))
    (hroom : j.tokens.length + itemsCount g (i :: items) ≤ 160)
    (hsuf : itemsText g (i :: items) ++ kind.closing :: rest' <:+ j.input) :
    container p t kind j (itemsText g (i :: items) ++ kind.closing :: rest') =
      some (j.append (itemsTokens g (i :: items)
        (j.pos (itemsText g (i :: items) ++ kind.closing :: rest')) j.tokens.length), rest') := by
  have hbare := itemsOk_bare g hok
  obtain ⟨c, tail, htext, hblank, harray, hobject⟩ := itemsText_head hg hbare rfl
  have hindent : itemsText g (i :: items) =
      i.before ++ itemsText g ({ i with before := [] } :: items) := by
    rw [← itemsText_indent, indent_bare]
  have hwhole : i.before ++ (itemsText g ({ i with before := [] } :: items) ++
      kind.closing :: rest') <:+ j.input := by
    rw [hindent, List.append_assoc] at hsuf
    exact hsuf
  have hspace : space (itemsText g (i :: items) ++ kind.closing :: rest') =
      itemsText g ({ i with before := [] } :: items) ++ kind.closing :: rest' := by
    rw [hindent, List.append_assoc, htext, List.cons_append]
    exact space_of_blank hok.1 hblank _
  have hopen : ((itemsText g ({ i with before := [] } :: items) ++ kind.closing :: rest').head? ==
      some kind.closing) = false := by
    rw [htext]
    have hne : c ≠ kind.closing := by
      cases kind <;> assumption
    simpa using hne
  have hfuel : items.length <
      (itemsText g (i :: items) ++ kind.closing :: rest').length + 1 := by
    have := length_le_itemsText hg hok
    simp only [List.length_cons, List.length_append] at this ⊢
    omega
  have hmembers := members_complete hp hg hkind { i with before := [] } items hfuel hbare
    (fun _ => keyed_open ht) hroom (suffix_of_append hwhole)
  have htokens : itemsTokens g (i :: items)
        (j.pos (itemsText g (i :: items) ++ kind.closing :: rest')) j.tokens.length =
      itemsTokens g ({ i with before := [] } :: items)
        (j.pos (itemsText g ({ i with before := [] } :: items) ++ kind.closing :: rest'))
        j.tokens.length := by
    have hpos := pos_append hwhole
    rw [← List.append_assoc, ← hindent] at hpos
    rw [hpos, ← itemsTokens_indent, indent_bare]
  unfold container
  rw [hspace, hopen]
  simp only [Bool.false_eq_true, if_false]
  rw [hmembers, htokens]

/-! ## Values -/

theorem shape_regular (hg : g.Counted) : Regular (Shape.grammar g keyName) where
  counted := Shape.counted g keyName hg
  starts node ok := by
    cases node with
    | leaf kind text =>
      obtain ⟨c, tail, rfl, hblank, -, -, harray, hobject, -⟩ := leaf_head ok
      exact ⟨c, tail, rfl, hblank, harray, hobject⟩
    | empty kind blank =>
      refine ⟨kind.opening, _, rfl, ?_⟩
      cases kind <;> decide
    | group kind items =>
      refine ⟨kind.opening, _, rfl, ?_⟩
      cases kind <;> decide
  first node pos idx _ := by
    cases node with
    | leaf kind text => exact ⟨_, [], rfl, rfl⟩
    | empty kind blank => exact ⟨_, [], rfl, rfl⟩
    | group kind items => exact ⟨_, _, rfl, Nat.add_assoc idx 1 _⟩
  string node ok hquote := by
    cases node with
    | leaf kind text =>
      obtain ⟨c, tail, rfl, -, -, -, -, -, -, hkind⟩ := leaf_head ok
      obtain rfl : c = 34 := by simpa [Shape.grammar] using hquote
      obtain rfl : kind = .string := hkind.mpr rfl
      exact ⟨ok, rfl, fun pos idx => rfl⟩
    | empty kind blank => cases kind <;> simp [Shape.grammar, TokenType.opening] at hquote
    | group kind items => cases kind <;> simp [Shape.grammar, TokenType.opening] at hquote
  key _ text _ hleaf := ⟨.leaf .string text, hleaf, rfl, rfl, fun pos idx => rfl⟩

end Members

theorem value_sound {level : Nat} {ν : Type} {g : Grammar ν} (hp : Exact (value level) g)
    (hg : Regular g) {j j' : Json} {rest rest' : Bytes} (hsuf : rest <:+ j.input)
    (h : value (level + 1) j rest = some (j', rest')) :
    ∃ blank node, Blank blank ∧ rest = blank ++ ((Shape.grammar g keyName).text node ++ rest') ∧
      (Shape.grammar g keyName).ok node ∧
      j' = j.append ((Shape.grammar g keyName).tokens node (j.pos rest + blank.length)
        j.tokens.length) ∧
      j.tokens.length + (Shape.grammar g keyName).count node ≤ 160 := by
  obtain ⟨blank, hblank, hsplit⟩ := space_split rest
  have hwhole : blank ++ space rest <:+ j.input := hsplit ▸ hsuf
  have hpos : j.pos (space rest) = j.pos rest + blank.length := by
    have := pos_append hwhole
    rwa [← hsplit] at this
  have hsuf' := suffix_of_append hwhole
  simp only [value] at h
  split at h
  · simp at h
  · rename_i hroom
    have hfull : j.tokens.length < 160 := by
      simp only [Bool.or_eq_true, decide_eq_true_eq, not_or] at hroom
      omega
    split at h
    · rename_i hopen
      -- an opening bracket
      generalize hkind : (if (space rest).head? == some 123 then TokenType.object else .array) =
        kind at h
      obtain ⟨hcontainer, hhead⟩ : kind.container = true ∧
          (space rest).head? = some kind.opening := by
        rw [← hkind]
        by_cases hobject : (space rest).head? = some 123
        · simp [hobject, TokenType.container, TokenType.opening]
        · have harray : (space rest).head? = some 91 := by simpa [hobject] using hopen
          simp [harray, TokenType.container, TokenType.opening]
      have hcons : space rest = kind.opening :: (space rest).tail := by
        cases hs : space rest with
        | nil => simp [hs] at hhead
        | cons c tail =>
          obtain rfl : c = kind.opening := by simpa [hs] using hhead
          rfl
      simp only [Option.map_eq_some_iff, Prod.mk.injEq] at h
      obtain ⟨⟨j₁, rest₁⟩, hcont, rfl, rfl⟩ := h
      have hsuf₁ : (space rest).tail <:+ j.input := (List.tail_suffix _).trans hsuf'
      obtain ⟨node, hok, htext, hcount, more, rfl, htokens⟩ :=
        container_sound hp hg hcontainer (j := j.push ⟨j.pos (space rest), 0, 0, kind⟩)
          (by simp [push]) hsuf₁ hfull hcont
      rw [← hcons] at htext
      refine ⟨blank, node, hblank, htext ▸ hsplit, hok, ?_, hcount⟩
      have hstart : (j.push ⟨j.pos (space rest), 0, 0, kind⟩).pos (space rest).tail =
          j.pos (space rest) + 1 := by
        have hone : [kind.opening] ++ (space rest).tail <:+ j.input := by
          rw [List.singleton_append, ← hcons]
          exact hsuf'
        have := pos_append hone
        rwa [List.singleton_append, ← hcons] at this
      have hsize : j.pos rest₁ - j.pos (space rest) =
          ((Shape.grammar g keyName).text node).length := by
        have hnode : (Shape.grammar g keyName).text node ++ rest₁ <:+ j.input := htext ▸ hsuf'
        have := pos_append hnode
        rw [← htext] at this
        omega
      rw [close_eq, hsize, ← hpos, htokens _ hstart]
    · -- a value without parts
      simp only [Option.map_eq_some_iff, Prod.mk.injEq] at h
      obtain ⟨⟨kind, after⟩, hleaf, rfl, rfl⟩ := h
      obtain ⟨text, htext, hrest⟩ := leaf_sound hleaf
      refine ⟨blank, .leaf kind text, hblank, ?_, htext, ?_, hfull⟩
      · rw [show (Shape.grammar g keyName).text (.leaf kind text) = text from rfl, ← hrest]
        exact hsplit
      · have hsize : (space rest).length - after.length = text.length := by
          rw [hrest, List.length_append]
          omega
        rw [← hpos, hsize]
        rfl

theorem pos_cons {j : Json} {c : UInt8} {rest : Bytes} (h : c :: rest <:+ j.input) :
    j.pos rest = j.pos (c :: rest) + 1 := by
  have hone : [c] ++ rest <:+ j.input := h
  exact pos_append hone

/-- The branch of `value` for an opening bracket. -/
theorem value_open {level : Nat} {kind : TokenType} (hkind : kind.container = true) {j j₁ : Json}
    {blank tail rest' : Bytes} (hblank : Blank blank) (hroom : j.tokens.length < 160)
    (h : container (value level) j.tokens.length kind
      (j.push ⟨j.pos (kind.opening :: tail), 0, 0, kind⟩) tail = some (j₁, rest')) :
    value (level + 1) j (blank ++ kind.opening :: tail) =
      some (j₁.close j.tokens.length rest', rest') := by
  have hspace : space (blank ++ kind.opening :: tail) = kind.opening :: tail := by
    refine space_of_blank hblank ?_ tail
    cases kind <;> decide
  have hfull : ¬ 160 ≤ j.tokens.length := by omega
  have hbracket : ((some kind.opening == some 123) || (some kind.opening == some 91)) = true ∧
      (if some kind.opening == some 123 then TokenType.object else .array) = kind := by
    cases kind <;> first | decide | exact absurd hkind (by decide)
  simp only [value, hspace, List.isEmpty_cons, hfull, decide_false, Bool.or_self, List.head?_cons,
    hbracket.1, hbracket.2, List.tail_cons, h, if_true, Bool.false_eq_true, if_false,
    Option.map_some]

theorem value_complete {level : Nat} {ν : Type} {g : Grammar ν} (hp : Exact (value level) g)
    (hg : Regular g) (j : Json) (blank : Bytes) (node : Shape ν) (rest' : Bytes)
    (hblank : Blank blank) (hok : (Shape.grammar g keyName).ok node) (hdelim : Delimited rest')
    (hroom : j.tokens.length + (Shape.grammar g keyName).count node ≤ 160)
    (hsuf : blank ++ ((Shape.grammar g keyName).text node ++ rest') <:+ j.input) :
    value (level + 1) j (blank ++ ((Shape.grammar g keyName).text node ++ rest')) =
      some (j.append ((Shape.grammar g keyName).tokens node
        (j.pos ((Shape.grammar g keyName).text node ++ rest')) j.tokens.length), rest') := by
  have hcount := (shape_regular hg.counted).count_pos hok
  have hsuf' := suffix_of_append hsuf
  cases node with
  | leaf kind text =>
    have hleaf : leaf (text ++ rest') = some (kind, rest') := leaf_complete hok hdelim
    obtain ⟨c, tail, rfl, hc, hobject, harray, -⟩ := leaf_head hok
    have hspace : space (blank ++ (c :: tail ++ rest')) = c :: tail ++ rest' :=
      space_of_blank hblank hc _
    have hfull : ¬ 160 ≤ j.tokens.length := by omega
    have hsize : (c :: tail ++ rest').length - rest'.length = (c :: tail).length := by
      rw [List.length_append]
      omega
    have hne : ((some c == some 123) || (some c == some 91)) = false := by
      simp [hobject, harray]
    have hhead : (c :: tail ++ rest').head? = some c := rfl
    have hempty : (c :: tail ++ rest').isEmpty = false := rfl
    simp only [Shape.grammar] at hsuf' ⊢
    simp only [value, hspace, hempty, hfull, decide_false, Bool.or_self, hhead, hne, hleaf, hsize,
      Bool.false_eq_true, if_false, Option.map_some]
    rfl
  | empty kind inner =>
    obtain ⟨hkind, hinner⟩ := hok
    have htext : (Shape.grammar g keyName).text (.empty kind inner) ++ rest' =
        kind.opening :: (inner ++ kind.closing :: rest') := by
      simp [Shape.grammar]
    rw [htext] at hsuf' ⊢
    have hclose : space (inner ++ kind.closing :: rest') = kind.closing :: rest' := by
      refine space_of_blank hinner ?_ rest'
      cases kind <;> decide
    have hcontainer : container (value level) j.tokens.length kind
        (j.push ⟨j.pos (kind.opening :: (inner ++ kind.closing :: rest')), 0, 0, kind⟩)
        (inner ++ kind.closing :: rest') =
          some (j.push ⟨j.pos (kind.opening :: (inner ++ kind.closing :: rest')), 0, 0, kind⟩,
            rest') := by
      simp [container, hclose]
    rw [value_open hkind hblank (by omega) hcontainer]
    have hend := pos_cons hsuf'
    have hrest : j.pos rest' = j.pos (kind.opening :: (inner ++ kind.closing :: rest')) +
        inner.length + 2 := by
      have hin : inner ++ kind.closing :: rest' <:+ j.input := (List.suffix_cons _ _).trans hsuf'
      have h₁ := pos_append hin
      have h₂ := pos_cons (suffix_of_append hin)
      omega
    have hclosed := close_eq j ⟨j.pos (kind.opening :: (inner ++ kind.closing :: rest')), 0, 0, kind⟩
      [] rest'
    rw [append_nil] at hclosed
    rw [hclosed, hrest]
    simp only [Shape.grammar, List.length_nil, Nat.add_zero]
    congr 5
    omega
  | group kind items =>
    obtain ⟨hkind, hne, hitems⟩ := hok
    cases items with
    | nil => exact absurd rfl hne
    | cons i items =>
      have htext : (Shape.grammar g keyName).text (.group kind (i :: items)) ++ rest' =
          kind.opening :: (itemsText g (i :: items) ++ kind.closing :: rest') := by
        simp [Shape.grammar]
      have hcount' : (Shape.grammar g keyName).count (.group kind (i :: items)) =
          1 + itemsCount g (i :: items) := rfl
      rw [hcount'] at hroom
      rw [htext] at hsuf' ⊢
      have hin : itemsText g (i :: items) ++ kind.closing :: rest' <:+ j.input :=
        (List.suffix_cons _ _).trans hsuf'
      have hcontainer := container_complete hp hg hkind
        (j := j.push ⟨j.pos (kind.opening :: (itemsText g (i :: items) ++ kind.closing :: rest')),
          0, 0, kind⟩) (t := j.tokens.length) (by simp [push]) hitems
        (by simp only [push, List.length_append, List.length_singleton]; omega) hin
      rw [value_open hkind hblank (by omega) hcontainer, close_eq]
      have h₁ := pos_cons hsuf'
      have h₂ := pos_append hin
      have h₃ := pos_cons (suffix_of_append hin)
      have hstart : (j.push ⟨j.pos (kind.opening :: (itemsText g (i :: items) ++
          kind.closing :: rest')), 0, 0, kind⟩).pos
            (itemsText g (i :: items) ++ kind.closing :: rest') =
          j.pos (kind.opening :: (itemsText g (i :: items) ++ kind.closing :: rest')) + 1 := h₁
      have hlen : (j.push ⟨j.pos (kind.opening :: (itemsText g (i :: items) ++
          kind.closing :: rest')), 0, 0, kind⟩).tokens.length = j.tokens.length + 1 := by
        simp [push]
      rw [hstart, hlen, length_itemsTokens g hg.counted]
      have hsize : j.pos rest' - j.pos (kind.opening :: (itemsText g (i :: items) ++
          kind.closing :: rest')) = (itemsText g (i :: items)).length + 2 := by
        omega
      rw [hsize]
      rfl

theorem regular (level : Nat) : Regular (grammar keyName level) := by
  cases level with
  | zero => exact ⟨nofun, nofun, nofun, nofun, nofun⟩
  | succ level => exact shape_regular (counted keyName level)

/-- `value`, with `level` levels left, reads exactly the trees of that level. -/
theorem value_exact (level : Nat) : Exact (value level) (grammar keyName level) := by
  induction level with
  | zero =>
    constructor
    · intro j j' rest rest' _ h
      exact absurd h (by simp [value])
    · intro j blank node
      exact nomatch node
  | succ level ih =>
    exact ⟨fun hsuf h => value_sound ih (regular level) hsuf h,
      value_complete ih (regular level)⟩

/-! ## Whole inputs -/

/-- A line and its syntax tree: blanks around one value at depth zero. -/
structure Document where
  before : Bytes := []
  root : Tree 9
  after : Bytes := []

namespace Document

def text (d : Document) : Bytes := d.before ++ ((grammar keyName 9).text d.root ++ d.after)

structure Ok (d : Document) : Prop where
  before : Blank d.before
  root : (grammar keyName 9).ok d.root
  after : Blank d.after
  size : d.text.length ≤ 2048
  count : (grammar keyName 9).count d.root ≤ 160

/-- What `parse` makes of it. -/
def json (d : Document) : Json :=
  { input := d.text, tokens := (grammar keyName 9).tokens d.root d.before.length 0 }

end Document

/-- `parse` accepts exactly the well-formed documents. -/
theorem parse_eq_some {input : Bytes} {j : Json} :
    parse input = some j ↔ ∃ d : Document, d.Ok ∧ input = d.text ∧ j = d.json := by
  constructor
  · intro h
    unfold parse at h
    split at h
    · simp at h
    · rename_i hsize
      cases hval : value 9 { input } input with
      | none => simp [hval] at h
      | some r =>
        obtain ⟨j', rest⟩ := r
        simp only [hval] at h
        split at h
        · rename_i hend
          obtain rfl : j' = j := by simpa using h
          have hspace : space rest = [] := by simpa using hend
          obtain ⟨before, root, hbefore, hinput, hroot, hj, hcount⟩ :=
            (value_exact 9).sound (List.suffix_refl input) hval
          obtain ⟨after, hafter, hsplit⟩ := space_split rest
          rw [hspace, List.append_nil] at hsplit
          subst hsplit
          refine ⟨⟨before, root, rest⟩, ⟨hbefore, hroot, hafter, ?_, by simpa using hcount⟩,
            hinput, ?_⟩
          · rw [Document.text, ← hinput]
            simp only [Bool.or_eq_true, decide_eq_true_eq, not_or] at hsize
            omega
          · rw [hj]
            simp [append, Document.json, Document.text, pos, hinput]
        · simp at h
  · rintro ⟨d, ok, rfl, rfl⟩
    have hval := (value_exact 9).complete { input := d.text } d.before d.root d.after ok.before
      ok.root (by simpa using delimited_blank ok.after delimited_nil) (by simpa using ok.count)
      (List.suffix_refl d.text)
    have hpos : ({ input := d.text } : Json).pos ((grammar keyName 9).text d.root ++ d.after) =
        d.before.length := by
      simp [pos, Document.text]
    have hempty : d.text.isEmpty = false := by
      obtain ⟨c, tail, hc, -⟩ := (regular 9).starts d.root ok.root
      simp [Document.text, hc]
    have hsize : ¬ 2048 < d.text.length := by
      have := ok.size
      omega
    have hspace : space d.after = [] := space_all_blank ok.after
    have hsplit : d.text = d.before ++ ((grammar keyName 9).text d.root ++ d.after) := rfl
    unfold parse
    rw [hempty]
    simp only [hsize, decide_false, Bool.or_self, Bool.false_eq_true, if_false]
    rw [← hsplit] at hval
    rw [hval]
    simp [hspace, hpos, append, Document.json]

end Hound.Json
