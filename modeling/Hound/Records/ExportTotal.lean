import Hound.Records.Export
import Hound.Records.RoundTrip

/-!
# Every accepted line can be exported

What export drops from a line is longer than what it adds, so a line the reader
took fits the buffer again. The counting is over the members of the input's
object: each required name is the name of an item of its own.
-/

namespace Hound

open JsonTree Json Writer

/-! ## Counting members -/

/-- Distinct names find distinct items, so what they account for adds up. -/
theorem sum_le_of_find {α κ : Type} [BEq κ] [LawfulBEq κ] (name : α → Option κ) {cost : α → Nat}
    {weight : κ → Nat} {items : List α} {names : List κ} (distinct : names.Nodup)
    (h : ∀ n ∈ names, ∃ i, items.find? (fun i => name i == some n) = some i ∧ weight n ≤ cost i) :
    (names.map weight).sum ≤ (items.map cost).sum := by
  have hfound : ∀ ns : List κ, (∀ n ∈ ns, ∃ i, items.find? (fun i => name i == some n) = some i ∧
      weight n ≤ cost i) → (ns.map weight).sum ≤
        ((ns.filterMap fun n => items.find? fun i => name i == some n).map cost).sum := by
    intro ns hns
    induction ns with
    | nil => exact Nat.le_refl 0
    | cons n ns ih =>
      obtain ⟨i, hi, hle⟩ := hns n List.mem_cons_self
      have hrest := ih fun m hm => hns m (List.mem_cons_of_mem n hm)
      have hcons : ((n :: ns).filterMap fun n => items.find? fun i => name i == some n) =
          i :: ns.filterMap fun n => items.find? fun i => name i == some n :=
        List.filterMap_cons_some hi
      rw [hcons, List.map_cons, List.map_cons, List.sum_cons, List.sum_cons]
      omega
  have hdistinct : (names.filterMap fun n => items.find? fun i => name i == some n).Nodup := by
    refine distinct.filterMap fun n n' i hi hi' => ?_
    have hname := List.find?_some hi
    have hname' := List.find?_some hi'
    simp only [beq_iff_eq] at hname hname'
    exact Option.some.inj (hname.symm.trans hname')
  have hsubset : (names.filterMap fun n => items.find? fun i => name i == some n) ⊆ items := by
    intro i hi
    obtain ⟨n, -, hn⟩ := List.mem_filterMap.mp hi
    exact List.mem_of_find?_eq_some hn
  obtain ⟨sub, hperm, hsub⟩ := List.subperm_of_subset hdistinct hsubset
  calc (names.map weight).sum
      ≤ ((names.filterMap fun n => items.find? fun i => name i == some n).map cost).sum :=
        hfound names h
    _ = (sub.map cost).sum := (hperm.map cost).sum_eq.symm
    _ ≤ (items.map cost).sum := (hsub.map cost).sum_le_sum fun _ _ => Nat.zero_le _

section Accepted

variable {d : Document} {items : List (Item Field)}

theorem length_itemsText {ν : Type} (g : Grammar ν) {items : List (Item ν)} (h : items ≠ []) :
    (itemsText g items).length + 1 = (items.map fun i => (i.text g).length + 1).sum := by
  cases items with
  | nil => exact absurd rfl h
  | cons i items =>
    have htail : ∀ items : List (Item ν), (items.flatMap fun i => 44 :: i.text g).length =
        (items.map fun i => (i.text g).length + 1).sum := by
      intro items
      induction items with
      | nil => rfl
      | cons i items ih =>
        rw [List.flatMap_cons, List.length_append, List.length_cons, ih, List.map_cons, List.sum_cons]
    rw [itemsText_cons_flatMap, List.length_append, htail, List.map_cons, List.sum_cons]
    omega

theorem length_of_map_cons {c : UInt8} {tail : Option Bytes} {s : Bytes}
    (h : tail.map (c :: ·) = some s) : ∃ s', tail = some s' ∧ s.length = s'.length + 1 := by
  obtain ⟨s', hs', rfl⟩ := Option.map_eq_some_iff.mp h
  exact ⟨s', hs', rfl⟩

theorem unescape_length {body s : Bytes} (h : unescape body = some s) : s.length ≤ body.length := by
  fun_induction unescape body generalizing s with
  | case1 =>
    obtain rfl : [] = s := by simpa using h
    exact Nat.le_refl 0
  | case2 | case4 | case6 | case7 => exact nomatch h
  | case3 | case5 | case8 =>
    rename_i ih
    obtain ⟨s', hs', hlen⟩ := length_of_map_cons h
    have hle := ih hs'
    simp only [List.length_cons]
    omega

theorem decode_length {size : Nat} {body s : Bytes} (h : decode size (quoted body) = some s) :
    s.length ≤ body.length := by
  rw [decode_quoted] at h
  exact unescape_length (Option.mem_filter_iff.mp h).1

theorem kindOf_string {v : Field} {size : Nat} {s : Bytes} (h : v.string size = some s) :
    kindOf v = .string := by
  unfold Field.string at h
  split at h
  · rename_i hkind
    exact beq_iff_eq.mp hkind
  · exact nomatch h

theorem string_length {v : Field} {size : Nat} {s : Bytes} (ok : fieldGrammar.ok v)
    (h : v.string size = some s) : s.length + 2 ≤ v.text.length := by
  have hstring := kindOf_string h
  cases v with
  | leaf kind text =>
    have hleaf : Leaf kind text := ok
    obtain rfl : kind = .string := hstring
    cases hleaf with
    | @string body hbody =>
      have hdecode : decode size (quoted body) = some s := h
      have hle := decode_length hdecode
      have htext : Field.text (.leaf .string (quoted body)) = quoted body := rfl
      rw [htext]
      simp only [quoted, List.length_cons, List.length_append, List.length_nil]
      omega
  | empty kind blank =>
    obtain rfl : kind = .string := hstring
    cases ok.1
  | group kind items =>
    obtain rfl : kind = .string := hstring
    cases ok.1

theorem boolean_length {v : Field} (ok : fieldGrammar.ok v) (h : kindOf v = .boolean) :
    4 ≤ v.text.length := by
  cases v with
  | leaf kind text =>
    have hleaf : Leaf kind text := ok
    obtain rfl : kind = .boolean := h
    cases hleaf with
    | true => exact Nat.le_refl 4
    | false => exact Nat.le_succ 4
  | empty kind blank =>
    obtain rfl : kind = .boolean := h
    exact nomatch ok.1
  | group kind items =>
    obtain rfl : kind = .boolean := h
    exact nomatch ok.1

theorem text_pos {v : Field} (ok : fieldGrammar.ok v) : 1 ≤ v.text.length := by
  obtain ⟨c, tail, htext, -⟩ := (regular 8).starts v ok
  have hcons : v.text = c :: tail := htext
  rw [hcons, List.length_cons]
  omega

/-- A string member of the input is a field at least as long as what it decodes to. -/
theorem field_of_str (ok : d.Ok) (hroot : d.root = Shape.group .object items) {key s : Bytes}
    {size : Nat} (h : d.json.str key size = some s) :
    ∃ v, field items key = some v ∧ fieldGrammar.ok v ∧ v.string size = some s := by
  rw [Json.str, string_member ok hroot] at h
  obtain ⟨-, hf⟩ | ⟨t, v, pos, -, hf, hplaced⟩ := member_cases ok hroot key
  · rw [hf] at h
    cases h
  · rw [hf, Option.bind_some] at h
    exact ⟨v, hf, hplaced.ok, h⟩

theorem field_of_integer (ok : d.Ok) (hroot : d.root = Shape.group .object items) {key : Bytes}
    {n : Int} (h : d.json.integer (d.json.member 0 key) = some n) :
    ∃ v, field items key = some v ∧ fieldGrammar.ok v := by
  rw [integer_member ok hroot] at h
  obtain ⟨-, hf⟩ | ⟨t, v, pos, -, hf, hplaced⟩ := member_cases ok hroot key
  · rw [hf] at h
    exact nomatch h
  · exact ⟨v, hf, hplaced.ok⟩

theorem field_of_member (ok : d.Ok) (hroot : d.root = Shape.group .object items) {key : Bytes}
    {t : Nat} (h : d.json.member 0 key = some t) :
    ∃ v pos, field items key = some v ∧ Placed fieldGrammar d.json pos t v := by
  obtain ⟨hm, -⟩ | ⟨t', v, pos, hm, hf, hplaced⟩ := member_cases ok hroot key
  · rw [hm] at h
    exact nomatch h
  · rw [hm] at h
    obtain rfl := Option.some.inj h
    exact ⟨v, pos, hf, hplaced⟩

/-- An accepted line is an object with members. -/
theorem root_of_accepted (ok : d.Ok) (h : Accepted d.json) :
    ∃ items : List (Item Field), d.root = Shape.group .object items := by
  have hok := ok.root
  have hobject := h.object
  have hmember := h.hardware
  obtain ⟨before, root, after⟩ := d
  change Shape Field at root
  cases root with
  | leaf kind text =>
    have hleaf : Leaf kind text := hok
    cases hleaf <;> exact nomatch hobject
  | empty kind blank =>
    obtain rfl : kind = .object := by
      have hkind : some kind = some TokenType.object := hobject
      exact Option.some.inj hkind
    exact nomatch hmember
  | group kind items =>
    obtain rfl : kind = .object := by
      have hkind : some kind = some TokenType.object := hobject
      exact Option.some.inj hkind
    exact ⟨items, rfl⟩

theorem item_of_mem {g : Grammar Field} {seen : List Bytes} {items : List (Item Field)}
    (h : ItemsOk g keyName .object seen items) {i : Item Field} (hi : i ∈ items) :
    ∃ k, i.key = some k ∧ Leaf .string k.text := by
  induction items generalizing seen with
  | nil => exact nomatch hi
  | cons first items ih =>
    obtain ⟨-, -, -, hkey⟩ := h
    cases hk : first.key with
    | none =>
      rw [hk] at hkey
      exact nomatch hkey.1
    | some k =>
      rw [hk] at hkey
      obtain ⟨-, n, ⟨hleaf, -⟩, htail⟩ := hkey
      rcases List.mem_cons.mp hi with rfl | hi
      · exact ⟨k, hk, hleaf⟩
      · exact ih htail hi

/-- What a member of this name costs its object at least. -/
theorem item_cost {seen : List Bytes} (h : ItemsOk fieldGrammar keyName .object seen items)
    {i : Item Field} {n : Bytes} (hi : i ∈ items) (hname : itemName i = some n) :
    n.length + 4 + i.node.text.length ≤ (i.text fieldGrammar).length + 1 ∧
      1 + i.node.count = i.count fieldGrammar := by
  obtain ⟨k, hk, hleaf⟩ := item_of_mem h hi
  have hdecode : decode 80 k.text = some n := by
    simpa [itemName, hk, keyName] using hname
  constructor
  · generalize htext : k.text = text at hleaf hdecode
    cases hleaf with
    | @string body hbody =>
      have hle := decode_length hdecode
      have hlabel : i.label = i.before ++ (k.text ++ (k.gap ++ 58 :: k.lead)) := by
        simp [Item.label, hk, Key.bytes]
      have hnode : (fieldGrammar.text i.node).length = i.node.text.length := rfl
      rw [Item.text, hlabel, htext]
      simp only [quoted, List.length_append, List.length_cons, List.length_nil, hnode]
      omega
  · have hone : i.keyCount = 1 := by simp [Item.keyCount, hk]
    rw [Item.count, hone]
    rfl

/-- Everything a line must have. -/
def requiredKeys : List Bytes :=
  exportFields ++ [ascii "uptime_ms", ascii "privacy_mode", ascii "identifier", ascii "event_id",
    ascii "label", ascii "reason", ascii "address_type", ascii "rssi_avg", ascii "meal_awarded"]

theorem requiredKeys_nodup : requiredKeys.Nodup := by decide

theorem required_field (ok : d.Ok) (hroot : d.root = Shape.group .object items)
    (h : Accepted d.json) : ∀ key ∈ requiredKeys, ∃ v, field items key = some v ∧ fieldGrammar.ok v := by
  have htext : ∀ {key s}, d.json.str key 160 = some s → ∃ v, field items key = some v ∧
      fieldGrammar.ok v := fun hs => by
    obtain ⟨v, hv, hok, -⟩ := field_of_str ok hroot hs
    exact ⟨v, hv, hok⟩
  have hnumber : ∀ {key lo hi}, d.json.Within key lo hi → ∃ v, field items key = some v ∧
      fieldGrammar.ok v := fun ⟨_, hn, _⟩ => field_of_integer ok hroot hn
  have hchoice : ∀ {key a b}, d.json.OneOf key a b → ∃ v, field items key = some v ∧
      fieldGrammar.ok v := fun hs => hs.elim htext htext
  have hneeded : ∀ {key}, key ∈ textKeys → ∃ v, field items key = some v ∧ fieldGrammar.ok v :=
    fun hkey => by
      obtain ⟨s, hs, -⟩ := h.texts _ hkey
      exact htext hs
  have hmember : ∀ {key t}, d.json.member 0 key = some t → ∃ v, field items key = some v ∧
      fieldGrammar.ok v := fun ht => by
    obtain ⟨v, pos, hv, hplaced⟩ := field_of_member ok hroot ht
    exact ⟨v, hv, hplaced.ok⟩
  have htime : ∃ v, field items (ascii "observed_at") = some v ∧ fieldGrammar.ok v := by
    have hvalid := h.time
    unfold Json.validTime at hvalid
    cases hm : d.json.member 0 (ascii "observed_at") with
    | some t => exact hmember hm
    | none =>
      rw [hm] at hvalid
      simp only at hvalid
      split at hvalid
      · exact nomatch hvalid
      · exact nomatch hvalid
  have hrules : ∃ v, field items (ascii "rule_ids") = some v ∧ fieldGrammar.ok v := by
    obtain ⟨t, ht, -⟩ := (any_iff _ _).mp h.rules
    exact hmember ht
  have hmeal : ∃ v, field items (ascii "meal_awarded") = some v ∧ fieldGrammar.ok v := by
    obtain ⟨t, ht, -⟩ := h.meal
    exact hmember ht
  obtain ⟨c, hcategory⟩ := h.category
  intro key hkey
  simp only [requiredKeys, exportFields, List.cons_append, List.nil_append, List.mem_cons,
    List.not_mem_nil, or_false] at hkey
  rcases hkey with rfl | rfl | rfl | rfl | rfl | rfl | rfl | rfl | rfl | rfl | rfl | rfl | rfl |
    rfl | rfl | rfl | rfl | rfl | rfl | rfl | rfl | rfl | rfl | rfl | rfl | rfl | rfl
  · exact hnumber h.schema
  · exact hneeded (by decide)
  · exact htext h.hardware
  · exact hneeded (by decide)
  · exact hneeded (by decide)
  · exact htext hcategory
  · exact hrules
  · exact hnumber h.first
  · exact hnumber h.seen
  · exact hnumber h.score
  · exact htext h.confidence
  · exact hnumber h.low
  · exact hnumber h.high
  · exact hnumber h.channel
  · exact hchoice h.radio
  · exact hchoice h.region
  · exact hchoice h.quality
  · exact htime
  · exact hnumber h.uptime
  · exact hchoice h.privacy
  · exact hneeded (by decide)
  · exact hneeded (by decide)
  · exact hneeded (by decide)
  · exact hneeded (by decide)
  · exact hchoice h.address
  · exact hnumber h.average
  · exact hmeal

/-! ## The counting -/

theorem sum_required (ok : d.Ok) (hroot : d.root = Shape.group .object items)
    (h : Accepted d.json) (name : Bytes → Nat) (weight : Field → Nat) (cost : Item Field → Nat)
    (hcost : ∀ i ∈ items, ∀ n, itemName i = some n → name n + weight i.node ≤ cost i) :
    (requiredKeys.map name).sum + (requiredKeys.map fun key => weight (copyOf (field items) key)).sum ≤
      (items.map cost).sum := by
  have hsum : (requiredKeys.map fun key => name key + weight (copyOf (field items) key)).sum ≤
      (items.map cost).sum := by
    refine sum_le_of_find itemName requiredKeys_nodup fun key hkey => ?_
    obtain ⟨v, hv, -⟩ := required_field ok hroot h key hkey
    obtain ⟨i, hi, rfl⟩ := Option.map_eq_some_iff.mp hv
    have hname := List.find?_some hi
    refine ⟨i, hi, ?_⟩
    have hcopy : copyOf (field items) key = i.node := by rw [copyOf, hv]; rfl
    rw [hcopy]
    exact hcost i (List.mem_of_find?_eq_some hi) key (beq_iff_eq.mp hname)
  rwa [List.sum_map_add] at hsum

theorem input_length (ok : d.Ok) (hroot : d.root = Shape.group .object items)
    (h : Accepted d.json) :
    1 + (requiredKeys.map fun key => key.length + 4).sum +
      (requiredKeys.map fun key => (copyOf (field items) key).text.length).sum ≤ d.text.length := by
  have hne : items ≠ [] := by
    have hok := ok.root
    rw [hroot] at hok
    exact hok.2.1
  have hsum := sum_required ok hroot h (fun key => key.length + 4) (fun v => v.text.length)
    (fun i => (i.text fieldGrammar).length + 1)
    fun i hi n hn => (item_cost (items_ok ok hroot) hi hn).1
  have htext := length_itemsText fieldGrammar hne
  rw [text_root hroot]
  simp only [List.length_append, List.length_cons]
  omega

theorem input_count (ok : d.Ok) (hroot : d.root = Shape.group .object items)
    (h : Accepted d.json) :
    1 + (requiredKeys.map fun _ => 1).sum +
      (requiredKeys.map fun key => (copyOf (field items) key).count).sum ≤ 160 := by
  have hsum := sum_required ok hroot h (fun _ => 1) Field.count (Item.count fieldGrammar)
    fun i hi n hn => Nat.le_of_eq (item_cost (items_ok ok hroot) hi hn).2
  have hcount : (grammar keyName 9).count d.root = 1 + itemsCount fieldGrammar items := by
    rw [hroot]
    rfl
  have hlimit := ok.count
  rw [hcount] at hlimit
  unfold itemsCount at hlimit
  omega

/-! ## The row fits -/

/-- The keys of an exported row. -/
def exportKeys : List Bytes :=
  exportFields ++ [ascii "identifier", ascii "last_seen_ms", ascii "source_privacy_mode",
    ascii "privacy_mode", ascii "latitude", ascii "longitude", ascii "location_source"]

theorem exportRow_keys (f : Bytes → Option Field) (session id : Bytes) :
    (exportRow f session id).map Prod.fst = exportKeys := rfl

theorem exportKeys_plain : ∀ key ∈ exportKeys, Plain key ∧ key.length < 80 := by decide

theorem exportKeys_nodup : exportKeys.Nodup := by decide

theorem mem_requiredKeys {key : Bytes} (h : key ∈ copiedFields) : key ∈ requiredKeys := by
  have hall : ∀ key ∈ copiedFields, key ∈ requiredKeys := by decide
  exact hall key h

theorem IsSession.plain {s : Bytes} (h : IsSession s) : Plain s := by
  have hdigits : Plain lowerHexDigits := by decide
  exact fun c hc => hdigits c (h.2 c hc)

theorem IsToken.plain {s : Bytes} (h : IsToken s) : Plain s := by
  have hletters : Plain alphabet := by decide
  exact fun c hc => hletters c (h.2 c hc)

/-- A required string member costs its characters and two quotes. -/
theorem copyOf_string (ok : d.Ok) (hroot : d.root = Shape.group .object items) {key s : Bytes}
    {size n : Nat} (h : d.json.str key size = some s) (hlen : n ≤ s.length) :
    n + 2 ≤ (copyOf (field items) key).text.length := by
  obtain ⟨v, hv, hok, hs⟩ := field_of_str ok hroot h
  have hle := string_length hok hs
  rw [copyOf, hv, Option.getD_some]
  omega

/-- What is dropped: each of these has a value at least this long. -/
theorem dropped_length (ok : d.Ok) (hroot : d.root = Shape.group .object items)
    (h : Accepted d.json) :
    34 ≤ (copyOf (field items) (ascii "session_id")).text.length ∧
    22 ≤ (copyOf (field items) (ascii "identifier")).text.length ∧
    3 ≤ (copyOf (field items) (ascii "event_id")).text.length ∧
    3 ≤ (copyOf (field items) (ascii "label")).text.length ∧
    3 ≤ (copyOf (field items) (ascii "reason")).text.length ∧
    8 ≤ (copyOf (field items) (ascii "address_type")).text.length ∧
    1 ≤ (copyOf (field items) (ascii "rssi_avg")).text.length ∧
    4 ≤ (copyOf (field items) (ascii "meal_awarded")).text.length := by
  have hneeded : ∀ key ∈ textKeys, 3 ≤ (copyOf (field items) key).text.length := by
    intro key hkey
    obtain ⟨s, hs, hne⟩ := h.texts key hkey
    exact copyOf_string ok hroot hs (List.length_pos_iff.mpr hne)
  obtain ⟨s, hs, hsession⟩ := h.session
  obtain ⟨id, hid, htoken⟩ := h.identifier
  have haddress : 8 ≤ (copyOf (field items) (ascii "address_type")).text.length := by
    rcases h.address with hpublic | hrandom
    · exact copyOf_string ok hroot hpublic (Nat.le_refl 6)
    · exact copyOf_string ok hroot hrandom (Nat.le_refl 6)
  have haverage : 1 ≤ (copyOf (field items) (ascii "rssi_avg")).text.length := by
    obtain ⟨n, hn, -⟩ := h.average
    obtain ⟨v, hv, hok⟩ := field_of_integer ok hroot hn
    rw [copyOf, hv]
    exact text_pos hok
  have hmeal : 4 ≤ (copyOf (field items) (ascii "meal_awarded")).text.length := by
    obtain ⟨t, ht, hkind⟩ := h.meal
    obtain ⟨v, pos, hv, hplaced⟩ := field_of_member ok hroot ht
    have hboolean : kindOf v = .boolean := by
      rw [Json.kindAt, hplaced.token] at hkind
      exact Option.some.inj hkind
    rw [copyOf, hv]
    exact boolean_length hplaced.ok hboolean
  exact ⟨copyOf_string ok hroot hs (Nat.le_of_eq hsession.1.symm),
    copyOf_string ok hroot hid (Nat.le_of_eq htoken.1.symm), hneeded _ (by decide),
    hneeded _ (by decide), hneeded _ (by decide), haddress, haverage, hmeal⟩

/-- What the values copied weigh together. -/
def copiedSum (f : Bytes → Option Field) (weight : Field → Nat) : Nat :=
  (copiedFields.map fun key => weight (copyOf f key)).sum

theorem sum_exportFields (g : Bytes → Nat) (n : Nat) :
    (exportFields.map fun key => if key == ascii "session_id" then n else g key).sum +
      g (ascii "uptime_ms") + g (ascii "privacy_mode") = (copiedFields.map g).sum + n := by
  have hcopied : copiedFields.map g = ((exportFields.take 4 ++ exportFields.drop 5) ++
      [ascii "uptime_ms", ascii "privacy_mode"]).map g := rfl
  have hfields : (exportFields.map fun key => if key == ascii "session_id" then n else g key) =
      (exportFields.take 4).map g ++ n :: (exportFields.drop 5).map g := rfl
  rw [hcopied, hfields]
  simp only [List.map_append, List.sum_append, List.sum_cons, List.map_cons, List.map_nil, List.sum_nil]
  omega

theorem exportRow_sum (f : Bytes → Option Field) (weight : Field → Nat) (session id : Bytes) :
    ((exportRow f session id).map fun m => weight m.2).sum =
      copiedSum f weight + weight (stringField session) + weight (stringField id) +
        weight (stringField (ascii "sanitized")) + 2 * weight nullField +
        weight (stringField (ascii "none")) := by
  have hsum := sum_exportFields (fun key => weight (copyOf f key)) (weight (stringField session))
  have hrow : (exportRow f session id).map (fun m => weight m.2) =
      (exportFields.map fun key => if key == ascii "session_id" then weight (stringField session)
        else weight (copyOf f key)) ++
      [weight (stringField id), weight (copyOf f (ascii "uptime_ms")),
        weight (copyOf f (ascii "privacy_mode")), weight (stringField (ascii "sanitized")),
        weight nullField, weight nullField, weight (stringField (ascii "none"))] := rfl
  rw [hrow, copiedSum]
  simp only [List.sum_append, List.sum_cons, List.sum_nil]
  omega

theorem requiredKeys_sum (f : Bytes → Option Field) (weight : Field → Nat) :
    (requiredKeys.map fun key => weight (copyOf f key)).sum =
      copiedSum f weight + weight (copyOf f (ascii "session_id")) +
        weight (copyOf f (ascii "identifier")) + weight (copyOf f (ascii "event_id")) +
        weight (copyOf f (ascii "label")) + weight (copyOf f (ascii "reason")) +
        weight (copyOf f (ascii "address_type")) + weight (copyOf f (ascii "rssi_avg")) +
        weight (copyOf f (ascii "meal_awarded")) := by
  have hsum := sum_exportFields (fun key => weight (copyOf f key))
    (weight (copyOf f (ascii "session_id")))
  have hrow : (requiredKeys.map fun key => weight (copyOf f key)) =
      (exportFields.map fun key => if key == ascii "session_id" then
        weight (copyOf f (ascii "session_id")) else weight (copyOf f key)) ++
      [ascii "uptime_ms", ascii "privacy_mode", ascii "identifier", ascii "event_id",
        ascii "label", ascii "reason", ascii "address_type", ascii "rssi_avg",
        ascii "meal_awarded"].map fun key => weight (copyOf f key) := rfl
  rw [hrow, copiedSum]
  simp only [List.sum_append, List.sum_cons, List.map_cons, List.map_nil, List.sum_nil]
  omega

theorem count_pos (f : Field) : 1 ≤ f.count := by
  cases f with
  | leaf kind text => exact Nat.le_refl 1
  | empty kind blank => exact Nat.le_refl 1
  | group kind items => exact Nat.le_add_right 1 _

/-- Dropping a label, a reason, an event ID, an address type, an average and a
meal flag makes room for all that is added, with one byte to spare. -/
theorem exportRow_size (ok : d.Ok) (hroot : d.root = Shape.group .object items)
    (h : Accepted d.json) {session id : Bytes} (hs : IsSession session) (ht : IsToken id) :
    (exportRow (field items) session id).text.length < d.text.length := by
  have hinput := input_length ok hroot h
  have hkeys : (requiredKeys.map fun key => key.length + 4).sum = 363 := by decide
  have hnames : (exportKeys.map List.length).sum = 258 := by decide
  have hrow : (exportRow (field items) session id).length = 25 := rfl
  have hne : exportRow (field items) session id ≠ [] := List.cons_ne_nil _ _
  have hsession : (stringField session).text.length = 34 := by
    rw [text_stringField, length_literal_plain hs.plain, hs.1]
  have hidentifier : (stringField id).text.length = 22 := by
    rw [text_stringField, length_literal_plain ht.plain, ht.1]
  have hsanitized : (stringField (ascii "sanitized")).text.length = 11 := by decide
  have hnone : (stringField (ascii "none")).text.length = 6 := by decide
  have hnull : nullField.text.length = 4 := rfl
  obtain ⟨hsession', hidentifier', hevent, hlabel, hreason, haddress, haverage, hmeal⟩ :=
    dropped_length ok hroot h
  have hcopied := exportRow_sum (field items) (fun v => v.text.length) session id
  have hrequired := requiredKeys_sum (field items) (fun v => v.text.length)
  rw [Row.length_text hne, exportRow_keys, hnames, hrow, hcopied, hsession, hidentifier,
    hsanitized, hnone, hnull]
  rw [hkeys, hrequired] at hinput
  omega

theorem exportRow_count (ok : d.Ok) (hroot : d.root = Shape.group .object items)
    (h : Accepted d.json) (session id : Bytes) :
    1 + ((exportRow (field items) session id).map fun m => 1 + m.2.count).sum ≤ 160 := by
  have hinput := input_count ok hroot h
  have hkeys : (requiredKeys.map fun _ => 1).sum = 27 := by decide
  have hnames : (exportRow (field items) session id).length = 25 := rfl
  have hcopied := exportRow_sum (field items) Field.count session id
  have hrequired := requiredKeys_sum (field items) Field.count
  have hevent := count_pos (copyOf (field items) (ascii "event_id"))
  have hlabel := count_pos (copyOf (field items) (ascii "label"))
  have hsession := count_pos (copyOf (field items) (ascii "session_id"))
  have hidentifier := count_pos (copyOf (field items) (ascii "identifier"))
  simp only [count_stringField, count_nullField] at hcopied
  rw [hkeys, hrequired] at hinput
  rw [List.sum_map_add, List.map_const', List.sum_replicate, hnames, hcopied, smul_eq_mul]
  omega

/-- What is copied is well formed, and so is the row around it. -/
theorem exportRow_ok (ok : d.Ok) (hroot : d.root = Shape.group .object items)
    (h : Accepted d.json) {session id : Bytes} (hs : IsSession session) (ht : IsToken id) :
    (exportRow (field items) session id).Ok where
  nonempty := List.cons_ne_nil _ _
  plain := by
    intro m hm
    refine exportKeys_plain m.1 ?_
    rw [← exportRow_keys (field items) session id]
    exact List.mem_map_of_mem hm
  distinct := by
    rw [exportRow_keys]
    exact exportKeys_nodup
  fields := by
    have hcopy : ∀ key ∈ copiedFields, fieldGrammar.ok (copyOf (field items) key) := by
      intro key hkey
      obtain ⟨v, hv, hok⟩ := required_field ok hroot h key (mem_requiredKeys hkey)
      rw [copyOf, hv]
      exact hok
    intro m hm
    rcases List.mem_append.mp hm with hm | hm
    · obtain ⟨key, hkey, rfl⟩ := List.mem_map.mp hm
      simp only
      split
      · exact ok_stringField session
      · rename_i hne
        exact hcopy key (List.mem_append_left _ (List.mem_filter.mpr ⟨hkey, by simpa using hne⟩))
    · simp only [List.mem_cons, List.not_mem_nil, or_false] at hm
      rcases hm with rfl | rfl | rfl | rfl | rfl | rfl | rfl
      · exact ok_stringField id
      · exact hcopy _ (by decide)
      · exact hcopy _ (by decide)
      · exact ok_stringField _
      · exact ok_nullField
      · exact ok_nullField
      · exact ok_stringField _
  size := Nat.le_of_lt (Nat.lt_of_lt_of_le (exportRow_size ok hroot h hs ht) ok.size)
  count := exportRow_count ok hroot h session id

/-- A copied value is the text of the input's field. -/
theorem rawAt_copyOf (ok : d.Ok) (hroot : d.root = Shape.group .object items)
    (h : Accepted d.json) : ∀ key ∈ copiedFields, d.json.rawAt key = (copyOf (field items) key).text := by
  intro key hkey
  obtain ⟨v, hv, -⟩ := required_field ok hroot h key (mem_requiredKeys hkey)
  rw [Json.rawAt, raw_member ok hroot, copyOf, hv]
  rfl

end Accepted

/-! ## The exported row -/

theorem accepted_of_valid {line : Bytes} (h : validLogRecord line = true) :
    ∃ d : Document, d.Ok ∧ d.text = line ∧ Json.parse line = some d.json ∧ Accepted d.json := by
  unfold validLogRecord at h
  split at h
  · rename_i j hparse
    obtain ⟨d, ok, htext, rfl⟩ := Json.parse_eq_some.mp hparse
    exact ⟨d, ok, htext.symm, hparse, (validateLog_iff _).mp h⟩
  · exact nomatch h

/-- The inputs of the two HMACs. -/
def identityInput (j : Json) : Bytes :=
  snprintf 56 ((j.str (ascii "session_id") 33).getD [] ++
    (ascii ":" ++ (j.str (ascii "identifier") 21).getD []))

def sessionInput (j : Json) : Bytes := (j.str (ascii "session_id") 33).getD []

/-- The letters fill the whole identifier, whatever it was. -/
theorem exportId_eq (id : Bytes) (digest : Digest) : exportId id digest = exportId [] digest := by
  have hletters := exportLetters_spec digest.toList {} (by simp) (by decide) (by decide) (by simp)
  rw [exportId, exportId, List.take_left' hletters.1, List.take_left' hletters.1]

theorem exportLogRecord_eq {line key : Bytes} {j : Json} {out : Nat} (hmac : Hmac)
    (hparse : Json.parse line = some j) (hvalid : Accepted j) (hout : out ≠ 0)
    (hkey : key.length = 32) :
    exportLogRecord hmac line key out =
      match hmac key (identityInput j), hmac key (sessionInput j) with
      | some identity, some session =>
        writeExport j (exportSession session) (exportId [] identity) out
      | _, _ => [] := by
  have hvalid := (validateLog_iff j).mpr hvalid
  have hgo : (!validateLog j || out == 0 || key.length != 32) = false := by
    simp [hvalid, hout, hkey]
  unfold exportLogRecord
  simp only [hparse, hgo, Bool.false_eq_true, if_false]
  rw [identityInput, sessionInput]
  cases hmac key _ with
  | none => rfl
  | some identity =>
    cases hmac key _ with
    | none => rfl
    | some session =>
      simp only
      rw [exportId_eq]

/-- What an exported row `out` says, read against the input `j`. -/
structure Exported (j out : Json) : Prop where
  object : out.kindAt 0 = some .object
  keys : ∀ key, (out.member 0 key).isSome ↔ key ∈ exportKeys
  session : ∃ s, out.str (ascii "session_id") 33 = some s ∧ IsSession s
  identifier : ∃ s, out.str (ascii "identifier") 21 = some s ∧ IsToken s
  copied : ∀ key ∈ exportFields, key ≠ ascii "session_id" → out.rawAt key = j.rawAt key
  seen : out.rawAt (ascii "last_seen_ms") = j.rawAt (ascii "uptime_ms")
  source : out.rawAt (ascii "source_privacy_mode") = j.rawAt (ascii "privacy_mode")

theorem lookup_map {κ : Type} [BEq κ] [LawfulBEq κ] {α : Type} (f : κ → α) (keys : List κ)
    (rest : List (κ × α)) {key : κ} (h : key ∈ keys) :
    (keys.map (fun k => (k, f k)) ++ rest).lookup key = some (f key) := by
  induction keys with
  | nil => exact nomatch h
  | cons k keys ih =>
    by_cases hk : key = k
    · subst hk
      simp
    · have hmem : key ∈ keys := (List.mem_cons.mp h).resolve_left hk
      have hne : (key == k) = false := by simpa using hk
      rw [List.map_cons, List.cons_append, List.lookup_cons, hne]
      exact ih hmem

theorem exportRow_lookup (f : Bytes → Option Field) (session id : Bytes) {key : Bytes}
    (h : key ∈ exportFields) : (exportRow f session id).lookup key =
      some (if key == ascii "session_id" then stringField session else copyOf f key) :=
  lookup_map _ exportFields _ h

theorem lookup_isSome {κ α : Type} [BEq κ] [LawfulBEq κ] (row : List (κ × α)) (key : κ) :
    (row.lookup key).isSome ↔ key ∈ row.map Prod.fst := by
  induction row with
  | nil => simp
  | cons m row ih =>
    rw [List.lookup_cons, List.map_cons, List.mem_cons]
    by_cases hk : key = m.1
    · simp [hk]
    · have hne : (key == m.1) = false := by simpa using hk
      rw [hne, ih]
      simp [hk]

theorem exportRow_exported {d : Document} {items : List (Item Field)} (ok : d.Ok)
    (hroot : d.root = Shape.group .object items) (h : Accepted d.json) {session id : Bytes}
    (hs : IsSession session) (ht : IsToken id) :
    Exported d.json (exportRow (field items) session id).document.json := by
  have hrow := exportRow_ok ok hroot h hs ht
  have hraw := rawAt_copyOf ok hroot h
  have hread : ∀ key f, (exportRow (field items) session id).lookup key = some f →
      (exportRow (field items) session id).document.json.rawAt key = f.text := by
    intro key f hf
    rw [Json.rawAt, Row.raw_lookup hrow, hf]
    rfl
  have hstring : ∀ key s size, (exportRow (field items) session id).lookup key =
      some (stringField s) → Plain s → s.length < size →
      (exportRow (field items) session id).document.json.str key size = some s := by
    intro key s size hf hplain hlen
    rw [Json.str, Row.string_lookup hrow, hf]
    exact string_stringField hplain.printable.readable hlen
  refine ⟨rfl, ?_, ?_, ?_, ?_, ?_, ?_⟩
  · intro key
    have hkeys := lookup_isSome (exportRow (field items) session id) key
    rw [exportRow_keys] at hkeys
    rw [← hkeys]
    obtain ⟨hm, hl⟩ | ⟨t, f, pos, hm, hl, -⟩ := Row.member_lookup hrow key
    · rw [hm, hl]
      simp
    · rw [hm, hl]
      simp
  · refine ⟨session, hstring _ _ _ (exportRow_lookup _ _ _ (by decide)) hs.plain ?_, hs⟩
    rw [hs.1]
    decide
  · refine ⟨id, hstring _ _ _ rfl ht.plain ?_, ht⟩
    rw [ht.1]
    decide
  · intro key hkey hne
    have hlookup := exportRow_lookup (field items) session id hkey
    have hother : (key == ascii "session_id") = false := by simpa using hne
    rw [hother] at hlookup
    rw [hread key _ hlookup]
    exact (hraw key (List.mem_append_left _
      (List.mem_filter.mpr ⟨hkey, by simpa using hne⟩))).symm
  · rw [hread (ascii "last_seen_ms") (copyOf (field items) (ascii "uptime_ms")) rfl]
    exact (hraw _ (by decide)).symm
  · rw [hread (ascii "source_privacy_mode") (copyOf (field items) (ascii "privacy_mode")) rfl]
    exact (hraw _ (by decide)).symm

/-- Every line the reader accepts becomes one exported row. -/
theorem export_total (hmac : Hmac) (line key : Bytes) (hvalid : validLogRecord line = true)
    (hkey : key.length = 32) (works : ∀ input, ∃ digest, hmac key input = some digest) :
    0 < (exportLogRecord hmac line key 2048).length ∧
    (exportLogRecord hmac line key 2048).length ≤ 2048 ∧
    (∃ body, exportLogRecord hmac line key 2048 = body ++ [10]) ∧
    exportKeys.length = 25 ∧ exportKeys.Nodup ∧
    ∃ j out, Json.parse line = some j ∧ Json.parse (exportLogRecord hmac line key 2048) = some out ∧
      Exported j out := by
  obtain ⟨d, ok, rfl, hparse, h⟩ := accepted_of_valid hvalid
  obtain ⟨items, hroot⟩ := root_of_accepted ok h
  obtain ⟨identity, hidentity⟩ := works (identityInput d.json)
  obtain ⟨session, hsession⟩ := works (sessionInput d.json)
  have hs := exportSession_isSession session
  have ht := exportId_isToken [] identity
  have hrow := exportRow_ok ok hroot h hs ht
  have hsize := exportRow_size ok hroot h hs ht
  have hlimit := ok.size
  have hwritten : exportLogRecord hmac d.text key 2048 =
      (exportRow (field items) (exportSession session) (exportId [] identity)).text := by
    rw [exportLogRecord_eq hmac hparse h (by decide) hkey, hidentity, hsession]
    simp only
    rw [writeExport_eq (rawAt_copyOf ok hroot h), if_pos (by omega)]
  rw [hwritten]
  refine ⟨?_, by omega, ?_, by decide, exportKeys_nodup, d.json, _, hparse, Row.parse_text hrow,
    exportRow_exported ok hroot h hs ht⟩
  · rw [Row.length_text hrow.nonempty]
    omega
  · obtain ⟨m, row, hcons⟩ := List.exists_cons_of_ne_nil hrow.nonempty
    rw [hcons, Row.text_cons]
    exact ⟨123 :: (Row.memberText m ++ (row.flatMap fun m => 44 :: Row.memberText m) ++ [125]),
      by simp⟩

/-- The line of the detection with quotes in its label, and an export key. -/
def quotingLine : Bytes :=
  writeRecord quotingPack quotingDetection quotingSession quotingToken true 2048 0

def countingKey : Bytes := (List.range' 1 32).map Nat.toUInt8

/-- The HMAC-SHA-256 values under that key of the line's identity and session. -/
def quotingIdentityDigest : Digest :=
  #v[109, 90, 177, 254, 49, 77, 30, 69, 169, 33, 33, 180, 37, 42, 130, 47, 243, 138, 117, 17, 141,
    191, 250, 43, 41, 112, 116, 125, 161, 203, 208, 252]

def quotingSessionDigest : Digest :=
  #v[165, 40, 84, 49, 230, 207, 26, 53, 147, 173, 43, 191, 53, 20, 191, 11, 203, 123, 133, 123, 114,
    208, 149, 39, 144, 74, 18, 175, 216, 32, 50, 87]

def quotingHmac : Hmac := fun _ input =>
  if input == quotingSession then some quotingSessionDigest else some quotingIdentityDigest

theorem export_total_quoting : 0 < (exportLogRecord quotingHmac quotingLine countingKey 2048).length :=
  (export_total quotingHmac quotingLine countingKey
    (record_valid quotingDetection_recordable (by decide) (by decide)) (by decide) (by
      intro input
      unfold quotingHmac
      split
      · exact ⟨_, rfl⟩
      · exact ⟨_, rfl⟩)).1

end Hound
