import Hound.Core.BleCursor
import Hound.Core.WifiGrammar
import Hound.Json.CursorExact

/-!
# parse_wifi over its arrays

The same parser with the arrays of `Observation`, the joined payload `pwn` and
the index `i` of the source; every read, subspan and copy is checked, those of
the JSON payload included.
-/

namespace Hound

open Checked JsonTree

/-! ## The parts -/

def le16At (v : Bytes) (i : Nat) : Outcome UInt16 := do
  let low ← read v i
  let high ← read v (i + 1)
  .done (low.toUInt16 ||| high.toUInt16 <<< 8)

def rsnGroupAt (v : Bytes) (pos : Nat) : Outcome Nat := do
  require (!decide (v.length < pos + 2))
  let n ← le16At v pos
  require (!(n.toNat == 0 || decide ((v.length - (pos + 2)) / 4 < n.toNat)))
  .done (pos + 2 + n.toNat * 4)

def rsnValidAt (v : Bytes) : Outcome UInt16 := do
  require (!decide (v.length < 8))
  let version ← le16At v 0
  require (version == 1)
  let pos ← rsnGroupAt v 6
  let pos ← rsnGroupAt v pos
  if pos == v.length then .done 0
  else do
    require (!decide (v.length - pos < 2))
    le16At v pos

namespace Json

/-- The loop of `string` over the quoted `s`, writing to `out` from `j` on. -/
def unescapeIntoAt (s : Bytes) : Nat → Nat → Nat → Bytes → Outcome (Bool × Bytes)
  | 0, _, _, _ => .rejected
  | fuel + 1, i, j, out =>
    if i + 1 < s.length then do
      let c ← read s i
      if c == 92 then do
        let e ← read s (i + 1)
        if e == 117 then do
          let a ← read s (i + 2)
          let b ← read s (i + 3)
          let c ← read s (i + 4)
          let d ← read s (i + 5)
          let n := unicode a b c d
          if n == 0 || decide (127 < n) || decide (out.length ≤ j + 1) then .done (false, out)
          else do
            let out ← store out j [UInt8.ofNat n]
            unescapeIntoAt s fuel (i + 6) (j + 1) out
        else if decide (out.length ≤ j + 1) || escaped e == 0 then .done (false, out)
        else do
          let out ← store out j [escaped e]
          unescapeIntoAt s fuel (i + 2) (j + 1) out
      else if decide (out.length ≤ j + 1) || c == 0 then .done (false, out)
      else do
        let out ← store out j [c]
        unescapeIntoAt s fuel (i + 1) (j + 1) out
    else do
      let out ← store out j [0]
      .done (true, out)

def stringIntoAt (j : Json) (t : Option Nat) (out : Bytes) : Outcome (Bool × Bytes) :=
  match t with
  | none => .done (false, out)
  | some t =>
    if t < j.tokens.length then do
      let tok ← read j.tokens t
      if tok.kind == .string && !out.isEmpty then
        let s := (j.input.drop tok.start).take tok.size
        unescapeIntoAt s s.length 1 0 out
      else .done (false, out)
    else .done (false, out)

/-- `string`, which refuses an index that is no token's. -/
def stringGuarded (j : Json) (t : Option Nat) (size : Nat) : Outcome Bytes :=
  match t with
  | none => .rejected
  | some t => if t < j.tokens.length then stringAt j t size else .rejected

/-- The loop of `member` from token `i` to `stop`. -/
def memberLoop (j : Json) (stop : Nat) (key : Bytes) : Nat → Nat → Outcome (Option Nat)
  | 0, _ => .done none
  | fuel + 1, i =>
    if i < stop then do
      let name ← attempt (stringGuarded j (some i) 80)
      if name == some key then .done (some (i + 1))
      else do
        let v ← read j.tokens (i + 1)
        memberLoop j stop key fuel v.after
    else .done none

def memberAt (j : Json) (object : Nat) (key : Bytes) : Outcome (Option Nat) :=
  if object < j.tokens.length then do
    let tok ← read j.tokens object
    if tok.kind == .object then memberLoop j tok.after key tok.after (object + 1)
    else .done none
  else .done none

end Json

def parsePwnagotchiAt (data name : Bytes) : Outcome (Bool × Bytes) := do
  let parsed ← attempt (Json.parseAt data)
  match parsed with
  | none => .done (false, name)
  | some j => do
    let root ← read j.tokens 0
    if root.kind != .object then .done (false, name)
    else do
      let total ← j.memberAt 0 (ascii "pwnd_tot")
      match j.integer total with
      | none => .done (false, name)
      | some count =>
        if count < 0 || 0xffffffff < count then .done (false, name)
        else do
          let named ← j.memberAt 0 (ascii "name")
          let r ← j.stringIntoAt named name
          if !r.1 || (cString r.2).isEmpty || (cString r.2).any (fun c => c < 32 || 126 < c) then
            .done (false, r.2)
          else do
            let versioned ← j.memberAt 0 (ascii "version")
            let version ← attempt (j.stringGuarded versioned 33)
            match version with
            | none => .done (false, r.2)
            | some version => .done (!version.isEmpty, r.2)

/-! ## Elements -/

/-- The local observation with its arrays, and the joined payload. -/
structure WifiArrays where
  o : Observation
  ssid : Bytes := List.replicate 32 0
  ssidLen : Nat := 0
  name : Bytes := List.replicate 33 0
  vendor : Bytes := List.replicate 128 0
  vendorLen : Nat := 0
  pwn : Bytes := List.replicate 472 0
  pwnSize : Nat := 0
  ssidSeen : Bool := false

namespace WifiArrays

def elementAt (a : WifiArrays) (type : UInt8) (v : Bytes) : Outcome WifiArrays :=
  if type == 0 then do
    require (!(a.ssidSeen || decide (32 < v.length)))
    let ssid ← store a.ssid 0 v
    let name ← sanitizeAt v a.name
    .done { a with ssid, ssidLen := v.length, name, ssidSeen := true }
  else if type == 48 then do
    require (!a.o.rsn)
    let caps ← rsnValidAt v
    .done { a with o := { a.o with rsn := true, rsnCaps := caps, protectedNetwork := true } }
  else if type == 222 then do
    require (!decide (a.pwn.length < a.pwnSize + v.length))
    let pwn ← store a.pwn a.pwnSize v
    .done { a with pwn, pwnSize := a.pwnSize + v.length }
  else if type == 221 && decide (3 ≤ v.length) && a.vendorLen == 0 then do
    let hashed ← slice v 0 (min 4 v.length)
    let bytes ← slice v 0 (min v.length a.vendor.length)
    let vendor ← store a.vendor 0 bytes
    .done { a with
      o := { a.o with vendorFingerprint := vendorFingerprint hashed }
      vendor, vendorLen := min v.length a.vendor.length }
  else .done a

def readAt (frame : Bytes) : Nat → WifiArrays → Nat → Outcome WifiArrays
  | 0, _, _ => .rejected
  | fuel + 1, a, i =>
    if i < frame.length then do
      require (!decide (frame.length - i < 2))
      let type ← read frame i
      let n ← read frame (i + 1)
      require (!decide (frame.length - (i + 2) < n.toNat))
      let v ← slice frame (i + 2) n.toNat
      let a ← a.elementAt type v
      readAt frame fuel a (i + 2 + n.toNat)
    else .done a

/-- What the arrays stand for. -/
def shown (a : WifiArrays) : Elements :=
  { o := { a.o with
      ssid := a.ssid.take a.ssidLen
      name := cString a.name
      vendor := a.vendor.take a.vendorLen }
    pwn := a.pwn.take a.pwnSize
    ssidSeen := a.ssidSeen }

end WifiArrays

/-! ## Frames -/

def addressFrom (frame : Bytes) (i : Nat) : Outcome Address := do
  let bytes ← slice frame i 6
  .done (Vector.ofFn fun k => byteAt bytes k)

/-- The check of a beacon's payload, and what it leaves in the observation. -/
def WifiArrays.finishAt (a : WifiArrays) (frame : Bytes) : Outcome Elements :=
  if a.pwnSize != 0 && a.o.subtype == 8 then
    if a.o.address == meshAddress then do
      let pwn ← slice a.pwn 0 a.pwnSize
      let r ← parsePwnagotchiAt pwn a.name
      let address ← (if r.1 then addressFrom frame 16 else .done a.o.address)
      let e := { a with name := r.2 }.shown
      .done { e with o := { e.o with pwnagotchi := r.1, address } }
    else .done { a.shown with o := { a.shown.o with pwnagotchi := false } }
  else .done a.shown

/-- The privacy bit, the elements and the checks after them. -/
def bodyAt (frame : Bytes) (o : Observation) : Outcome Observation := do
  let capabilities ← (if o.subtype != 4 then le16At frame 34 else .done 0)
  let o := { o with protectedNetwork := (capabilities &&& 0x10) != 0 }
  let a ← WifiArrays.readAt frame (frame.length + 1) { o } (if o.subtype == 4 then 24 else 36)
  let e ← a.finishAt frame
  require (!(!e.ssidSeen && !e.o.pwnagotchi))
  .done e.o

/-- `parse_wifi`: its result, and the caller's observation after it. -/
def parseWifiAt (frame : Bytes) (output : Observation) : Outcome (Bool × Observation) := do
  let result ← attempt (do
    require (!decide (frame.length < 24))
    let control ← read frame 0
    require ((control &&& 0x0f) == 0)
    let flags ← read frame 1
    require ((flags &&& 0x03) == 0)
    let address ← addressFrom frame 10
    let o : Observation :=
      { ms := output.ms, channel := output.channel, rssi := output.rssi, radio := .Wifi,
        subtype := control >>> 4, address }
    if o.subtype == 10 || o.subtype == 12 then do
      require (!(decide (frame.length < 26) || (flags &&& 0x40) != 0))
      .done o
    else do
      require (!((o.subtype != 8 && o.subtype != 5 && o.subtype != 4) ||
        decide (frame.length < (if o.subtype == 4 then 24 else 36))))
      bodyAt frame o)
  .done (result.isSome, result.getD output)

/-! ## Security bodies stay in bounds -/

theorem le16At_eq {v : Bytes} {i : Nat} (h : i + 2 ≤ v.length) : le16At v i = .done (le16 v i) := by
  unfold le16At
  rw [read_byteAt (by omega), done_bind, read_byteAt (by omega), done_bind]
  rfl

theorem rsnGroupAt_eq (v : Bytes) (pos : Nat) : rsnGroupAt v pos = ofOption (rsnGroup v pos) := by
  unfold rsnGroupAt rsnGroup
  by_cases hshort : v.length < pos + 2
  · rw [decide_eq_true hshort, if_pos hshort]
    rfl
  · rw [decide_eq_false hshort, if_neg hshort, le16At_eq (by omega)]
    simp only [Bool.not_false, require_true, done_bind]
    split
    · rename_i hbad
      rw [hbad]
      rfl
    · rename_i hgood
      simp only [Bool.not_eq_true] at hgood
      rw [hgood]
      rfl

theorem rsnValidAt_eq (v : Bytes) : rsnValidAt v = ofOption (rsnValid v) := by
  unfold rsnValidAt rsnValid
  by_cases hshort : v.length < 8
  · rw [decide_eq_true hshort]
    rfl
  · rw [decide_eq_false hshort, le16At_eq (by omega)]
    simp only [Bool.not_false, require_true, done_bind, Bool.false_or]
    by_cases hversion : le16 v 0 = 1
    · simp only [hversion, beq_self_eq_true, require_true, done_bind, bne_self_eq_false,
        Bool.false_eq_true, if_false, rsnGroupAt_eq]
      cases hfirst : rsnGroup v 6 with
      | none => rfl
      | some mid =>
        simp only [ofOption_some, done_bind, Option.bind_some]
        cases hsecond : rsnGroup v mid with
        | none => rfl
        | some pos =>
          simp only [ofOption_some, done_bind]
          split
          · rfl
          · by_cases hmore : v.length - pos < 2
            · rw [decide_eq_true hmore, if_pos hmore]
              rfl
            · rw [decide_eq_false hmore, if_neg hmore, le16At_eq (by omega)]
              rfl
    · have hno : (le16 v 0 == 1) = false := by simpa using hversion
      have hyes : (le16 v 0 != 1) = true := by simpa using hversion
      rw [hno, hyes]
      rfl

/-! ## The payload stays in bounds -/

namespace Json

theorem parse_strings {input : Bytes} {j : Json} (h : parse input = some j) : Strings j := by
  have hempty : Strings { input } := by
    intro tok htok
    simp at htok
  unfold parse at h
  split at h
  · cases h
  · cases hvalue : value 9 { input } input with
    | none => simp [hvalue] at h
    | some r =>
      obtain ⟨j', rest⟩ := r
      obtain ⟨hgrows, -⟩ :=
        (value_tracks 9).grows { input } input j' rest (List.suffix_refl _) hempty hvalue
      simp only [hvalue, Option.ite_none_right_eq_some, Option.some.injEq] at h
      exact h.2 ▸ hgrows.strings

theorem store_set {out : Bytes} {j : Nat} (h : j < out.length) (c : UInt8) :
    store out j [c] = .done (out.set j c) := by
  have hfits : j + [c].length ≤ out.length := h
  unfold store
  rw [if_pos hfits, List.set_eq_take_append_cons_drop, if_pos h]
  rfl

theorem unescapeIntoAt_drop {s rest out : Bytes} {fuel i j : Nat} (h : JsonTree.Body rest)
    (hrest : s.drop i = rest ++ [34]) (hfuel : rest.length < fuel) (hroom : j < out.length) :
    unescapeIntoAt s fuel i j out = .done (unescapeInto rest j out) := by
  obtain ⟨fuel, rfl⟩ : ∃ n, fuel = n + 1 := ⟨fuel - 1, by omega⟩
  have hlen := lt_of_before_quote hrest
  induction h generalizing i j out fuel with
  | nil =>
    have hend := le_of_drop_nil (drop_succ hrest)
    rw [unescapeIntoAt, if_neg (by omega), store_set hroom]
    rfl
  | @plain c rest low high quote slash _ ih =>
    have hnext : s.drop (i + 1) = rest ++ [34] := drop_succ hrest
    simp only [List.length_cons] at hfuel hlen
    have htext : unescapeInto (c :: rest) j out =
        if decide (out.length ≤ j + 1) || c == 0 then (false, out)
        else unescapeInto rest (j + 1) (out.set j c) :=
      unescapeInto.eq_5 _ _ _ _ (by grind) (by grind) (by grind)
    rw [unescapeIntoAt, if_pos (by omega), read_drop hrest, done_bind, if_neg (by simpa using slash),
      htext, store_set hroom]
    split
    · rfl
    · rename_i hgo
      simp only [Bool.or_eq_true, decide_eq_true_eq, not_or] at hgo
      obtain ⟨fuel, rfl⟩ : ∃ n, fuel = n + 1 := ⟨fuel - 1, by omega⟩
      exact ih hnext (by rw [List.length_set]; omega) fuel (by omega) (by omega)
  | @escape e rest he _ ih =>
    have hnext : s.drop (i + 2) = rest ++ [34] := drop_append [92, e] hrest
    simp only [List.length_cons] at hfuel hlen
    have hu : e ≠ 117 := by
      rintro rfl
      exact absurd he (by decide)
    have htext : unescapeInto (92 :: e :: rest) j out =
        if decide (out.length ≤ j + 1) || escaped e == 0 then (false, out)
        else unescapeInto rest (j + 1) (out.set j (escaped e)) :=
      unescapeInto.eq_3 _ _ _ _ (by grind)
    rw [unescapeIntoAt, if_pos (by omega), read_drop hrest, done_bind,
      if_pos (beq_self_eq_true _), read_drop (drop_succ hrest), done_bind, if_neg (by simpa using hu),
      htext, store_set hroom]
    split
    · rfl
    · rename_i hgo
      simp only [Bool.or_eq_true, decide_eq_true_eq, not_or] at hgo
      obtain ⟨fuel, rfl⟩ : ∃ n, fuel = n + 1 := ⟨fuel - 1, by omega⟩
      exact ih hnext (by rw [List.length_set]; omega) fuel (by omega) (by omega)
  | @unicode a b c d rest _ _ _ _ _ ih =>
    have hnext : s.drop (i + 6) = rest ++ [34] := drop_append [92, 117, a, b, c, d] hrest
    simp only [List.length_cons] at hfuel hlen
    have hu : s.drop (i + 1) = 117 :: a :: b :: c :: d :: (rest ++ [34]) := drop_succ hrest
    have h₂ : s.drop (i + 2) = a :: b :: c :: d :: (rest ++ [34]) := drop_succ hu
    have h₃ : s.drop (i + 3) = b :: c :: d :: (rest ++ [34]) := drop_succ h₂
    have h₄ : s.drop (i + 4) = c :: d :: (rest ++ [34]) := drop_succ h₃
    have h₅ : s.drop (i + 5) = d :: (rest ++ [34]) := drop_succ h₄
    have htext : unescapeInto (92 :: 117 :: a :: b :: c :: d :: rest) j out =
        if unicode a b c d == 0 || decide (127 < unicode a b c d) || decide (out.length ≤ j + 1) then
          (false, out)
        else unescapeInto rest (j + 1) (out.set j (UInt8.ofNat (unicode a b c d))) := rfl
    rw [unescapeIntoAt, if_pos (by omega), read_drop hrest, done_bind,
      if_pos (beq_self_eq_true _), read_drop hu, done_bind, if_pos (beq_self_eq_true _),
      read_drop h₂, done_bind, read_drop h₃, done_bind, read_drop h₄, done_bind, read_drop h₅,
      done_bind, htext]
    simp only [store_set hroom]
    split
    · rfl
    · rename_i hgo
      simp only [Bool.or_eq_true, decide_eq_true_eq, not_or] at hgo
      obtain ⟨fuel, rfl⟩ : ∃ n, fuel = n + 1 := ⟨fuel - 1, by omega⟩
      exact ih hnext (by rw [List.length_set]; omega) fuel (by omega) (by omega)

theorem stringIntoAt_eq {j : Json} (hj : Strings j) (t : Option Nat) (out : Bytes) :
    stringIntoAt j t out = .done (j.stringInto t out) := by
  cases t with
  | none => rfl
  | some t =>
    unfold stringIntoAt
    dsimp only
    by_cases ht : t < j.tokens.length
    · have hget : j.tokens[t]? = some j.tokens[t] := List.getElem?_eq_getElem ht
      have hraw : j.raw (some t) = (j.input.drop j.tokens[t].start).take j.tokens[t].size := by
        simp only [raw, Option.bind_some, hget]
      have hslow : j.stringInto (some t) out =
          if j.tokens[t].kind == .string && !out.isEmpty then
            unescapeInto (j.raw (some t)).tail.dropLast 0 out
          else (false, out) := by
        simp only [stringInto, Option.bind_some, hget]
      rw [if_pos ht, read_lt ht, done_bind, hslow, hraw]
      by_cases hgo : (j.tokens[t].kind == .string && !out.isEmpty) = true
      · have hparts := hgo
        simp only [Bool.and_eq_true, beq_iff_eq, Bool.not_eq_true'] at hparts
        obtain ⟨hkind, hout⟩ := hparts
        have hroom : 0 < out.length := List.length_pos_iff.mpr (by simpa using hout)
        have hleaf := hj _ (List.getElem_mem ht) hkind
        rw [if_pos hgo, if_pos hgo]
        generalize (j.input.drop j.tokens[t].start).take j.tokens[t].size = s at hleaf ⊢
        cases hleaf with
        | @string body hbody =>
          have hinner : (quoted body).drop 1 = body ++ [34] := rfl
          have hfuel : body.length < (quoted body).length := by
            simp [quoted]
          have htext : (quoted body).tail.dropLast = body := by
            simp [quoted]
          rw [htext]
          exact unescapeIntoAt_drop hbody hinner hfuel hroom
      · rw [if_neg hgo, if_neg hgo]
    · have hget : j.tokens[t]? = none := List.getElem?_eq_none (Nat.le_of_not_lt ht)
      rw [if_neg ht]
      simp [stringInto, hget]

theorem stringGuarded_eq {j : Json} (hj : Strings j) (t : Option Nat) (size : Nat) :
    stringGuarded j t (size + 1) = ofOption (j.string t (size + 1)) := by
  cases t with
  | none => rfl
  | some t =>
    unfold stringGuarded
    dsimp only
    by_cases ht : t < j.tokens.length
    · rw [if_pos ht]
      exact stringAt_eq hj ht size
    · have hget : j.tokens[t]? = none := List.getElem?_eq_none (Nat.le_of_not_lt ht)
      rw [if_neg ht]
      simp [string, hget]

/-- While every key's value is a token, the loop is the search among the keys. -/
theorem memberLoop_eq {j : Json} (hj : Strings j) {stop fuel i : Nat} (key : Bytes)
    (hvalues : ∀ k ∈ keyTokens j.tokens stop fuel i, k + 1 < j.tokens.length) :
    memberLoop j stop key fuel i =
      .done (((keyTokens j.tokens stop fuel i).find? fun i =>
        j.string (some i) 80 == some key).map (· + 1)) := by
  induction fuel generalizing i with
  | zero => rfl
  | succ fuel ih =>
    unfold memberLoop
    unfold keyTokens at hvalues ⊢
    by_cases hi : i < stop
    · rw [if_pos hi] at hvalues ⊢
      rw [if_pos hi]
      have hnext : i + 1 < j.tokens.length := hvalues i List.mem_cons_self
      rw [List.getElem?_eq_getElem hnext] at hvalues ⊢
      rw [stringGuarded_eq hj _ 79, attempt_ofOption, done_bind, List.find?_cons]
      cases hfound : j.string (some i) 80 == some key with
      | true => rfl
      | false =>
        simp only [Bool.false_eq_true, if_false, read_lt hnext, done_bind]
        exact ih fun k hk => hvalues k (List.mem_cons_of_mem i hk)
    · rw [if_neg hi, if_neg hi]
      rfl

/-- The keys of a parsed object have values. -/
theorem root_values {input : Bytes} {j : Json} (h : parse input = some j) {tok : Token}
    (htok : j.tokens[0]? = some tok) (hobject : tok.kind = .object) (fuel : Nat) :
    ∀ k ∈ keyTokens j.tokens tok.after fuel 1, k + 1 < j.tokens.length := by
  obtain ⟨d, ok, rfl, rfl⟩ := parse_eq_some.mp h
  have hplaced := Document.placed ok
  have hcount : d.json.tokens.length = (grammar keyName 9).count d.root :=
    counted keyName 9 d.root d.before.length 0
  rw [Placed.token hplaced, Nat.zero_add] at htok
  cases htok
  cases hroot : d.root with
  | leaf kind text =>
    have hleaf := ok.root
    rw [hroot] at hleaf hobject
    have hkind : kind = .object := hobject
    subst hkind
    cases hleaf
  | empty kind blank =>
    intro k hk
    change k ∈ keyTokens d.json.tokens 1 fuel 1 at hk
    cases fuel with
    | zero => simp [keyTokens] at hk
    | succ fuel => simp [keyTokens] at hk
  | group kind items =>
    intro k hk
    rw [hroot] at hobject hcount
    have hkind : kind = .object := hobject
    subst hkind
    have hafter : (grammar keyName 9).count (Shape.group .object items : Tree 9) =
        1 + itemsCount (grammar keyName 8) items := rfl
    change k ∈ keyTokens d.json.tokens (1 + itemsCount (grammar keyName 8) items) fuel 1 at hk
    have hwithin := keyTokens_within (regular 8) fuel (items_ok ok hroot) (placed_items hroot) rfl k hk
    rw [hcount, hafter]
    exact hwithin

theorem memberAt_eq {input : Bytes} {j : Json} (h : parse input = some j) {tok : Token}
    (htok : j.tokens[0]? = some tok) (hobject : tok.kind = .object) (key : Bytes) :
    memberAt j 0 key = .done (j.member 0 key) := by
  obtain ⟨hlt, hget⟩ := List.getElem?_eq_some_iff.mp htok
  have hbeq : (tok.kind == .object) = true := by simp [hobject]
  unfold memberAt member
  rw [if_pos hlt, read_lt hlt, done_bind, hget, htok, if_pos hbeq]
  simp only [hbeq, if_true]
  exact memberLoop_eq (parse_strings h) key (root_values h htok hobject _)

end Json

theorem parsePwnagotchiAt_eq (data name : Bytes) :
    parsePwnagotchiAt data name = .done (parsePwnagotchi data name) := by
  unfold parsePwnagotchiAt parsePwnagotchi
  rw [Json.parseAt_eq, attempt_ofOption, done_bind]
  cases hparse : Json.parse data with
  | none => rfl
  | some j =>
    obtain ⟨tok, htok⟩ : ∃ tok, j.tokens[0]? = some tok := by
      obtain ⟨d, ok, rfl, rfl⟩ := Json.parse_eq_some.mp hparse
      exact ⟨_, Json.Placed.token (Json.Document.placed ok)⟩
    obtain ⟨hlt, hget⟩ := List.getElem?_eq_some_iff.mp htok
    have hstrings := Json.parse_strings hparse
    dsimp only
    rw [htok, read_lt hlt, hget]
    simp only [done_bind, Option.map_some]
    by_cases hobject : tok.kind = .object
    · have hroot : (tok.kind != .object) = false := by simp [hobject]
      have hroot' : (some tok.kind != some .object) = false := by simp [hobject]
      have hmember := Json.memberAt_eq hparse htok hobject
      simp only [hroot, hroot', Bool.false_eq_true, if_false, hmember, done_bind]
      cases hcount : j.integer (j.member 0 (ascii "pwnd_tot")) with
      | none => rfl
      | some count =>
        dsimp only
        split
        · rfl
        · rw [Json.stringIntoAt_eq hstrings, done_bind]
          split
          · rfl
          · rw [Json.stringGuarded_eq hstrings _ 32, attempt_ofOption, done_bind]
            cases j.string (j.member 0 (ascii "version")) (32 + 1) with
            | none => rfl
            | some version => rfl
    · have hroot : (tok.kind != .object) = true := by simpa using hobject
      have hroot' : (some tok.kind != some .object) = true := by simpa using hobject
      rw [if_pos hroot, if_pos hroot']

/-! ## The arrays stay within their sizes -/

namespace WifiArrays

structure Sized (a : WifiArrays) : Prop where
  ssid : a.ssid.length = 32
  ssidLen : a.ssidLen ≤ 32
  name : a.name = cString a.name ++ List.replicate (33 - (cString a.name).length) 0
  /-- The name is written with the network name, and once. -/
  fresh : a.ssidSeen = false → a.name = List.replicate 33 0
  vendor : a.vendor.length = 128
  vendorLen : a.vendorLen ≤ 128
  pwn : a.pwn.length = 472
  pwnSize : a.pwnSize ≤ 472

/-- The loop over arrays ends as the loop over lists does. -/
inductive Agrees : Outcome WifiArrays → Option Elements → Prop where
  | rejected : Agrees .rejected none
  | done {a : WifiArrays} {e : Elements} (sized : a.Sized) (shown : a.shown = e) :
      Agrees (.done a) (some e)

/-- Every byte of a name is printable. -/
theorem sanitize_clean (v : Bytes) : ∀ b ∈ sanitize 32 v, (b != 0) = true := by
  intro b hb
  obtain ⟨c, -, rfl⟩ := List.mem_map.mp hb
  split
  · rename_i hrange
    simp only [Bool.and_eq_true, decide_eq_true_eq] at hrange
    rw [bne_iff_ne]
    rintro rfl
    exact absurd hrange.1 (by decide)
  · rfl

theorem cString_padded {text : Bytes} (h : ∀ b ∈ text, (b != 0) = true) (n : Nat) :
    cString (text ++ List.replicate n 0) = text := by
  unfold cString
  rw [List.takeWhile_append_of_pos h]
  cases n <;> simp [List.replicate_succ]

theorem sized_empty (o : Observation) : ({ o } : WifiArrays).Sized where
  ssid := rfl
  ssidLen := Nat.zero_le 32
  name := by
    have hempty : cString (List.replicate 33 0) = [] := @cString_padded [] (by simp) 33
    rw [hempty]
    rfl
  fresh := fun _ => rfl
  vendor := List.length_replicate
  vendorLen := Nat.zero_le 128
  pwn := List.length_replicate
  pwnSize := Nat.zero_le 472

/-- The first name is followed by zeros. -/
theorem sanitizeAt_fresh (v : Bytes) :
    sanitizeAt v (List.replicate 33 0) =
      .done (sanitize 32 v ++ List.replicate (33 - (sanitize 32 v).length) 0) := by
  have hlen : (sanitize 32 v).length = min v.length 32 := by
    rw [sanitize, List.length_map, List.length_take, Nat.min_comm]
  have hslice : slice v 0 (min v.length 32) = .done (v.take 32) := by
    rw [slice_fits (by omega), List.drop_zero, Nat.min_comm, ← List.take_take, List.take_length]
  have htext : ((v.take 32).map fun b => if 32 ≤ b && b ≤ 126 then b else 63) = sanitize 32 v := rfl
  have hn : min v.length ((List.replicate 33 (0 : UInt8)).length - 1) = min v.length 32 := by
    rw [List.length_replicate]
  have hstore : store (List.replicate 33 0) 0 (sanitize 32 v) =
      .done (sanitize 32 v ++ List.replicate (33 - (sanitize 32 v).length) 0) := by
    unfold store
    rw [if_pos (by rw [List.length_replicate]; omega), List.take_zero, List.nil_append, Nat.zero_add,
      List.drop_replicate]
  have hroom : 33 - (sanitize 32 v).length = (32 - (sanitize 32 v).length) + 1 := by omega
  unfold sanitizeAt
  simp only [hn, hslice, done_bind, htext, hstore]
  unfold store
  rw [← hlen, if_pos (by simp only [List.length_append, List.length_replicate,
    List.length_singleton]; omega), List.take_left, ← List.drop_drop, List.drop_left, hroom]
  rfl

section Steps

variable {a : WifiArrays}

theorem store_front {xs v : Bytes} (h : v.length ≤ xs.length) :
    ∃ ys, store xs 0 v = .done ys ∧ ys.length = xs.length ∧ ys.take v.length = v := by
  obtain ⟨ys, hstore, hsize, htake⟩ := store_fits xs v 0 (by omega)
  refine ⟨ys, hstore, hsize, ?_⟩
  simpa using htake

theorem elementAt_agrees (h : a.Sized) (type : UInt8) (v : Bytes) :
    Agrees (a.elementAt type v) (a.shown.element type v) := by
  unfold elementAt Elements.element
  split
  · have hseen : a.shown.ssidSeen = a.ssidSeen := rfl
    rw [hseen]
    split
    · rename_i hbad
      rw [hbad]
      exact .rejected
    · rename_i hgood
      simp only [Bool.not_eq_true] at hgood
      rw [hgood]
      simp only [Bool.or_eq_false_iff, decide_eq_false_iff_not, Nat.not_lt] at hgood
      obtain ⟨hfresh, hshort⟩ := hgood
      obtain ⟨ssid, hstore, hsize, htake⟩ := @store_front a.ssid v
        (by rw [h.ssid]; exact hshort)
      have hname := h.fresh hfresh
      have htext := cString_padded (sanitize_clean v) (33 - (sanitize 32 v).length)
      rw [hname, sanitizeAt_fresh, hstore]
      refine .done { h with
        ssid := hsize.trans h.ssid, ssidLen := hshort, name := ?_, fresh := ?_ } ?_
      · simp only [htext]
      · intro hno
        cases hno
      · simp only [shown, htake, htext]
  · split
    · cases hrsn : a.o.rsn with
      | true =>
        have hset : a.shown.o.rsn = true := hrsn
        rw [if_pos hset]
        exact .rejected
      | false =>
        have hset : ¬ a.shown.o.rsn = true := by
          rw [show a.shown.o.rsn = false from hrsn]
          exact Bool.false_ne_true
        rw [if_neg hset, rsnValidAt_eq]
        cases rsnValid v with
        | none => exact .rejected
        | some caps => exact .done { h with } rfl
    · split
      · have hjoined : a.shown.pwn.length = a.pwnSize := by
          have hlen := h.pwn
          have hsize := h.pwnSize
          change (a.pwn.take a.pwnSize).length = a.pwnSize
          rw [List.length_take]
          omega
        rw [hjoined, h.pwn]
        split
        · rename_i hlong
          rw [decide_eq_true hlong]
          exact .rejected
        · rename_i hlong
          have hfits : a.pwnSize + v.length ≤ a.pwn.length := by
            rw [h.pwn]
            omega
          obtain ⟨pwn, hstore, hsize, htake⟩ := store_fits _ _ _ hfits
          rw [decide_eq_false hlong, hstore]
          refine .done { h with pwn := hsize.trans h.pwn, pwnSize := h.pwn ▸ hfits } ?_
          simp only [shown, htake]
      · have hempty : a.shown.o.vendor.isEmpty = (a.vendorLen == 0) :=
          BleArrays.isEmpty_take (by rw [h.vendor]; exact h.vendorLen)
        rw [hempty]
        split
        · have hfirst : slice v 0 (min 4 v.length) = .done (v.take 4) := by
            rw [slice_fits (by omega), List.drop_zero, ← List.take_take, List.take_length]
          have hkept : slice v 0 (min v.length a.vendor.length) = .done (v.take 128) := by
            rw [slice_fits (by omega), List.drop_zero, h.vendor, Nat.min_comm, ← List.take_take,
              List.take_length]
          have hlen : (v.take 128).length = min v.length 128 := by
            rw [List.length_take, Nat.min_comm]
          obtain ⟨vendor, hstore, hsize, htake⟩ := @store_front a.vendor (v.take 128)
            (by rw [hlen, h.vendor]; exact Nat.min_le_right _ _)
          have hprint : vendorFingerprint (v.take 4) = vendorFingerprint v := by
            rw [vendorFingerprint, vendorFingerprint, List.take_take, Nat.min_self]
          rw [hlen] at htake
          rw [hfirst, done_bind, hkept, done_bind, hstore, done_bind, hprint, h.vendor]
          refine .done { h with vendor := hsize.trans h.vendor, vendorLen := Nat.min_le_right _ _ } ?_
          simp only [shown, htake]
        · exact .done h rfl

theorem readAt_agrees (h : a.Sized) {frame : Bytes} {fuel fuel' i : Nat} (hi : i ≤ frame.length)
    (hfuel : frame.length < i + fuel) (hfuel' : frame.length ≤ i + fuel') :
    Agrees (readAt frame fuel a i) (Elements.read fuel' a.shown (frame.drop i)) := by
  induction fuel generalizing a i fuel' with
  | zero => omega
  | succ fuel ih =>
    unfold readAt
    cases hrest : frame.drop i with
    | nil =>
      have hend := le_of_drop_nil hrest
      have hlist : Elements.read fuel' a.shown [] = some a.shown := by
        cases fuel' <;> rfl
      rw [if_neg (by omega), hlist]
      exact .done h rfl
    | cons type rest =>
      have hin := lt_of_drop hrest
      have hnext := drop_succ hrest
      have hlen := congrArg List.length hnext
      rw [List.length_drop] at hlen
      obtain ⟨fuel', rfl⟩ : ∃ n, fuel' = n + 1 := ⟨fuel' - 1, by omega⟩
      rw [if_pos hin]
      cases rest with
      | nil =>
        simp only [List.length_nil] at hlen
        rw [decide_eq_true (by omega)]
        exact .rejected
      | cons n rest =>
        have hvalue := drop_succ hnext
        simp only [List.length_cons] at hlen
        have hleft : frame.length - (i + 2) = rest.length := by omega
        rw [decide_eq_false (by omega), read_drop hrest, Elements.read, hleft]
        simp only [Bool.not_false, require_true, done_bind, read_drop hnext]
        split
        · rename_i hlong
          rw [decide_eq_true hlong]
          exact .rejected
        · rename_i hlong
          have hslice : slice frame (i + 2) n.toNat = .done (rest.take n.toNat) := by
            rw [slice_fits (by omega), hvalue]
          have helement := elementAt_agrees h type (rest.take n.toNat)
          have hlast : rest.drop n.toNat = frame.drop (i + 2 + n.toNat) := by
            rw [← hvalue, List.drop_drop]
          rw [decide_eq_false hlong, hslice, hlast]
          simp only [Bool.not_false, require_true, done_bind]
          generalize hfast : a.elementAt type (rest.take n.toNat) = r at helement ⊢
          generalize hslow : a.shown.element type (rest.take n.toNat) = x at helement ⊢
          cases helement with
          | rejected => exact .rejected
          | @done a' e sized shown =>
            rw [done_bind, ← shown]
            exact ih sized (by omega) (by omega) (by omega)

end Steps

end WifiArrays

/-! ## The parser -/

theorem addressFrom_eq {frame : Bytes} {i : Nat} (h : i + 6 ≤ frame.length) :
    addressFrom frame i = .done (addressAt frame i) := by
  have hbytes : (Vector.ofFn fun k : Fin 6 => byteAt ((frame.drop i).take 6) k) =
      Vector.ofFn fun k : Fin 6 => byteAt frame (i + k) :=
    congrArg Vector.ofFn (funext fun k => byteAt_slice frame i k.isLt)
  unfold addressFrom addressAt
  rw [slice_fits h, done_bind, hbytes]

theorem finishAt_eq {a : WifiArrays} (h : a.Sized) {frame : Bytes} (hlong : 24 ≤ frame.length) :
    a.finishAt frame = .done (a.shown.finish frame) := by
  have hempty : a.shown.pwn.isEmpty = (a.pwnSize == 0) :=
    BleArrays.isEmpty_take (by rw [h.pwn]; exact h.pwnSize)
  have hname : a.shown.o.name ++ List.replicate (33 - a.shown.o.name.length) 0 = a.name := h.name.symm
  have hslice : slice a.pwn 0 a.pwnSize = .done a.shown.pwn :=
    slice_fits (by rw [h.pwn, Nat.zero_add]; exact h.pwnSize)
  unfold WifiArrays.finishAt Elements.finish
  rw [hempty, hname]
  change (if (a.pwnSize != 0 && a.o.subtype == 8) = true then _ else _) =
    Outcome.done (if (a.pwnSize != 0 && a.o.subtype == 8) = true then _ else _)
  split
  · change (if (a.o.address == meshAddress) = true then _ else _) =
      Outcome.done (if (a.o.address == meshAddress) = true then _ else _)
    split
    · rw [hslice, done_bind, parsePwnagotchiAt_eq, done_bind, addressFrom_eq (by omega)]
      dsimp only
      generalize parsePwnagotchi a.shown.pwn a.name = r
      obtain ⟨accepted, name⟩ := r
      cases accepted with
      | true => rfl
      | false => rfl
    · rfl
  · rfl

theorem bodyAt_eq {frame : Bytes} {output : Observation} (hlong : 24 ≤ frame.length)
    (hbody : bodyStart frame ≤ frame.length) :
    bodyAt frame (wifiHeader frame output) =
      ofOption ((Elements.read frame.length { o := wifiBase frame output }
        (frame.drop (bodyStart frame))).bind (Elements.accepted · frame)) := by
  have hbase : (do
      let capabilities ← (if subtypeOf frame != 4 then le16At frame 34 else .done 0)
      .done { wifiHeader frame output with protectedNetwork := (capabilities &&& 0x10) != 0 }) =
      Outcome.done (wifiBase frame output) := by
    unfold wifiBase
    cases hprobe : subtypeOf frame == 4 with
    | true =>
      rw [bne, hprobe]
      rfl
    | false =>
      have hroom : 36 ≤ frame.length := by
        unfold bodyStart at hbody
        rw [hprobe] at hbody
        exact hbody
      rw [bne, hprobe, Bool.not_false, if_pos rfl, le16At_eq (by omega)]
      rfl
  have hagrees := @WifiArrays.readAt_agrees _ (WifiArrays.sized_empty (wifiBase frame output)) frame
    (frame.length + 1) frame.length (bodyStart frame) hbody (by omega) (by omega)
  have hstart : WifiArrays.shown { o := wifiBase frame output } = { o := wifiBase frame output } := rfl
  rw [hstart] at hagrees
  have hrest : bodyAt frame (wifiHeader frame output) = (do
      let o ← (do
        let capabilities ← (if subtypeOf frame != 4 then le16At frame 34 else .done 0)
        .done { wifiHeader frame output with protectedNetwork := (capabilities &&& 0x10) != 0 })
      let a ← WifiArrays.readAt frame (frame.length + 1) { o } (bodyStart frame)
      let e ← a.finishAt frame
      require (!(!e.ssidSeen && !e.o.pwnagotchi))
      .done e.o) := by
    rw [bind_assoc]
    rfl
  rw [hrest, hbase, done_bind]
  generalize WifiArrays.readAt frame (frame.length + 1) { o := wifiBase frame output }
    (bodyStart frame) = r at hagrees ⊢
  generalize Elements.read frame.length { o := wifiBase frame output }
    (frame.drop (bodyStart frame)) = x at hagrees ⊢
  cases hagrees with
  | rejected => rfl
  | @done a e sized shown =>
    rw [done_bind, finishAt_eq sized hlong, done_bind, shown, Option.bind_some]
    unfold Elements.accepted
    cases !(e.finish frame).ssidSeen && !(e.finish frame).o.pwnagotchi with
    | true => rfl
    | false => rfl

/-- `parse_wifi` over arrays and over lists agree, and no access is outside. -/
theorem parseWifiAt_eq (frame : Bytes) (output : Observation) :
    parseWifiAt frame output =
      .done ((parseWifi frame output).isSome, (parseWifi frame output).getD output) := by
  have hresult : (do
      require (!decide (frame.length < 24))
      let control ← read frame 0
      require ((control &&& 0x0f) == 0)
      let flags ← read frame 1
      require ((flags &&& 0x03) == 0)
      let address ← addressFrom frame 10
      let o : Observation :=
        { ms := output.ms, channel := output.channel, rssi := output.rssi, radio := .Wifi,
          subtype := control >>> 4, address }
      if o.subtype == 10 || o.subtype == 12 then do
        require (!(decide (frame.length < 26) || (flags &&& 0x40) != 0))
        .done o
      else do
        require (!((o.subtype != 8 && o.subtype != 5 && o.subtype != 4) ||
          decide (frame.length < (if o.subtype == 4 then 24 else 36))))
        bodyAt frame o) = ofOption (parseWifi frame output) := by
    by_cases hlong : 24 ≤ frame.length
    swap
    · rw [decide_eq_true (Nat.lt_of_not_le hlong)]
      unfold parseWifi
      rw [decide_eq_true (Nat.lt_of_not_le hlong)]
      rfl
    rw [decide_eq_false (by omega), read_byteAt (by omega), read_byteAt (by omega),
      addressFrom_eq (by omega)]
    simp only [Bool.not_false, require_true, done_bind]
    by_cases hversion : byteAt frame 0 &&& 0x0f = 0
    swap
    · have hno : (byteAt frame 0 &&& 0x0f == 0) = false := by simpa using hversion
      have hnone : parseWifi frame output = none := by
        unfold parseWifi
        rw [if_pos (by simp [hversion])]
      rw [hno, hnone]
      rfl
    by_cases hdirection : byteAt frame 1 &&& 0x03 = 0
    swap
    · have hno : (byteAt frame 1 &&& 0x03 == 0) = false := by simpa using hdirection
      have hnone : parseWifi frame output = none := by
        unfold parseWifi
        rw [if_pos (by simp [hdirection])]
      rw [hversion, hno, hnone]
      rfl
    rw [parseWifi_of_header hlong hversion hdirection, hversion, hdirection]
    change (if subtypeOf frame == 10 || subtypeOf frame == 12 then _ else _) = _
    split
    · split
      · rename_i hbad
        rw [hbad]
        rfl
      · rename_i hgood
        simp only [Bool.not_eq_true] at hgood
        rw [hgood]
        rfl
    · change (do
        require (!((subtypeOf frame != 8 && subtypeOf frame != 5 && subtypeOf frame != 4) ||
          decide (frame.length < bodyStart frame)))
        bodyAt frame (wifiHeader frame output)) = _
      split
      · rename_i hbad
        rw [hbad]
        rfl
      · rename_i hgood
        simp only [Bool.not_eq_true] at hgood
        have hbody : bodyStart frame ≤ frame.length := by
          simp only [Bool.or_eq_false_iff, decide_eq_false_iff_not] at hgood
          omega
        rw [hgood]
        exact bodyAt_eq hlong hbody
  unfold parseWifiAt
  rw [hresult, attempt_ofOption, done_bind]

/-- `parse_wifi` accepts exactly the grammar of management frames, says what their elements say,
leaves the caller's observation alone otherwise, and stays inside its arrays. -/
theorem parseWifi_exact (frame : Bytes) (output : Observation) :
    ((parseWifi frame output).isSome = true ↔ WifiFrame frame) ∧
    (∀ o, parseWifi frame output = some o →
      o.ms = output.ms ∧ o.channel = output.channel ∧ o.rssi = output.rssi ∧
      ∀ es, Advertisement frame → FrameBody frame es →
        o.ssid = (valuesOf 0 es).headD [] ∧
        o.protectedNetwork = (!(valuesOf 48 es).isEmpty ||
          (subtypeOf frame != 4 && (le16 frame 34 &&& 0x10) != 0)) ∧
        o.vendor = (vendorOf es).take 128) ∧
    parseWifiAt frame output =
      .done ((parseWifi frame output).isSome, (parseWifi frame output).getD output) :=
  ⟨parseWifi_isSome, fun _ h => parseWifi_fields h, parseWifiAt_eq frame output⟩

end Hound
