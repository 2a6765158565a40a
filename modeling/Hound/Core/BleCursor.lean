import Hound.Core.BleGrammar
import Hound.Lib.Checked

/-!
# parse_ble over its arrays

The same parser with the arrays of `Observation` and the index `i` of the
source; every read, subspan and copy is checked. It ends as the parser over
lists does, so it stays inside the payload and inside each array.
-/

namespace Hound

open Checked

/-- The arrays of the local observation, and `full_name`. -/
structure BleArrays where
  uuids : List UInt16 := List.replicate 8 0
  uuidCount : Nat := 0
  uuids128 : List Bytes := [List.replicate 16 0]
  uuid128Count : Nat := 0
  name : Bytes := List.replicate 33 0
  manufacturer : Bytes := List.replicate 31 0
  manufacturerLen : Nat := 0
  service : Bytes := List.replicate 31 0
  serviceLen : Nat := 0
  fullName : Bool := false

def sanitizeAt (bytes dst : Bytes) : Outcome Bytes := do
  let n := min bytes.length (dst.length - 1)
  let text ← slice bytes 0 n
  let dst ← store dst 0 (text.map fun b => if 32 ≤ b && b ≤ 126 then b else 63)
  store dst n [0]

def parseSamsungTagAt (service : Bytes) : Outcome SamsungTag := do
  require (service.length == 22)
  let low ← read service 0
  require (low == 0x5a)
  let high ← read service 1
  require (high == 0xfd)
  let header ← read service 2
  require ((header &&& 0xf8) == 0x10)
  let bytes ← slice service 6 8
  let id : Vector UInt8 8 := Vector.ofFn fun i => byteAt bytes i
  require (!(id.all (· == 0) || id.all (· == 0xff)))
  .done { id, state := samsungState header }

namespace BleArrays

/-- `if (o.uuid_count < o.uuids.size()) o.uuids[o.uuid_count++] = le16(v.data() + j)`. -/
def putUuid (a : BleArrays) (v : Bytes) (j : Nat) : Outcome BleArrays :=
  if a.uuidCount < a.uuids.length then do
    let low ← read v j
    let high ← read v (j + 1)
    let uuids ← store a.uuids a.uuidCount [low.toUInt16 ||| high.toUInt16 <<< 8]
    .done { a with uuids, uuidCount := a.uuidCount + 1 }
  else .done a

def putUuids (v : Bytes) : Nat → BleArrays → Nat → Outcome BleArrays
  | 0, a, _ => .done a
  | fuel + 1, a, j =>
    if j < v.length then do
      let a ← a.putUuid v j
      putUuids v fuel a (j + 2)
    else .done a

def putUuids128 (type : UInt8) (v : Bytes) : Nat → BleArrays → Nat → Outcome BleArrays
  | 0, a, _ => .done a
  | fuel + 1, a, j =>
    if j + 16 ≤ v.length && decide (a.uuid128Count < a.uuids128.length) then do
      let block ← slice v j 16
      let old ← read a.uuids128 a.uuid128Count
      let uuid ← store old 0 block.reverse
      let uuids128 ← store a.uuids128 a.uuid128Count [uuid]
      let a : BleArrays := { a with uuids128, uuid128Count := a.uuid128Count + 1 }
      if type == 0x21 then .done a else putUuids128 type v fuel a (j + 16)
    else .done a

def structureAt (a : BleArrays) (type : UInt8) (v : Bytes) : Outcome BleArrays :=
  if type == 2 || type == 3 then do
    require (v.length % 2 == 0)
    putUuids v v.length a 0
  else if type == 6 || type == 7 || type == 0x21 then do
    require (!(if type == 0x21 then decide (v.length < 16) else v.length % 16 != 0))
    putUuids128 type v v.length a 0
  else if type == 8 || type == 9 then do
    let name ← (if type == 9 || !a.fullName then sanitizeAt v a.name else .done a.name)
    .done { a with name, fullName := a.fullName || type == 9 }
  else if type == 0xff then do
    require (!(decide (v.length < 2) || a.manufacturerLen != 0))
    let manufacturer ← store a.manufacturer 0 v
    .done { a with manufacturer, manufacturerLen := v.length }
  else if type == 0x16 then do
    require (!(decide (v.length < 2) || a.serviceLen != 0))
    let service ← store a.service 0 v
    putUuid { a with service, serviceLen := v.length } v 0
  else .done a

def readAt (data : Bytes) : Nat → BleArrays → Nat → Outcome BleArrays
  | 0, a, _ => .done a
  | fuel + 1, a, i =>
    if i < data.length then do
      let n ← read data i
      if n == 0 then do
        require ((data.drop (i + 1)).all (· == 0))
        .done a
      else do
        require (!decide (data.length - (i + 1) < n.toNat))
        let type ← read data (i + 1)
        let v ← slice data (i + 1 + 1) (n.toNat - 1)
        let a ← a.structureAt type v
        readAt data fuel a (i + 1 + n.toNat)
    else .done a

/-- The observation the arrays stand for. -/
def shown (o : Observation) (a : BleArrays) : Advert :=
  { o := { o with
      uuids := a.uuids.take a.uuidCount
      uuids128 := a.uuids128.take a.uuid128Count
      name := a.name.takeWhile (· != 0)
      manufacturer := a.manufacturer.take a.manufacturerLen
      service := a.service.take a.serviceLen }
    fullName := a.fullName }

end BleArrays

/-- `parse_ble`: its result, and the caller's observation after it. -/
def parseBleAt (data : Bytes) (output : Observation) : Outcome (Bool × Observation) := do
  let result ← attempt (do
    require (!decide (31 < data.length))
    let a ← BleArrays.readAt data (data.length + 1) {} 0
    let service ← slice a.service 0 a.serviceLen
    let samsung ← attempt (parseSamsungTagAt service)
    let o := (a.shown (bleBase output)).o
    .done { o with samsung := samsung.getD {} })
  .done (result.isSome, result.getD output)

/-! ## The arrays stay within their sizes -/

namespace BleArrays

structure Sized (a : BleArrays) : Prop where
  uuids : a.uuids.length = 8
  uuidCount : a.uuidCount ≤ 8
  uuids128 : a.uuids128.length = 1
  block : ∀ u ∈ a.uuids128, u.length = 16
  uuid128Count : a.uuid128Count ≤ 1
  name : a.name.length = 33
  manufacturer : a.manufacturer.length = 31
  manufacturerLen : a.manufacturerLen ≤ 31
  service : a.service.length = 31
  serviceLen : a.serviceLen ≤ 31

/-- The loop over arrays ends as the loop over lists does. -/
inductive Agrees (o : Observation) : Outcome BleArrays → Option Advert → Prop where
  | rejected : Agrees o .rejected none
  | done {a : BleArrays} {advert : Advert} (sized : a.Sized) (shown : a.shown o = advert) :
      Agrees o (.done a) (some advert)

section Steps

variable (o : Observation) {a : BleArrays}

theorem uuids_length (h : a.Sized) : (a.shown o).o.uuids.length = a.uuidCount := by
  change (a.uuids.take a.uuidCount).length = a.uuidCount
  have hlen := h.uuids
  have hcount := h.uuidCount
  rw [List.length_take]
  omega

theorem putUuid_shown (h : a.Sized) {v : Bytes} {j : Nat} {low high : UInt8} {rest : Bytes}
    (hv : v.drop j = low :: high :: rest) :
    ∃ a', a.putUuid v j = .done a' ∧ a'.Sized ∧ a'.shown o = (a.shown o).withUuids
      (if (a.shown o).o.uuids.length < 8 then
        (a.shown o).o.uuids ++ [low.toUInt16 ||| high.toUInt16 <<< 8] else (a.shown o).o.uuids) := by
  have hlen := h.uuids
  unfold putUuid
  rw [uuids_length o h, hlen]
  by_cases hroom : a.uuidCount < 8
  · have hfits : a.uuidCount + [low.toUInt16 ||| high.toUInt16 <<< 8].length ≤ a.uuids.length := by
      rw [hlen, List.length_singleton]
      omega
    obtain ⟨uuids, hstore, hsize, htake⟩ := store_fits _ _ _ hfits
    rw [if_pos hroom, if_pos hroom, read_drop hv, done_bind, read_drop (drop_succ hv), done_bind,
      hstore, done_bind]
    refine ⟨_, rfl, { h with uuids := hsize.trans hlen, uuidCount := hroom }, ?_⟩
    simp only [shown, Advert.withUuids]
    rw [← htake]
    rfl
  · rw [if_neg hroom, if_neg hroom]
    exact ⟨a, rfl, h, rfl⟩

theorem putUuids_shown (h : a.Sized) {v rest : Bytes} {j fuel : Nat} (hv : v.drop j = rest)
    (heven : rest.length % 2 = 0) (hfuel : rest.length ≤ fuel) :
    ∃ a', putUuids v fuel a j = .done a' ∧ a'.Sized ∧ a'.shown o = (a.shown o).uuids16 rest := by
  induction rest using Ad.words.induct generalizing a j fuel with
  | case1 low high rest ih =>
    simp only [List.length_cons] at heven hfuel
    obtain ⟨fuel, rfl⟩ : ∃ n, fuel = n + 1 := ⟨fuel - 1, by omega⟩
    obtain ⟨a', hput, hsized, hshown⟩ := putUuid_shown o h hv
    have hnext : v.drop (j + 2) = rest := drop_append [low, high] hv
    obtain ⟨a'', hrest, hsized', hshown'⟩ := @ih a' hsized (j + 2) fuel hnext (by omega) (by omega)
    unfold putUuids
    rw [if_pos (lt_of_drop hv), hput, done_bind, hrest]
    refine ⟨a'', rfl, hsized', ?_⟩
    rw [hshown', hshown, uuids16_cons]
  | case2 rest hshort =>
    have hnil : rest = [] := by
      cases rest with
      | nil => rfl
      | cons low rest =>
        cases rest with
        | nil => simp at heven
        | cons high rest => exact (hshort low high rest rfl).elim
    subst hnil
    have hend := le_of_drop_nil hv
    have hstop : putUuids v fuel a j = .done a := by
      cases fuel with
      | zero => rfl
      | succ fuel => rw [putUuids, if_neg (by omega)]
    exact ⟨a, hstop, h, rfl⟩

/-- With the one place taken, the loop stops. -/
theorem putUuids128_full (type : UInt8) (v : Bytes) (fuel j : Nat)
    (hfull : a.uuids128.length ≤ a.uuid128Count) : putUuids128 type v fuel a j = .done a := by
  cases fuel with
  | zero => rfl
  | succ fuel =>
    have hstop : (decide (j + 16 ≤ v.length) && decide (a.uuid128Count < a.uuids128.length)) = false := by
      rw [Bool.and_eq_false_iff]
      exact .inr (by simpa using hfull)
    rw [putUuids128, hstop]
    rfl

theorem putUuids128_shown (h : a.Sized) (type : UInt8) (v : Bytes) :
    ∃ a', putUuids128 type v v.length a 0 = .done a' ∧ a'.Sized ∧
      a'.shown o = (a.shown o).uuid128 v := by
  have hlen := h.uuids128
  have hempty : (a.shown o).o.uuids128.isEmpty = decide (a.uuid128Count < 1) := by
    change (a.uuids128.take a.uuid128Count).isEmpty = _
    have hcount := h.uuid128Count
    obtain hzero | hone : a.uuid128Count = 0 ∨ a.uuid128Count = 1 := by omega
    · rw [hzero]
      rfl
    · rw [hone]
      cases hus : a.uuids128 with
      | nil => rw [hus] at hlen; cases hlen
      | cons u us => rfl
  unfold Advert.uuid128
  rw [hempty]
  by_cases hput : a.uuid128Count < 1 ∧ 16 ≤ v.length
  · obtain ⟨hcount, hlong⟩ := hput
    have hzero : a.uuid128Count = 0 := by omega
    obtain ⟨fuel, hfuel⟩ : ∃ n, v.length = n + 1 := ⟨v.length - 1, by omega⟩
    obtain ⟨old, hold⟩ : ∃ old, a.uuids128 = [old] := List.length_eq_one_iff.mp hlen
    have holdlen : old.length = 16 := h.block old (by rw [hold]; exact List.mem_cons_self)
    have hblock : (v.take 16).reverse.length = 16 := by
      rw [List.length_reverse, List.length_take]
      omega
    obtain ⟨uuid, hstore, hsize, htake⟩ := store_fits old (v.take 16).reverse 0 (by omega)
    have huuid : uuid = (v.take 16).reverse := by
      have hwhole : uuid.take 16 = uuid := List.take_of_length_le (by omega)
      rw [hblock, Nat.zero_add, hwhole] at htake
      exact htake
    obtain ⟨uuids128, hstore', hsize', htake'⟩ := store_fits [old] [uuid] 0 (by simp)
    have huuids : uuids128 = [uuid] := by
      have hwhole : uuids128.take 1 = uuids128 := List.take_of_length_le (by rw [hsize']; simp)
      exact hwhole ▸ htake'
    have hgo : (decide (0 + 16 ≤ v.length) && decide (a.uuid128Count < a.uuids128.length)) = true := by
      rw [decide_eq_true (by omega), decide_eq_true (by omega)]
      rfl
    have hread : read a.uuids128 a.uuid128Count = .done old := by
      rw [hold, hzero]
      rfl
    refine ⟨{ a with uuids128 := [uuid], uuid128Count := 1 }, ?_, { h with
      uuids128 := rfl, block := ?_, uuid128Count := Nat.le_refl 1 }, ?_⟩
    · have hslice : slice v 0 16 = .done (v.take 16) := slice_fits (by omega)
      rw [hfuel, putUuids128, if_pos hgo, hslice, done_bind, hread, done_bind, hstore, done_bind,
        hold, hzero, hstore', done_bind, huuids]
      split
      · rfl
      · exact putUuids128_full _ _ _ _ (Nat.le_refl 1)
    · intro u hu
      obtain rfl : u = uuid := by simpa using hu
      omega
    · rw [decide_eq_true hcount, decide_eq_true hlong, huuid]
      rfl
  · have hstop : ∀ fuel, putUuids128 type v fuel a 0 = .done a := by
      intro fuel
      cases fuel with
      | zero => rfl
      | succ fuel =>
        rw [putUuids128, if_neg]
        rw [hlen]
        simpa [and_comm] using hput
    refine ⟨a, hstop _, h, ?_⟩
    rw [if_neg]
    simpa using hput

/-- The name is the text before the terminator. -/
theorem sanitizeAt_shown {dst : Bytes} (hdst : dst.length = 33) (v : Bytes) :
    ∃ name, sanitizeAt v dst = .done name ∧ name.length = 33 ∧
      name.takeWhile (· != 0) = sanitize 32 v := by
  have hn : min v.length (dst.length - 1) = min v.length 32 := by rw [hdst]
  have hslice : slice v 0 (min v.length 32) = .done (v.take 32) := by
    rw [slice_fits (by omega), List.drop_zero, Nat.min_comm, ← List.take_take, List.take_length]
  have htext : ((v.take 32).map fun b => if 32 ≤ b && b ≤ 126 then b else 63) = sanitize 32 v := rfl
  have hlen : (sanitize 32 v).length = min v.length 32 := by
    rw [sanitize, List.length_map, List.length_take, Nat.min_comm]
  obtain ⟨text, hstore, hsize, htake⟩ := store_fits dst (sanitize 32 v) 0 (by omega)
  obtain ⟨name, hstore', hsize', htake'⟩ := store_fits text [0] (min v.length 32)
    (by rw [List.length_singleton]; omega)
  refine ⟨name, ?_, by omega, ?_⟩
  · unfold sanitizeAt
    simp only [hn, hslice, done_bind, htext, hstore, hstore']
  · have hfront : text.take (min v.length 32) = sanitize 32 v := by
      rw [Nat.zero_add, hlen] at htake
      simpa using htake
    rw [hfront] at htake'
    have hsplit : name = sanitize 32 v ++ 0 :: name.drop (min v.length 32 + 1) := by
      have hend : name.take (min v.length 32 + 1) = sanitize 32 v ++ [0] := htake'
      have hjoin := List.take_append_drop (min v.length 32 + 1) name
      rw [hend, List.append_assoc] at hjoin
      exact hjoin.symm
    have hclean : ∀ b ∈ sanitize 32 v, (b != 0) = true := by
      intro b hb
      obtain ⟨c, -, rfl⟩ := List.mem_map.mp hb
      split
      · rename_i hrange
        simp only [Bool.and_eq_true, decide_eq_true_eq] at hrange
        rw [bne_iff_ne]
        rintro rfl
        exact absurd hrange.1 (by decide)
      · rfl
    rw [hsplit, List.takeWhile_append_of_pos hclean]
    simp

theorem uuids16_take (a : Advert) (low high : UInt8) (rest : Bytes) :
    a.uuids16 ((low :: high :: rest).take 2) = a.withUuids
      (if a.o.uuids.length < 8 then a.o.uuids ++ [low.toUInt16 ||| high.toUInt16 <<< 8]
        else a.o.uuids) := by
  have htwo : (low :: high :: rest).take 2 = [low, high] := rfl
  rw [htwo, uuids16_cons]
  rfl

theorem store_whole {xs v : Bytes} (hxs : xs.length = 31) (hv : v.length ≤ 31) :
    ∃ ys, store xs 0 v = .done ys ∧ ys.length = 31 ∧ ys.take v.length = v := by
  obtain ⟨ys, hstore, hsize, htake⟩ := store_fits xs v 0 (by omega)
  refine ⟨ys, hstore, by omega, ?_⟩
  simpa using htake

theorem isEmpty_take {xs : Bytes} {n : Nat} (h : n ≤ xs.length) :
    (xs.take n).isEmpty = (n == 0) := by
  cases n with
  | zero => rfl
  | succ n =>
    cases xs with
    | nil => simp at h
    | cons x xs => rfl

theorem structureAt_agrees (h : a.Sized) (type : UInt8) {v : Bytes} (hv : v.length ≤ 31) :
    Agrees o (a.structureAt type v) ((a.shown o).structure type v) := by
  unfold structureAt Advert.structure
  split
  · by_cases heven : v.length % 2 = 0
    · obtain ⟨a', hput, hsized, hshown⟩ := @putUuids_shown o a h v v 0 v.length rfl heven
        (Nat.le_refl _)
      rw [heven, hput, ← hshown]
      exact .done hsized rfl
    · have hno : (v.length % 2 == 0) = false := by simpa using heven
      have hyes : (v.length % 2 != 0) = true := by simpa using heven
      rw [hno, hyes]
      exact .rejected
  · split
    · cases hbad : (if type == 0x21 then decide (v.length < 16) else v.length % 16 != 0) with
      | true => exact .rejected
      | false =>
        obtain ⟨a', hput, hsized, hshown⟩ := putUuids128_shown o h type v
        change Agrees o (putUuids128 type v v.length a 0) (some ((a.shown o).uuid128 v))
        rw [hput, ← hshown]
        exact .done hsized rfl
    · split
      · obtain ⟨name, hstore, hsize, htext⟩ := sanitizeAt_shown h.name v
        have hfull : (a.shown o).fullName = a.fullName := rfl
        rw [hfull]
        split
        · rw [hstore]
          refine .done { h with name := hsize } ?_
          simp only [shown, htext]
        · exact .done { h with } rfl
      · split
        · have hempty : (a.shown o).o.manufacturer.isEmpty = (a.manufacturerLen == 0) :=
            isEmpty_take (by rw [h.manufacturer]; exact h.manufacturerLen)
          rw [hempty]
          split
          · rename_i hbad
            have hbad' : (decide (v.length < 2) || a.manufacturerLen != 0) = true := hbad
            rw [hbad']
            exact .rejected
          · rename_i hgood
            have hgood' : (decide (v.length < 2) || a.manufacturerLen != 0) = false := by
              simpa using hgood
            obtain ⟨manufacturer, hstore, hsize, htake⟩ := store_whole h.manufacturer hv
            rw [hgood', hstore]
            refine .done { h with manufacturer := hsize, manufacturerLen := hv } ?_
            simp only [shown, htake]
        · split
          · have hempty : (a.shown o).o.service.isEmpty = (a.serviceLen == 0) :=
              isEmpty_take (by rw [h.service]; exact h.serviceLen)
            rw [hempty]
            split
            · rename_i hbad
              have hbad' : (decide (v.length < 2) || a.serviceLen != 0) = true := hbad
              rw [hbad']
              exact .rejected
            · rename_i hgood
              have hgood' : (decide (v.length < 2) || a.serviceLen != 0) = false := by
                simpa using hgood
              obtain ⟨service, hstore, hsize, htake⟩ := store_whole h.service hv
              rw [hgood', hstore]
              have hstored : ({ a with service, serviceLen := v.length } : BleArrays).Sized :=
                { h with service := hsize, serviceLen := hv }
              simp only [Bool.or_eq_false_iff, decide_eq_false_iff_not] at hgood'
              obtain ⟨low, rest, rfl⟩ := List.exists_cons_of_length_pos (l := v) (by omega)
              simp only [List.length_cons] at hgood'
              obtain ⟨high, rest, rfl⟩ := List.exists_cons_of_length_pos (l := rest) (by omega)
              obtain ⟨a', hput, hsized, hshown⟩ := putUuid_shown o hstored (j := 0)
                (v := low :: high :: rest) rfl
              simp only [Bool.not_false, require_true, done_bind, hput]
              refine .done hsized ?_
              rw [hshown]
              simp only [shown, htake]
              exact (uuids16_take _ low high rest).symm
          · exact .done h rfl

theorem readAt_agrees (h : a.Sized) {data : Bytes} (hdata : data.length ≤ 31) {fuel fuel' i : Nat}
    (hi : i ≤ data.length) (hfuel : data.length < i + fuel) (hfuel' : data.length ≤ i + fuel') :
    Agrees o (readAt data fuel a i) (Advert.read fuel' (a.shown o) (data.drop i)) := by
  induction fuel generalizing a i fuel' with
  | zero => omega
  | succ fuel ih =>
    unfold readAt
    cases hrest : data.drop i with
    | nil =>
      have hend := le_of_drop_nil hrest
      have hlist : Advert.read fuel' (a.shown o) [] = some (a.shown o) := by
        cases fuel' <;> rfl
      rw [if_neg (by omega), hlist]
      exact .done h rfl
    | cons n rest =>
      have hin := lt_of_drop hrest
      have hnext := drop_succ hrest
      have hlen := congrArg List.length hnext
      rw [List.length_drop] at hlen
      obtain ⟨fuel', rfl⟩ : ∃ n, fuel' = n + 1 := ⟨fuel' - 1, by omega⟩
      rw [if_pos hin, read_drop hrest, done_bind, Advert.read, hnext, hlen]
      split
      · split
        · rename_i hzeros
          rw [hzeros]
          exact .done h rfl
        · rename_i hzeros
          simp only [Bool.not_eq_true] at hzeros
          rw [hzeros]
          exact .rejected
      · rename_i hn
        split
        · rename_i hlong
          rw [decide_eq_true hlong]
          exact .rejected
        · rename_i hlong
          have hpos : 0 < n.toNat := by
            have hne : n ≠ 0 := by simpa using hn
            have hzero : n.toNat ≠ 0 := fun h0 => hne (UInt8.toNat_inj.mp h0)
            omega
          cases rest with
          | nil =>
            simp only [List.length_nil] at hlong
            omega
          | cons type rest =>
            have hvalue := drop_succ hnext
            simp only [List.length_cons] at hlong hlen
            have hslice : slice data (i + 1 + 1) (n.toNat - 1) = .done (rest.take (n.toNat - 1)) := by
              rw [slice_fits (by omega), hvalue]
            have hsmall : (rest.take (n.toNat - 1)).length ≤ 31 := by
              rw [List.length_take]
              omega
            have hstructure := structureAt_agrees o h type hsmall
            have htype : byteAt (type :: rest) 0 = type := rfl
            have hdrop : ((type :: rest).drop 1).take (n.toNat - 1) = rest.take (n.toNat - 1) := rfl
            have hlast : (type :: rest).drop n.toNat = data.drop (i + 1 + n.toNat) := by
              rw [← hnext, List.drop_drop]
            rw [decide_eq_false (by simpa using hlong), read_drop hnext, htype, hdrop, hlast]
            simp only [Bool.not_false, require_true, done_bind, hslice]
            generalize hfast : a.structureAt type (rest.take (n.toNat - 1)) = r at hstructure ⊢
            generalize hslow : (a.shown o).structure type (rest.take (n.toNat - 1)) = x at hstructure ⊢
            cases hstructure with
            | rejected => exact .rejected
            | @done a' advert sized shown =>
              rw [done_bind, ← shown]
              exact ih sized (by omega) (by omega) (by omega)

end Steps

theorem sized_empty : ({} : BleArrays).Sized where
  uuids := rfl
  uuidCount := Nat.zero_le 8
  uuids128 := rfl
  block := fun u hu => by
    obtain rfl : u = List.replicate 16 0 := by simpa using hu
    rfl
  uuid128Count := Nat.zero_le 1
  name := rfl
  manufacturer := rfl
  manufacturerLen := Nat.zero_le 31
  service := rfl
  serviceLen := Nat.zero_le 31

end BleArrays

/-! ## The parser -/

theorem read_byteAt {data : Bytes} {i : Nat} (h : i < data.length) :
    read data i = .done (byteAt data i) := by
  rw [read_lt h]
  simp [byteAt, h]

theorem byteAt_slice (data : Bytes) (start : Nat) {n i : Nat} (h : i < n) :
    byteAt ((data.drop start).take n) i = byteAt data (start + i) := by
  unfold byteAt
  rw [List.getD_eq_getElem?_getD, List.getD_eq_getElem?_getD, List.getElem?_take_of_lt h,
    List.getElem?_drop]

theorem parseSamsungTagAt_eq (service : Bytes) :
    parseSamsungTagAt service = ofOption (parseSamsungTag service) := by
  unfold parseSamsungTagAt parseSamsungTag
  by_cases hsize : service.length = 22
  · have hslice : slice service 6 8 = .done ((service.drop 6).take 8) := slice_fits (by omega)
    have hid : (Vector.ofFn fun i : Fin 8 => byteAt ((service.drop 6).take 8) i) =
        Vector.ofFn fun i : Fin 8 => byteAt service (6 + i) :=
      congrArg Vector.ofFn (funext fun i => byteAt_slice service 6 i.isLt)
    rw [read_byteAt (by omega), read_byteAt (by omega), read_byteAt (by omega), hslice]
    simp only [done_bind, hid, hsize, bne_self_eq_false, Bool.false_or, beq_self_eq_true,
      require_true]
    by_cases hlow : byteAt service 0 = 0x5a
    · by_cases hhigh : byteAt service 1 = 0xfd
      · by_cases hheader : (byteAt service 2 &&& 0xf8) = 0x10
        · simp only [hlow, hhigh, hheader, bne_self_eq_false, Bool.false_or, beq_self_eq_true,
            require_true, done_bind, Bool.false_eq_true, if_false]
          split
          · rename_i hbad
            rw [hbad]
            rfl
          · rename_i hgood
            simp only [Bool.not_eq_true] at hgood
            rw [hgood]
            rfl
        · simp [hlow, hhigh, hheader, beq_eq_false_iff_ne.mpr hheader]
      · simp [hlow, hhigh, beq_eq_false_iff_ne.mpr hhigh]
    · simp [hlow, beq_eq_false_iff_ne.mpr hlow]
  · have hno : (service.length == 22) = false := by simpa using hsize
    have hyes : (service.length != 22) = true := by simpa using hsize
    rw [hno, hyes]
    rfl

/-- `parse_ble` over arrays and over lists agree, and no access is outside. -/
theorem parseBleAt_eq (data : Bytes) (output : Observation) :
    parseBleAt data output =
      .done ((parseBle data output).isSome, (parseBle data output).getD output) := by
  have hresult : (do
      require (!decide (31 < data.length))
      let a ← BleArrays.readAt data (data.length + 1) {} 0
      let service ← slice a.service 0 a.serviceLen
      let samsung ← attempt (parseSamsungTagAt service)
      let o := (a.shown (bleBase output)).o
      .done { o with samsung := samsung.getD {} }) = ofOption (parseBle data output) := by
    unfold parseBle
    by_cases hlong : 31 < data.length
    · rw [decide_eq_true hlong, if_pos hlong]
      rfl
    · have hagrees := @BleArrays.readAt_agrees (bleBase output) _ BleArrays.sized_empty data
        (by omega) (data.length + 1) data.length 0 (Nat.zero_le _) (by omega) (by omega)
      have hstart : BleArrays.shown (bleBase output) {} = { o := bleBase output } := rfl
      rw [List.drop_zero, hstart] at hagrees
      rw [decide_eq_false hlong, if_neg hlong]
      generalize BleArrays.readAt data (data.length + 1) {} 0 = r at hagrees ⊢
      change _ = ofOption ((Advert.read data.length { o := bleBase output } data).map fun a =>
        { a.o with samsung := (parseSamsungTag a.o.service).getD {} })
      generalize Advert.read data.length { o := bleBase output } data = x at hagrees ⊢
      cases hagrees with
      | rejected => rfl
      | @done a advert sized shown =>
        have hslice : slice a.service 0 a.serviceLen = .done (a.service.take a.serviceLen) :=
          slice_fits (by rw [sized.service]; exact (Nat.zero_add _).symm ▸ sized.serviceLen)
        simp only [Bool.not_false, require_true, done_bind, hslice, parseSamsungTagAt_eq,
          attempt_ofOption, Option.map_some, ofOption_some, ← shown]
        rfl
  unfold parseBleAt
  rw [hresult, attempt_ofOption, done_bind]

/-- `parse_ble` accepts exactly the advertising grammar, says what the structures say, leaves the
caller's observation alone otherwise, and stays inside its arrays. -/
theorem parseBle_exact (data : Bytes) (output : Observation) :
    ((parseBle data output).isSome = true ↔ ∃ ads, Payload data ads) ∧
    (∀ ads, Payload data ads → ∃ o, parseBle data output = some o ∧
      o.ms = output.ms ∧ o.rssi = output.rssi ∧ o.address = output.address ∧
      o.addressType = output.addressType ∧ o.radio = .Ble ∧
      o.manufacturer = (valuesOf 0xff ads).headD [] ∧ o.service = (valuesOf 0x16 ads).headD [] ∧
      o.name = advertisedName ads ∧ o.samsung = (parseSamsungTag o.service).getD {} ∧
      o.samsung.valid = (parseSamsungTag o.service).isSome) ∧
    parseBleAt data output =
      .done ((parseBle data output).isSome, (parseBle data output).getD output) := by
  refine ⟨?_, fun ads hpayload => ?_, parseBleAt_eq data output⟩
  · rw [Option.isSome_iff_exists]
    constructor
    · rintro ⟨o, ho⟩
      obtain ⟨ads, hpayload, -⟩ := parseBle_eq_some.mp ho
      exact ⟨ads, hpayload⟩
    · rintro ⟨ads, hpayload⟩
      exact ⟨_, parseBle_eq_some.mpr ⟨ads, hpayload, rfl⟩⟩
  · exact ⟨_, parseBle_eq_some.mpr ⟨ads, hpayload, rfl⟩, rfl, rfl, rfl, rfl, rfl, rfl, rfl, rfl, rfl,
      samsung_valid _⟩

end Hound
