import Hound.Core.Matches
import Hound.Lib.Keyed
import Hound.Lib.Runs

/-!
# Remote ID tracks

A track collects the three parts that one sender transmits in separate messages.
A slot may keep the address of a sender whose parts have all expired, but a part
is present only where the sender's own latest message put it.
-/

namespace Hound

/-- `1U << i`. -/
def partBit (i : Fin 3) : UInt8 := 1 <<< i.val.toUInt8

structure DroneTrack where
  address : Address := Vector.replicate 6 0
  addressType : UInt8 := 0
  present : UInt8 := 0
  updated : Vector UInt64 3 := Vector.replicate 3 0
  basic : RemoteId := {}
  location : RemoteId := {}
  system : RemoteId := {}

namespace DroneTrack

def has (x : DroneTrack) (i : Fin 3) : Bool := (x.present &&& partBit i) != 0

/-- `*std::max_element` of the update times. -/
def newest (x : DroneTrack) : UInt64 := max (max (x.updated.get 0) (x.updated.get 1)) (x.updated.get 2)

def part (x : DroneTrack) (i : Fin 3) : RemoteId :=
  if i = 0 then x.basic else if i = 1 then x.location else x.system

def isOf (x : DroneTrack) (address : Address) (addressType : UInt8) : Bool :=
  x.present != 0 && x.address == address && x.addressType == addressType

/-- The body of the loop over the parts. -/
def expirePart (now : UInt64) (x : DroneTrack) (i : Fin 3) : DroneTrack :=
  if x.has i && (decide (now < x.updated.get i) || decide (60000 < now - x.updated.get i)) then
    { x with present := x.present &&& ~~~partBit i }
  else x

def expire (x : DroneTrack) (now : UInt64) : DroneTrack := [0, 1, 2].foldl (expirePart now) x

def store (x : DroneTrack) (i : Fin 3) (r : RemoteId) (ms : UInt64) : DroneTrack :=
  { x with
    basic := if i = 0 then r else x.basic
    location := if i = 1 then r else x.location
    system := if i = 2 then r else x.system
    updated := Slots.put x.updated i ms
    present := x.present ||| partBit i }

end DroneTrack

abbrev DroneCache := Fin 8 → DroneTrack

namespace DroneCache

/-- The scan: the sender's track, or the one that was updated longest ago. -/
def scan (tracks : DroneCache) (o : Observation) : List (Fin 8) → Fin 8 → Fin 8
  | [], t => t
  | i :: rest, t =>
    if (tracks i).isOf o.address o.addressType then i
    else scan tracks o rest (if (tracks i).newest < (tracks t).newest then i else t)

def place (tracks : DroneCache) (o : Observation) : Fin 8 := scan tracks o (List.finRange 8) 0

/-- The message an observation carries. -/
def decoded (o : Observation) : Option RemoteId :=
  if o.radio != .Ble then none else parseRemoteId o.service

def partOf (r : RemoteId) : Fin 3 := if r.type == 0 then 0 else if r.type == 1 then 1 else 2

/-- The chosen track, cleared when it is another sender's or has expired. -/
def claimed (t : DroneTrack) (o : Observation) : DroneTrack :=
  { (if t.address != o.address || t.addressType != o.addressType || decide (o.ms < t.newest) ||
        decide (60000 < o.ms - t.newest) then ({} : DroneTrack) else t) with
    address := o.address, addressType := o.addressType }

def ingest (tracks : DroneCache) (o : Observation) : DroneCache :=
  match decoded o with
  | none => tracks
  | some r =>
    let i := place tracks o
    Function.update tracks i (((claimed (tracks i) o).expire o.ms).store (partOf r) r o.ms)

/-- The track that is returned, and the cache with its expired parts gone. -/
def find (tracks : DroneCache) (address : Address) (addressType : UInt8) (now : UInt64) :
    Option DroneTrack × DroneCache :=
  match Slots.first (fun x => x.isOf address addressType) tracks with
  | none => (none, tracks)
  | some i =>
    let x := (tracks i).expire now
    (if x.present != 0 then some x else none, Function.update tracks i x)

end DroneCache

inductive DroneCall where
  | ingest (o : Observation)
  | find (address : Address) (addressType : UInt8) (now : UInt64)

def DroneCache.call (tracks : DroneCache) : DroneCall → DroneCache
  | .ingest o => tracks.ingest o
  | .find address addressType now => (tracks.find address addressType now).2

abbrev Sender := Address × UInt8

/-- The sender of a track with parts. -/
def droneKey (x : DroneTrack) : Option Sender :=
  if x.present != 0 then some (x.address, x.addressType) else none

/-- The latest accepted message of a part from a sender, with its time; calls latest first. -/
def latestPart (k : Sender) (i : Fin 3) : List DroneCall → Option (RemoteId × UInt64)
  | [] => none
  | .find _ _ _ :: past => latestPart k i past
  | .ingest o :: past =>
    match DroneCache.decoded o with
    | none => latestPart k i past
    | some r =>
      if (o.address, o.addressType) = k ∧ DroneCache.partOf r = i then some (r, o.ms)
      else latestPart k i past

/-! ## Tracks -/

section Tracks

variable {x : DroneTrack}

theorem has_clear (p : UInt8) (i j : Fin 3) :
    ((p &&& ~~~partBit i) &&& partBit j != 0) = ((p &&& partBit j != 0) && i != j) := by
  have hall : ∀ n : Fin 256, ∀ i j : Fin 3, ((UInt8.ofFin n &&& ~~~partBit i) &&& partBit j != 0) =
      ((UInt8.ofFin n &&& partBit j != 0) && i != j) := by
    decide +kernel
  exact hall p.toFin i j

theorem has_add (p : UInt8) (i j : Fin 3) :
    ((p ||| partBit i) &&& partBit j != 0) = ((p &&& partBit j != 0) || i == j) := by
  have hall : ∀ n : Fin 256, ∀ i j : Fin 3, ((UInt8.ofFin n ||| partBit i) &&& partBit j != 0) =
      ((UInt8.ofFin n &&& partBit j != 0) || i == j) := by
    decide +kernel
  exact hall p.toFin i j

/-- What expiry leaves: the same track with fewer parts. -/
structure Aged (now : UInt64) (x y : DroneTrack) : Prop where
  same : y = { x with present := y.present }
  present : y.present ≠ 0 → x.present ≠ 0
  has : ∀ i, y.has i = true → x.has i = true

theorem aged_refl (now : UInt64) (x : DroneTrack) : Aged now x x := ⟨rfl, id, fun _ => id⟩

theorem Aged.updated {now : UInt64} {x y : DroneTrack} (h : Aged now x y) : y.updated = x.updated := by
  rw [h.same]

theorem Aged.part {now : UInt64} {x y : DroneTrack} (h : Aged now x y) : y.part = x.part := by
  rw [h.same]
  rfl

theorem Aged.sender {now : UInt64} {x y : DroneTrack} (h : Aged now x y) :
    y.address = x.address ∧ y.addressType = x.addressType := by
  rw [h.same]
  exact ⟨rfl, rfl⟩

theorem expirePart_aged (now : UInt64) (x : DroneTrack) (i : Fin 3) :
    Aged now x (DroneTrack.expirePart now x i) ∧
      ((DroneTrack.expirePart now x i).has i = true →
        x.updated.get i ≤ now ∧ now.toNat ≤ (x.updated.get i).toNat + 60000) := by
  unfold DroneTrack.expirePart
  split
  · refine ⟨⟨rfl, fun hne hzero => hne ?_, fun j hj => ?_⟩, fun hno => ?_⟩
    · change x.present &&& ~~~partBit i = 0
      rw [hzero]
      exact UInt8.zero_and
    · change ((x.present &&& ~~~partBit i) &&& partBit j != 0) = true at hj
      rw [has_clear, Bool.and_eq_true] at hj
      exact hj.1
    · change ((x.present &&& ~~~partBit i) &&& partBit i != 0) = true at hno
      rw [has_clear] at hno
      simp at hno
  · rename_i hfresh
    refine ⟨aged_refl now x, fun hhas => ?_⟩
    rw [hhas] at hfresh
    simp only [Bool.true_and, Bool.or_eq_true, decide_eq_true_eq, not_or] at hfresh
    have hle := UInt64.not_lt.mp hfresh.1
    have hsub := UInt64.toNat_sub_of_le _ _ hle
    have hage := UInt64.le_iff_toNat_le.mp (UInt64.not_lt.mp hfresh.2)
    rw [hsub] at hage
    change now.toNat - (x.updated.get i).toNat ≤ 60000 at hage
    exact ⟨hle, by omega⟩

theorem Aged.trans {now : UInt64} {x y z : DroneTrack} (h : Aged now x y) (h' : Aged now y z) :
    Aged now x z := by
  refine ⟨?_, fun hz => h.present (h'.present hz), fun i hi => h.has i (h'.has i hi)⟩
  rw [h'.same, h.same]

theorem expire_aged (x : DroneTrack) (now : UInt64) :
    Aged now x (x.expire now) ∧ ∀ i, (x.expire now).has i = true →
      x.updated.get i ≤ now ∧ now.toNat ≤ (x.updated.get i).toNat + 60000 := by
  let y := DroneTrack.expirePart now x 0
  let z := DroneTrack.expirePart now y 1
  obtain ⟨hy, hbasic⟩ := expirePart_aged now x 0
  obtain ⟨hz, hlocation⟩ := expirePart_aged now y 1
  obtain ⟨hlast, hsystem⟩ := expirePart_aged now z 2
  have hyUpdated : y.updated = x.updated := hy.updated
  have hzUpdated : z.updated = x.updated := hz.updated.trans hyUpdated
  change Aged now x (DroneTrack.expirePart now z 2) ∧ ∀ i, (DroneTrack.expirePart now z 2).has i = true → _
  refine ⟨hy.trans (hz.trans hlast), fun i hi => ?_⟩
  match i with
  | 0 => exact hbasic (hz.has 0 (hlast.has 0 hi))
  | 1 => exact hyUpdated ▸ hlocation (hlast.has 1 hi)
  | 2 => exact hzUpdated ▸ hsystem hi

theorem store_has (x : DroneTrack) (i : Fin 3) (r : RemoteId) (ms : UInt64) (j : Fin 3) :
    (x.store i r ms).has j = (x.has j || i == j) := has_add x.present i j

theorem store_own (x : DroneTrack) (i : Fin 3) (r : RemoteId) (ms : UInt64) :
    (x.store i r ms).part i = r ∧ (x.store i r ms).updated.get i = ms := by
  constructor
  · unfold DroneTrack.part DroneTrack.store
    match i with
    | 0 => rfl
    | 1 => rfl
    | 2 => rfl
  · exact Slots.put_self x.updated i ms

theorem store_other (x : DroneTrack) {i j : Fin 3} (hij : i ≠ j) (r : RemoteId) (ms : UInt64) :
    (x.store i r ms).part j = x.part j ∧ (x.store i r ms).updated.get j = x.updated.get j := by
  constructor
  · unfold DroneTrack.part DroneTrack.store
    match i, j with
    | 0, 0 => exact absurd rfl hij
    | 0, 1 => rfl
    | 0, 2 => rfl
    | 1, 0 => rfl
    | 1, 1 => exact absurd rfl hij
    | 1, 2 => rfl
    | 2, 0 => rfl
    | 2, 1 => rfl
    | 2, 2 => exact absurd rfl hij
  · exact Slots.put_other x.updated hij ms

theorem store_present (x : DroneTrack) (i : Fin 3) (r : RemoteId) (ms : UInt64) :
    (x.store i r ms).present ≠ 0 := by
  intro hzero
  have hhas := store_has x i r ms i
  unfold DroneTrack.has at hhas
  rw [hzero, UInt8.zero_and] at hhas
  simp at hhas

end Tracks

/-! ## Calls -/

section Calls

variable {tracks : DroneCache} {o : Observation} {past : List DroneCall}

theorem isOf_iff {x : DroneTrack} {a : Address} {type : UInt8} :
    x.isOf a type = true ↔ droneKey x = some (a, type) := by
  unfold DroneTrack.isOf droneKey
  by_cases h : (x.present != 0) = true
  · simp [h]
  · simp [h]

theorem droneKey_some {x : DroneTrack} {k : Sender} (h : droneKey x = some k) :
    x.present ≠ 0 ∧ (x.address, x.addressType) = k := by
  unfold droneKey at h
  split at h
  · rename_i hpresent
    exact ⟨by simpa using hpresent, Option.some.inj h⟩
  · exact nomatch h

theorem present_of_has {x : DroneTrack} {i : Fin 3} (h : x.has i = true) : x.present ≠ 0 := by
  intro hzero
  unfold DroneTrack.has at h
  rw [hzero, UInt8.zero_and] at h
  exact nomatch h

/-- The scan stops at the sender's track. -/
theorem scan_own (tracks : DroneCache) (o : Observation) (slots : List (Fin 8)) (t j : Fin 8)
    (hj : j ∈ slots) (hown : (tracks j).isOf o.address o.addressType = true) :
    (tracks (DroneCache.scan tracks o slots t)).isOf o.address o.addressType = true := by
  induction slots generalizing t with
  | nil => exact nomatch hj
  | cons i rest ih =>
    unfold DroneCache.scan
    split
    · rename_i hi
      exact hi
    · rename_i hi
      rcases List.mem_cons.mp hj with rfl | hj
      · exact absurd hown hi
      · exact ih _ hj

theorem place_alone (hunique : Keyed.Unique droneKey tracks) (j : Fin 8)
    (hj : droneKey (tracks j) = some (o.address, o.addressType)) : j = DroneCache.place tracks o := by
  have hplace := scan_own tracks o (List.finRange 8) 0 j (List.mem_finRange j) (isOf_iff.mpr hj)
  exact hunique j _ _ hj (isOf_iff.mp hplace)

/-- A part that survives the claim belongs to the sender and was there before. -/
theorem claimed_spec (t : DroneTrack) (o : Observation) :
    (DroneCache.claimed t o).address = o.address ∧ (DroneCache.claimed t o).addressType = o.addressType ∧
    ∀ i, (DroneCache.claimed t o).has i = true → t.has i = true ∧ t.address = o.address ∧
      t.addressType = o.addressType ∧ (DroneCache.claimed t o).part i = t.part i ∧
      (DroneCache.claimed t o).updated.get i = t.updated.get i := by
  refine ⟨rfl, rfl, fun i hi => ?_⟩
  unfold DroneCache.claimed at hi ⊢
  split at hi
  · have hnone : ({} : DroneTrack).has i = false := by
      unfold DroneTrack.has
      change ((0 : UInt8) &&& partBit i != 0) = false
      rw [UInt8.zero_and]
      rfl
    exact absurd (hnone.symm.trans hi) nofun
  · rename_i hkept
    rw [if_neg hkept]
    simp only [Bool.or_eq_true, bne_iff_ne, not_or, Decidable.not_not] at hkept
    exact ⟨hi, hkept.1.1.1, hkept.1.1.2, rfl, rfl⟩

/-- Every part that is present is the sender's latest message of it. -/
structure Latest (tracks : DroneCache) (past : List DroneCall) : Prop where
  unique : Keyed.Unique droneKey tracks
  latest : ∀ s i, (tracks s).has i = true →
    latestPart ((tracks s).address, (tracks s).addressType) i past =
      some ((tracks s).part i, (tracks s).updated.get i)

theorem latest_start : Latest (fun _ => {}) [] := by
  have hnone : ∀ i, ({} : DroneTrack).has i = false := by decide
  constructor
  · intro i j k hi
    exact nomatch hi
  · intro s i hi
    exact absurd ((hnone i).symm.trans hi) nofun

theorem Latest.find (h : Latest tracks past) (a : Address) (type : UInt8) (now : UInt64) :
    Latest (tracks.find a type now).2 (.find a type now :: past) := by
  unfold DroneCache.find
  cases hfirst : Slots.first (fun x => x.isOf a type) tracks with
  | none => exact ⟨h.unique, h.latest⟩
  | some s =>
    obtain ⟨haged, -⟩ := expire_aged (tracks s) now
    change Latest (Function.update tracks s ((tracks s).expire now)) _
    constructor
    · refine h.unique.mono fun j k hj => ?_
      by_cases hjs : j = s
      · subst hjs
        rw [Function.update_self] at hj
        obtain ⟨hpresent, hk⟩ := droneKey_some hj
        have hbefore := haged.present hpresent
        obtain ⟨haddress, htype⟩ := haged.sender
        rw [haddress, htype] at hk
        unfold droneKey
        rw [if_pos (by simpa using hbefore), hk]
      · rwa [Function.update_of_ne hjs] at hj
    · intro j i hi
      by_cases hjs : j = s
      · subst hjs
        rw [Function.update_self] at hi ⊢
        obtain ⟨haddress, htype⟩ := haged.sender
        rw [haddress, htype, haged.part, haged.updated]
        exact h.latest j i (haged.has i hi)
      · rw [Function.update_of_ne hjs] at hi ⊢
        exact h.latest j i hi

theorem latestPart_other {k : Sender} {i : Fin 3}
    (hne : ∀ r, DroneCache.decoded o = some r → (o.address, o.addressType) = k → DroneCache.partOf r ≠ i) :
    latestPart k i (.ingest o :: past) = latestPart k i past := by
  rw [latestPart]
  cases hr : DroneCache.decoded o with
  | none => rfl
  | some r =>
    dsimp only
    rw [if_neg]
    rintro ⟨hk, hi⟩
    exact hne r hr hk hi

theorem latestPart_own {r : RemoteId} (hr : DroneCache.decoded o = some r) :
    latestPart (o.address, o.addressType) (DroneCache.partOf r) (.ingest o :: past) = some (r, o.ms) := by
  rw [latestPart, hr]
  dsimp only
  rw [if_pos ⟨rfl, rfl⟩]

theorem Latest.ingest (h : Latest tracks past) (o : Observation) :
    Latest (tracks.ingest o) (.ingest o :: past) := by
  unfold DroneCache.ingest
  cases hr : DroneCache.decoded o with
  | none =>
    refine ⟨h.unique, fun s i hi => ?_⟩
    rw [latestPart_other fun r hr' => absurd (hr.symm.trans hr') nofun]
    exact h.latest s i hi
  | some r =>
    let t := tracks (DroneCache.place tracks o)
    let x := (DroneCache.claimed t o).expire o.ms
    let y := x.store (DroneCache.partOf r) r o.ms
    obtain ⟨haddress, htype, hclaimed⟩ := claimed_spec t o
    obtain ⟨haged, -⟩ := expire_aged (DroneCache.claimed t o) o.ms
    have hsender : (y.address, y.addressType) = (o.address, o.addressType) := by
      change (x.address, x.addressType) = _
      rw [haged.sender.1, haged.sender.2]
      rfl
    have hkey : droneKey y = some (o.address, o.addressType) := by
      have hpresent : (y.present != 0) = true := by
        have := store_present x (DroneCache.partOf r) r o.ms
        simpa using this
      unfold droneKey
      rw [if_pos hpresent, hsender]
    change Latest (Function.update tracks (DroneCache.place tracks o) y) _
    constructor
    · exact h.unique.update hkey fun j hj => place_alone h.unique j hj
    · intro s i hi
      by_cases hs : s = DroneCache.place tracks o
      · rw [hs, Function.update_self] at hi ⊢
        rw [hsender]
        by_cases hpart : DroneCache.partOf r = i
        · subst hpart
          rw [latestPart_own hr, (store_own x _ r o.ms).1, (store_own x _ r o.ms).2]
        · have hother := store_other x hpart r o.ms
          have hkept : x.has i = true := by
            have hhas := store_has x (DroneCache.partOf r) r o.ms i
            rw [beq_false_of_ne hpart, Bool.or_false] at hhas
            exact hhas.symm.trans hi
          obtain ⟨ht, hta, htt, hsame, htime⟩ := hclaimed i (haged.has i hkept)
          have hbefore := h.latest _ i ht
          rw [hta, htt] at hbefore
          rw [latestPart_other fun r' hr' _ => ?_, hbefore, hother.1, hother.2, haged.part, haged.updated,
            hsame, htime]
          obtain rfl := Option.some.inj (hr.symm.trans hr')
          exact hpart
      · rw [Function.update_of_ne hs] at hi ⊢
        rw [latestPart_other fun r' _ hsame => ?_]
        · exact h.latest s i hi
        · refine absurd ?_ hs
          refine place_alone h.unique s ?_
          unfold droneKey
          have hpresent := present_of_has hi
          rw [if_pos (by simpa using hpresent), ← hsame]

theorem latest_run (calls : List DroneCall) :
    Latest (Runs.run DroneCache.call (fun _ => {}) calls) calls.reverse := by
  induction calls using List.reverseRecOn with
  | nil => exact latest_start
  | append_singleton calls c ih =>
    rw [Runs.run_concat, List.reverse_append]
    cases c with
    | ingest o => exact ih.ingest o
    | find a type now => exact ih.find a type now

end Calls

/-- After any calls one track at most of a sender has parts, and a track that is
found holds the sender's own latest messages of the last sixty seconds. -/
theorem drone_parts (calls : List DroneCall) :
    let tracks := Runs.run DroneCache.call (fun _ => {}) calls
    Keyed.Unique droneKey tracks ∧
    ∀ a type now x, (tracks.find a type now).1 = some x →
      x.address = a ∧ x.addressType = type ∧ ∀ i, x.has i = true →
        latestPart (a, type) i calls.reverse = some (x.part i, x.updated.get i) ∧
        x.updated.get i ≤ now ∧ now.toNat ≤ (x.updated.get i).toNat + 60000 := by
  intro tracks
  have hlatest : Latest tracks calls.reverse := latest_run calls
  refine ⟨hlatest.unique, fun a type now x hx => ?_⟩
  unfold DroneCache.find at hx
  cases hfirst : Slots.first (fun x => x.isOf a type) tracks with
  | none =>
    rw [hfirst] at hx
    exact nomatch hx
  | some s =>
    rw [hfirst] at hx
    dsimp only at hx
    obtain ⟨haged, hfresh⟩ := expire_aged (tracks s) now
    split at hx
    · obtain rfl := Option.some.inj hx
      have hfound : (tracks s).isOf a type = true := Slots.first_sound hfirst
      obtain ⟨-, hsender⟩ := droneKey_some (isOf_iff.mp hfound)
      obtain ⟨haddress, htype⟩ := haged.sender
      obtain ⟨hsa, hst⟩ := Prod.mk.inj hsender
      refine ⟨haddress.trans hsa, htype.trans hst, fun i hi => ?_⟩
      have hbefore := hlatest.latest s i (haged.has i hi)
      rw [hsender] at hbefore
      rw [haged.part, haged.updated]
      exact ⟨hbefore, hfresh i hi⟩
    · exact nomatch hx

end Hound
