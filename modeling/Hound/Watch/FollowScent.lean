import Hound.Core.Types
import Hound.Lib.Runs

/-!
# Follow Scent

One identity is followed by its readings, at most one kept a second and thirty in
all. The kept ones are in strict order of their seconds, so the differences of
times that the trend is computed from never wrap around.
-/

namespace Hound

structure Sample where
  ms : UInt64 := 0
  rssi : Int8 := 0
  deriving DecidableEq

structure FollowScent where
  address : Address := Vector.replicate 6 0
  samsung : SamsungTag := {}
  radio : Radio := .Wifi
  addressType : UInt8 := 0
  category : Category := .FLOCK
  active : Bool := false
  demo : Bool := false
  received : Bool := false
  started : UInt64 := 0
  lastMs : UInt64 := 0
  acceptAfter : UInt64 := 0
  rssi : Int8 := 0
  history : Vector Sample 30 := Vector.replicate 30 {}
  count : Nat := 0

namespace FollowScent

/-- `category` is always an enumerator here, the source checks it. -/
def select (d : Detection) (now : UInt64) : FollowScent :=
  if categoryCount ≤ d.category.code then {}
  else
    { active := true, demo := d.demo, address := d.address
      samsung := if samsungIdentity d then d.samsung else {}
      radio := d.radio, addressType := d.addressType, category := d.category
      started := now, acceptAfter := now }

def restart (f : FollowScent) (now : UInt64) : FollowScent :=
  { f with received := false, count := 0, started := now, acceptAfter := now }

/-- The same broadcast ID if one was selected, the same address otherwise. -/
def same (f : FollowScent) (o : Observation) : Bool :=
  if f.samsung.valid then o.samsung.valid && f.samsung.id == o.samsung.id
  else o.address == f.address && o.addressType == f.addressType

def refuses (f : FollowScent) (o : Observation) (synthetic : Bool) : Bool :=
  !f.active || synthetic != f.demo || !f.same o || o.radio != f.radio || decide (o.ms ≤ f.acceptAfter) ||
    (f.received && decide (o.ms < f.lastMs)) || decide (0 < o.rssi) || decide (o.rssi < -126)

def sampleAt (f : FollowScent) (i : Nat) : Sample := f.history[i]?.getD {}

/-- `std::move` by one towards the front; the last cell keeps its value. -/
def shifted (history : Vector Sample 30) : Vector Sample 30 :=
  Vector.ofFn fun i => history[i.val + 1]?.getD (history.get i)

/-- Replace the reading of this second, or append it, dropping the oldest of thirty. -/
def keep (f : FollowScent) (s : Sample) : FollowScent :=
  if f.count ≠ 0 ∧ (f.sampleAt (f.count - 1)).ms / 1000 = s.ms / 1000 then
    { f with history := f.history.setIfInBounds (f.count - 1) s }
  else if f.count = 30 then
    { f with history := (shifted f.history).setIfInBounds 29 s, count := 30 }
  else { f with history := f.history.setIfInBounds f.count s, count := f.count + 1 }

def heard (f : FollowScent) (o : Observation) : FollowScent :=
  { f with
    address := o.address, addressType := o.addressType
    received := true, lastMs := o.ms, rssi := o.rssi }

def observe (f : FollowScent) (o : Observation) (synthetic : Bool) : Bool × FollowScent :=
  if f.refuses o synthetic then (false, f) else (true, (f.heard o).keep ⟨o.ms, o.rssi⟩)

/-- The loop of `trend`, at sample `i`. -/
def trendFrom (f : FollowScent) : Nat → Int
  | 0 => 0
  | i + 1 =>
    if 5000 < (f.sampleAt (i + 1)).ms - (f.sampleAt i).ms then 0
    else
      let age := f.lastMs - (f.sampleAt i).ms
      if 2000 ≤ age ∧ age ≤ 8000 then f.rssi.toInt - (f.sampleAt i).rssi.toInt else f.trendFrom i

def trend (f : FollowScent) (now : UInt64) : Int :=
  if f.count < 2 ∨ now < f.lastMs ∨ 5000 < now - f.lastMs then 0 else f.trendFrom (f.count - 1)

end FollowScent

/-! ## What is kept -/

inductive ScentCall where
  | select (d : Detection) (now : UInt64)
  | restart (now : UInt64)
  | observe (o : Observation) (synthetic : Bool)

def FollowScent.call (f : FollowScent) : ScentCall → FollowScent
  | .select d now => select d now
  | .restart now => f.restart now
  | .observe o synthetic => (f.observe o synthetic).2

/-- The kept samples, oldest first. -/
def FollowScent.samples (f : FollowScent) : List Sample := f.history.toList.take f.count

/-- What has been accepted since the last selection or restart, latest first. -/
def readings : List (FollowScent × ScentCall) → List Sample
  | [] => []
  | (f, .observe o synthetic) :: past =>
    if (f.observe o synthetic).1 then ⟨o.ms, o.rssi⟩ :: readings past else readings past
  | (_, .select _ _) :: _ => []
  | (_, .restart _) :: _ => []

/-- The detection selected last. -/
def selected : List ScentCall → Option Detection
  | [] => none
  | .select d _ :: _ => some d
  | .restart _ :: past => selected past
  | .observe _ _ :: past => selected past

/-- An observation of the identity of a detection. -/
structure OfIdentity (d : Detection) (o : Observation) (synthetic : Bool) : Prop where
  demo : synthetic = d.demo
  radio : o.radio = d.radio
  same : if samsungIdentity d then o.samsung.valid = true ∧ o.samsung.id = d.samsung.id
    else o.address = d.address ∧ o.addressType = d.addressType

/-- The history of readings, latest first. -/
structure Ordered (f : FollowScent) (accepted : List Sample) : Prop where
  bound : f.count ≤ 30
  seconds : f.samples.Pairwise fun a b => a.ms.toNat / 1000 < b.ms.toNat / 1000
  latest : ∀ s ∈ f.samples,
    accepted.find? (fun r => r.ms.toNat / 1000 == s.ms.toNat / 1000) = some s
  newest : f.received = true → f.samples.getLast? = some ⟨f.lastMs, f.rssi⟩
  empty : f.received = false → f.samples = []
  later : ∀ s ∈ f.samples, f.acceptAfter < s.ms
  past : ∀ s ∈ f.samples, s.ms ≤ f.lastMs

/-- The identity is still the selected one. -/
structure Follows (f : FollowScent) (d : Detection) : Prop where
  demo : f.demo = d.demo
  radio : f.radio = d.radio
  samsung : f.samsung = if samsungIdentity d then d.samsung else {}
  address : samsungIdentity d = false → f.address = d.address ∧ f.addressType = d.addressType

/-- A sample two to eight seconds before the newest, with no gap from it on. -/
structure Comparable (f : FollowScent) (k : Nat) (s : Sample) : Prop where
  sample : f.samples[k]? = some s
  least : s.ms.toNat + 2000 ≤ f.lastMs.toNat
  most : f.lastMs.toNat ≤ s.ms.toNat + 8000
  gaps : ∀ j, k ≤ j → ∀ a b, f.samples[j]? = some a → f.samples[j + 1]? = some b →
    b.ms.toNat ≤ a.ms.toNat + 5000

/-- The newest reading is at most five seconds old. -/
def Fresh (f : FollowScent) (now : UInt64) : Prop :=
  f.lastMs ≤ now ∧ now.toNat ≤ f.lastMs.toNat + 5000

/-- The trend compares with the latest sample it may, if there is one. -/
def TrendOf (f : FollowScent) (now : UInt64) : Prop :=
  (¬ (Fresh f now ∧ ∃ k s, Comparable f k s) ∧ f.trend now = 0) ∨
  (Fresh f now ∧ ∃ k s, Comparable f k s ∧ (∀ k' s', Comparable f k' s' → k' ≤ k) ∧
    f.trend now = f.rssi.toInt - s.rssi.toInt)

/-- The times that are subtracted are in order. -/
def InOrder (f : FollowScent) : Prop :=
  ∀ i, i + 1 < f.count → (f.sampleAt i).ms ≤ (f.sampleAt (i + 1)).ms ∧ (f.sampleAt i).ms ≤ f.lastMs

/-! ## Keeping a sample -/

section Keep

variable {f : FollowScent} {s : Sample}

theorem length_samples (h : f.count ≤ 30) : f.samples.length = f.count := by
  unfold FollowScent.samples
  rw [List.length_take, Vector.length_toList]
  omega

theorem sampleAt_eq {i : Nat} (h : i < f.count) : f.samples[i]? = f.history[i]? := by
  unfold FollowScent.samples
  rw [List.getElem?_take, if_pos h]
  exact Vector.getElem?_toList

theorem samples_sampleAt (hbound : f.count ≤ 30) {i : Nat} (h : i < f.count) :
    f.samples[i]? = some (f.sampleAt i) := by
  rw [sampleAt_eq h]
  unfold FollowScent.sampleAt
  rw [Vector.getElem?_eq_getElem (by omega)]
  rfl

theorem getLast_samples (hbound : f.count ≤ 30) (h : f.count ≠ 0) :
    f.samples.getLast? = some (f.sampleAt (f.count - 1)) := by
  rw [List.getLast?_eq_getElem?, length_samples hbound]
  exact samples_sampleAt hbound (by omega)

theorem take_set_end {l : List Sample} {n : Nat} (h : n < l.length) :
    (l.set n s).take (n + 1) = l.take n ++ [s] := by
  rw [List.take_succ_eq_append_getElem (by rwa [List.length_set]), List.getElem_set_self,
    List.take_set_of_le (Nat.le_refl n)]

theorem shifted_tail (history : Vector Sample 30) :
    (FollowScent.shifted history).toList.take 29 = history.toList.drop 1 := by
  apply List.ext_getElem
  · rw [List.length_take, List.length_drop, Vector.length_toList, Vector.length_toList]
    rfl
  · intro i hi hi'
    rw [List.length_drop, Vector.length_toList] at hi'
    have hnext : i + 1 < 30 := by omega
    rw [List.getElem_take, List.getElem_drop, Vector.getElem_toList, Vector.getElem_toList]
    unfold FollowScent.shifted
    rw [Vector.getElem_ofFn, Vector.getElem?_eq_getElem hnext, Option.getD_some]
    congr 1
    omega

/-- The sample replaces that of its second, or follows all of the last twenty-nine. -/
theorem keep_samples (hbound : f.count ≤ 30) :
    (f.keep s).count ≤ 30 ∧
    ((∃ last, f.samples.getLast? = some last ∧ last.ms / 1000 = s.ms / 1000 ∧
        (f.keep s).samples = f.samples.dropLast ++ [s]) ∨
      ((∀ last, f.samples.getLast? = some last → last.ms / 1000 ≠ s.ms / 1000) ∧
        ∃ n, (f.keep s).samples = f.samples.drop n ++ [s])) := by
  have hlength : f.history.toList.length = 30 := Vector.length_toList
  by_cases hsecond : f.count ≠ 0 ∧ (f.sampleAt (f.count - 1)).ms / 1000 = s.ms / 1000
  · have hkeep : f.keep s = { f with history := f.history.setIfInBounds (f.count - 1) s } := by
      unfold FollowScent.keep
      rw [if_pos hsecond]
    have hcount : f.count = f.count - 1 + 1 := by omega
    rw [hkeep]
    refine ⟨hbound, .inl ⟨_, getLast_samples hbound hsecond.1, hsecond.2, ?_⟩⟩
    have hset := @take_set_end s f.history.toList (f.count - 1) (by omega)
    rw [← hcount] at hset
    have hdrop : f.samples.dropLast = f.history.toList.take (f.count - 1) := by
      unfold FollowScent.samples
      rw [List.dropLast_eq_take, List.take_take, List.length_take, hlength]
      congr 1
      omega
    rw [hdrop, ← hset]
    unfold FollowScent.samples
    rw [Vector.toList_setIfInBounds]
  · have hother : ∀ last, f.samples.getLast? = some last → last.ms / 1000 ≠ s.ms / 1000 := by
      intro last hlast heq
      have hnonempty : f.count ≠ 0 := by
        intro hzero
        have hlen := length_samples hbound
        rw [hzero, List.length_eq_zero_iff] at hlen
        rw [hlen] at hlast
        exact nomatch hlast
      rw [getLast_samples hbound hnonempty] at hlast
      exact hsecond ⟨hnonempty, (Option.some.inj hlast) ▸ heq⟩
    by_cases hfull : f.count = 30
    · have hkeep : f.keep s =
          { f with history := (FollowScent.shifted f.history).setIfInBounds 29 s, count := 30 } := by
        unfold FollowScent.keep
        rw [if_neg hsecond, if_pos hfull]
      rw [hkeep]
      refine ⟨Nat.le_refl 30, .inr ⟨hother, 1, ?_⟩⟩
      have hset := @take_set_end s (FollowScent.shifted f.history).toList 29 (by simp)
      rw [shifted_tail] at hset
      unfold FollowScent.samples
      rw [Vector.toList_setIfInBounds, hset, hfull, List.take_of_length_le (Nat.le_of_eq hlength)]
    · have hkeep : f.keep s =
          { f with history := f.history.setIfInBounds f.count s, count := f.count + 1 } := by
        unfold FollowScent.keep
        rw [if_neg hsecond, if_neg hfull]
      rw [hkeep]
      refine ⟨by change f.count + 1 ≤ 30; omega, .inr ⟨hother, 0, ?_⟩⟩
      have hset := @take_set_end s f.history.toList f.count (by omega)
      unfold FollowScent.samples
      rw [Vector.toList_setIfInBounds, hset]
      rfl

end Keep

/-! ## One call -/

section Calls

variable {f : FollowScent} {d : Detection} {accepted : List Sample} {o : Observation} {synthetic : Bool}

theorem div_toNat (a : UInt64) : (a / 1000).toNat = a.toNat / 1000 := UInt64.toNat_div a 1000

theorem same_second {a b : UInt64} : a / 1000 = b / 1000 ↔ a.toNat / 1000 = b.toNat / 1000 := by
  rw [← UInt64.toNat_inj, div_toNat, div_toNat]

/-- An accepted observation is of the followed identity, new enough and in order. -/
structure Accepts (f : FollowScent) (o : Observation) (synthetic : Bool) : Prop where
  active : f.active = true
  demo : synthetic = f.demo
  same : f.same o = true
  radio : o.radio = f.radio
  after : f.acceptAfter < o.ms
  order : f.received = true → f.lastMs ≤ o.ms

theorem accepts_of_not_refuses (h : f.refuses o synthetic = false) : Accepts f o synthetic := by
  simp only [FollowScent.refuses, Bool.or_eq_false_iff, Bool.not_eq_false', bne_eq_false_iff_eq,
    decide_eq_false_iff_not, Bool.and_eq_false_iff] at h
  obtain ⟨⟨⟨⟨⟨⟨⟨hactive, hdemo⟩, hsame⟩, hradio⟩, hafter⟩, horder⟩, -⟩, -⟩ := h
  refine ⟨hactive, hdemo, hsame, hradio, UInt64.not_le.mp hafter, fun hreceived => ?_⟩
  rcases horder with hno | hle
  · exact absurd (hno.symm.trans hreceived) nofun
  · exact UInt64.not_lt.mp hle

theorem observe_cases (f : FollowScent) (o : Observation) (synthetic : Bool) :
    (f.observe o synthetic = (false, f)) ∨
    (Accepts f o synthetic ∧ f.observe o synthetic = (true, (f.heard o).keep ⟨o.ms, o.rssi⟩)) := by
  unfold FollowScent.observe
  cases h : f.refuses o synthetic with
  | true => exact .inl rfl
  | false => exact .inr ⟨accepts_of_not_refuses h, rfl⟩

/-- Beside the history and its count, `keep` leaves everything. -/
theorem keep_frame (f : FollowScent) (s : Sample) :
    f.keep s = { f with history := (f.keep s).history, count := (f.keep s).count } := by
  unfold FollowScent.keep
  split
  · rfl
  · split <;> rfl

theorem heard_samples (f : FollowScent) (o : Observation) : (f.heard o).samples = f.samples := rfl

/-- What is kept beside the new sample is of earlier seconds. -/
theorem Ordered.heard_keep (h : Ordered f accepted) {s : Sample} (hpast : ∀ a ∈ f.samples, a.ms ≤ s.ms)
    (o : Observation) :
    ∃ kept, ((f.heard o).keep s).samples = kept ++ [s] ∧ kept.Sublist f.samples ∧
      ∀ a ∈ kept, a.ms.toNat / 1000 < s.ms.toNat / 1000 := by
  have hpast' : ∀ a ∈ f.samples, a.ms.toNat / 1000 ≤ s.ms.toNat / 1000 :=
    fun a ha => Nat.div_le_div_right (UInt64.le_iff_toNat_le.mp (hpast a ha))
  have hkept := (@keep_samples (f.heard o) s h.bound).2
  rw [heard_samples] at hkept
  rcases hkept with ⟨last, hlast, hsecond, hkeep⟩ | ⟨hother, n, hkeep⟩
  · refine ⟨f.samples.dropLast, hkeep, List.dropLast_sublist _, fun a ha => ?_⟩
    have hsplit : f.samples = f.samples.dropLast ++ [last] := (List.dropLast_append_getLast? last hlast).symm
    have hseconds := h.seconds
    rw [hsplit, List.pairwise_append] at hseconds
    have hless := hseconds.2.2 a ha last (List.mem_singleton_self last)
    rwa [same_second.mp hsecond] at hless
  · refine ⟨f.samples.drop n, hkeep, List.drop_sublist n _, fun a ha => ?_⟩
    have hmem := List.mem_of_mem_drop ha
    rcases List.eq_nil_or_concat f.samples with hnil | ⟨init, last, hsplit⟩
    · rw [hnil] at hmem
      exact nomatch hmem
    · rw [List.concat_eq_append] at hsplit
      have hlast : f.samples.getLast? = some last := by
        rw [hsplit]
        simp
      have hne := mt same_second.mpr (hother last hlast)
      have hle := hpast' last (List.mem_of_getLast? hlast)
      have hseconds := h.seconds
      rw [hsplit] at hseconds hmem
      rcases List.mem_append.mp hmem with hinit | hend
      · have hless := (List.pairwise_append.mp hseconds).2.2 a hinit last (List.mem_singleton_self last)
        omega
      · rw [List.mem_singleton.mp hend]
        omega

theorem Ordered.accept (h : Ordered f accepted) (haccepts : Accepts f o synthetic) :
    Ordered ((f.heard o).keep ⟨o.ms, o.rssi⟩) (⟨o.ms, o.rssi⟩ :: accepted) := by
  have hpast : ∀ a ∈ f.samples, a.ms ≤ o.ms := by
    intro a ha
    cases hreceived : f.received with
    | true => exact UInt64.le_trans (h.past a ha) (haccepts.order hreceived)
    | false =>
      rw [h.empty hreceived] at ha
      exact nomatch ha
  obtain ⟨kept, hkeep, hsub, hless⟩ := @Ordered.heard_keep f accepted h ⟨o.ms, o.rssi⟩ hpast o
  have hframe := keep_frame (f.heard o) ⟨o.ms, o.rssi⟩
  generalize hg : (f.heard o).keep ⟨o.ms, o.rssi⟩ = g at hkeep hframe ⊢
  constructor
  · rw [← hg]
    exact (@keep_samples (f.heard o) _ h.bound).1
  · rw [hkeep, List.pairwise_append]
    refine ⟨h.seconds.sublist hsub, List.pairwise_singleton _ _, fun a ha b hb => ?_⟩
    rw [List.mem_singleton.mp hb]
    exact hless a ha
  · intro a ha
    rw [hkeep] at ha
    rcases List.mem_append.mp ha with ha | ha
    · have hne : o.ms.toNat / 1000 ≠ a.ms.toNat / 1000 := Ne.symm (Nat.ne_of_lt (hless a ha))
      rw [List.find?_cons_of_neg (by simpa using hne)]
      exact h.latest a (hsub.subset ha)
    · rw [List.mem_singleton.mp ha, List.find?_cons_of_pos (by simp)]
  · intro _
    rw [hkeep, List.getLast?_append, hframe]
    rfl
  · intro hno
    rw [hframe] at hno
    exact nomatch hno
  · intro a ha
    rw [hkeep] at ha
    rw [hframe]
    rcases List.mem_append.mp ha with ha | ha
    · exact h.later a (hsub.subset ha)
    · rw [List.mem_singleton.mp ha]
      exact haccepts.after
  · intro a ha
    rw [hkeep] at ha
    rw [hframe]
    rcases List.mem_append.mp ha with ha | ha
    · exact hpast a (hsub.subset ha)
    · rw [List.mem_singleton.mp ha]
      exact UInt64.le_refl o.ms

theorem ordered_empty (hcount : f.count = 0) (hreceived : f.received = false) : Ordered f [] := by
  have hnil : f.samples = [] := by
    unfold FollowScent.samples
    rw [hcount, List.take_zero]
  constructor
  · omega
  · rw [hnil]
    exact List.Pairwise.nil
  · rw [hnil]
    exact nofun
  · intro hyes
    exact absurd (hreceived.symm.trans hyes) nofun
  · intro _
    exact hnil
  · rw [hnil]
    exact nofun
  · rw [hnil]
    exact nofun

theorem follows_select (d : Detection) (now : UInt64) : Follows (FollowScent.select d now) d := by
  have hcode : ¬ categoryCount ≤ d.category.code := by
    cases d.category <;> decide
  unfold FollowScent.select
  rw [if_neg hcode]
  exact ⟨rfl, rfl, rfl, fun _ => ⟨rfl, rfl⟩⟩

theorem Follows.ofIdentity (h : Follows f d) (haccepts : Accepts f o synthetic) :
    OfIdentity d o synthetic := by
  have hsame := haccepts.same
  unfold FollowScent.same at hsame
  rw [h.samsung] at hsame
  refine ⟨haccepts.demo.trans h.demo, haccepts.radio.trans h.radio, ?_⟩
  cases hid : samsungIdentity d with
  | true =>
    have hvalid : d.samsung.valid = true := by
      simp only [samsungIdentity, Bool.and_eq_true] at hid
      exact hid.2
    rw [hid, if_pos rfl, if_pos hvalid] at hsame
    simp only [Bool.and_eq_true, beq_iff_eq] at hsame
    rw [if_pos rfl]
    exact ⟨hsame.1, hsame.2.symm⟩
  | false =>
    obtain ⟨haddress, htype⟩ := h.address hid
    rw [hid, if_neg nofun] at hsame
    change (o.address == f.address && o.addressType == f.addressType) = true at hsame
    simp only [Bool.and_eq_true, beq_iff_eq, haddress, htype] at hsame
    rw [if_neg nofun]
    exact hsame

theorem Follows.accept (h : Follows f d) (haccepts : Accepts f o synthetic) :
    Follows ((f.heard o).keep ⟨o.ms, o.rssi⟩) d := by
  have hidentity := (h.ofIdentity haccepts).same
  rw [keep_frame]
  refine ⟨h.demo, h.radio, h.samsung, fun hid => ?_⟩
  rw [if_neg (by rw [hid]; exact nofun)] at hidentity
  exact hidentity

end Calls

/-! ## The trend -/

section Trend

variable {f : FollowScent} {accepted : List Sample}

theorem Ordered.inOrder (h : Ordered f accepted) : InOrder f := by
  intro i hi
  have hfirst := samples_sampleAt h.bound (Nat.lt_of_succ_lt hi)
  have hsecond := samples_sampleAt h.bound hi
  obtain ⟨hlt, heq⟩ := List.getElem?_eq_some_iff.mp hfirst
  obtain ⟨hlt', heq'⟩ := List.getElem?_eq_some_iff.mp hsecond
  have hpair := List.pairwise_iff_getElem.mp h.seconds i (i + 1) hlt hlt' (Nat.lt_succ_self i)
  rw [heq, heq'] at hpair
  refine ⟨?_, h.past _ (List.mem_of_getElem? hfirst)⟩
  rw [UInt64.le_iff_toNat_le]
  omega

theorem gap_iff {a b : UInt64} (h : a ≤ b) : 5000 < b - a ↔ a.toNat + 5000 < b.toNat := by
  have hsub := UInt64.toNat_sub_of_le _ _ h
  have hle := UInt64.le_iff_toNat_le.mp h
  rw [UInt64.lt_iff_toNat_lt, hsub]
  change 5000 < b.toNat - a.toNat ↔ _
  omega

theorem age_iff {a b : UInt64} (h : a ≤ b) :
    2000 ≤ b - a ∧ b - a ≤ 8000 ↔ a.toNat + 2000 ≤ b.toNat ∧ b.toNat ≤ a.toNat + 8000 := by
  have hsub := UInt64.toNat_sub_of_le _ _ h
  have hle := UInt64.le_iff_toNat_le.mp h
  rw [UInt64.le_iff_toNat_le, UInt64.le_iff_toNat_le, hsub]
  change 2000 ≤ b.toNat - a.toNat ∧ b.toNat - a.toNat ≤ 8000 ↔ _
  omega

theorem lt_count_of_sample (h : Ordered f accepted) {k : Nat} {s : Sample} (hk : f.samples[k]? = some s) :
    k < f.count := by
  obtain ⟨hlt, -⟩ := List.getElem?_eq_some_iff.mp hk
  rwa [length_samples h.bound] at hlt

/-- The newest sample is not compared with itself. -/
theorem Ordered.not_comparable (h : Ordered f accepted) {k : Nat} {s : Sample} (hk : f.count ≤ k + 1) :
    ¬ Comparable f k s := by
  intro hs
  have hlt := lt_count_of_sample h hs.sample
  have hreceived : f.received = true := by
    by_contra hno
    have hempty := h.empty (by simpa using hno)
    have hsample := hs.sample
    rw [hempty] at hsample
    exact nomatch hsample
  have hnewest := h.newest hreceived
  rw [List.getLast?_eq_getElem?, length_samples h.bound] at hnewest
  have hlast : k = f.count - 1 := by omega
  have hsample := hs.sample
  rw [hlast] at hsample
  obtain rfl := Option.some.inj (hnewest.symm.trans hsample)
  have hleast := hs.least
  change f.lastMs.toNat + 2000 ≤ f.lastMs.toNat at hleast
  omega

/-- What the loop returns from sample `i` on, when no later sample is compared. -/
theorem Ordered.trendFrom (h : Ordered f accepted) (i : Nat) (hi : i < f.count)
    (hgaps : ∀ j, i ≤ j → ∀ a b, f.samples[j]? = some a → f.samples[j + 1]? = some b →
      b.ms.toNat ≤ a.ms.toNat + 5000)
    (hnone : ∀ k s, i ≤ k → ¬ Comparable f k s) :
    ((∀ k s, ¬ Comparable f k s) ∧ f.trendFrom i = 0) ∨
    ∃ k s, Comparable f k s ∧ (∀ k' s', Comparable f k' s' → k' ≤ k) ∧
      f.trendFrom i = f.rssi.toInt - s.rssi.toInt := by
  induction i with
  | zero => exact .inl ⟨fun k s => hnone k s (Nat.zero_le k), rfl⟩
  | succ i ih =>
    obtain ⟨horder, hlast⟩ := h.inOrder i hi
    have hsample := samples_sampleAt h.bound (Nat.lt_of_succ_lt hi)
    have hnext := samples_sampleAt h.bound hi
    have hunfold : f.trendFrom (i + 1) =
        if 5000 < (f.sampleAt (i + 1)).ms - (f.sampleAt i).ms then 0
        else if 2000 ≤ f.lastMs - (f.sampleAt i).ms ∧ f.lastMs - (f.sampleAt i).ms ≤ 8000 then
          f.rssi.toInt - (f.sampleAt i).rssi.toInt
        else f.trendFrom i := rfl
    rw [hunfold]
    by_cases hgap : 5000 < (f.sampleAt (i + 1)).ms - (f.sampleAt i).ms
    · rw [if_pos hgap]
      refine .inl ⟨fun k s hs => ?_, rfl⟩
      by_cases hk : i + 1 ≤ k
      · exact hnone k s hk hs
      · have hsmall := hs.gaps i (by omega) _ _ hsample hnext
        have hlarge := (gap_iff horder).mp hgap
        omega
    · rw [if_neg hgap]
      have hgaps' : ∀ j, i ≤ j → ∀ a b, f.samples[j]? = some a → f.samples[j + 1]? = some b →
          b.ms.toNat ≤ a.ms.toNat + 5000 := by
        intro j hj a b ha hb
        by_cases hji : j = i
        · subst hji
          obtain rfl := Option.some.inj (hsample.symm.trans ha)
          obtain rfl := Option.some.inj (hnext.symm.trans hb)
          have hsmall := mt (gap_iff horder).mpr hgap
          omega
        · exact hgaps j (by omega) a b ha hb
      by_cases hage : 2000 ≤ f.lastMs - (f.sampleAt i).ms ∧ f.lastMs - (f.sampleAt i).ms ≤ 8000
      · rw [if_pos hage]
        obtain ⟨hleast, hmost⟩ := (age_iff hlast).mp hage
        refine .inr ⟨i, f.sampleAt i, ⟨hsample, hleast, hmost, hgaps'⟩, fun k' s' hs' => ?_, rfl⟩
        by_contra hlater
        exact hnone k' s' (by omega) hs'
      · rw [if_neg hage]
        refine ih (by omega) hgaps' fun k s hk hs => ?_
        by_cases hki : k = i
        · subst hki
          obtain rfl := Option.some.inj (hsample.symm.trans hs.sample)
          exact hage ((age_iff hlast).mpr ⟨hs.least, hs.most⟩)
        · exact hnone k s (by omega) hs

theorem Ordered.trend (h : Ordered f accepted) (now : UInt64) : TrendOf f now := by
  unfold TrendOf FollowScent.trend
  by_cases hcount : f.count < 2
  · rw [if_pos (.inl hcount)]
    refine .inl ⟨fun hboth => ?_, rfl⟩
    obtain ⟨-, k, s, hs⟩ := hboth
    exact h.not_comparable (by omega) hs
  · by_cases hrecent : Fresh f now
    · have hold : ¬ 5000 < now - f.lastMs := by
        rw [gap_iff hrecent.1]
        have := hrecent.2
        omega
      have hguard : ¬ (f.count < 2 ∨ now < f.lastMs ∨ 5000 < now - f.lastMs) := by
        rintro (hno | hno | hno)
        · exact hcount hno
        · exact absurd hrecent.1 (UInt64.not_le.mpr hno)
        · exact hold hno
      rw [if_neg hguard]
      have hend : ∀ j, f.count - 1 ≤ j → ∀ a b, f.samples[j]? = some a → f.samples[j + 1]? = some b →
          b.ms.toNat ≤ a.ms.toNat + 5000 := by
        intro j hj a b _ hb
        have hlt := lt_count_of_sample h hb
        omega
      rcases h.trendFrom (f.count - 1) (by omega) hend fun k s hk => h.not_comparable (by omega) with
        ⟨hnone, hzero⟩ | hsome
      · exact .inl ⟨fun hboth => hboth.2.elim fun k hk => hk.elim fun s hs => hnone k s hs, hzero⟩
      · exact .inr ⟨hrecent, hsome⟩
    · have hguard : f.count < 2 ∨ now < f.lastMs ∨ 5000 < now - f.lastMs := by
        by_contra hno
        simp only [not_or] at hno
        obtain ⟨-, hlast, hold⟩ := hno
        have hle := UInt64.not_lt.mp hlast
        rw [gap_iff hle] at hold
        exact hrecent ⟨hle, by omega⟩
      rw [if_pos hguard]
      exact .inl ⟨fun hboth => hrecent hboth.1, rfl⟩

end Trend

/-! ## Runs -/

/-- The history is ordered, and the followed identity is the one selected last. -/
structure Trail (f : FollowScent) (past : List (FollowScent × ScentCall)) : Prop where
  ordered : Ordered f (readings past)
  active : f.active = true → ∃ d, selected (past.map Prod.snd) = some d ∧ Follows f d

theorem Trail.call {f : FollowScent} {past : List (FollowScent × ScentCall)} (h : Trail f past)
    (c : ScentCall) : Trail (f.call c) ((f, c) :: past) := by
  cases c with
  | select d now =>
    have hempty : Ordered (FollowScent.select d now) [] := by
      unfold FollowScent.select
      split
      · exact ordered_empty rfl rfl
      · exact ordered_empty rfl rfl
    exact ⟨hempty, fun _ => ⟨d, rfl, follows_select d now⟩⟩
  | restart now =>
    constructor
    · exact ordered_empty rfl rfl
    · intro hactive
      obtain ⟨d, hd, hfollows⟩ := h.active hactive
      exact ⟨d, hd, hfollows.demo, hfollows.radio, hfollows.samsung, hfollows.address⟩
  | observe o synthetic =>
    rcases observe_cases f o synthetic with hrefused | ⟨haccepts, hkept⟩
    · have hreadings : readings ((f, .observe o synthetic) :: past) = readings past := by
        rw [readings, hrefused, if_neg nofun]
      have hcall : f.call (.observe o synthetic) = f := congrArg Prod.snd hrefused
      rw [hcall]
      exact ⟨hreadings ▸ h.ordered, h.active⟩
    · have hreadings : readings ((f, .observe o synthetic) :: past) = ⟨o.ms, o.rssi⟩ :: readings past := by
        rw [readings, hkept, if_pos rfl]
      have hcall : f.call (.observe o synthetic) = (f.heard o).keep ⟨o.ms, o.rssi⟩ :=
        congrArg Prod.snd hkept
      rw [hcall]
      constructor
      · rw [hreadings]
        exact h.ordered.accept haccepts
      · intro _
        obtain ⟨d, hd, hfollows⟩ := h.active haccepts.active
        exact ⟨d, hd, hfollows.accept haccepts⟩

theorem trail_run (calls : List ScentCall) :
    Trail (Runs.run FollowScent.call {} calls) (Runs.visited FollowScent.call {} calls).reverse := by
  induction calls using List.reverseRecOn with
  | nil => exact ⟨ordered_empty rfl rfl, fun hactive => nomatch hactive⟩
  | append_singleton calls c ih =>
    rw [Runs.run_concat, Runs.visited_concat, List.reverse_append]
    exact ih.call c

theorem visited_calls (calls : List ScentCall) :
    (Runs.visited FollowScent.call {} calls).reverse.map Prod.snd = calls.reverse := by
  induction calls using List.reverseRecOn with
  | nil => rfl
  | append_singleton calls c ih =>
    rw [Runs.visited_concat, List.reverse_append, List.reverse_append, List.map_append, ih]
    rfl

/-- After any calls the history is ordered and the trend is that of its samples;
only the identity selected last is accepted. -/
theorem scent_history (calls : List ScentCall) :
    let f := Runs.run FollowScent.call {} calls
    Ordered f (readings (Runs.visited FollowScent.call {} calls).reverse) ∧ InOrder f ∧
    (∀ o synthetic, (f.observe o synthetic).1 = true →
      ∃ d, selected calls.reverse = some d ∧ OfIdentity d o synthetic) ∧
    ∀ now, TrendOf f now := by
  intro f
  have htrail := trail_run calls
  refine ⟨htrail.ordered, htrail.ordered.inOrder, fun o synthetic haccepted => ?_, htrail.ordered.trend⟩
  rcases observe_cases f o synthetic with hrefused | ⟨haccepts, -⟩
  · rw [hrefused] at haccepted
    exact nomatch haccepted
  · obtain ⟨d, hd, hfollows⟩ := htrail.active haccepts.active
    rw [visited_calls] at hd
    exact ⟨d, hd, hfollows.ofIdentity haccepts⟩

end Hound
