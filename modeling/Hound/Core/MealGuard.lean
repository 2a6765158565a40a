import Hound.Core.Pet
import Hound.Lib.Runs

/-!
# Meal cooldowns

`MealGuard::award` and `restore`. Three cooldowns share one guard: one for all
meals, one for each category and one for each source, the last in a table of
128 stamps. A cooldown is a lock that no award it covers passes before its
limit, and every award keeps the locks that are not over.
-/

namespace Hound

structure MealGuard where
  stamps : Fin 128 → MealStamp := fun _ => {}
  categoryUntil : Category → UInt64 := fun _ => 0
  globalUntil : UInt64 := 0

namespace MealGuard

structure Request where
  hash : UInt64
  now : UInt64
  category : Category
  score : UInt8
  low : Bool := false

/-- How long a source is held after a meal. -/
def sourceHold (c : Category) : UInt64 := if c == .DEAUTH then 600000 else 1800000

/-- `low ? 20 : 50`. -/
def leastScore (low : Bool) : UInt8 := if low then 20 else 50

/-- The stamp of this source, or else the one that expires first. -/
def destination (g : MealGuard) (hash : UInt64) : Fin 128 :=
  (Slots.first (fun s => s.hash == hash) g.stamps).getD
    (Slots.minElement (fun a b => decide (a.remainingMs < b.remainingMs)) g.stamps)

def award (g : MealGuard) (r : Request) : Bool × MealGuard :=
  if r.hash == 0 || decide (r.score < leastScore r.low) then (false, g)
  else if decide (r.now < g.globalUntil) || decide (r.now < g.categoryUntil r.category) then (false, g)
  else if (List.finRange 128).any fun i =>
      (g.stamps i).hash == r.hash && decide (r.now < (g.stamps i).remainingMs) then (false, g)
  else
    (true,
      { stamps := Function.update g.stamps (g.destination r.hash)
          { hash := r.hash, remainingMs := r.now + sourceHold r.category }
        globalUntil := r.now + 5000
        categoryUntil := Function.update g.categoryUntil r.category (r.now + 30000) })

/-- A saved stamp comes back with the full cooldown. -/
def restore (g : MealGuard) (saved : List MealStamp) : MealGuard :=
  let kept := saved.filter fun s => s.hash != 0 && s.remainingMs != 0
  { g with stamps := fun i => match kept[i.val]? with
      | some s => { hash := s.hash, remainingMs := 1800000 }
      | none => {} }

/-- The 32 stamps that expire last, with what remains of them. -/
def snapshot (sort : SortFn MealStamp) (g : MealGuard) (now : UInt64) : Vector MealStamp 32 :=
  let sorted := sort.run (fun a b => decide (b.remainingMs < a.remainingMs)) (List.ofFn g.stamps)
  Vector.ofFn fun i => match sorted[i.val]? with
    | some s => if now < s.remainingMs then { hash := s.hash, remainingMs := s.remainingMs - now } else {}
    | none => {}

def step (g : MealGuard) (r : Request) : MealGuard := (g.award r).2

def Succeeds (g : MealGuard) (r : Request) : Prop := (g.award r).1 = true

instance (g : MealGuard) (r : Request) : Decidable (g.Succeeds r) :=
  inferInstanceAs (Decidable ((g.award r).1 = true))

/-- Some stamp is empty, expired or of this source. -/
def Room (g : MealGuard) (r : Request) : Prop :=
  ∃ i, (g.stamps i).hash = 0 ∨ (g.stamps i).remainingMs ≤ r.now ∨ (g.stamps i).hash = r.hash

instance (g : MealGuard) (r : Request) : Decidable (g.Room r) :=
  inferInstanceAs (Decidable (∃ i : Fin 128, (g.stamps i).hash = 0 ∨ _ ∨ _))

/-! ## One award -/

/-- What a success requires, and what it leaves. -/
theorem award_spec {g : MealGuard} {r : Request} (h : g.Succeeds r) :
    r.hash ≠ 0 ∧ g.globalUntil ≤ r.now ∧ g.categoryUntil r.category ≤ r.now ∧
    (∀ i, (g.stamps i).hash = r.hash → (g.stamps i).remainingMs ≤ r.now) ∧
    g.step r =
      { stamps := Function.update g.stamps (g.destination r.hash)
          { hash := r.hash, remainingMs := r.now + sourceHold r.category }
        globalUntil := r.now + 5000
        categoryUntil := Function.update g.categoryUntil r.category (r.now + 30000) } := by
  unfold Succeeds at h
  unfold step
  unfold award at h ⊢
  split at h
  · exact nomatch h
  rename_i hscore
  split at h
  · exact nomatch h
  rename_i huntil
  split at h
  · exact nomatch h
  rename_i hsource
  rw [if_neg hscore, if_neg huntil, if_neg hsource]
  simp only [Bool.or_eq_true, beq_iff_eq, decide_eq_true_eq, not_or, UInt64.not_lt] at hscore huntil
  refine ⟨hscore.1, huntil.1, huntil.2, fun i hi => ?_, rfl⟩
  simp only [List.any_eq_true, List.mem_finRange, true_and, Bool.and_eq_true, beq_iff_eq,
    decide_eq_true_eq, not_exists, not_and, UInt64.not_lt] at hsource
  exact hsource i hi

theorem step_of_not_succeeds {g : MealGuard} {r : Request} (h : ¬ g.Succeeds r) : g.step r = g := by
  unfold Succeeds at h
  unfold step
  unfold award at h ⊢
  split
  · rfl
  rename_i hscore
  split
  · rfl
  rename_i huntil
  split
  · rfl
  rename_i hsource
  rw [if_neg hscore, if_neg huntil, if_neg hsource] at h
  exact absurd rfl h

/-- An empty stamp never expires later than now. -/
def Clean (g : MealGuard) : Prop := ∀ i, (g.stamps i).hash = 0 → (g.stamps i).remainingMs = 0

theorem clean_step {g : MealGuard} (h : g.Clean) (r : Request) : (g.step r).Clean := by
  by_cases hsuccess : g.Succeeds r
  · obtain ⟨hhash, -, -, -, hstep⟩ := award_spec hsuccess
    rw [hstep]
    intro i hi
    by_cases hdest : i = g.destination r.hash
    · subst hdest
      simp only [Function.update_self] at hi
      exact absurd hi hhash
    · simp only [Function.update_of_ne hdest] at hi ⊢
      exact h i hi
  · rw [step_of_not_succeeds hsuccess]
    exact h

/-- With room in the table, a success overwrites no stamp of another source
that is still running. -/
theorem overwritten_expired {g : MealGuard} {r : Request} (hclean : g.Clean) (hroom : g.Room r)
    (hother : (g.stamps (g.destination r.hash)).hash ≠ r.hash) :
    (g.stamps (g.destination r.hash)).remainingMs ≤ r.now := by
  unfold destination at hother ⊢
  cases hfirst : Slots.first (fun s => s.hash == r.hash) g.stamps with
  | some i =>
    rw [hfirst] at hother
    exact absurd (by simpa using Slots.first_sound hfirst) hother
  | none =>
    obtain ⟨j, hj⟩ := hroom
    have hleast := @Slots.minElement_le _ _ _ (fun a b : MealStamp => decide (a.remainingMs < b.remainingMs))
      (fun a => by simp) (fun a b c hab hbc => by
        simp only [decide_eq_true_eq] at hab hbc ⊢
        exact UInt64.lt_trans hab hbc) g.stamps j
    simp only [decide_eq_false_iff_not, UInt64.not_lt] at hleast
    rw [Option.getD_none]
    refine UInt64.le_trans hleast ?_
    rcases hj with hempty | hexpired | hsame
    · rw [hclean j hempty]
      exact UInt64.le_iff_toNat_le.mpr (Nat.zero_le _)
    · exact hexpired
    · have hnone := Slots.first_eq_none.mp hfirst j
      simp only [beq_eq_false_iff_ne] at hnone
      exact absurd hsame hnone

/-! ## Locks -/

inductive Lock where
  | meal
  | category (c : Category)
  | source (hash : UInt64)

def Lock.Covers : Lock → Request → Prop
  | .meal, _ => True
  | .category c, r => r.category = c
  | .source hash, r => r.hash = hash

/-- The guard keeps this lock until `limit`. -/
def Lock.Kept (l : Lock) (limit : UInt64) (g : MealGuard) : Prop :=
  match l with
  | .meal => limit ≤ g.globalUntil
  | .category c => limit ≤ g.categoryUntil c
  | .source hash => ∃ i, (g.stamps i).hash = hash ∧ limit ≤ (g.stamps i).remainingMs

def Lock.Holds (l : Lock) (limit : UInt64) (g : MealGuard) (now : UInt64) : Prop :=
  limit ≤ now ∨ l.Kept limit g

def Lock.hold (l : Lock) (r : Request) : UInt64 :=
  match l with
  | .meal => 5000
  | .category _ => 30000
  | .source _ => sourceHold r.category

/-- No award that a lock covers succeeds before its limit. -/
theorem Lock.Holds.passed {l : Lock} {limit : UInt64} {g : MealGuard} {r : Request}
    (h : l.Holds limit g r.now) (hcovers : l.Covers r) (hsuccess : g.Succeeds r) : limit ≤ r.now := by
  obtain ⟨-, hglobal, hcategory, hsource, -⟩ := award_spec hsuccess
  rcases h with h | h
  · exact h
  · cases l with
    | meal => exact UInt64.le_trans h hglobal
    | category c =>
      have hsame : r.category = c := hcovers
      rw [← hsame] at h
      exact UInt64.le_trans h hcategory
    | source hash =>
      have hsame : r.hash = hash := hcovers
      obtain ⟨i, hi, hlimit⟩ := h
      exact UInt64.le_trans hlimit (hsource i (hi.trans hsame.symm))

theorem Lock.Kept.other {l : Lock} {limit : UInt64} {g : MealGuard} {r : Request} (h : l.Kept limit g)
    (hcovers : ¬ l.Covers r) (hclean : g.Clean) (hsuccess : g.Succeeds r) (hroom : g.Room r) :
    l.Holds limit (g.step r) r.now := by
  obtain ⟨-, -, -, -, hstep⟩ := award_spec hsuccess
  cases l with
  | meal => exact absurd trivial hcovers
  | category c =>
    right
    rw [hstep]
    have hne : c ≠ r.category := Ne.symm hcovers
    simp only [Lock.Kept, Function.update_of_ne hne]
    exact h
  | source hash =>
    obtain ⟨i, hi, hlimit⟩ := h
    by_cases hdest : i = g.destination r.hash
    · left
      subst hdest
      have hother : (g.stamps (g.destination r.hash)).hash ≠ r.hash := fun heq =>
        hcovers (heq.symm.trans hi)
      exact UInt64.le_trans hlimit (overwritten_expired hclean hroom hother)
    · right
      rw [hstep]
      refine ⟨i, ?_⟩
      simp only [Function.update_of_ne hdest]
      exact ⟨hi, hlimit⟩

/-- Every award keeps every lock that is not over. -/
theorem Lock.Holds.step {l : Lock} {limit : UInt64} {g : MealGuard} {r : Request}
    (h : l.Holds limit g r.now) (hclean : g.Clean) (hroom : g.Succeeds r → g.Room r) :
    l.Holds limit (g.step r) r.now := by
  by_cases hsuccess : g.Succeeds r
  · by_cases hcovers : l.Covers r
    · exact .inl (h.passed hcovers hsuccess)
    · rcases h with h | h
      · exact .inl h
      · exact h.other hcovers hclean hsuccess (hroom hsuccess)
  · rw [step_of_not_succeeds hsuccess]
    exact h

/-- A success locks everything that covers it. -/
theorem kept_of_succeeds {g : MealGuard} {r : Request} (hsuccess : g.Succeeds r) (l : Lock)
    (hcovers : l.Covers r) : l.Kept (r.now + l.hold r) (g.step r) := by
  obtain ⟨-, -, -, -, hstep⟩ := award_spec hsuccess
  rw [hstep]
  cases l with
  | meal => exact UInt64.le_refl _
  | category c =>
    have hsame : r.category = c := hcovers
    subst hsame
    simp only [Lock.Kept, Function.update_self]
    exact UInt64.le_refl _
  | source hash =>
    have hsame : r.hash = hash := hcovers
    refine ⟨g.destination r.hash, ?_⟩
    simp only [Function.update_self]
    exact ⟨hsame, UInt64.le_refl _⟩

/-! ## Restored stamps -/

theorem clean_restore (g : MealGuard) (saved : List MealStamp) : (g.restore saved).Clean := by
  intro i hi
  unfold restore at hi ⊢
  simp only at hi ⊢
  split at hi
  · rename_i s hs
    have hvalid := List.of_mem_filter (List.mem_of_getElem? hs)
    simp only [Bool.and_eq_true, bne_iff_ne, ne_eq] at hvalid
    exact absurd hi hvalid.1
  · rename_i hs
    simp

theorem kept_restore (g : MealGuard) {saved : List MealStamp} (hlength : saved.length ≤ 128) {m : MealStamp}
    (hm : m ∈ saved) (hhash : m.hash ≠ 0) (hremaining : m.remainingMs ≠ 0) :
    Lock.Kept (.source m.hash) 1800000 (g.restore saved) := by
  have hvalid : m ∈ saved.filter fun s => s.hash != 0 && s.remainingMs != 0 :=
    List.mem_filter.mpr ⟨hm, by simp [hhash, hremaining]⟩
  obtain ⟨i, hi, hget⟩ := List.mem_iff_getElem.mp hvalid
  have hlt : i < 128 := by
    have := List.length_filter_le (fun s : MealStamp => s.hash != 0 && s.remainingMs != 0) saved
    omega
  refine ⟨⟨i, hlt⟩, ?_⟩
  simp [restore, List.getElem?_eq_getElem hi, hget]

/-! ## Runs -/

/-- Awards in this order, each success with room for it. -/
structure Orderly (g : MealGuard) (requests : List Request) : Prop where
  ordered : requests.Pairwise fun r r' => r.now ≤ r'.now
  room : ∀ v ∈ Runs.visited step g requests, v.1.Succeeds v.2 → v.1.Room v.2

theorem Orderly.rest {g : MealGuard} {before after : List Request} (h : Orderly g (before ++ after)) :
    Orderly (Runs.run step g before) after where
  ordered := (List.pairwise_append.mp h.ordered).2.1
  room v hv := h.room v (by rw [Runs.visited_append]; exact List.mem_append_right _ hv)

theorem clean_run {g : MealGuard} (h : g.Clean) (requests : List Request) :
    (Runs.run step g requests).Clean :=
  Runs.invariant Clean (fun _ r hg => clean_step hg r) h requests

/-- A lock the guard keeps at the start of a run holds at each request of it. -/
theorem holds_visited {l : Lock} {limit : UInt64} {g : MealGuard} (hkept : l.Kept limit g) (hclean : g.Clean)
    {requests : List Request} (h : Orderly g requests) :
    ∀ v ∈ Runs.visited step g requests, l.Holds limit v.1 v.2.now := by
  intro v hv
  have hrun := Runs.ordered_visited (· ≤ ·) Request.now (fun g now => g.Clean ∧ l.Holds limit g now)
    (fun g r => g.Succeeds r → g.Room r)
    (fun g a b hab h => ⟨h.1, h.2.imp_left fun ha => UInt64.le_trans ha hab⟩)
    (fun g r hroom h => ⟨clean_step h.1 r, h.2.step h.1 hroom⟩) h.ordered
    (fun r _ => ⟨hclean, .inr hkept⟩) h.room v hv
  exact hrun.2

theorem toNat_limit {now hold : UInt64} (hbound : now.toNat + 1800000 < 2 ^ 64) (hhold : hold ≤ 1800000) :
    (now + hold).toNat = now.toNat + hold.toNat := by
  have hle : hold.toNat ≤ 1800000 := UInt64.le_iff_toNat_le.mp hhold
  rw [UInt64.toNat_add]
  exact Nat.mod_eq_of_lt (by omega)

theorem Lock.hold_le (l : Lock) (r : Request) : l.hold r ≤ 1800000 := by
  cases l with
  | meal =>
    change (5000 : UInt64) ≤ 1800000
    decide
  | category c =>
    change (30000 : UInt64) ≤ 1800000
    decide
  | source hash =>
    simp only [Lock.hold, sourceHold]
    split <;> decide

/-- Two successes under one lock are apart. -/
theorem apart_of_covers {g : MealGuard} (hclean : g.Clean) {before between after : List Request}
    {r r' : Request} (h : Orderly g (before ++ r :: (between ++ r' :: after)))
    (hbound : r.now.toNat + 1800000 < 2 ^ 64) (hfirst : (Runs.run step g before).Succeeds r)
    (hsecond : (Runs.run step g (before ++ r :: between)).Succeeds r') (l : Lock) (hr : l.Covers r)
    (hr' : l.Covers r') : r.now.toNat + (l.hold r).toNat ≤ r'.now.toNat := by
  have hrest : Orderly ((Runs.run step g before).step r) (between ++ r' :: after) := by
    have hsplit : before ++ r :: (between ++ r' :: after) = (before ++ [r]) ++ (between ++ r' :: after) := by
      simp
    rw [hsplit] at h
    have hafter := h.rest
    rwa [Runs.run_concat] at hafter
  have hstart : ((Runs.run step g before).step r).Clean := clean_step (clean_run hclean before) r
  have hmem : (Runs.run step g (before ++ r :: between), r') ∈
      Runs.visited step ((Runs.run step g before).step r) (between ++ r' :: after) := by
    rw [Runs.visited_append, Runs.run_append]
    exact List.mem_append_right _ List.mem_cons_self
  have hholds := holds_visited (kept_of_succeeds hfirst l hr) hstart hrest _ hmem
  have hlimit := hholds.passed hr' hsecond
  rw [UInt64.le_iff_toNat_le, toNat_limit hbound (l.hold_le r)] at hlimit
  exact hlimit

/-- The three cooldowns over a whole run, and the hold on restored sources. -/
theorem meal_cooldowns (g : MealGuard) (saved : List MealStamp)
    (hstart : g = {} ∧ saved = [] ∨ ∃ old : MealGuard, g = old.restore saved)
    (requests : List Request) (horderly : Orderly g requests)
    (hbound : ∀ r ∈ requests, r.now.toNat + 1800000 < 2 ^ 64) :
    (∀ before r between r' after, requests = before ++ r :: (between ++ r' :: after) →
      (Runs.run step g before).Succeeds r → (Runs.run step g (before ++ r :: between)).Succeeds r' →
      r.now.toNat + 5000 ≤ r'.now.toNat ∧
      (r.category = r'.category → r.now.toNat + 30000 ≤ r'.now.toNat) ∧
      (r.hash = r'.hash →
        r.now.toNat + (if r.category = .DEAUTH then 600000 else 1800000) ≤ r'.now.toNat)) ∧
    (saved.length ≤ 128 → ∀ before r after, requests = before ++ r :: after →
      (Runs.run step g before).Succeeds r → ∀ m ∈ saved, m.remainingMs ≠ 0 → m.hash = r.hash →
      1800000 ≤ r.now) := by
  have hclean : g.Clean := by
    rcases hstart with ⟨rfl, -⟩ | ⟨old, rfl⟩
    · exact fun _ _ => rfl
    · exact clean_restore old saved
  refine ⟨fun before r between r' after hsplit hfirst hsecond => ?_,
    fun hlength before r after hsplit hsuccess m hm hremaining hhash => ?_⟩
  · have hmem : r ∈ requests := by
      rw [hsplit]
      exact List.mem_append_right _ List.mem_cons_self
    rw [hsplit] at horderly
    have hapart := apart_of_covers hclean horderly (hbound r hmem) hfirst hsecond
    refine ⟨hapart .meal trivial trivial, fun hcategory => ?_, fun hhash => ?_⟩
    · exact hapart (.category r'.category) hcategory rfl
    · have hsource := hapart (.source r'.hash) hhash rfl
      simp only [Lock.hold, sourceHold, beq_iff_eq] at hsource
      split at hsource <;> rename_i hdeauth
      · rw [if_pos hdeauth]
        exact hsource
      · rw [if_neg hdeauth]
        exact hsource
  · rcases hstart with ⟨-, rfl⟩ | ⟨old, rfl⟩
    · exact nomatch hm
    · obtain ⟨hnonzero, -⟩ := award_spec hsuccess
      have hkept := kept_restore old hlength hm (hhash ▸ hnonzero) hremaining
      have hmem : (Runs.run step (old.restore saved) before, r) ∈
          Runs.visited step (old.restore saved) requests := by
        rw [hsplit, Runs.visited_append]
        exact List.mem_append_right _ List.mem_cons_self
      have hholds := holds_visited hkept hclean horderly _ hmem
      exact hholds.passed hhash.symm hsuccess

/-- A meal of one source at this time. -/
def flockAt (now : UInt64) : Request := { hash := 7, now, category := .FLOCK, score := 60 }

/-- A meal, the same source too early, and again after its half hour. -/
theorem meal_cooldowns_again :
    (Runs.run step {} [flockAt 1000, flockAt 40000]).Succeeds (flockAt 1801000) ∧
      (flockAt 1000).now.toNat + 1800000 ≤ (flockAt 1801000).now.toNat := by
  have hagain : (Runs.run step {} [flockAt 1000, flockAt 40000]).Succeeds (flockAt 1801000) := by
    decide +kernel
  have hrun := (meal_cooldowns {} [] (.inl ⟨rfl, rfl⟩) [flockAt 1000, flockAt 40000, flockAt 1801000]
    ⟨by decide +kernel, by decide +kernel⟩ (by decide +kernel)).1
    [] (flockAt 1000) [flockAt 40000] (flockAt 1801000) [] rfl (by decide) hagain
  exact ⟨hagain, hrun.2.2 rfl⟩

/-- At the last millisecond of the clock the limits wrap, and two meals fall together. -/
theorem meal_cooldowns_wrap :
    ¬ ∀ (requests : List Request), Orderly {} requests →
      ∀ before r between r' after, requests = before ++ r :: (between ++ r' :: after) →
        (Runs.run step {} before).Succeeds r → (Runs.run step {} (before ++ r :: between)).Succeeds r' →
        r.now.toNat + 5000 ≤ r'.now.toNat := by
  intro h
  have hrun := h [flockAt 18446744073709551615, flockAt 18446744073709551615]
    ⟨by decide, by decide +kernel⟩ [] _ [] _ [] rfl (by decide +kernel) (by decide +kernel)
  exact absurd hrun (by decide)

end MealGuard

end Hound
