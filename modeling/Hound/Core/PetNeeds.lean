import Hound.Core.Pet

/-!
# The needs of the pet

Fullness and mood fall by whole steps of five minutes. The clock keeps what a step
has not used up, so it does not matter how often the needs are looked at.
-/

namespace Hound

namespace Pet

/-- Where the steps are counted from. -/
def Needs.base (n : Needs) (now : UInt64) : Nat := min now.toNat n.clock.toNat

/-- The whole steps since then. -/
def Needs.steps (n : Needs) (now : UInt64) : Nat := (now.toNat - n.base now) / 300000

theorem lessened_toNat (need : UInt8) (loss : UInt64) :
    (lessened need loss).toNat = need.toNat - loss.toNat := by
  have hneed : need.toUInt64.toNat = need.toNat := UInt8.toNat_toUInt64 need
  have hbyte : need.toNat < 256 := need.toNat_lt
  unfold lessened
  split
  · rename_i hlt
    have hle : loss ≤ need.toUInt64 := UInt64.le_of_lt hlt
    rw [UInt64.toNat_toUInt8, UInt64.toNat_sub_of_le _ _ hle, hneed]
    exact Nat.mod_eq_of_lt (by omega)
  · rename_i hge
    have hle := UInt64.le_iff_toNat_le.mp (UInt64.not_lt.mp hge)
    rw [hneed] at hle
    rw [Nat.sub_eq_zero_of_le hle]
    rfl

/-- No operation on the clock or on the steps leaves its width. -/
structure NoOverflow (now clock steps : UInt64) : Prop where
  backward : clock ≤ now
  elapsed : (now - clock).toNat = now.toNat - clock.toNat
  fullness : (steps * 3).toNat = steps.toNat * 3
  mood : (steps * 2).toNat = steps.toNat * 2
  interval : (steps * needsIntervalMs).toNat = steps.toNat * 300000
  forward : (clock + steps * needsIntervalMs).toNat = clock.toNat + steps.toNat * 300000
  past : clock.toNat + steps.toNat * 300000 ≤ now.toNat

/-- The clock that `decay_needs` counts from. -/
def startClock (now clock : UInt64) : UInt64 := if now < clock then now else clock

theorem startClock_toNat (now clock : UInt64) : (startClock now clock).toNat = min now.toNat clock.toNat := by
  unfold startClock
  split
  · rename_i h
    have hlt := UInt64.lt_iff_toNat_lt.mp h
    omega
  · rename_i h
    have hle := UInt64.le_iff_toNat_le.mp (UInt64.not_lt.mp h)
    omega

theorem noOverflow (now clock : UInt64) :
    NoOverflow now (startClock now clock) ((now - startClock now clock) / needsIntervalMs) := by
  have hback : startClock now clock ≤ now := by
    rw [UInt64.le_iff_toNat_le, startClock_toNat]
    exact Nat.min_le_left _ _
  generalize startClock now clock = c at hback
  have hle := UInt64.le_iff_toNat_le.mp hback
  have helapsed : (now - c).toNat = now.toNat - c.toNat := UInt64.toNat_sub_of_le _ _ hback
  have hnow : now.toNat < 2 ^ 64 := now.toNat_lt
  have hsteps : ((now - c) / needsIntervalMs).toNat = (now.toNat - c.toNat) / 300000 := by
    rw [UInt64.toNat_div, helapsed]
    rfl
  have hmul : (now.toNat - c.toNat) / 300000 * 300000 ≤ now.toNat - c.toNat := Nat.div_mul_le_self _ _
  generalize (now - c) / needsIntervalMs = s at hsteps
  rw [← hsteps] at hmul
  have hinterval : (s * needsIntervalMs).toNat = s.toNat * 300000 := by
    rw [UInt64.toNat_mul]
    exact Nat.mod_eq_of_lt (by change s.toNat * 300000 < 2 ^ 64; omega)
  constructor
  case backward => exact hback
  case elapsed => exact helapsed
  case fullness =>
    rw [UInt64.toNat_mul]
    exact Nat.mod_eq_of_lt (by change s.toNat * 3 < 2 ^ 64; omega)
  case mood =>
    rw [UInt64.toNat_mul]
    exact Nat.mod_eq_of_lt (by change s.toNat * 2 < 2 ^ 64; omega)
  case interval => exact hinterval
  case forward =>
    rw [UInt64.toNat_add, hinterval]
    exact Nat.mod_eq_of_lt (by omega)
  case past => omega

theorem steps_toNat (now : UInt64) (n : Needs) :
    ((now - startClock now n.clock) / needsIntervalMs).toNat = n.steps now := by
  rw [UInt64.toNat_div, (noOverflow now n.clock).elapsed, startClock_toNat]
  rfl

/-- The early return is the case of no step. -/
theorem decayNeeds_eq (now : UInt64) (n : Needs) :
    decayNeeds now n =
      { clock := startClock now n.clock + (now - startClock now n.clock) / needsIntervalMs * needsIntervalMs
        fullness := lessened n.fullness ((now - startClock now n.clock) / needsIntervalMs * 3)
        mood := lessened n.mood ((now - startClock now n.clock) / needsIntervalMs * 2) } := by
  have hnone : ∀ need : UInt8, lessened need 0 = need := by
    intro need
    rw [← UInt8.toNat_inj, lessened_toNat]
    rfl
  by_cases hzero : (now - startClock now n.clock) / needsIntervalMs = 0
  · have hreturn : decayNeeds now n = { n with clock := startClock now n.clock } := if_pos hzero
    rw [hreturn, hzero, UInt64.zero_mul, UInt64.zero_mul, UInt64.zero_mul, UInt64.add_zero, hnone, hnone]
  · exact if_neg hzero

/-- `decay_needs` over the natural numbers. -/
theorem decayNeeds_toNat (now : UInt64) (n : Needs) :
    (decayNeeds now n).clock.toNat = n.base now + n.steps now * 300000 ∧
      (decayNeeds now n).fullness.toNat = n.fullness.toNat - n.steps now * 3 ∧
      (decayNeeds now n).mood.toNat = n.mood.toNat - n.steps now * 2 := by
  have hexact := noOverflow now n.clock
  have hsteps := steps_toNat now n
  rw [decayNeeds_eq]
  refine ⟨?_, ?_, ?_⟩
  · rw [hexact.forward, hsteps, startClock_toNat]
    rfl
  · rw [lessened_toNat, hexact.fullness, hsteps]
  · rw [lessened_toNat, hexact.mood, hsteps]

theorem Needs.ext_toNat {m n : Needs} (hclock : m.clock.toNat = n.clock.toNat)
    (hfullness : m.fullness.toNat = n.fullness.toNat) (hmood : m.mood.toNat = n.mood.toNat) : m = n := by
  obtain ⟨mc, mf, mm⟩ := m
  obtain ⟨nc, nf, nm⟩ := n
  have hc : mc = nc := UInt64.toNat_inj.mp hclock
  have hf : mf = nf := UInt8.toNat_inj.mp hfullness
  have hm : mm = nm := UInt8.toNat_inj.mp hmood
  rw [hc, hf, hm]

/-- A look in between uses up the steps that are due by then, and no more. -/
theorem decayNeeds_decayNeeds {now t : UInt64} {n : Needs} (hstart : n.clock ≤ t) (hlater : t ≤ now) :
    decayNeeds now (decayNeeds t n) = decayNeeds now n := by
  obtain ⟨hclock, hfullness, hmood⟩ := decayNeeds_toNat t n
  obtain ⟨hclock', hfullness', hmood'⟩ := decayNeeds_toNat now n
  obtain ⟨hclock'', hfullness'', hmood''⟩ := decayNeeds_toNat now (decayNeeds t n)
  have hs := UInt64.le_iff_toNat_le.mp hstart
  have hl := UInt64.le_iff_toNat_le.mp hlater
  have hbase : n.base t = n.clock.toNat := Nat.min_eq_right hs
  have hbase' : n.base now = n.clock.toNat := Nat.min_eq_right (hs.trans hl)
  have hused : n.steps t * 300000 ≤ t.toNat - n.clock.toNat := by
    unfold Needs.steps
    rw [hbase]
    exact Nat.div_mul_le_self _ _
  have hbase'' : (decayNeeds t n).base now = n.clock.toNat + n.steps t * 300000 := by
    unfold Needs.base
    rw [hclock, hbase]
    omega
  -- the steps until `now` are those until `t` and those after it
  have hsteps : n.steps t + (decayNeeds t n).steps now = n.steps now := by
    have hmore : n.steps t ≤ (now.toNat - n.clock.toNat) / 300000 := by
      unfold Needs.steps
      rw [hbase]
      exact Nat.div_le_div_right (Nat.sub_le_sub_right hl _)
    have hrest : (decayNeeds t n).steps now = (now.toNat - n.clock.toNat) / 300000 - n.steps t := by
      unfold Needs.steps at hbase'' hused ⊢
      rw [hbase'', ← Nat.sub_sub, Nat.mul_comm, Nat.sub_mul_div]
    have htotal : n.steps now = (now.toNat - n.clock.toNat) / 300000 := by
      unfold Needs.steps
      rw [hbase']
    omega
  refine Needs.ext_toNat ?_ ?_ ?_
  · rw [hclock'', hclock', hbase'', hbase', ← hsteps]
    ring
  · rw [hfullness'', hfullness', hfullness, ← hsteps]
    omega
  · rw [hmood'', hmood', hmood, ← hsteps]
    omega

theorem decayNeeds_clock_le (now : UInt64) (n : Needs) : (decayNeeds now n).clock ≤ now := by
  rw [UInt64.le_iff_toNat_le, decayNeeds_eq, (noOverflow now n.clock).forward]
  exact (noOverflow now n.clock).past

/-- The needs do not depend on when they are looked at. They only fall, by exact numbers
of whole steps, and no operation on the way leaves its width. -/
theorem decay_schedule (n : Needs) (times : List UInt64) (last : UInt64)
    (hordered : (times ++ [last]).Pairwise (· ≤ ·)) (hstart : ∀ t ∈ times ++ [last], n.clock ≤ t) :
    (times ++ [last]).foldl (fun n t => decayNeeds t n) n = decayNeeds last n ∧
      ∀ (now : UInt64) (m : Needs),
        (decayNeeds now m).fullness ≤ m.fullness ∧ (decayNeeds now m).mood ≤ m.mood ∧
        (decayNeeds now m).fullness.toNat = m.fullness.toNat - m.steps now * 3 ∧
        (decayNeeds now m).mood.toNat = m.mood.toNat - m.steps now * 2 ∧
        NoOverflow now (startClock now m.clock) ((now - startClock now m.clock) / needsIntervalMs) := by
  refine ⟨?_, fun now m => ?_⟩
  · induction times generalizing n with
    | nil => rfl
    | cons t times ih =>
      obtain ⟨hfirst, hrest⟩ := List.pairwise_cons.mp hordered
      have hlast : last ∈ times ++ [last] := List.mem_append_right _ List.mem_cons_self
      rw [List.cons_append, List.foldl_cons]
      rw [ih (decayNeeds t n) hrest fun u hu => UInt64.le_trans (decayNeeds_clock_le t n) (hfirst u hu)]
      exact decayNeeds_decayNeeds (hstart t List.mem_cons_self) (hfirst last hlast)
  · obtain ⟨-, hfullness, hmood⟩ := decayNeeds_toNat now m
    refine ⟨?_, ?_, hfullness, hmood, noOverflow now m.clock⟩
    · rw [UInt8.le_iff_toNat_le, hfullness]
      exact Nat.sub_le _ _
    · rw [UInt8.le_iff_toNat_le, hmood]
      exact Nat.sub_le _ _

/-- Five minutes, a quarter and an hour after the start. -/
theorem decay_schedule_hour :
    ([300000, 900000, 3600000] ++ [3700000] : List UInt64).foldl (fun n t => decayNeeds t n) ⟨0, 70, 70⟩ =
      decayNeeds 3700000 ⟨0, 70, 70⟩ := by
  have hordered : ([300000, 900000, 3600000] ++ [3700000] : List UInt64).Pairwise (· ≤ ·) := by decide +kernel
  have hstart : ∀ t ∈ ([300000, 900000, 3600000] ++ [3700000] : List UInt64), (⟨0, 70, 70⟩ : Needs).clock ≤ t := by
    simp
  exact (decay_schedule ⟨0, 70, 70⟩ [300000, 900000, 3600000] 3700000 hordered hstart).1

/-- The pet of the state ticks the same way. -/
theorem tick_tick (p : Pet) {t now : UInt64} (hstart : p.decayMs ≤ t) (hlater : t ≤ now) :
    (p.tick t).tick now = p.tick now := by
  have htwice := decayNeeds_decayNeeds (n := ⟨p.decayMs, p.fullness, p.mood⟩) hstart hlater
  unfold tick
  dsimp only
  rw [htwice]

end Pet

end Hound
