import Hound.Core.Types
import Hound.Lib.Checked
import Hound.Lib.RunLength

/-!
# Sprites

`encode` of `pack_assets.py`, which packs a picture into runs, and the loop of
`Canvas::sprite`, which walks them. What is drawn for a pixel is a parameter.
-/

namespace Hound

open Checked RunLength

/-! ## Packing -/

def encodeLoop : List Nat → List Nat → Nat → Nat → List Nat
  | [], out, prev, count => out ++ [count, prev]
  | p :: pixels, out, prev, count =>
      if p == prev && decide (count < 255) then encodeLoop pixels out prev (count + 1)
      else encodeLoop pixels (out ++ [count, prev]) p 1

/-- `encode`; an empty picture raises an `IndexError`. -/
def encode : List Nat → Option (List Nat)
  | [] => none
  | p :: pixels => some (encodeLoop (p :: pixels) [] p 0)

/-! ## Drawing -/

structure Assets.Frame where
  offset : Nat
  length : Nat

section Drawing

variable {σ : Type} (paint : σ → Nat → UInt8 → σ)

def drawRun (index : UInt8) : Nat → σ → Nat → σ × Nat
  | 0, s, at_ => (s, at_)
  | run + 1, s, at_ => drawRun index run (paint s at_ index) (at_ + 1)

/-- The loop over the runs, from position `i` of `pixels` to `stop`. -/
def drawRuns (pixels : Bytes) (stop : Nat) : Nat → Nat → σ → Nat → Outcome σ
  | 0, _, s, _ => .done s
  | fuel + 1, i, s, at_ =>
      if i < stop then do
        let run ← read pixels i
        let index ← read pixels (i + 1)
        let (s, at_) := drawRun paint index run.toNat s at_
        drawRuns pixels stop fuel (i + 2) s at_
      else .done s

/-- `Canvas::sprite` over a frame of the packed pixels. -/
def sprite (pixels : Bytes) (f : Assets.Frame) (s : σ) : Outcome σ :=
  drawRuns paint pixels (f.offset + f.length) (f.length + 1) f.offset s 0

/-- Every pixel once, in order, each at its position. -/
def drawAll (indices : List UInt8) (s : σ) (at_ : Nat) : σ :=
  (indices.zipIdx at_).foldl (fun s p => paint s p.2 p.1) s

end Drawing

/-! ## Packed pictures -/

theorem encodeLoop_eq (pixels : List Nat) (runs : List (Nat × Nat)) (prev count : Nat) :
    encodeLoop pixels (pairs runs) prev count = pairs (scan 255 pixels runs prev count) := by
  induction pixels generalizing runs prev count with
  | nil =>
    unfold encodeLoop scan
    rw [pairs_append]
    rfl
  | cons p pixels ih =>
    unfold encodeLoop scan
    split
    · exact ih runs prev (count + 1)
    · have hflush : pairs runs ++ [count, prev] = pairs (runs ++ [(count, prev)]) := by
        rw [pairs_append]
        rfl
      rw [hflush]
      exact ih _ p 1

theorem encode_runs (p : Nat) (pixels : List Nat) :
    ∃ runs, encode (p :: pixels) = some (pairs runs) ∧ expand runs = p :: pixels ∧ Short 255 runs := by
  have hopen : encodeLoop (p :: pixels) [] p 0 = encodeLoop pixels (pairs []) p 1 := by
    have hcond : (p == p && decide (0 < 255)) = true := by simp
    conv_lhs => unfold encodeLoop
    rw [if_pos hcond]
    rfl
  have hnone : Short 255 ([] : List (Nat × Nat)) := fun run h => absurd h List.not_mem_nil
  have hscan : expand (scan 255 pixels [] p 1) = expand [] ++ (List.replicate 1 p ++ pixels) ∧
      Short 255 (scan 255 pixels [] p 1) := scan_spec (by decide) pixels hnone (Nat.le_refl 1) (by decide)
  refine ⟨scan 255 pixels [] p 1, ?_, hscan.1, hscan.2⟩
  change some (encodeLoop (p :: pixels) [] p 0) = _
  rw [hopen, encodeLoop_eq]

/-! ## Walking the runs -/

section Drawing

variable {σ : Type} (paint : σ → Nat → UInt8 → σ)

theorem drawRun_eq (index : UInt8) (run : Nat) (s : σ) (at_ : Nat) :
    drawRun paint index run s at_ = (drawAll paint (List.replicate run index) s at_, at_ + run) := by
  induction run generalizing s at_ with
  | zero => rfl
  | succ run ih =>
    rw [drawRun, ih, List.replicate_succ]
    refine Prod.ext rfl ?_
    change at_ + 1 + run = at_ + (run + 1)
    omega

theorem drawAll_append (front back : List UInt8) (s : σ) (at_ : Nat) :
    drawAll paint (front ++ back) s at_ = drawAll paint back (drawAll paint front s at_) (at_ + front.length) := by
  unfold drawAll
  rw [List.zipIdx_append, List.foldl_append, Nat.add_comm]

/-- From the start of some runs the loop draws what they expand to, inside the array. -/
theorem drawRuns_pairs {pixels after : Bytes} {runs : List (Nat × Nat)} {fuel i : Nat} (s : σ) (at_ : Nat)
    (hlimited : Short 255 runs) (hrest : pixels.drop i = (pairs runs).map Nat.toUInt8 ++ after)
    (hfuel : runs.length < fuel) :
    drawRuns paint pixels (i + (pairs runs).length) fuel i s at_ = .done (drawAll paint ((expand runs).map Nat.toUInt8) s at_) := by
  induction runs generalizing fuel i s at_ with
  | nil =>
    obtain ⟨fuel, rfl⟩ := Nat.exists_eq_succ_of_ne_zero (Nat.ne_of_gt hfuel)
    exact if_neg (Nat.lt_irrefl i)
  | cons run runs ih =>
    obtain ⟨n, value⟩ := run
    obtain ⟨fuel, rfl⟩ := Nat.exists_eq_succ_of_ne_zero (Nat.ne_of_gt (Nat.lt_of_le_of_lt (Nat.zero_le _) hfuel))
    have hn := hlimited (n, value) List.mem_cons_self
    have hbyte : n.toUInt8.toNat = n := Nat.mod_eq_of_lt (Nat.lt_succ_of_le hn.2)
    rw [pairs_cons, List.map_cons, List.map_cons, List.cons_append, List.cons_append] at hrest
    have hnext := drop_succ hrest
    have hlast := drop_succ hnext
    have hmore : i < i + (pairs ((n, value) :: runs)).length := by
      rw [pairs_cons, List.length_cons]
      omega
    have hstop : i + (pairs ((n, value) :: runs)).length = i + 2 + (pairs runs).length := by
      rw [pairs_cons, List.length_cons, List.length_cons]
      omega
    unfold drawRuns
    rw [if_pos hmore, read_drop hrest, done_bind, read_drop hnext, done_bind, hbyte, drawRun_eq, hstop, expand_cons,
      List.map_append, List.map_replicate, drawAll_append, List.length_replicate]
    exact ih _ _ (fun r hr => hlimited r (List.mem_cons_of_mem _ hr)) hlast (Nat.lt_of_succ_lt_succ hfuel)

end Drawing

/-- Runs of 1 to 255, and every pixel drawn once, in order and with its index, wherever in
the array the packed picture lies. -/
theorem sprite_round_trip (pixels : List UInt8) (hsome : pixels ≠ []) :
    ∃ packed, encode (pixels.map UInt8.toNat) = some packed ∧ packed.length % 2 = 0 ∧
      (∀ k run, packed[2 * k]? = some run → 1 ≤ run ∧ run ≤ 255) ∧
      ∀ (before after : Bytes) (σ : Type) (paint : σ → Nat → UInt8 → σ) (s : σ),
        sprite paint (before ++ (packed.map Nat.toUInt8 ++ after)) ⟨before.length, packed.length⟩ s =
          .done (drawAll paint pixels s 0) := by
  obtain ⟨p, rest, rfl⟩ := List.exists_cons_of_ne_nil hsome
  obtain ⟨runs, hencode, hexpand, hlimited⟩ := encode_runs p.toNat (rest.map UInt8.toNat)
  refine ⟨pairs runs, hencode, ?_, fun k run hrun => ?_, fun before after σ paint s => ?_⟩
  · rw [length_pairs]
    exact Nat.mul_mod_right 2 _
  · rw [pairs_even] at hrun
    obtain ⟨pair, hpair, rfl⟩ := Option.map_eq_some_iff.mp hrun
    exact hlimited pair (List.mem_of_getElem? hpair)
  · have hrest : (before ++ ((pairs runs).map Nat.toUInt8 ++ after)).drop before.length =
        (pairs runs).map Nat.toUInt8 ++ after := List.drop_left
    have hfuel : runs.length < (pairs runs).length + 1 := by
      rw [length_pairs]
      omega
    have hback : (expand runs).map Nat.toUInt8 = p :: rest := by
      have hbyte : Nat.toUInt8 ∘ UInt8.toNat = id := funext fun b => UInt8.ofNat_toNat
      rw [hexpand, ← List.map_cons, List.map_map, hbyte, List.map_id]
    have hdrawn := drawRuns_pairs paint s 0 hlimited hrest hfuel
    rw [hback] at hdrawn
    exact hdrawn

theorem sprite_round_trip_long : ∃ packed, encode ((List.replicate 300 (7 : UInt8)).map UInt8.toNat) = some packed ∧
    packed.length % 2 = 0 ∧ (∀ k run, packed[2 * k]? = some run → 1 ≤ run ∧ run ≤ 255) ∧
    ∀ (before after : Bytes) (σ : Type) (paint : σ → Nat → UInt8 → σ) (s : σ),
      sprite paint (before ++ (packed.map Nat.toUInt8 ++ after)) ⟨before.length, packed.length⟩ s =
        .done (drawAll paint (List.replicate 300 7) s 0) :=
  sprite_round_trip (List.replicate 300 7) (by decide)

end Hound
