import Hound.Ui.Layout
import Hound.Ui.View

/-!
# Frames

A frame is drawn in tiles. The first tile freezes what the frame is about, and the
other tiles draw that.
-/

namespace Hound

/-- What a frame showed: its page, and the detection that its target box names. -/
structure Frame where
  screen : Screen
  target : Option Detection
  deriving DecidableEq

namespace View

/-- Nothing of a page is drawn. -/
def dark (v : View) : Bool := v.displayMode == .Saver || v.displayMode == .Off

/-- Home shows the pending alert's card. -/
def showsCard (v : View) : Bool :=
  !v.dark && v.screen == .Home && v.watchWarning.isNone && decide (v.now < v.alertUntil)

/-- The detection that the page of details is about. -/
def detail (v : View) : Option Detection := if v.detailValid then some v.detailDetection else v.recent[v.selected]?

def frameTarget (v : View) : Option Detection :=
  if v.dark then none
  else if v.showsCard then some v.alertDetection
  else match v.screen with
    | .AlertActions => some v.actionDetection
    | .Details => v.detail
    | _ => none

def frame (v : View) : Frame := ⟨v.screen, v.frameTarget⟩

variable (hmac : Hmac)

/-- The first tile's part: a card that is shown is kept until touch. -/
def selectTarget (v : View) : View :=
  let target := v.frameTarget
  { v with
    framePresented := true
    homeAlertShown := v.showsCard
    actionDetection := if v.showsCard then v.alertDetection else v.actionDetection
    displayedIdentity := match target with
      | some d => v.identity hmac d
      | none => 0
    displayedIgnored := match target with
      | some d => v.listed hmac (v.book d.demo) d
      | none => false }

def tileRows (v : View) : Nat := if v.settings.portrait.isSet then 16 else 8

/-- `render` of one tile, with pixels of the size it asks for. -/
def render (v : View) (tileY : Int) : View :=
  if tileY < 0 ∨ Display.height v.settings.portrait.isSet ≤ tileY then v
  else if tileY = 0 then v.selectTarget hmac
  else v

/-- The loop of `app_task` over the tiles. -/
def renderFrame (v : View) : View :=
  (List.range ((Display.height v.settings.portrait.isSet).toNat / v.tileRows)).foldl
    (fun w (i : Nat) => w.render hmac (i * v.tileRows)) v

theorem render_later (v : View) {tileY : Int} (h : tileY ≠ 0) : v.render hmac tileY = v := by
  unfold render
  rw [if_neg h, ite_self]

/-- A whole frame does what its first tile does. -/
theorem renderFrame_eq (v : View) : v.renderFrame hmac = v.selectTarget hmac := by
  have htiles : ∃ n, (Display.height v.settings.portrait.isSet).toNat / v.tileRows = n + 1 := by
    unfold tileRows Display.height
    cases v.settings.portrait.isSet with
    | true => exact ⟨29, by decide⟩
    | false => exact ⟨39, by decide⟩
  have hrows : v.tileRows ≠ 0 := by
    unfold tileRows
    split <;> decide
  have hlater : ∀ (l : List Nat) (w : View),
      (l.map Nat.succ).foldl (fun w (i : Nat) => w.render hmac (i * v.tileRows)) w = w := by
    intro l
    induction l with
    | nil => exact fun w => rfl
    | cons i l ih =>
      intro w
      have htile : ((i.succ : Nat) : Int) * (v.tileRows : Int) ≠ 0 :=
        Int.mul_ne_zero (Int.natCast_ne_zero.mpr (Nat.succ_ne_zero i)) (Int.natCast_ne_zero.mpr hrows)
      rw [List.map_cons, List.foldl_cons, render_later hmac w htile]
      exact ih w
  obtain ⟨n, hn⟩ := htiles
  have hfirst : v.render hmac ((0 : Nat) * v.tileRows : Int) = v.selectTarget hmac := by
    have hheight : ¬ Display.height v.settings.portrait.isSet ≤ 0 := by
      unfold Display.height
      split <;> decide
    unfold render
    simp [hheight]
  unfold renderFrame
  rw [hn, List.range_succ_eq_map, List.foldl_cons, hfirst]
  exact hlater (List.range n) _

end View

end Hound
