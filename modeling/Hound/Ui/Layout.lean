import Mathlib

/-!
# Where things are on the panel

The rectangles that taps are compared with. All of them are `int` arithmetic on
small constants.
-/

namespace Hound

/-! ## Rectangles -/

structure Rect where
  x : Int
  y : Int
  w : Int
  h : Int

def Rect.has (r : Rect) (px py : Int) : Bool :=
  decide (r.x ≤ px) && decide (px < r.x + r.w) && decide (r.y ≤ py) && decide (py < r.y + r.h)

namespace Display

def width (portrait : Bool) : Int := if portrait then 320 else 480

def height (portrait : Bool) : Int := if portrait then 480 else 320

end Display

/-- `Layout`; the width and the height follow from the orientation. -/
structure Layout where
  portrait : Bool

namespace Layout

def w (l : Layout) : Int := Display.width l.portrait

def h (l : Layout) : Int := Display.height l.portrait

def cols (l : Layout) : Nat := if l.portrait then 2 else 3

def book (l : Layout) (i : Nat) : Rect :=
  let cw := (l.w - 24) / l.cols
  ⟨12 + (i % l.cols : Nat) * cw,
    (if l.portrait then 78 else 68) + (i / l.cols : Nat) * (if l.portrait then 100 else 80),
    cw - 6, if l.portrait then 94 else 74⟩

def bookCoverage (l : Layout) : Rect := ⟨12, l.h - 40, l.w - 24, 28⟩

def homeBook (l : Layout) : Rect := if l.portrait then ⟨238, 32, 70, 25⟩ else ⟨390, 32, 78, 25⟩

def homeWatch (l : Layout) : Rect := if l.portrait then ⟨168, 32, 64, 25⟩ else ⟨302, 32, 80, 25⟩

def homeFollow (l : Layout) : Rect := if l.portrait then ⟨180, 264, 116, 22⟩ else ⟨238, 32, 56, 25⟩

def quiet (l : Layout) : Rect := if l.portrait then ⟨180, 362, 118, 28⟩ else ⟨312, 186, 146, 30⟩

def sniff (l : Layout) : Rect := if l.portrait then ⟨16, 398, 288, 32⟩ else ⟨306, 226, 162, 30⟩

def row (l : Layout) (i : Nat) : Rect :=
  ⟨12, (if l.portrait then 80 else 66) + i * (if l.portrait then 55 else 34), l.w - 24,
    if l.portrait then 48 else 30⟩

def more (l : Layout) : Rect := ⟨12, l.h - 82, l.w - 24, 32⟩

def choice (l : Layout) (i : Nat) : Rect :=
  let cw := (l.w - 24) / l.cols
  ⟨12 + (i % l.cols : Nat) * cw,
    (if l.portrait then 88 else 70) + (i / l.cols : Nat) * (if l.portrait then 106 else 98),
    cw - 8, if l.portrait then 98 else 90⟩

def key (l : Layout) (i : Nat) : Rect :=
  let cols := if l.portrait then 6 else 10
  let step := if l.portrait then 48 else 44
  ⟨(if l.portrait then 16 else 20) + (i % cols : Nat) * step,
    (if l.portrait then 128 else 110) + (i / cols : Nat) * (if l.portrait then 48 else 42),
    step - 4, if l.portrait then 44 else 38⟩

def confirm (l : Layout) (right : Bool) : Rect :=
  ⟨if right then l.w / 2 + 4 else 12, l.h - 82, l.w / 2 - 16, 32⟩

def detector (l : Layout) (i : Nat) : Rect :=
  ⟨12, (if l.portrait then 80 else 64) + i * (if l.portrait then 68 else 43), l.w - 24,
    if l.portrait then 60 else 39⟩

def log (l : Layout) (i : Nat) : Rect := l.detector i

/-- The boxes that `tap` writes out itself. -/
def settingsWatch (l : Layout) : Rect := ⟨l.w - 170, 32, 108, 25⟩

def homeWardrobe (l : Layout) : Rect := ⟨20, 72, if l.portrait then 280 else 264, 21⟩

def clockDigit (l : Layout) (i : Nat) : Rect :=
  ⟨16 + (i % 5 : Nat) * (l.w - 32) / 5, 120 + (i / 5 : Nat) * 48, (l.w - 32) / 5 - 4, 44⟩

end Layout

end Hound
