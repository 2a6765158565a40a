import Hound.Json.Reader
import Hound.Lib.Checked

/-!
# The reader as it moves its cursor

`Json` with the cursor `pos_` as an index into the input. Every `input_[i]`,
`s[i]` and `tokens[i]` of the source is a checked read here.
-/

namespace Hound.Json

open JsonTree Checked

def spaceAt (input : Bytes) (pos : Nat) : Outcome Nat := skip isBlank input (input.length - pos) pos

/-! ## Strings -/

/-- `n` digits of a `\u` escape. -/
def hexAt (input : Bytes) : Nat → Nat → Outcome Nat
  | 0, pos => .done pos
  | n + 1, pos => do
    require (decide (pos < input.length))
    let h ← read input pos
    require (isHex h)
    hexAt input n (pos + 1)

/-- The loop to the closing quote. -/
def closeStringAt (input : Bytes) : Nat → Nat → Outcome Nat
  | 0, _ => .rejected
  | fuel + 1, pos => do
    require (decide (pos < input.length))
    let x ← read input pos
    if x == 34 then .done (pos + 1)
    else if x < 32 || 128 ≤ x then .rejected
    else if x == 92 then do
      require (decide (pos + 1 < input.length))
      let e ← read input (pos + 1)
      if e == 117 then do
        let pos ← hexAt input 4 (pos + 2)
        closeStringAt input fuel pos
      else do
        require (isEscape e)
        closeStringAt input fuel (pos + 2)
    else closeStringAt input fuel (pos + 1)

/-- The loop of `string` over the quoted `s`, `out` written so far. -/
def unescapeAt (s : Bytes) (size : Nat) : Nat → Nat → Bytes → Outcome Bytes
  | 0, _, _ => .rejected
  | fuel + 1, i, out =>
    if i + 1 < s.length then do
      let c ← read s i
      if c == 92 then do
        let e ← read s (i + 1)
        if e == 117 then do
          let a ← read s (i + 2)
          let b ← read s (i + 3)
          let c ← read s (i + 4)
          let d ← read s (i + 5)
          let n := unicode a b c d
          require (!(n == 0 || decide (127 < n)))
          require (decide (out.length + 1 < size))
          unescapeAt s size fuel (i + 6) (out ++ [UInt8.ofNat n])
        else do
          require (!(decide (size ≤ out.length + 1) || escaped e == 0))
          unescapeAt s size fuel (i + 2) (out ++ [escaped e])
      else do
        require (!(decide (size ≤ out.length + 1) || c == 0))
        unescapeAt s size fuel (i + 1) (out ++ [c])
    else .done out

def stringAt (j : Json) (t size : Nat) : Outcome Bytes := do
  let tok ← read j.tokens t
  require (tok.kind == .string)
  let s := (j.input.drop tok.start).take tok.size
  unescapeAt s size s.length 1 []

/-! ## Values without parts -/

/-- `if (!digit()) return -1; while (digit()) ++pos_`. -/
def digitsAt (input : Bytes) (pos : Nat) : Outcome Nat := do
  require (← test isDigit input pos)
  skip isDigit input (input.length - pos) pos

def wholeAt (input : Bytes) (pos : Nat) : Outcome Nat := do
  require (decide (pos < input.length))
  let lead ← read input pos
  if lead == 48 then .done (pos + 1) else digitsAt input pos

def fractionAt (input : Bytes) (pos : Nat) : Outcome Nat := do
  let point ← test (· == 46) input pos
  if point then digitsAt input (pos + 1) else .done pos

def exponentAt (input : Bytes) (pos : Nat) : Outcome Nat := do
  let scaled ← test (fun b => b == 101 || b == 69) input pos
  if scaled then do
    let signed ← test (fun b => b == 43 || b == 45) input (pos + 1)
    digitsAt input (if signed then pos + 2 else pos + 1)
  else .done pos

/-- The first read is unguarded: `value` has just read a character there. -/
def scanNumber (input : Bytes) (pos : Nat) : Outcome Nat := do
  let minus ← read input pos
  let pos ← wholeAt input (if minus == 45 then pos + 1 else pos)
  let pos ← fractionAt input pos
  exponentAt input pos

/-- `input_.substr(pos_, word.size()) != word`. -/
def wordAt (kind : TokenType) (text input : Bytes) (pos : Nat) : Outcome (TokenType × Nat) := do
  require ((input.drop pos).take text.length == text)
  .done (kind, pos + text.length)

/-- A value without parts whose first character is `c`. -/
def leafAt (input : Bytes) (c : UInt8) (pos : Nat) : Outcome (TokenType × Nat) :=
  if c == 34 then do
    let stop ← closeStringAt input (input.length - pos) (pos + 1)
    .done (.string, stop)
  else if c == 116 then wordAt .boolean wordTrue input pos
  else if c == 102 then wordAt .boolean wordFalse input pos
  else if c == 110 then wordAt .null wordNull input pos
  else do
    let stop ← scanNumber input pos
    .done (.number, stop)

/-! ## Values -/

/-- The comparison of `name` with the keys from token `i` to `stop`. -/
def newName (j : Json) (stop : Nat) (name : Bytes) : Nat → Nat → Outcome Unit
  | 0, _ => .done ()
  | fuel + 1, i =>
    if i < stop then do
      let prev ← stringAt j i 80
      require (prev != name)
      let v ← read j.tokens (i + 1)
      newName j stop name fuel v.after
    else .done ()

def keyAt (value : Json → Nat → Outcome (Json × Nat)) (t : Nat) (j : Json) (pos : Nat) :
    Outcome (Json × Nat) := do
  let pos ← spaceAt j.input pos
  require (← test (· == 34) j.input pos)
  let k := j.tokens.length
  let r ← value j pos
  let name ← stringAt r.1 k 80
  newName r.1 k name k (t + 1)
  let pos ← spaceAt r.1.input r.2
  require (decide (pos < r.1.input.length))
  let colon ← read r.1.input pos
  require (colon == 58)
  .done (r.1, pos + 1)

def membersAt (value : Json → Nat → Outcome (Json × Nat)) (t : Nat) (kind : TokenType) :
    Nat → Json → Nat → Outcome (Json × Nat)
  | 0, _, _ => .rejected
  | fuel + 1, j, pos => do
    let r ← (if kind == .object then keyAt value t j pos else .done (j, pos))
    let r ← value r.1 r.2
    let pos ← spaceAt r.1.input r.2
    require (decide (pos < r.1.input.length))
    let next ← read r.1.input pos
    if next == kind.closing then .done (r.1, pos + 1)
    else do
      require (next == 44)
      membersAt value t kind fuel r.1 (pos + 1)

def containerAt (value : Json → Nat → Outcome (Json × Nat)) (t : Nat) (kind : TokenType) (j : Json)
    (pos : Nat) : Outcome (Json × Nat) := do
  let start ← spaceAt j.input pos
  let empty ← test (· == kind.closing) j.input start
  if empty then .done (j, start + 1)
  else membersAt value t kind (j.input.length - pos + 1) j start

/-- `tok.size = pos_ - tok.start; tok.after = count`. -/
def closeAt (j : Json) (t pos : Nat) : Json :=
  { j with tokens := j.tokens.modify t fun tok =>
      { tok with size := pos - tok.start, after := j.tokens.length } }

/-- `value`, with `level` levels of nesting left: `9 - depth`. -/
def valueAt : Nat → Json → Nat → Outcome (Json × Nat)
  | 0, j, pos => do
    let _ ← spaceAt j.input pos
    .rejected
  | level + 1, j, pos => do
    let pos ← spaceAt j.input pos
    require (decide (pos < j.input.length) && decide (j.tokens.length < 160))
    let t := j.tokens.length
    let c ← read j.input pos
    if c == 123 || c == 91 then do
      let kind : TokenType := if c == 123 then .object else .array
      let r ← containerAt (valueAt level) t kind (j.push ⟨pos, 0, 0, kind⟩) (pos + 1)
      .done (r.1.closeAt t r.2, r.2)
    else do
      let r ← leafAt j.input c pos
      .done (j.push ⟨pos, r.2 - pos, t + 1, r.1⟩, r.2)

def parseAt (input : Bytes) : Outcome Json := do
  require (!(input.isEmpty || decide (2048 < input.length)))
  let r ← valueAt 9 { input } 0
  let pos ← spaceAt r.1.input r.2
  require (pos == input.length)
  .done r.1

end Hound.Json
