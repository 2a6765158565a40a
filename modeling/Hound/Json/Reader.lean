import Hound.Core.Types
import Hound.Lib.JsonTree

/-!
# The bounded JSON reader

`Json` of `json.cpp`: one pass over at most 2048 bytes fills at most 160 tokens,
nothing nested deeper than eight. The cursor is the unread rest of the input;
`value` recurses on the levels still allowed below it and the loop over members
on the bytes left, of which each round uses at least one.
-/

namespace Hound

open JsonTree

structure Json where
  input : Bytes
  tokens : List Token := []

namespace Json

def space (rest : Bytes) : Bytes := rest.dropWhile isBlank

/-- `pos_`. -/
def pos (j : Json) (rest : Bytes) : Nat := j.input.length - rest.length

/-- `raw`; the index `-1` is `none`. -/
def raw (j : Json) (t : Option Nat) : Bytes :=
  match t.bind (j.tokens[·]?) with
  | some tok => (j.input.drop tok.start).take tok.size
  | none => []

/-! ## Strings -/

def hexValue (h : UInt8) : Nat := if h ≤ 57 then h.toNat - 48 else (h ||| 32).toNat - 97 + 10

def unicode (a b c d : UInt8) : Nat :=
  ((hexValue a * 16 + hexValue b) * 16 + hexValue c) * 16 + hexValue d

/-- The byte an escape other than `u` stands for. -/
def escaped (e : UInt8) : UInt8 :=
  if e == 110 then 10
  else if e == 114 then 13
  else if e == 116 then 9
  else if e == 98 then 8
  else if e == 102 then 12
  else e

/-- The loop of `string` over the bytes between the quotes. -/
def unescape : Bytes → Option Bytes
  | [] => some []
  | 92 :: 117 :: a :: b :: c :: d :: rest =>
      let n := unicode a b c d
      if n == 0 || decide (127 < n) then none else (unescape rest).map (UInt8.ofNat n :: ·)
  | 92 :: e :: rest => if escaped e == 0 then none else (unescape rest).map (escaped e :: ·)
  -- `parse` lets no string end in a backslash
  | [92] => none
  | c :: rest => if c == 0 then none else (unescape rest).map (c :: ·)

/-- The contents of a quoted string, if they fit a buffer of `size` with their terminator. -/
def decode (size : Nat) (quoted : Bytes) : Option Bytes :=
  (unescape quoted.tail.dropLast).filter fun s => decide (s.length < size)

/-- `string(t, out)` with `out.size() = size`. -/
def string (j : Json) (t : Option Nat) (size : Nat) : Option Bytes :=
  match t.bind (j.tokens[·]?) with
  | some tok => if tok.kind == .string then decode size (j.raw t) else none
  | none => none

/-! ## Members and numbers -/

/-- The key tokens a walk from `i` to `stop` visits: `i = tokens[i + 1].after`. -/
def keyTokens (tokens : List Token) (stop : Nat) : Nat → Nat → List Nat
  | 0, _ => []
  | fuel + 1, i =>
      if i < stop then
        i :: match tokens[i + 1]? with
          | some v => keyTokens tokens stop fuel v.after
          | none => []
      else []

def member (j : Json) (object : Nat) (key : Bytes) : Option Nat :=
  match j.tokens[object]? with
  | some tok =>
    if tok.kind == .object then
      ((keyTokens j.tokens tok.after tok.after (object + 1)).find? fun i =>
        j.string (some i) 80 == some key).map (· + 1)
    else none
  | none => none

/-- `std::from_chars` for `int64_t`, consuming everything. -/
def fromChars (s : Bytes) : Option Int :=
  let digits := if s.head? == some 45 then s.tail else s
  if digits.isEmpty || !digits.all isDigit then none
  else
    let n : Nat := digits.foldl (fun n d => n * 10 + (d.toNat - 48)) 0
    let v : Int := if s.head? == some 45 then -n else n
    if -9223372036854775808 ≤ v ∧ v ≤ 9223372036854775807 then some v else none

def integer (j : Json) (t : Option Nat) : Option Int :=
  match t.bind (j.tokens[·]?) with
  | some tok => if tok.kind == .number then fromChars (j.raw t) else none
  | none => none

/-! ## Scanning values without parts -/

/-- The rest after the closing quote. -/
def closeString : Bytes → Option Bytes
  | [] => none
  | 34 :: rest => some rest
  | 92 :: 117 :: a :: b :: c :: d :: rest =>
      if isHex a && isHex b && isHex c && isHex d then closeString rest else none
  | 92 :: e :: rest => if isEscape e then closeString rest else none
  | x :: rest => if x < 32 || 128 ≤ x || x == 92 then none else closeString rest

/-- `while (digit()) ++pos_` after one required digit. -/
def digits (rest : Bytes) : Option Bytes :=
  match rest with
  | [] => none
  | d :: _ => if isDigit d then some (rest.dropWhile isDigit) else none

def whole (rest : Bytes) : Option Bytes :=
  match rest with
  | 48 :: rest => some rest
  | rest => digits rest

def fraction (rest : Bytes) : Option Bytes :=
  match rest with
  | 46 :: rest => digits rest
  | rest => some rest

def dropSign (rest : Bytes) : Bytes :=
  match rest with
  | 43 :: rest => rest
  | 45 :: rest => rest
  | rest => rest

def exponent (rest : Bytes) : Option Bytes :=
  match rest with
  | 101 :: rest => digits (dropSign rest)
  | 69 :: rest => digits (dropSign rest)
  | rest => some rest

def dropMinus (rest : Bytes) : Bytes :=
  match rest with
  | 45 :: rest => rest
  | rest => rest

def number (rest : Bytes) : Option Bytes :=
  ((whole (dropMinus rest)).bind fraction).bind exponent

def word (kind : TokenType) (text rest : Bytes) : Option (TokenType × Bytes) :=
  if text.isPrefixOf rest then some (kind, rest.drop text.length) else none

/-- A value without parts: its kind and the rest after it. -/
def leaf (rest : Bytes) : Option (TokenType × Bytes) :=
  match rest with
  | 34 :: body => (closeString body).map (.string, ·)
  | 116 :: _ => word .boolean wordTrue rest
  | 102 :: _ => word .boolean wordFalse rest
  | 110 :: _ => word .null wordNull rest
  | rest => (number rest).map (.number, ·)

/-! ## Values -/

def push (j : Json) (tok : Token) : Json := { j with tokens := j.tokens ++ [tok] }

/-- `tok.size = pos_ - tok.start; tok.after = count`. -/
def close (j : Json) (t : Nat) (rest : Bytes) : Json :=
  { j with tokens := j.tokens.modify t fun tok =>
      { tok with size := j.pos rest - tok.start, after := j.tokens.length } }

/-- A key, its name new among the keys of container `t`, and its colon. -/
def key (value : Json → Bytes → Option (Json × Bytes)) (t : Nat) (j : Json) (rest : Bytes) :
    Option (Json × Bytes) :=
  if (space rest).head? != some 34 then none
  else
    let k := j.tokens.length
    match value j (space rest) with
    | none => none
    | some (j, rest) =>
      match j.string (some k) 80 with
      | none => none
      | some name =>
        if (keyTokens j.tokens k k (t + 1)).all fun i =>
            (j.string (some i) 80).any (· != name) then
          match space rest with
          | 58 :: rest => some (j, rest)
          | _ => none
        else none

/-- The loop over the members of container `t`. -/
def members (value : Json → Bytes → Option (Json × Bytes)) (t : Nat) (kind : TokenType) :
    Nat → Json → Bytes → Option (Json × Bytes)
  | 0, _, _ => none
  | fuel + 1, j, rest =>
    match if kind == .object then key value t j rest else some (j, rest) with
    | none => none
    | some (j, rest) =>
      match value j rest with
      | none => none
      | some (j, rest) =>
        match space rest with
        | [] => none
        | next :: rest =>
          if next == kind.closing then some (j, rest)
          else if next != 44 then none
          else members value t kind fuel j rest

/-- A container after its opening bracket. -/
def container (value : Json → Bytes → Option (Json × Bytes)) (t : Nat) (kind : TokenType) (j : Json)
    (rest : Bytes) : Option (Json × Bytes) :=
  if (space rest).head? == some kind.closing then some (j, (space rest).tail)
  else members value t kind (rest.length + 1) j (space rest)

/-- `value`, with `level` levels of nesting left: `9 - depth`. -/
def value : Nat → Json → Bytes → Option (Json × Bytes)
  | 0, _, _ => none
  | level + 1, j, rest =>
    let rest := space rest
    let t := j.tokens.length
    if rest.isEmpty || decide (160 ≤ t) then none
    else if rest.head? == some 123 || rest.head? == some 91 then
      let kind : TokenType := if rest.head? == some 123 then .object else .array
      (container (value level) t kind (j.push ⟨j.pos rest, 0, 0, kind⟩) rest.tail).map
        fun (j, rest) => (j.close t rest, rest)
    else
      (leaf rest).map fun (kind, after) =>
        (j.push ⟨j.pos rest, rest.length - after.length, t + 1, kind⟩, after)

def parse (input : Bytes) : Option Json :=
  if input.isEmpty || decide (2048 < input.length) then none
  else match value 9 { input } input with
    | none => none
    | some (j, rest) => if space rest == [] then some j else none

end Json

end Hound
