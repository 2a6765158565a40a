import Hound.Json.Cursor
import Hound.Json.Members

/-!
# The cursor stays inside the input

The reader by cursor gives exactly what the reader by unread rest gives, so none
of its reads is outside. Decoding a key relies on the scan that came before it:
the tokens of strings cover well-formed strings.
-/

namespace Hound.Json

open JsonTree Checked

/-! ## Strings -/

theorem hexAt_drop {input : Bytes} {n pos : Nat} :
    hexAt input n pos = if n ≤ (input.drop pos).length ∧ ((input.drop pos).take n).all isHex = true
      then .done (pos + n) else .rejected := by
  induction n generalizing pos with
  | zero => simp [hexAt]
  | succ n ih =>
    unfold hexAt
    cases hrest : input.drop pos with
    | nil =>
      have hend := le_of_drop_nil hrest
      have hstop : decide (pos < input.length) = false := by simp; omega
      simp [hstop]
    | cons h rest =>
      have hin := lt_of_drop hrest
      rw [read_drop hrest, ih, drop_succ hrest]
      cases hhex : isHex h with
      | false => simp [hin, hhex]
      | true =>
        simp only [hin, decide_true, require_true, done_bind, hhex, List.length_cons,
          Nat.add_le_add_iff_right, List.take_succ_cons, List.all_cons, Bool.true_and,
          Nat.add_assoc, Nat.add_comm 1 n]

/-- One round of the loop, at a character. -/
theorem closeStringAt_cons {input : Bytes} {fuel pos : Nat} {x : UInt8} {rest : Bytes}
    (hrest : input.drop pos = x :: rest) :
    closeStringAt input (fuel + 1) pos =
      if x == 34 then .done (pos + 1)
      else if x < 32 || 128 ≤ x then .rejected
      else if x == 92 then do
        require (decide (pos + 1 < input.length))
        let e ← read input (pos + 1)
        if e == 117 then do
          let pos ← hexAt input 4 (pos + 2)
          closeStringAt input fuel pos
        else do
          require (isEscape e)
          closeStringAt input fuel (pos + 2)
      else closeStringAt input fuel (pos + 1) := by
  rw [closeStringAt, read_drop hrest, decide_eq_true (lt_of_drop hrest)]
  rfl

/-- One round, at a backslash before `e`. -/
theorem closeStringAt_escape {input : Bytes} {fuel pos : Nat} {e : UInt8} {rest : Bytes}
    (hrest : input.drop pos = 92 :: e :: rest) :
    closeStringAt input (fuel + 1) pos =
      (if e == 117 then do
        let pos ← hexAt input 4 (pos + 2)
        closeStringAt input fuel pos
      else do
        require (isEscape e)
        closeStringAt input fuel (pos + 2)) := by
  have hnext := drop_succ hrest
  rw [closeStringAt_cons hrest, read_drop hnext, decide_eq_true (lt_of_drop hnext)]
  rfl

theorem closeStringAt_drop {input : Bytes} {fuel pos : Nat} (hpos : pos ≤ input.length)
    (hfuel : input.length < pos + fuel) :
    closeStringAt input fuel pos = observe input (closeString (input.drop pos)) := by
  obtain ⟨fuel, rfl⟩ : ∃ n, fuel = n + 1 := ⟨fuel - 1, by omega⟩
  generalize hrest : input.drop pos = rest
  induction rest using closeString.induct generalizing pos fuel with
  | case1 =>
    have hend := le_of_drop_nil hrest
    have hstop : decide (pos < input.length) = false := by simp; omega
    simp [closeStringAt, hstop, closeString, observe]
  | case2 rest =>
    have hin := lt_of_drop hrest
    have hdone := @observe_drop _ input (pos + 1) hin
    rw [drop_succ hrest] at hdone
    rw [closeStringAt_cons hrest, closeString, hdone]
    rfl
  | case3 a b c d rest hhex ih =>
    have hsix : input.drop (pos + 6) = rest :=
      drop_append [92, 117, a, b, c, d] hrest
    have hin : pos + 6 ≤ input.length := by
      have hlen := congrArg List.length hrest
      simp only [List.length_drop, List.length_cons] at hlen
      omega
    have hfour : input.drop (pos + 2) = a :: b :: c :: d :: rest :=
      drop_append [92, 117] hrest
    have hall : hexAt input 4 (pos + 2) = .done (pos + 6) := by
      rw [hexAt_drop, hfour, if_pos]
      simpa [and_assoc] using hhex
    rw [closeStringAt_escape hrest, hall, closeString, if_pos hhex]
    obtain ⟨fuel, rfl⟩ : ∃ n, fuel = n + 1 := ⟨fuel - 1, by omega⟩
    exact ih hin fuel (by omega) hsix
  | case4 a b c d rest hhex =>
    have hfour : input.drop (pos + 2) = a :: b :: c :: d :: rest :=
      drop_append [92, 117] hrest
    have hall : hexAt input 4 (pos + 2) = .rejected := by
      rw [hexAt_drop, hfour, if_neg]
      simpa [and_assoc] using hhex
    rw [closeStringAt_escape hrest, hall, closeString, if_neg hhex]
    rfl
  | case5 e rest hshort he ih =>
    have hu : e ≠ 117 := by
      rintro rfl
      exact absurd he (by decide)
    have htwo : input.drop (pos + 2) = rest := drop_append [92, e] hrest
    have hin : pos + 2 ≤ input.length := by
      have hlen := congrArg List.length hrest
      simp only [List.length_drop, List.length_cons] at hlen
      omega
    rw [closeStringAt_escape hrest, closeString.eq_4 _ _ hshort, if_pos he, he,
      if_neg (by simpa using hu)]
    obtain ⟨fuel, rfl⟩ : ∃ n, fuel = n + 1 := ⟨fuel - 1, by omega⟩
    exact ih hin fuel (by omega) htwo
  | case6 e rest hshort he =>
    rw [closeStringAt_escape hrest, closeString.eq_4 _ _ hshort, if_neg he]
    by_cases hu : e = 117
    · -- fewer than four characters follow `\u`
      have htwo : input.drop (pos + 2) = rest := drop_append [92, e] hrest
      have hfew : rest.length < 4 := by
        by_contra hmany
        obtain ⟨a, rest, rfl⟩ := List.exists_cons_of_length_pos (l := rest) (by omega)
        simp only [List.length_cons] at hmany
        obtain ⟨b, rest, rfl⟩ := List.exists_cons_of_length_pos (l := rest) (by omega)
        simp only [List.length_cons] at hmany
        obtain ⟨c, rest, rfl⟩ := List.exists_cons_of_length_pos (l := rest) (by omega)
        simp only [List.length_cons] at hmany
        obtain ⟨d, rest, rfl⟩ := List.exists_cons_of_length_pos (l := rest) (by omega)
        exact hshort a b c d rest hu rfl
      have hall : hexAt input 4 (pos + 2) = .rejected := by
        rw [hexAt_drop, htwo, if_neg]
        omega
      rw [hall, if_pos (by simpa using hu)]
      rfl
    · have hnot : isEscape e = false := by simpa using he
      rw [if_neg (by simpa using hu), hnot]
      rfl
  | case7 x rest hquote hslash hescape hbad =>
    rw [closeStringAt_cons hrest, closeString.eq_5 _ _ hquote hslash hescape, if_pos hbad,
      if_neg (by simpa using hquote)]
    by_cases hx : x = 92
    · -- the input ends in a backslash
      obtain rfl : rest = [] := by
        cases rest with
        | nil => rfl
        | cons e rest => exact (hescape e rest hx rfl).elim
      have hend := le_of_drop_nil (drop_succ hrest)
      have hstop : decide (pos + 1 < input.length) = false := by simp; omega
      subst hx
      rw [hstop]
      rfl
    · have hrange : (decide (x < 32) || decide (128 ≤ x)) = true := by simpa [hx] using hbad
      rw [if_pos hrange]
      rfl
  | case8 x rest hquote hslash hescape hgood ih =>
    simp only [Bool.or_eq_true, not_or] at hgood
    obtain ⟨hrange, hx⟩ := hgood
    have hrange' : ¬ (decide (x < 32) || decide (128 ≤ x)) = true := by simpa using hrange
    have hin := lt_of_drop hrest
    rw [closeStringAt_cons hrest, closeString.eq_5 _ _ hquote hslash hescape,
      if_neg (by simpa using hquote), if_neg hrange', if_neg hx, if_neg (by simp_all)]
    obtain ⟨fuel, rfl⟩ : ∃ n, fuel = n + 1 := ⟨fuel - 1, by omega⟩
    exact ih hin fuel (by omega) (drop_succ hrest)

/-! ## Numbers -/

section Numbers

variable {input : Bytes}

theorem follows_digits : Follows input (digitsAt input) digits := by
  intro pos hpos
  unfold digitsAt digits
  rw [test_drop]
  cases hrest : input.drop pos with
  | nil => rfl
  | cons d rest =>
    have hskip := @follows_skip _ input isDigit pos hpos
    simp only [hrest] at hskip
    cases hd : isDigit d with
    | false => simp [hd, observe]
    | true => simpa [hd] using hskip

theorem takes_digits : Takes digits := by
  intro rest rest' h
  unfold digits at h
  split at h
  · simp at h
  · split at h
    · exact takes_dropWhile isDigit _ _ h
    · simp at h

theorem follows_whole : Follows input (wholeAt input) whole := by
  intro pos hpos
  unfold wholeAt
  cases hrest : input.drop pos with
  | nil =>
    have hend := le_of_drop_nil hrest
    have hstop : decide (pos < input.length) = false := by simp; omega
    rw [hstop]
    rfl
  | cons lead rest =>
    have hin := lt_of_drop hrest
    simp only [hin, decide_true, require_true, done_bind, read_drop hrest]
    by_cases hlead : lead = 48
    · subst hlead
      have hdone := @observe_drop _ input (pos + 1) hin
      rw [drop_succ hrest] at hdone
      exact hdone.symm
    · have hdigits := @follows_digits input pos hpos
      rw [hrest] at hdigits
      rw [if_neg (by simpa using hlead), hdigits]
      congr 1
      simp [whole, hlead]

theorem takes_whole : Takes whole := by
  intro rest rest' h
  unfold whole at h
  split at h
  · cases h
    exact List.suffix_cons 48 rest'
  · exact takes_digits _ _ h

theorem follows_fraction : Follows input (fractionAt input) fraction := by
  intro pos hpos
  unfold fractionAt
  rw [test_drop]
  have hdone := observe_drop hpos
  cases hrest : input.drop pos with
  | nil =>
    rw [hrest] at hdone
    exact hdone.symm
  | cons point rest =>
    by_cases hpoint : point = 46
    · subst hpoint
      have hdigits := @follows_digits input (pos + 1) (lt_of_drop hrest)
      rw [drop_succ hrest] at hdigits
      exact hdigits
    · have hskip : fraction (point :: rest) = some (point :: rest) := by simp [fraction, hpoint]
      rw [hrest] at hdone
      rw [hskip, hdone]
      simp [hpoint]

theorem takes_fraction : Takes fraction := by
  intro rest rest' h
  unfold fraction at h
  split at h
  · exact (takes_digits _ _ h).trans (List.suffix_cons _ _)
  · cases h
    exact List.suffix_refl _

/-- The digits after an exponent's letter and sign. -/
theorem digits_dropSign {pos : Nat} {e : UInt8} {rest : Bytes} (hrest : input.drop pos = e :: rest) :
    (do
      let signed ← test (fun b => b == 43 || b == 45) input (pos + 1)
      digitsAt input (if signed then pos + 2 else pos + 1)) =
      observe input (digits (dropSign rest)) := by
  have hin := lt_of_drop hrest
  have hnext := drop_succ hrest
  rw [test_drop, hnext]
  cases rest with
  | nil =>
    have hdigits := @follows_digits input (pos + 1) hin
    rw [hnext] at hdigits
    exact hdigits
  | cons sign rest =>
    by_cases hsign : sign = 43 ∨ sign = 45
    · have hdigits := @follows_digits input (pos + 2) (lt_of_drop hnext)
      rw [drop_succ hnext] at hdigits
      have hdrop : dropSign (sign :: rest) = rest := by
        rcases hsign with rfl | rfl <;> rfl
      have hset : ((sign :: rest).head?.any fun b => b == 43 || b == 45) = true := by
        simpa using hsign
      rw [hdrop, hset]
      exact hdigits
    · have hdigits := @follows_digits input (pos + 1) hin
      rw [hnext] at hdigits
      have hdrop : dropSign (sign :: rest) = sign :: rest := by
        simp only [not_or] at hsign
        simp [dropSign, hsign.1, hsign.2]
      have hset : ((sign :: rest).head?.any fun b => b == 43 || b == 45) = false := by
        simpa using hsign
      rw [hdrop, hset]
      exact hdigits

theorem follows_exponent : Follows input (exponentAt input) exponent := by
  intro pos hpos
  unfold exponentAt
  rw [test_drop]
  have hdone := observe_drop hpos
  cases hrest : input.drop pos with
  | nil =>
    rw [hrest] at hdone
    exact hdone.symm
  | cons e rest =>
    by_cases he : e = 101 ∨ e = 69
    · have hexp : exponent (e :: rest) = digits (dropSign rest) := by
        rcases he with rfl | rfl <;> rfl
      have hset : ((e :: rest).head?.any fun b => b == 101 || b == 69) = true := by simpa using he
      rw [hexp, hset]
      exact digits_dropSign hrest
    · have hexp : exponent (e :: rest) = some (e :: rest) := by
        simp only [not_or] at he
        simp [exponent, he.1, he.2]
      have hset : ((e :: rest).head?.any fun b => b == 101 || b == 69) = false := by simpa using he
      rw [hrest] at hdone
      rw [hexp, hset, hdone]
      rfl

theorem scanNumber_drop {pos : Nat} {c : UInt8} {rest : Bytes} (hrest : input.drop pos = c :: rest) :
    scanNumber input pos = observe input (number (c :: rest)) := by
  have hin := lt_of_drop hrest
  have hparts := (@follows_whole input).bind takes_whole follows_fraction
  have hall := hparts.bind (takes_whole.bind takes_fraction) follows_exponent
  have hstart : (if c == 45 then pos + 1 else pos) ≤ input.length ∧
      input.drop (if c == 45 then pos + 1 else pos) = dropMinus (c :: rest) := by
    by_cases hminus : c = 45
    · subst hminus
      exact ⟨hin, drop_succ hrest⟩
    · rw [if_neg (by simpa using hminus)]
      refine ⟨Nat.le_of_lt hin, ?_⟩
      rw [hrest]
      simp [dropMinus, hminus]
  have hread := hall _ hstart.1
  rw [hstart.2] at hread
  unfold scanNumber
  rw [read_drop hrest, done_bind]
  simpa [number, bind_assoc] using hread

end Numbers

/-! ## Values without parts -/

section Leaves

variable {input : Bytes}

theorem wordAt_drop (kind : TokenType) (text : Bytes) {pos : Nat} (hpos : pos ≤ input.length) :
    wordAt kind text input pos =
      ofOption ((word kind text (input.drop pos)).map (Prod.map id (input.length - ·.length))) := by
  unfold wordAt word
  by_cases htext : text <+: input.drop pos
  · have htake : (input.drop pos).take text.length = text := (List.prefix_iff_eq_take.mp htext).symm
    have hlen := htext.length_le
    rw [List.length_drop] at hlen
    rw [htake, if_pos (List.isPrefixOf_iff_prefix.mpr htext)]
    simp only [beq_self_eq_true, require_true, done_bind, Option.map_some, ofOption_some,
      Prod.map_apply, id_eq, List.drop_drop, List.length_drop]
    congr 2
    omega
  · have htake : ((input.drop pos).take text.length == text) = false := by
      rw [beq_eq_false_iff_ne]
      intro heq
      exact htext (List.prefix_iff_eq_take.mpr heq.symm)
    have hnot : ¬ text.isPrefixOf (input.drop pos) = true := by
      intro h
      exact htext (List.isPrefixOf_iff_prefix.mp h)
    rw [htake, if_neg hnot]
    rfl

theorem leafAt_drop {pos : Nat} {c : UInt8} {rest : Bytes} (hrest : input.drop pos = c :: rest) :
    leafAt input c pos =
      ofOption ((leaf (c :: rest)).map (Prod.map id (input.length - ·.length))) := by
  have hin := lt_of_drop hrest
  have hword : ∀ kind text, wordAt kind text input pos =
      ofOption ((word kind text (c :: rest)).map (Prod.map id (input.length - ·.length))) := by
    intro kind text
    rw [wordAt_drop kind text (Nat.le_of_lt hin), hrest]
  unfold leafAt
  by_cases hquote : c = 34
  · subst hquote
    have hclose := @closeStringAt_drop input (input.length - pos) (pos + 1) hin (by omega)
    rw [drop_succ hrest] at hclose
    rw [hclose]
    simp only [beq_self_eq_true, if_true, leaf]
    cases closeString rest with
    | none => rfl
    | some after => rfl
  by_cases ht : c = 116
  · subst ht
    exact hword .boolean wordTrue
  by_cases hf : c = 102
  · subst hf
    exact hword .boolean wordFalse
  by_cases hn : c = 110
  · subst hn
    exact hword .null wordNull
  have hleaf : leaf (c :: rest) = (number (c :: rest)).map (.number, ·) := by
    simp [leaf, hquote, ht, hf, hn]
  rw [if_neg (by simpa using hquote), if_neg (by simpa using ht), if_neg (by simpa using hf),
    if_neg (by simpa using hn), scanNumber_drop hrest, hleaf]
  cases number (c :: rest) with
  | none => rfl
  | some after => rfl

end Leaves

/-! ## Decoding strings -/

section Decode

variable {s : Bytes} {size : Nat}

/-- What `string` returns, `out` being written and `rest` being left. -/
def decoded (size : Nat) (out rest : Bytes) : Option Bytes :=
  ((unescape rest).map (out ++ ·)).filter fun s => decide (s.length < size)

theorem decoded_of_full {out : Bytes} (hfull : size ≤ out.length) (rest : Bytes) :
    decoded size out rest = none := by
  unfold decoded
  cases unescape rest with
  | none => rfl
  | some tail =>
    have hlong : ¬ (out ++ tail).length < size := by
      rw [List.length_append]
      omega
    rw [Option.map_some, Option.filter_some, if_neg (by simpa using hlong)]

theorem decoded_nil {out : Bytes} (hroom : out.length < size) : decoded size out [] = some out := by
  simp [decoded, unescape, Option.filter_some, hroom]

/-- One more character fits, or nothing does. -/
theorem decoded_cons {c : UInt8} {text rest : Bytes} (out : Bytes) {next : Outcome Bytes}
    (htext : unescape text = if c == 0 then none else (unescape rest).map (c :: ·))
    (hnext : out.length + 1 < size → next = ofOption (decoded size (out ++ [c]) rest)) :
    (do
      require (!(decide (size ≤ out.length + 1) || c == 0))
      next) = ofOption (decoded size out text) := by
  have hmap : c ≠ 0 → decoded size out text = decoded size (out ++ [c]) rest := by
    intro hc
    have hzero : (c == 0) = false := beq_eq_false_iff_ne.mpr hc
    unfold decoded
    rw [htext, hzero, if_neg Bool.false_ne_true, Option.map_map]
    congr 2
    funext tail
    simp
  by_cases hc : c = 0
  · have hnone : decoded size out text = none := by
      simp [decoded, htext, hc]
    rw [hnone, hc]
    simp
  rw [hmap hc, beq_eq_false_iff_ne.mpr hc, Bool.or_false]
  by_cases hfull : size ≤ out.length + 1
  · rw [decoded_of_full (by simpa using hfull), decide_eq_true hfull]
    rfl
  · rw [decide_eq_false hfull, hnext (by omega)]
    rfl

theorem lt_of_before_quote {i : Nat} {text : Bytes} (h : s.drop i = text ++ [34]) :
    i + text.length < s.length := by
  have hlen := congrArg List.length h
  simp only [List.length_drop, List.length_append, List.length_singleton] at hlen
  omega

/-- Between the quotes of a well-formed string the loop decodes what is left. -/
theorem unescapeAt_drop {rest out : Bytes} {fuel i : Nat} (h : Body rest)
    (hrest : s.drop i = rest ++ [34]) (hfuel : rest.length < fuel) (hroom : out.length < size) :
    unescapeAt s size fuel i out = ofOption (decoded size out rest) := by
  obtain ⟨fuel, rfl⟩ : ∃ n, fuel = n + 1 := ⟨fuel - 1, by omega⟩
  have hlen := lt_of_before_quote hrest
  induction h generalizing i out fuel with
  | nil =>
    have hend := le_of_drop_nil (drop_succ hrest)
    rw [unescapeAt, if_neg (by omega), decoded_nil hroom]
    rfl
  | @plain c rest low high quote slash _ ih =>
    have hnext : s.drop (i + 1) = rest ++ [34] := drop_succ hrest
    simp only [List.length_cons] at hfuel hlen
    have htext : unescape (c :: rest) = if c == 0 then none else (unescape rest).map (c :: ·) :=
      unescape.eq_5 _ _ (by grind) (by grind) (by grind)
    rw [unescapeAt, if_pos (by omega), read_drop hrest, done_bind, if_neg (by simpa using slash)]
    refine decoded_cons out htext fun hfits => ?_
    obtain ⟨fuel, rfl⟩ : ∃ n, fuel = n + 1 := ⟨fuel - 1, by omega⟩
    exact ih hnext (by simpa using hfits) fuel (by omega) (by omega)
  | @escape e rest he _ ih =>
    have hnext : s.drop (i + 2) = rest ++ [34] := drop_append [92, e] hrest
    simp only [List.length_cons] at hfuel hlen
    have hu : e ≠ 117 := by
      rintro rfl
      exact absurd he (by decide)
    have htext : unescape (92 :: e :: rest) =
        if escaped e == 0 then none else (unescape rest).map (escaped e :: ·) :=
      unescape.eq_3 _ _ (by grind)
    rw [unescapeAt, if_pos (by omega), read_drop hrest, done_bind, if_pos (beq_self_eq_true _),
      read_drop (drop_succ hrest), done_bind, if_neg (by simpa using hu)]
    refine decoded_cons out htext fun hfits => ?_
    obtain ⟨fuel, rfl⟩ : ∃ n, fuel = n + 1 := ⟨fuel - 1, by omega⟩
    exact ih hnext (by simpa using hfits) fuel (by omega) (by omega)
  | @unicode a b c d rest _ _ _ _ _ ih =>
    have hnext : s.drop (i + 6) = rest ++ [34] := drop_append [92, 117, a, b, c, d] hrest
    simp only [List.length_cons] at hfuel hlen
    have hu : s.drop (i + 1) = 117 :: a :: b :: c :: d :: (rest ++ [34]) := drop_succ hrest
    have h₂ : s.drop (i + 2) = a :: b :: c :: d :: (rest ++ [34]) := drop_succ hu
    have h₃ : s.drop (i + 3) = b :: c :: d :: (rest ++ [34]) := drop_succ h₂
    have h₄ : s.drop (i + 4) = c :: d :: (rest ++ [34]) := drop_succ h₃
    have h₅ : s.drop (i + 5) = d :: (rest ++ [34]) := drop_succ h₄
    rw [unescapeAt, if_pos (by omega), read_drop hrest, done_bind,
      if_pos (beq_self_eq_true _), read_drop hu, done_bind, if_pos (beq_self_eq_true _), read_drop h₂, done_bind, read_drop h₃, done_bind, read_drop h₄,
      done_bind, read_drop h₅, done_bind]
    have hcode : unescape (92 :: 117 :: a :: b :: c :: d :: rest) =
        if unicode a b c d == 0 || decide (127 < unicode a b c d) then none
        else (unescape rest).map (UInt8.ofNat (unicode a b c d) :: ·) := rfl
    by_cases hbad : (unicode a b c d == 0 || decide (127 < unicode a b c d)) = true
    · have hnone : decoded size out (92 :: 117 :: a :: b :: c :: d :: rest) = none := by
        rw [decoded, hcode, if_pos hbad]
        rfl
      rw [hnone]
      simp only [hbad]
      rfl
    · have hnot : (unicode a b c d == 0 || decide (127 < unicode a b c d)) = false := by
        simpa using hbad
      have hzero : (UInt8.ofNat (unicode a b c d) == 0) = false := by
        simp only [Bool.or_eq_false_iff, beq_eq_false_iff_ne, decide_eq_false_iff_not] at hnot
        rw [beq_eq_false_iff_ne]
        intro h0
        have hmod := congrArg UInt8.toNat h0
        simp only [UInt8.toNat_ofNat', UInt8.toNat_zero] at hmod
        omega
      have htext : unescape (92 :: 117 :: a :: b :: c :: d :: rest) =
          if UInt8.ofNat (unicode a b c d) == 0 then none
          else (unescape rest).map (UInt8.ofNat (unicode a b c d) :: ·) := by
        rw [hcode, if_neg hbad, hzero]
        rfl
      have hcons := @decoded_cons size _ _ _ out
        (unescapeAt s size fuel (i + 6) (out ++ [UInt8.ofNat (unicode a b c d)])) htext
        fun hfits => by
          obtain ⟨fuel, rfl⟩ : ∃ n, fuel = n + 1 := ⟨fuel - 1, by omega⟩
          exact ih hnext (by simpa using hfits) fuel (by omega) (by omega)
      have hflip : decide (out.length + 1 < size) = !decide (size ≤ out.length + 1) := by
        rw [← decide_not]
        exact decide_eq_decide.mpr (by omega)
      rw [← hcons, hzero, Bool.or_false]
      simp only [hnot, hflip]
      rfl

end Decode

/-- The tokens of strings cover well-formed strings. -/
def Strings (j : Json) : Prop :=
  ∀ tok ∈ j.tokens, tok.kind = .string → Leaf .string ((j.input.drop tok.start).take tok.size)

theorem stringAt_eq {j : Json} (hj : Strings j) {i : Nat} (hi : i < j.tokens.length) (size : Nat) :
    stringAt j i (size + 1) = ofOption (j.string (some i) (size + 1)) := by
  have hget : j.tokens[i]? = some j.tokens[i] := List.getElem?_eq_getElem hi
  have hslow : j.string (some i) (size + 1) =
      if j.tokens[i].kind == .string then
        decode (size + 1) ((j.input.drop j.tokens[i].start).take j.tokens[i].size)
      else none := by
    simp only [string, raw, Option.bind_some, hget]
  unfold stringAt
  rw [read_lt hi, done_bind, hslow]
  by_cases hkind : j.tokens[i].kind = .string
  · have hbeq : (j.tokens[i].kind == .string) = true := by simp [hkind]
    have hleaf := hj _ (List.getElem_mem hi) hkind
    rw [hbeq, if_pos rfl]
    generalize (j.input.drop j.tokens[i].start).take j.tokens[i].size = s at hleaf ⊢
    cases hleaf with
    | @string body hbody =>
      have hinner : (quoted body).drop 1 = body ++ [34] := rfl
      have hfuel : body.length < (quoted body).length := by
        simp [quoted]
      have hdone := @unescapeAt_drop (quoted body) (size + 1) body [] _ 1 hbody hinner hfuel (by simp)
      simp only [require_true, done_bind, hdone]
      congr 1
      simp [decoded, decode, quoted]
  · have hbeq : (j.tokens[i].kind == .string) = false := by simpa using hkind
    rw [hbeq, if_neg Bool.false_ne_true]
    rfl

/-! ## Values -/

/-- A parser's result: more tokens, and an unread rest of the same input. -/
structure Grows (j j' : Json) (rest' : Bytes) : Prop where
  input : j'.input = j.input
  tokens : j.tokens <+: j'.tokens
  strings : Strings j'
  rest : rest' <:+ j.input

theorem Grows.cursor {j j' : Json} {rest' : Bytes} (h : Grows j j' rest') :
    j'.input.drop (j.pos rest') = rest' ∧ j.pos rest' ≤ j'.input.length := by
  rw [h.input]
  exact ⟨drop_cursor h.rest, cursor_le rest'⟩

theorem Grows.trans {j j' j'' : Json} {rest' rest'' : Bytes} (h : Grows j j' rest')
    (h' : Grows j' j'' rest'') : Grows j j'' rest'' :=
  ⟨h'.input.trans h.input, h.tokens.trans h'.tokens, h'.strings, h.input ▸ h'.rest⟩

theorem Grows.skip {j j' : Json} {rest' rest'' : Bytes} (h : Grows j j' rest')
    (hsuf : rest'' <:+ rest') : Grows j j' rest'' :=
  ⟨h.input, h.tokens, h.strings, hsuf.trans h.rest⟩

theorem Grows.refl {j : Json} (hj : Strings j) {rest : Bytes} (hrest : rest <:+ j.input) :
    Grows j j rest :=
  ⟨rfl, List.prefix_refl _, hj, hrest⟩

def observed (j : Json) (r : Option (Json × Bytes)) : Outcome (Json × Nat) :=
  ofOption (r.map (Prod.map id j.pos))

/-- A parser by cursor and one by unread rest agree, and the latter adds a token. -/
structure Tracks (fast : Json → Nat → Outcome (Json × Nat))
    (slow : Json → Bytes → Option (Json × Bytes)) : Prop where
  result : ∀ (j : Json) (pos : Nat), pos ≤ j.input.length → Strings j →
    fast j pos = observed j (slow j (j.input.drop pos))
  grows : ∀ (j : Json) (rest : Bytes) (j' : Json) (rest' : Bytes), rest <:+ j.input → Strings j →
    slow j rest = some (j', rest') → Grows j j' rest' ∧ j.tokens.length < j'.tokens.length

theorem spaceAt_drop {input : Bytes} {pos : Nat} (hpos : pos ≤ input.length) :
    ∃ pos', spaceAt input pos = .done pos' ∧ pos' ≤ input.length ∧
      input.drop pos' = space (input.drop pos) := by
  have hskip := @follows_skip _ input isBlank pos hpos
  refine ⟨_, hskip, cursor_le _, drop_cursor ?_⟩
  exact (List.dropWhile_suffix _).trans (List.drop_suffix _ _)

theorem space_suffix (rest : Bytes) : space rest <:+ rest := List.dropWhile_suffix _

/-- The cursor after a character read. -/
theorem pos_after {j j' : Json} (hinput : j'.input = j.input) {n : Nat} {c : UInt8} {after : Bytes}
    (hdrop : j'.input.drop n = c :: after) : n + 1 = j.pos after := by
  have hlen := congrArg List.length hdrop
  rw [hinput] at hlen
  simp only [List.length_drop, List.length_cons] at hlen
  unfold pos
  omega

/-- A character is expected at the cursor. -/
theorem expect_drop {β : Type} {input : Bytes} {pos : Nat} (k : UInt8 → Outcome β) :
    (do
      require (decide (pos < input.length))
      let c ← read input pos
      k c) = match input.drop pos with
        | [] => .rejected
        | c :: _ => k c := by
  cases hrest : input.drop pos with
  | nil =>
    have hend := le_of_drop_nil hrest
    have hstop : decide (pos < input.length) = false := by simp; omega
    rw [hstop]
    rfl
  | cons c rest =>
    rw [decide_eq_true (lt_of_drop hrest), read_drop hrest]
    rfl

theorem newName_eq {j : Json} (hj : Strings j) {stop fuel i : Nat} {name : Bytes}
    (hstop : stop < j.tokens.length) :
    newName j stop name fuel i =
      if (keyTokens j.tokens stop fuel i).all (fun i => (j.string (some i) 80).any (· != name))
        then .done () else .rejected := by
  induction fuel generalizing i with
  | zero => rfl
  | succ fuel ih =>
    unfold newName keyTokens
    by_cases hi : i < stop
    · have hnext : i + 1 < j.tokens.length := by omega
      rw [if_pos hi, if_pos hi, stringAt_eq hj (by omega) 79, read_lt hnext,
        List.getElem?_eq_getElem hnext]
      cases hname : j.string (some i) 80 with
      | none => simp [hname]
      | some prev =>
        cases hne : prev != name with
        | false => simp [hname, hne]
        | true => simp [hname, hne, ih]
    · rw [if_neg hi, if_neg hi]
      rfl

section Members

variable {fast : Json → Nat → Outcome (Json × Nat)} {slow : Json → Bytes → Option (Json × Bytes)}

theorem key_tracks (h : Tracks fast slow) (t : Nat) : Tracks (keyAt fast t) (key slow t) := by
  constructor
  · intro j pos hpos hj
    obtain ⟨start, hspace, hstart, hdrop⟩ := spaceAt_drop hpos
    unfold keyAt key
    rw [hspace, done_bind, test_drop, done_bind, hdrop]
    by_cases hquote : (space (j.input.drop pos)).head? = some 34
    · have hset : ((space (j.input.drop pos)).head?.any (· == 34)) = true := by
        rw [hquote]
        rfl
      have hgo : ¬ ((space (j.input.drop pos)).head? != some 34) = true := by simp [hquote]
      have hvalue := h.result j start hstart hj
      rw [hdrop] at hvalue
      rw [hset, require_true, done_bind, if_neg hgo, hvalue]
      cases hslow : slow j (space (j.input.drop pos)) with
      | none => rfl
      | some r =>
        obtain ⟨j', rest'⟩ := r
        have hsuf : space (j.input.drop pos) <:+ j.input :=
          (space_suffix _).trans (List.drop_suffix _ _)
        obtain ⟨hgrows, hmore⟩ := h.grows j _ j' rest' hsuf hj hslow
        obtain ⟨hcursor, hin⟩ := hgrows.cursor
        obtain ⟨colon, hspace', -, hdrop'⟩ := spaceAt_drop hin
        rw [hcursor] at hdrop'
        simp only [observed, Option.map_some, ofOption_some, done_bind, Prod.map_apply, id_eq]
        rw [stringAt_eq hgrows.strings hmore 79]
        cases hname : j'.string (some j.tokens.length) 80 with
        | none => rfl
        | some name =>
          simp only [ofOption_some, done_bind]
          rw [newName_eq hgrows.strings hmore, hspace']
          split
          · rename_i hnew
            simp only [done_bind]
            rw [expect_drop, hdrop']
            cases hrest : space rest' with
            | nil => rfl
            | cons c after =>
              by_cases hc : c = 58
              · subst hc
                have hpos' := pos_after hgrows.input (hdrop'.trans hrest)
                simp [hpos']
              · have hno : (c == 58) = false := by simpa using hc
                simp only [hno]
                split
                · rename_i heq
                  exact (hc (List.cons.inj heq).1).elim
                · rfl
          · rfl
    · have hset : ((space (j.input.drop pos)).head?.any (· == 34)) = false := by
        cases hhead : (space (j.input.drop pos)).head? with
        | none => rfl
        | some c =>
          rw [hhead] at hquote
          simpa using hquote
      have hstop : ((space (j.input.drop pos)).head? != some 34) = true := by simpa using hquote
      rw [hset, hstop]
      rfl
  · intro j rest j' rest' hrest hj hkey
    unfold key at hkey
    split at hkey
    · simp at hkey
    · cases hslow : slow j (space rest) with
      | none => simp [hslow] at hkey
      | some r =>
        obtain ⟨j₁, rest₁⟩ := r
        obtain ⟨hgrows, hmore⟩ := h.grows j _ j₁ rest₁ ((space_suffix _).trans hrest) hj hslow
        simp only [hslow] at hkey
        split at hkey
        · simp at hkey
        · split at hkey
          · split at hkey
            · rename_i after hcolon
              obtain ⟨rfl, rfl⟩ : j₁ = j' ∧ after = rest' := by simpa using hkey
              have htail : after <:+ space rest₁ := by
                rw [hcolon]
                exact List.suffix_cons _ _
              exact ⟨hgrows.skip (htail.trans (space_suffix _)), hmore⟩
            · simp at hkey
          · simp at hkey

/-- The key in front of a value, in an object. -/
theorem label_result (h : Tracks fast slow) (t : Nat) (kind : TokenType) {j : Json} {pos : Nat}
    (hpos : pos ≤ j.input.length) (hj : Strings j) :
    (if kind == .object then keyAt fast t j pos else .done (j, pos)) =
      observed j (if kind == .object then key slow t j (j.input.drop pos)
        else some (j, j.input.drop pos)) := by
  by_cases hkind : (kind == .object) = true
  · rw [if_pos hkind, if_pos hkind]
    exact (key_tracks h t).result j pos hpos hj
  · rw [if_neg hkind, if_neg hkind]
    have hback : j.pos (j.input.drop pos) = pos := by
      unfold Json.pos
      rw [List.length_drop]
      omega
    simp [observed, hback]

theorem label_grows (h : Tracks fast slow) (t : Nat) (kind : TokenType) {j j' : Json}
    {rest rest' : Bytes} (hrest : rest <:+ j.input) (hj : Strings j)
    (hlabel : (if kind == .object then key slow t j rest else some (j, rest)) = some (j', rest')) :
    Grows j j' rest' := by
  split at hlabel
  · exact ((key_tracks h t).grows j rest j' rest' hrest hj hlabel).1
  · obtain ⟨rfl, rfl⟩ : j = j' ∧ rest = rest' := by simpa using hlabel
    exact .refl hj hrest

theorem members_tracks (h : Tracks fast slow) (t : Nat) (kind : TokenType) (fuel : Nat) :
    Tracks (membersAt fast t kind fuel) (members slow t kind fuel) := by
  induction fuel with
  | zero =>
    constructor
    · intro j pos _ _
      rfl
    · intro j rest j' rest' _ _ hnone
      simp [members] at hnone
  | succ fuel ih =>
    constructor
    · intro j pos hpos hj
      have hlabel := label_result h t kind hpos hj
      unfold membersAt members
      rw [hlabel]
      cases hkey : (if kind == .object then key slow t j (j.input.drop pos)
          else some (j, j.input.drop pos)) with
      | none => rfl
      | some r =>
        obtain ⟨j₁, rest₁⟩ := r
        have hgrows₁ := label_grows h t kind (List.drop_suffix pos j.input) hj hkey
        obtain ⟨hcursor₁, hin₁⟩ := hgrows₁.cursor
        have hvalue := h.result j₁ (j.pos rest₁) hin₁ hgrows₁.strings
        rw [hcursor₁] at hvalue
        simp only [observed, Option.map_some, ofOption_some, done_bind, Prod.map_apply, id_eq]
        rw [hvalue]
        cases hslow : slow j₁ rest₁ with
        | none => rfl
        | some r =>
          obtain ⟨j₂, rest₂⟩ := r
          have hsuf₁ : rest₁ <:+ j₁.input := hgrows₁.input ▸ hgrows₁.rest
          obtain ⟨hgrows₂, -⟩ := h.grows j₁ rest₁ j₂ rest₂ hsuf₁ hgrows₁.strings hslow
          obtain ⟨hcursor₂, hin₂⟩ := hgrows₂.cursor
          have hgrows := hgrows₁.trans hgrows₂
          obtain ⟨stop, hspace, -, hdrop⟩ := spaceAt_drop hin₂
          rw [hcursor₂] at hdrop
          simp only [observed, Option.map_some, ofOption_some, done_bind, Prod.map_apply, id_eq]
          rw [hspace, done_bind, expect_drop, hdrop]
          cases hrest : space rest₂ with
          | nil => rfl
          | cons next after =>
            have hpos' := pos_after hgrows.input (hdrop.trans hrest)
            by_cases hclose : (next == kind.closing) = true
            · simp only [hclose, if_true, hpos']
              rfl
            · by_cases hcomma : next = 44
              · have hyes : (next == 44) = true := by simpa using hcomma
                have hno : ¬ (next != 44) = true := by simpa using hcomma
                have hafter : after <:+ j₂.input := by
                  have htail : after <:+ space rest₂ := by
                    rw [hrest]
                    exact List.suffix_cons _ _
                  exact (htail.trans (space_suffix _)).trans (hgrows₂.input ▸ hgrows₂.rest)
                have hgo := ih.result j₂ (stop + 1)
                  (lt_of_drop (hdrop.trans hrest)) hgrows.strings
                rw [drop_succ (hdrop.trans hrest)] at hgo
                simp only [if_neg hclose, hyes, require_true, done_bind, if_neg hno, hgo]
                unfold observed Json.pos
                rw [hgrows.input]
              · have hno : (next == 44) = false := by simpa using hcomma
                have hyes : (next != 44) = true := by simpa using hcomma
                simp only [if_neg hclose, hno, hyes, if_true]
                rfl
    · intro j rest j' rest' hrest hj hmembers
      unfold members at hmembers
      split at hmembers
      · simp at hmembers
      · rename_i j₁ rest₁ hkey
        have hgrows₁ := label_grows h t kind hrest hj hkey
        have hsuf₁ : rest₁ <:+ j₁.input := hgrows₁.input ▸ hgrows₁.rest
        split at hmembers
        · simp at hmembers
        · rename_i j₂ rest₂ hslow
          obtain ⟨hgrows₂, hmore⟩ := h.grows j₁ rest₁ j₂ rest₂ hsuf₁ hgrows₁.strings hslow
          have hgrows := hgrows₁.trans hgrows₂
          have hlen := hgrows₁.tokens.length_le
          split at hmembers
          · simp at hmembers
          · rename_i next after hspace
            have htail : after <:+ rest₂ := by
              have hcons : after <:+ space rest₂ := by
                rw [hspace]
                exact List.suffix_cons _ _
              exact hcons.trans (space_suffix _)
            split at hmembers
            · obtain ⟨rfl, rfl⟩ : j₂ = j' ∧ after = rest' := by simpa using hmembers
              exact ⟨hgrows.skip htail, by omega⟩
            · split at hmembers
              · simp at hmembers
              · have hafter : after <:+ j₂.input := htail.trans (hgrows₂.input ▸ hgrows₂.rest)
                obtain ⟨hlast, hmore'⟩ := ih.grows j₂ after j' rest' hafter hgrows.strings hmembers
                exact ⟨hgrows.trans hlast, by omega⟩

theorem container_result (h : Tracks fast slow) (t : Nat) (kind : TokenType) {j : Json} {pos : Nat}
    (hpos : pos ≤ j.input.length) (hj : Strings j) :
    containerAt fast t kind j pos = observed j (container slow t kind j (j.input.drop pos)) := by
  obtain ⟨start, hspace, hstart, hdrop⟩ := spaceAt_drop hpos
  have hmembers := (members_tracks h t kind (j.input.length - pos + 1)).result j start hstart hj
  unfold containerAt container
  rw [hspace, done_bind, test_drop, done_bind, hmembers, hdrop, List.length_drop]
  cases hrest : space (j.input.drop pos) with
  | nil => rfl
  | cons c after =>
    have hpos' := pos_after (j := j) rfl (hdrop.trans hrest)
    by_cases hclose : c = kind.closing
    · simp [hclose, hpos', observed]
    · simp [hclose]

theorem container_grows (h : Tracks fast slow) {t : Nat} {kind : TokenType} {j j' : Json}
    {rest rest' : Bytes} (hrest : rest <:+ j.input) (hj : Strings j)
    (hcontainer : container slow t kind j rest = some (j', rest')) : Grows j j' rest' := by
  have hspace : space rest <:+ j.input := (space_suffix _).trans hrest
  unfold container at hcontainer
  split at hcontainer
  · obtain ⟨rfl, rfl⟩ : j = j' ∧ (space rest).tail = rest' := by simpa using hcontainer
    exact .refl hj ((List.tail_suffix _).trans hspace)
  · exact ((members_tracks h t kind _).grows j _ j' rest' hspace hj hcontainer).1

end Members

section Tokens

variable {j j' : Json}

theorem strings_push (hj : Strings j) {tok : Token}
    (htok : tok.kind = .string → Leaf .string ((j.input.drop tok.start).take tok.size)) :
    Strings (j.push tok) := by
  intro tok' hmem hkind
  rcases List.mem_append.mp hmem with hold | hnew
  · exact hj tok' hold hkind
  · obtain rfl : tok' = tok := by simpa using hnew
    exact htok hkind

/-- Closing the container pushed at `j` leaves the tokens before it. -/
theorem tokens_close {tok : Token} (h : (j.push tok).tokens <+: j'.tokens) (rest : Bytes) :
    ∃ tok' more, (j'.close j.tokens.length rest).tokens = j.tokens ++ tok' :: more ∧
      tok'.kind = tok.kind ∧ ∀ m ∈ more, m ∈ j'.tokens := by
  obtain ⟨more, hmore⟩ := h
  have htokens : j'.tokens = j.tokens ++ tok :: more := by
    rw [← hmore]
    simp [push]
  refine ⟨{ tok with size := j'.pos rest - tok.start, after := j'.tokens.length }, more, ?_, rfl, ?_⟩
  · simp only [close, htokens]
    exact modify_length_append _ _ _ _
  · intro m hm
    rw [htokens]
    exact List.mem_append_right _ (List.mem_cons_of_mem _ hm)

theorem grows_close {kind : TokenType} (hkind : kind ≠ .string) {start : Nat} {rest' : Bytes}
    (hj : Strings j) (h : Grows (j.push ⟨start, 0, 0, kind⟩) j' rest') :
    Grows j (j'.close j.tokens.length rest') rest' ∧
      j.tokens.length < (j'.close j.tokens.length rest').tokens.length := by
  obtain ⟨tok', more, htokens, hkind', hmore⟩ := tokens_close h.tokens rest'
  refine ⟨⟨h.input, ⟨tok' :: more, htokens.symm⟩, ?_, h.rest⟩, ?_⟩
  · intro m hmem hstring
    have hinput : (j'.close j.tokens.length rest').input = j'.input := rfl
    rw [htokens] at hmem
    rw [hinput]
    rcases List.mem_append.mp hmem with hold | hnew
    · have hpush : j'.input = j.input := h.input
      rw [hpush]
      exact hj m hold hstring
    · rcases List.mem_cons.mp hnew with rfl | hlater
      · exact absurd (hkind'.symm.trans hstring) hkind
      · exact h.strings m (hmore m hlater) hstring
  · rw [htokens, List.length_append, List.length_cons]
    omega

end Tokens

theorem value_tracks (level : Nat) : Tracks (valueAt level) (value level) := by
  induction level with
  | zero =>
    constructor
    · intro j pos hpos _
      obtain ⟨start, hspace, -⟩ := spaceAt_drop hpos
      unfold valueAt
      rw [hspace]
      rfl
    · intro j rest j' rest' _ _ hnone
      simp [value] at hnone
  | succ level ih =>
    constructor
    · intro j pos hpos hj
      obtain ⟨start, hspace, hstart, hdrop⟩ := spaceAt_drop hpos
      unfold valueAt value
      rw [hspace, done_bind]
      cases hrest : space (j.input.drop pos) with
      | nil =>
        rw [hrest] at hdrop
        have hend := le_of_drop_nil hdrop
        have hstop : decide (start < j.input.length) = false := by simp; omega
        rw [hstop]
        rfl
      | cons c rest =>
        rw [hrest] at hdrop
        have hin := lt_of_drop hdrop
        rw [decide_eq_true hin, read_drop hdrop]
        by_cases hfull : 160 ≤ j.tokens.length
        · rw [decide_eq_false (by omega)]
          simp [hfull, observed]
        · have hback : j.pos (c :: rest) = start := by
            rw [← hdrop]
            unfold Json.pos
            rw [List.length_drop]
            omega
          rw [decide_eq_true (by omega : j.tokens.length < 160)]
          simp only [Bool.and_self, require_true, done_bind, List.isEmpty_cons, Bool.false_or,
            decide_eq_true_eq, if_neg hfull, List.head?_cons, Option.some_beq_some, List.tail_cons,
            hback]
          by_cases hopen : (c == 123 || c == 91) = true
          · rw [if_pos hopen, if_pos hopen]
            change _ = observed j ((container (value level) j.tokens.length
              (if (c == 123) = true then .object else .array)
              (j.push ⟨start, 0, 0, if (c == 123) = true then .object else .array⟩) rest).map
                fun r => (r.1.close j.tokens.length r.2, r.2))
            generalize hkind : (if (c == 123) = true then TokenType.object else TokenType.array) = kind
            have hno : kind ≠ .string := by
              rw [← hkind]
              split <;> decide
            have hpush : Strings (j.push ⟨start, 0, 0, kind⟩) :=
              strings_push hj fun hstring => absurd hstring hno
            have hcontainer := container_result ih j.tokens.length kind
              (j := j.push ⟨start, 0, 0, kind⟩) hin hpush
            have hinput : (j.push ⟨start, 0, 0, kind⟩).input = j.input := rfl
            rw [hinput, drop_succ hdrop] at hcontainer
            rw [hcontainer]
            cases hslow : container (value level) j.tokens.length kind
                (j.push ⟨start, 0, 0, kind⟩) rest with
            | none => rfl
            | some r =>
              obtain ⟨j', rest'⟩ := r
              have hsuf : rest <:+ j.input := by
                rw [← drop_succ hdrop]
                exact List.drop_suffix _ _
              have hgrows := container_grows ih (j := j.push ⟨start, 0, 0, kind⟩) hsuf hpush hslow
              have hsame : j'.closeAt j.tokens.length (j.pos rest') =
                  j'.close j.tokens.length rest' := by
                have hpos' : j'.pos rest' = j.pos rest' := by
                  unfold Json.pos
                  rw [hgrows.input, hinput]
                simp only [closeAt, close, hpos']
              simp only [observed, Option.map_some, ofOption_some, Prod.map_apply, id_eq, done_bind]
              rw [← hsame]
              rfl
          · rw [if_neg hopen, if_neg hopen, leafAt_drop hdrop]
            cases hleaf : leaf (c :: rest) with
            | none => rfl
            | some r =>
              obtain ⟨kind, after⟩ := r
              obtain ⟨text, htext, hsplit⟩ := leaf_sound hleaf
              have hsize : j.input.length - after.length - start =
                  (c :: rest).length - after.length := by
                have hlen := congrArg List.length hdrop
                rw [List.length_drop] at hlen
                omega
              simp only [Option.map_some, ofOption_some, Prod.map_apply, id_eq, done_bind, observed,
                hsize]
              rfl
    · intro j rest j' rest' hrest hj hvalue
      have hsuf : space rest <:+ j.input := (space_suffix _).trans hrest
      unfold value at hvalue
      simp only at hvalue
      split at hvalue
      · simp at hvalue
      · split at hvalue
        · rename_i hopen
          obtain ⟨⟨j₁, rest₁⟩, hcontainer, hsame⟩ := Option.map_eq_some_iff.mp hvalue
          obtain ⟨rfl, rfl⟩ : j₁.close j.tokens.length rest₁ = j' ∧ rest₁ = rest' := by
            simpa using hsame
          have hno : (if (space rest).head? == some 123 then TokenType.object
              else TokenType.array) ≠ .string := by
            split <;> decide
          have hpush : Strings (j.push ⟨j.pos (space rest), 0, 0,
              if (space rest).head? == some 123 then .object else .array⟩) :=
            strings_push hj fun hstring => absurd hstring hno
          have hgrows := container_grows (j := j.push ⟨j.pos (space rest), 0, 0,
            if (space rest).head? == some 123 then .object else .array⟩) ih
            ((List.tail_suffix _).trans hsuf) hpush hcontainer
          exact grows_close hno hj hgrows
        · obtain ⟨⟨kind, after⟩, hleaf, hsame⟩ := Option.map_eq_some_iff.mp hvalue
          obtain ⟨text, htext, hsplit⟩ := leaf_sound hleaf
          simp only [Prod.mk.injEq] at hsame
          obtain ⟨rfl, rfl⟩ := hsame
          have hafter : after <:+ space rest := by
            rw [hsplit]
            exact List.suffix_append _ _
          refine ⟨⟨rfl, List.prefix_append _ _, strings_push hj fun hstring => ?_,
            hafter.trans hsuf⟩, by simp [push]⟩
          have hcursor := drop_cursor hsuf
          have hsize : (space rest).length - after.length = text.length := by
            rw [hsplit, List.length_append]
            omega
          have hkind : kind = .string := hstring
          simp only [hsize]
          unfold Json.pos
          rw [hcursor, hsplit, List.take_left]
          exact hkind ▸ htext

/-- `parse` by cursor never reads outside, and gives what `parse` does. -/
theorem parseAt_eq (input : Bytes) : parseAt input = ofOption (parse input) := by
  have hempty : Strings { input } := by
    intro tok htok
    simp at htok
  unfold parseAt parse
  by_cases hsize : (input.isEmpty || decide (2048 < input.length)) = true
  · rw [hsize]
    rfl
  · have hvalue := (value_tracks 9).result { input } 0 (Nat.zero_le _) hempty
    rw [List.drop_zero] at hvalue
    rw [if_neg hsize, hvalue]
    have hno : (input.isEmpty || decide (2048 < input.length)) = false := by simpa using hsize
    rw [hno]
    cases hslow : value 9 { input } input with
    | none => rfl
    | some r =>
      obtain ⟨j', rest'⟩ := r
      obtain ⟨hgrows, -⟩ :=
        (value_tracks 9).grows { input } input j' rest' (List.suffix_refl _) hempty hslow
      obtain ⟨hcursor, hin⟩ := hgrows.cursor
      obtain ⟨stop, hspace, hstop, hdrop⟩ := spaceAt_drop hin
      rw [hcursor] at hdrop
      have hinput : j'.input = input := hgrows.input
      simp only [Bool.not_false, require_true, done_bind, observed, Option.map_some, ofOption_some,
        Prod.map_apply, id_eq]
      rw [hspace, done_bind]
      have hend : (stop == input.length) = (space rest' == []) := by
        rw [← hdrop, Bool.eq_iff_iff]
        simp only [beq_iff_eq, List.drop_eq_nil_iff]
        rw [hinput] at hstop ⊢
        omega
      rw [hend]
      cases hlast : (space rest' == []) with
      | false => simp
      | true => simp

/-! ## Acceptance -/

theorem text_nonempty {d : Document} (ok : d.Ok) : 1 ≤ d.text.length := by
  obtain ⟨c, tail, hc, -⟩ := (regular 9).starts d.root ok.root
  rw [Document.text, hc]
  simp only [List.length_append, List.length_cons]
  omega

/-- `parse` accepts the texts of well-formed documents and no others, leaves each one's tokens in
order, looks up its members, and reads nothing outside its input. -/
theorem parse_accepts_exactly (input : Bytes) :
    ((parse input).isSome = true ↔ 1 ≤ input.length ∧ ∃ d : Document, d.Ok ∧ d.text = input) ∧
    (∀ d : Document, d.Ok → d.text = input → parse input = some d.json ∧
      (∀ o ms, (o, ms) ∈ d.objects → ReadsMembers d.json o ms) ∧
      ∀ o, (∀ ms, (o, ms) ∉ d.objects) → ∀ key, d.json.member o key = none) ∧
    parseAt input = ofOption (parse input) := by
  have haccept : ∀ d : Document, d.Ok → d.text = input → parse input = some d.json :=
    fun d ok htext => parse_eq_some.mpr ⟨d, ok, htext.symm, rfl⟩
  refine ⟨⟨fun h => ?_, ?_⟩, fun d ok htext => ?_, parseAt_eq input⟩
  · obtain ⟨j, hj⟩ := Option.isSome_iff_exists.mp h
    obtain ⟨d, ok, htext, -⟩ := parse_eq_some.mp hj
    exact ⟨htext ▸ text_nonempty ok, d, ok, htext.symm⟩
  · rintro ⟨-, d, ok, htext⟩
    rw [haccept d ok htext]
    rfl
  · refine ⟨haccept d ok htext, fun o ms hmem => Document.reads ok hmem, fun o hnone key => ?_⟩
    exact Document.member_none ok hnone key

end Hound.Json
