import Hound.Json.Reader

/-!
# Scanning blanks, strings, words and numbers

Each scanner takes exactly one leaf of the grammar off the front of the input,
and takes every leaf that something delimits.
-/

namespace Hound.Json

open JsonTree

/-! ## Blanks -/

/-- What may follow a value or a key: nothing, a blank, a comma, a colon or a
closing bracket. -/
def Delimited (rest : Bytes) : Prop :=
  ∀ b, rest.head? = some b → isBlank b = true ∨ b = 44 ∨ b = 58 ∨ b = 93 ∨ b = 125

theorem space_split (rest : Bytes) :
    ∃ blank, Blank blank ∧ rest = blank ++ space rest := by
  refine ⟨rest.takeWhile isBlank, fun b hb => List.mem_takeWhile_imp hb, ?_⟩
  exact (List.takeWhile_append_dropWhile).symm

theorem space_blank {blank rest : Bytes} (h : Blank blank)
    (hrest : ∀ b, rest.head? = some b → isBlank b = false) : space (blank ++ rest) = rest := by
  induction blank with
  | nil =>
    cases rest with
    | nil => rfl
    | cons b rest =>
      have hb := hrest b rfl
      simp [space, hb]
  | cons b blank ih =>
    have hb := h b List.mem_cons_self
    have htail := ih fun c hc => h c (List.mem_cons_of_mem _ hc)
    simpa [space, hb] using htail

theorem space_all_blank {blank : Bytes} (h : Blank blank) : space blank = [] := by
  simpa using space_blank h fun b (hb : [].head? = some b) => nomatch hb

theorem blank_nil : Blank [] := fun _ hb => nomatch hb

theorem delimited_nil : Delimited [] := fun _ h => nomatch h

theorem delimited_cons {b : UInt8} (h : b = 44 ∨ b = 58 ∨ b = 93 ∨ b = 125) (rest : Bytes) :
    Delimited (b :: rest) := by
  intro c hc
  obtain rfl : b = c := by simpa using hc
  exact .inr h

theorem delimited_blank {blank rest : Bytes} (h : Blank blank) (hrest : Delimited rest) :
    Delimited (blank ++ rest) := by
  cases blank with
  | nil => exact hrest
  | cons b blank =>
    intro c hc
    obtain rfl : b = c := by simpa using hc
    exact .inl (h b List.mem_cons_self)

/-! ## Strings -/

theorem closeString_sound {s rest : Bytes} (h : closeString s = some rest) :
    ∃ body, Body body ∧ s = body ++ 34 :: rest := by
  fun_induction closeString s with
  | case1 => simp at h
  | case2 tail =>
    obtain rfl : tail = rest := by simpa using h
    exact ⟨[], .nil, rfl⟩
  | case3 a b c d tail hhex ih =>
    obtain ⟨body, hbody, rfl⟩ := ih h
    simp only [Bool.and_eq_true] at hhex
    exact ⟨_, .unicode hhex.1.1.1 hhex.1.1.2 hhex.1.2 hhex.2 hbody, rfl⟩
  | case4 => simp at h
  | case5 e tail _ hescape ih =>
    obtain ⟨body, hbody, rfl⟩ := ih h
    exact ⟨_, .escape hescape hbody, rfl⟩
  | case6 => simp at h
  | case7 => simp at h
  | case8 x tail hquote _ _ hx ih =>
    obtain ⟨body, hbody, rfl⟩ := ih h
    simp only [Bool.or_eq_true, decide_eq_true_eq, beq_iff_eq, not_or] at hx
    obtain ⟨⟨hlow, hhigh⟩, hslash⟩ := hx
    exact ⟨x :: body, .plain (by grind) (by grind) hquote hslash hbody, rfl⟩

theorem closeString_complete {body : Bytes} (h : Body body) (rest : Bytes) :
    closeString (body ++ 34 :: rest) = some rest := by
  induction h with
  | nil => rfl
  | @plain c tail low high quote slash _ ih =>
    have hbad : ¬ ((c < 32 ∨ 128 ≤ c) ∨ (c == 92) = true) := by
      rintro ((hlt | hle) | heq)
      · grind
      · grind
      · exact slash (by simpa using heq)
    rw [List.cons_append, closeString.eq_5 _ _ quote (by grind) (by grind), if_neg (by simpa using hbad)]
    exact ih
  | @escape e tail he _ ih =>
    have hu : e ≠ 117 := by
      rintro rfl
      exact absurd he (by decide)
    rw [List.cons_append, List.cons_append, closeString.eq_4 _ _ (by grind), if_pos he]
    exact ih
  | unicode ha hb hc hd _ ih =>
    simp only [List.cons_append, closeString, ha, hb, hc, hd, Bool.and_self, if_true]
    exact ih

/-! ## Numbers -/

/-- No digit comes next. -/
def Stopped (rest : Bytes) : Prop := ∀ b, rest.head? = some b → isDigit b = false

theorem dropWhile_digits {ds rest : Bytes} (h : ∀ b ∈ ds, isDigit b = true) (hrest : Stopped rest) :
    (ds ++ rest).dropWhile isDigit = rest := by
  induction ds with
  | nil =>
    cases rest with
    | nil => rfl
    | cons b rest => simp [hrest b rfl]
  | cons d ds ih =>
    have hd := h d List.mem_cons_self
    have htail := ih fun b hb => h b (List.mem_cons_of_mem _ hb)
    simpa [hd] using htail

theorem digits_sound {s rest : Bytes} (h : digits s = some rest) :
    ∃ ds, Digits ds ∧ s = ds ++ rest := by
  cases s with
  | nil => simp [digits] at h
  | cons d tail =>
    cases hd : isDigit d with
    | false => simp [digits, hd] at h
    | true =>
      have hrest : (d :: tail).dropWhile isDigit = rest := by
        simpa [digits, hd] using h
      have htake : (d :: tail).takeWhile isDigit = d :: tail.takeWhile isDigit := by
        simp [hd]
      refine ⟨(d :: tail).takeWhile isDigit, ⟨by simp [htake], fun b hb => ?_⟩, ?_⟩
      · exact List.mem_takeWhile_imp hb
      · rw [← hrest]
        exact (List.takeWhile_append_dropWhile).symm

theorem digits_complete {ds rest : Bytes} (h : Digits ds) (hrest : Stopped rest) :
    digits (ds ++ rest) = some rest := by
  obtain ⟨hne, hall⟩ := h
  cases ds with
  | nil => exact absurd rfl hne
  | cons d tail =>
    have hd := hall d List.mem_cons_self
    have hdrop := dropWhile_digits hall hrest
    simp only [List.cons_append] at hdrop ⊢
    simp [digits, hd, hdrop]

theorem whole_sound {s rest : Bytes} (h : whole s = some rest) : ∃ w, Whole w ∧ s = w ++ rest := by
  unfold whole at h
  split at h
  · rename_i tail
    obtain rfl : tail = rest := by simpa using h
    exact ⟨[48], .inl rfl, rfl⟩
  · rename_i hzero
    obtain ⟨ds, hds, rfl⟩ := digits_sound h
    refine ⟨ds, .inr ⟨hds, fun hhead => ?_⟩, rfl⟩
    cases ds with
    | nil => simp at hhead
    | cons d tail =>
      obtain rfl : d = 48 := by simpa using hhead
      exact hzero _ rfl

theorem whole_complete {w rest : Bytes} (h : Whole w) (hrest : Stopped rest) :
    whole (w ++ rest) = some rest := by
  rcases h with rfl | ⟨hds, hhead⟩
  · rfl
  · have hdigits := digits_complete hds hrest
    unfold whole
    split
    · rename_i tail heq
      cases w with
      | nil => exact absurd rfl hds.1
      | cons d ds =>
        obtain rfl : d = 48 := (List.cons.inj heq).1
        exact absurd rfl hhead
    · exact hdigits

theorem fraction_sound {s rest : Bytes} (h : fraction s = some rest) :
    ∃ f, Fraction f ∧ s = f ++ rest := by
  unfold fraction at h
  split at h
  · obtain ⟨ds, hds, rfl⟩ := digits_sound h
    exact ⟨46 :: ds, .inr ⟨ds, rfl, hds⟩, rfl⟩
  · obtain rfl := Option.some.inj h
    exact ⟨[], .inl rfl, rfl⟩

theorem fraction_complete {f rest : Bytes} (h : Fraction f) (hrest : Stopped rest)
    (hdot : rest.head? ≠ some 46) : fraction (f ++ rest) = some rest := by
  rcases h with rfl | ⟨ds, rfl, hds⟩
  · unfold fraction
    split
    · rename_i tail heq
      simp only [List.nil_append] at heq
      exact absurd (by rw [heq]; rfl) hdot
    · rfl
  · exact digits_complete hds hrest

theorem dropSign_split (s : Bytes) : ∃ sign, (Sign sign ∨ sign = [43]) ∧ s = sign ++ dropSign s := by
  unfold dropSign
  split
  · exact ⟨[43], .inr rfl, rfl⟩
  · exact ⟨[45], .inl (.inr rfl), rfl⟩
  · exact ⟨[], .inl (.inl rfl), rfl⟩

theorem dropSign_append {sign ds : Bytes} (h : Sign sign ∨ sign = [43]) (hds : Digits ds)
    (rest : Bytes) : dropSign (sign ++ (ds ++ rest)) = ds ++ rest := by
  rcases h with (rfl | rfl) | rfl
  · obtain ⟨hne, hall⟩ := hds
    cases ds with
    | nil => exact absurd rfl hne
    | cons d tail =>
      have hd := hall d List.mem_cons_self
      simp only [List.nil_append, List.cons_append]
      unfold dropSign
      split
      · rename_i heq
        obtain ⟨rfl, -⟩ := List.cons.inj heq
        exact absurd hd (by decide)
      · rename_i heq
        obtain ⟨rfl, -⟩ := List.cons.inj heq
        exact absurd hd (by decide)
      · rfl
  · rfl
  · rfl

theorem exponent_sound {s rest : Bytes} (h : exponent s = some rest) :
    ∃ e, Exponent e ∧ s = e ++ rest := by
  have hpart (c : UInt8) (hc : c = 101 ∨ c = 69) (tail : Bytes)
      (htail : digits (dropSign tail) = some rest) :
      ∃ e, Exponent e ∧ c :: tail = e ++ rest := by
    obtain ⟨sign, hsign, hsplit⟩ := dropSign_split tail
    obtain ⟨ds, hds, hdrop⟩ := digits_sound htail
    refine ⟨c :: (sign ++ ds), .inr ⟨c, sign, ds, rfl, hc, hsign, hds⟩, ?_⟩
    rw [hsplit, hdrop, List.cons_append, List.append_assoc]
  unfold exponent at h
  split at h
  · exact hpart 101 (.inl rfl) _ h
  · exact hpart 69 (.inr rfl) _ h
  · obtain rfl := Option.some.inj h
    exact ⟨[], .inl rfl, rfl⟩

theorem exponent_complete {e rest : Bytes} (h : Exponent e) (hrest : Stopped rest)
    (hlow : rest.head? ≠ some 101) (hhigh : rest.head? ≠ some 69) :
    exponent (e ++ rest) = some rest := by
  rcases h with rfl | ⟨c, sign, ds, rfl, hc, hsign, hds⟩
  · unfold exponent
    split
    · rename_i heq
      simp only [List.nil_append] at heq
      exact absurd (by rw [heq]; rfl) hlow
    · rename_i heq
      simp only [List.nil_append] at heq
      exact absurd (by rw [heq]; rfl) hhigh
    · rfl
  · have hdigits : digits (dropSign (sign ++ (ds ++ rest))) = some rest := by
      rw [dropSign_append hsign hds]
      exact digits_complete hds hrest
    rw [List.cons_append, List.append_assoc]
    rcases hc with rfl | rfl
    · exact hdigits
    · exact hdigits

theorem dropMinus_split (s : Bytes) : ∃ sign, Sign sign ∧ s = sign ++ dropMinus s := by
  unfold dropMinus
  split
  · exact ⟨[45], .inr rfl, rfl⟩
  · exact ⟨[], .inl rfl, rfl⟩

theorem number_sound {s rest : Bytes} (h : number s = some rest) :
    ∃ text, Number text ∧ s = text ++ rest := by
  obtain ⟨sign, hsign, hsplit⟩ := dropMinus_split s
  simp only [number, Option.bind_eq_some_iff] at h
  obtain ⟨s₂, ⟨s₁, hwhole, hfraction⟩, hexponent⟩ := h
  obtain ⟨w, hw, hs⟩ := whole_sound hwhole
  obtain ⟨f, hf, rfl⟩ := fraction_sound hfraction
  obtain ⟨e, he, rfl⟩ := exponent_sound hexponent
  refine ⟨sign ++ (w ++ (f ++ e)), ⟨sign, w, f, e, rfl, hsign, hw, hf, he⟩, ?_⟩
  rw [hsplit, hs]
  simp only [List.append_assoc]

theorem isDigit_of_whole {w : Bytes} (h : Whole w) : ∃ d tail, w = d :: tail ∧ isDigit d = true := by
  rcases h with rfl | ⟨⟨hne, hall⟩, -⟩
  · exact ⟨48, [], rfl, rfl⟩
  · cases w with
    | nil => exact absurd rfl hne
    | cons d tail => exact ⟨d, tail, rfl, hall d List.mem_cons_self⟩

theorem dropMinus_append {sign w : Bytes} (h : Sign sign) (hw : Whole w) (rest : Bytes) :
    dropMinus (sign ++ (w ++ rest)) = w ++ rest := by
  obtain ⟨d, tail, rfl, hd⟩ := isDigit_of_whole hw
  rcases h with rfl | rfl
  · simp only [List.nil_append, List.cons_append]
    unfold dropMinus
    split
    · rename_i heq
      obtain ⟨rfl, -⟩ := List.cons.inj heq
      exact absurd hd (by decide)
    · rfl
  · rfl

/-- Neither a digit, nor a dot, nor an exponent mark. -/
structure NumberEnds (rest : Bytes) : Prop where
  stopped : Stopped rest
  dot : rest.head? ≠ some 46
  low : rest.head? ≠ some 101
  high : rest.head? ≠ some 69

theorem numberEnds_of_delimited {rest : Bytes} (h : Delimited rest) : NumberEnds rest := by
  have hhead (b : UInt8) (hb : rest.head? = some b) :
      isDigit b = false ∧ b ≠ 46 ∧ b ≠ 101 ∧ b ≠ 69 := by
    have hclass : b = 32 ∨ b = 10 ∨ b = 13 ∨ b = 9 ∨ b = 44 ∨ b = 58 ∨ b = 93 ∨
        b = 125 := by
      have := h b hb
      simpa [isBlank, or_assoc] using this
    rcases hclass with rfl | rfl | rfl | rfl | rfl | rfl | rfl | rfl <;> decide
  exact ⟨fun b hb => (hhead b hb).1, fun hb => (hhead _ hb).2.1 rfl,
    fun hb => (hhead _ hb).2.2.1 rfl, fun hb => (hhead _ hb).2.2.2 rfl⟩

theorem numberEnds_exponent {e rest : Bytes} (he : Exponent e) (h : NumberEnds rest) :
    Stopped (e ++ rest) ∧ (e ++ rest).head? ≠ some 46 := by
  rcases he with rfl | ⟨c, sign, ds, rfl, hc, -, -⟩
  · exact ⟨h.stopped, h.dot⟩
  · constructor
    · intro b hb
      obtain rfl : c = b := by simpa using hb
      rcases hc with rfl | rfl <;> rfl
    · rcases hc with rfl | rfl <;> simp

theorem stopped_fraction {f rest : Bytes} (hf : Fraction f) (h : Stopped rest) :
    Stopped (f ++ rest) := by
  rcases hf with rfl | ⟨ds, rfl, -⟩
  · exact h
  · intro b hb
    obtain rfl : 46 = b := by simpa using hb
    rfl

theorem number_complete {text rest : Bytes} (h : Number text) (hrest : NumberEnds rest) :
    number (text ++ rest) = some rest := by
  obtain ⟨sign, w, f, e, rfl, hsign, hw, hf, he⟩ := h
  obtain ⟨hstop, hdot⟩ := numberEnds_exponent he hrest
  have hsplit : sign ++ (w ++ (f ++ e)) ++ rest = sign ++ (w ++ (f ++ (e ++ rest))) := by
    simp only [List.append_assoc]
  simp only [number, Option.bind_eq_some_iff]
  refine ⟨e ++ rest, ⟨f ++ (e ++ rest), ?_, fraction_complete hf hstop hdot⟩,
    exponent_complete he hrest.stopped hrest.low hrest.high⟩
  rw [hsplit, dropMinus_append hsign hw]
  exact whole_complete hw (stopped_fraction hf hstop)

/-! ## Leaves -/

theorem word_sound {kind kind' : TokenType} {text s rest : Bytes}
    (h : word kind text s = some (kind', rest)) : kind' = kind ∧ s = text ++ rest := by
  unfold word at h
  split at h
  · rename_i hpre
    obtain ⟨tail, rfl⟩ := List.isPrefixOf_iff_prefix.mp hpre
    simp only [List.drop_left, Option.some.injEq, Prod.mk.injEq] at h
    exact ⟨h.1.symm, by rw [h.2]⟩
  · simp at h

theorem word_complete (kind : TokenType) (text rest : Bytes) :
    word kind text (text ++ rest) = some (kind, rest) := by
  have hpre : text.isPrefixOf (text ++ rest) = true :=
    List.isPrefixOf_iff_prefix.mpr (List.prefix_append text rest)
  simp [word, hpre]

theorem leaf_sound {s rest : Bytes} {kind : TokenType} (h : leaf s = some (kind, rest)) :
    ∃ text, Leaf kind text ∧ s = text ++ rest := by
  unfold leaf at h
  split at h
  · simp only [Option.map_eq_some_iff, Prod.mk.injEq] at h
    obtain ⟨tail, hclose, rfl, rfl⟩ := h
    obtain ⟨body, hbody, rfl⟩ := closeString_sound hclose
    exact ⟨quoted body, .string hbody, by simp [quoted]⟩
  · obtain ⟨rfl, hs⟩ := word_sound h
    exact ⟨_, .true, hs⟩
  · obtain ⟨rfl, hs⟩ := word_sound h
    exact ⟨_, .false, hs⟩
  · obtain ⟨rfl, hs⟩ := word_sound h
    exact ⟨_, .null, hs⟩
  · simp only [Option.map_eq_some_iff, Prod.mk.injEq] at h
    obtain ⟨tail, hnumber, rfl, rfl⟩ := h
    obtain ⟨text, htext, hs⟩ := number_sound hnumber
    exact ⟨text, .number htext, hs⟩

/-- The first character of a leaf. -/
theorem leaf_head {kind : TokenType} {text : Bytes} (h : Leaf kind text) :
    ∃ c tail, text = c :: tail ∧ isBlank c = false ∧ c ≠ 123 ∧ c ≠ 91 ∧ c ≠ 93 ∧ c ≠ 125 ∧
      (kind = .number ↔ isDigit c = true ∨ c = 45) ∧ (kind = .string ↔ c = 34) := by
  cases h with
  | string hbody => exact ⟨34, _, rfl, by decide⟩
  | «true» => exact ⟨116, _, rfl, by decide⟩
  | «false» => exact ⟨102, _, rfl, by decide⟩
  | null => exact ⟨110, _, rfl, by decide⟩
  | number hnumber =>
    obtain ⟨sign, w, f, e, rfl, hsign, hw, -, -⟩ := hnumber
    obtain ⟨d, tail, rfl, hd⟩ := isDigit_of_whole hw
    rcases hsign with rfl | rfl
    · refine ⟨d, _, rfl, ?_⟩
      have hrange : 48 ≤ d ∧ d ≤ 57 := by simpa [isDigit] using hd
      refine ⟨?_, by grind, by grind, by grind, by grind, by simp [hd], by simp; grind⟩
      simp only [isBlank, Bool.or_eq_false_iff, beq_eq_false_iff_ne]
      refine ⟨⟨⟨?_, ?_⟩, ?_⟩, ?_⟩ <;> grind
    · exact ⟨45, _, rfl, by decide⟩

theorem leaf_complete {kind : TokenType} {text rest : Bytes} (h : Leaf kind text)
    (hrest : Delimited rest) : leaf (text ++ rest) = some (kind, rest) := by
  cases h with
  | string hbody =>
    have hclose := closeString_complete hbody rest
    simp only [quoted, List.cons_append, List.append_assoc, List.nil_append]
    simp [leaf, hclose]
  | «true» => exact word_complete .boolean wordTrue rest
  | «false» => exact word_complete .boolean wordFalse rest
  | null => exact word_complete .null wordNull rest
  | number hnumber =>
    obtain ⟨c, tail, rfl, -, -, -, -, -, hfirst, -⟩ := leaf_head (.number hnumber)
    have hc : isDigit c = true ∨ c = 45 := hfirst.mp rfl
    have hscan := number_complete hnumber (numberEnds_of_delimited hrest)
    rw [List.cons_append] at hscan ⊢
    unfold leaf
    split
    all_goals first
      | (rename_i heq
         obtain ⟨rfl, -⟩ := List.cons.inj heq
         exact absurd hc (by decide))
      | simp [hscan]

end Hound.Json
