import Hound.Json.Exact
import Hound.Json.Writer
import Hound.Lib.Checked

/-!
# The writer over its buffer

`Writer` with the characters of its span: every copy is checked, and a text that
does not fit leaves the span alone from then on. What `json_escape` returns is the
length of a literal that reads back.
-/

namespace Hound

open Checked Json JsonTree

/-! ## Writing to the span -/

/-- `out_`, `used_` and `ok_`. -/
structure WriterAt where
  buffer : Bytes
  used : Nat := 0
  ok : Bool := true

namespace WriterAt

def text (w : WriterAt) (s : Bytes) : Outcome WriterAt :=
  if !w.ok || decide (w.buffer.length - w.used ≤ s.length) then .done { w with ok := false }
  else do
    let buffer ← store w.buffer w.used s
    let buffer ← store buffer (w.used + s.length) [0]
    .done { w with buffer, used := w.used + s.length }

def string (w : WriterAt) (s : Bytes) : Outcome WriterAt := do
  let w ← w.text [34]
  let w ← s.foldlM (fun w c => w.text (Writer.escape c)) w
  w.text [34]

def size (w : WriterAt) : Nat := if w.ok then w.used else 0

end WriterAt

/-- `json_escape`: the span after it and its result. -/
def jsonEscapeAt (s buffer : Bytes) : Outcome (Bytes × Nat) :=
  if buffer.isEmpty then .done (buffer, 0)
  else do
    let w ← WriterAt.string { buffer } s
    .done (w.buffer, w.size)

/-! ## What the span holds -/

/-- What was written lies at the start of the span, behind it a terminator. -/
structure Written (buffer text : Bytes) : Prop where
  start : buffer.take text.length = text
  inside : text.length < buffer.length
  terminated : text = [] ∨ buffer[text.length]? = some 0

/-- The span and the list of its writes agree. -/
structure WriterAt.Holds (w : WriterAt) (v : Writer) : Prop where
  size : w.buffer.length = v.out
  failed : v.used = none → w.ok = false
  kept : ∀ text, v.used = some text → w.ok = true ∧ w.used = text.length ∧ Written w.buffer text

theorem written_store {buffer text s : Bytes} (h : Written buffer text) (hfits : s.length < buffer.length - text.length) :
    ∃ stored terminated, store buffer text.length s = .done stored ∧
      store stored (text.length + s.length) [0] = .done terminated ∧
      terminated.length = buffer.length ∧ Written terminated (text ++ s) := by
  have hinside := h.inside
  obtain ⟨stored, hstored, hlength, htake⟩ := store_fits buffer s text.length (by omega)
  have hroom : text.length + s.length + [(0 : UInt8)].length ≤ stored.length := by
    rw [hlength, List.length_singleton]
    omega
  obtain ⟨terminated, hterminated, hlength', htake'⟩ := store_fits stored [0] (text.length + s.length) hroom
  rw [htake, h.start, List.length_singleton] at htake'
  have htotal : (text ++ s).length = text.length + s.length := List.length_append
  refine ⟨stored, terminated, hstored, hterminated, hlength'.trans hlength, ?_, ?_, .inr ?_⟩
  · have hcut := congrArg (List.take (text.length + s.length)) htake'
    rw [List.take_take, Nat.min_eq_left (Nat.le_succ _), ← htotal, List.take_left] at hcut
    exact hcut
  · rw [htotal, hlength', hlength]
    omega
  · have hlast : (terminated.take (text.length + s.length + 1))[text.length + s.length]? = some 0 := by
      rw [htake', ← htotal, List.getElem?_append_right (Nat.le_refl _), Nat.sub_self]
      rfl
    rw [List.getElem?_take, if_pos (Nat.lt_succ_self _)] at hlast
    rw [htotal]
    exact hlast

theorem WriterAt.Holds.text {w : WriterAt} {v : Writer} (h : w.Holds v) (s : Bytes) :
    ∃ w', w.text s = .done w' ∧ w'.Holds (v.text s) := by
  cases hused : v.used with
  | none =>
    have hok := h.failed hused
    have hnone : (v.text s).used = none := by
      unfold Writer.text
      rw [hused]
      rfl
    refine ⟨{ w with ok := false }, ?_, h.size, fun _ => rfl, fun text htext => ?_⟩
    · unfold WriterAt.text
      rw [hok]
      rfl
    · rw [hnone] at htext
      exact nomatch htext
  | some text =>
    obtain ⟨hok, hcount, hwritten⟩ := h.kept text hused
    have hsame : (decide (w.buffer.length - w.used ≤ s.length)) = decide (v.out - text.length ≤ s.length) := by
      rw [h.size, hcount]
    have hbind : (v.text s).used = if v.out - text.length ≤ s.length then none else some (text ++ s) := by
      unfold Writer.text
      rw [hused]
      rfl
    by_cases hfull : v.out - text.length ≤ s.length
    · have hnone : (v.text s).used = none := hbind.trans (if_pos hfull)
      refine ⟨{ w with ok := false }, ?_, h.size, fun _ => rfl, fun text' htext => ?_⟩
      · unfold WriterAt.text
        rw [hsame, decide_eq_true hfull, Bool.or_true, if_pos rfl]
      · rw [hnone] at htext
        exact nomatch htext
    · have hsome : (v.text s).used = some (text ++ s) := hbind.trans (if_neg hfull)
      have hfits : s.length < w.buffer.length - text.length := by
        rw [h.size]
        exact Nat.not_le.mp hfull
      obtain ⟨stored, terminated, hstored, hterminated, hlength, hwritten'⟩ := written_store hwritten hfits
      refine ⟨{ w with buffer := terminated, used := w.used + s.length }, ?_, hlength.trans h.size,
        fun hnone => ?_, fun text' htext => ?_⟩
      · unfold WriterAt.text
        rw [hsame, decide_eq_false hfull, hok, Bool.not_true, Bool.or_false, if_neg Bool.false_ne_true, hcount, hstored,
          done_bind, hterminated, done_bind]
      · rw [hsome] at hnone
        exact nomatch hnone
      · rw [hsome] at htext
        obtain rfl := Option.some.inj htext
        refine ⟨hok, ?_, hwritten'⟩
        rw [List.length_append]
        exact congrArg (· + s.length) hcount

theorem WriterAt.Holds.string {w : WriterAt} {v : Writer} (h : w.Holds v) (s : Bytes) :
    ∃ w', w.string s = .done w' ∧ w'.Holds (v.string s) := by
  have hloop : ∀ (s : Bytes) {w : WriterAt} {v : Writer}, w.Holds v →
      ∃ w', s.foldlM (fun w c => w.text (Writer.escape c)) w = Outcome.done w' ∧
        w'.Holds (s.foldl (fun v c => v.text (Writer.escape c)) v) := by
    intro s
    induction s with
    | nil => exact fun {w v} h => ⟨w, rfl, h⟩
    | cons c s ih =>
      intro w v h
      obtain ⟨w₁, htext, h₁⟩ := h.text (Writer.escape c)
      obtain ⟨w₂, hrest, h₂⟩ := ih h₁
      refine ⟨w₂, ?_, h₂⟩
      rw [List.foldlM_cons, htext, done_bind]
      exact hrest
  obtain ⟨w₁, hopen, h₁⟩ := h.text [34]
  obtain ⟨w₂, hbody, h₂⟩ := hloop s h₁
  obtain ⟨w₃, hclose, h₃⟩ := h₂.text [34]
  refine ⟨w₃, ?_, h₃⟩
  unfold WriterAt.string
  rw [hopen, done_bind, hbody, done_bind, hclose]

/-- The span after `json_escape` holds the literal, if that and its terminator fit. -/
theorem jsonEscapeAt_spec (s buffer : Bytes) :
    ∃ buffer' n, jsonEscapeAt s buffer = .done (buffer', n) ∧ buffer'.length = buffer.length ∧
      (n = 0 ↔ buffer.length < (Writer.literal s).length + 1) ∧
      (n ≠ 0 → n = (Writer.literal s).length ∧ Written buffer' (Writer.literal s)) := by
  have hquotes : 0 < (Writer.literal s).length := Nat.succ_pos _
  unfold jsonEscapeAt
  by_cases hempty : buffer = []
  · subst hempty
    exact ⟨[], 0, rfl, rfl, iff_of_true rfl (Nat.succ_pos _), fun h => absurd rfl h⟩
  have hsome : buffer.isEmpty = false := by simpa using hempty
  have hroom : 0 < buffer.length := List.length_pos_iff.mpr hempty
  have hstart : (WriterAt.mk buffer 0 true).Holds { out := buffer.length } := by
    refine ⟨rfl, (fun h => nomatch h), fun text htext => ?_⟩
    obtain rfl := Option.some.inj htext
    exact ⟨rfl, rfl, ⟨rfl, hroom, .inl rfl⟩⟩
  obtain ⟨w, hstring, hholds⟩ := hstart.string s
  rw [Writer.string_eq] at hholds
  rw [hsome, if_neg Bool.false_ne_true, hstring, done_bind]
  refine ⟨w.buffer, w.size, rfl, hholds.size, ?_⟩
  by_cases hfits : (Writer.literal s).length < buffer.length
  · have hused : (({ out := buffer.length } : Writer).text (Writer.literal s)).used = some (Writer.literal s) := by
      unfold Writer.text
      simp [hfits]
    obtain ⟨hok, hcount, hwritten⟩ := hholds.kept _ hused
    have hsize : w.size = (Writer.literal s).length := by
      unfold WriterAt.size
      rw [hok, if_pos rfl, hcount]
    rw [hsize]
    exact ⟨by omega, fun _ => ⟨rfl, hwritten⟩⟩
  · have hused : (({ out := buffer.length } : Writer).text (Writer.literal s)).used = none := by
      unfold Writer.text
      simp
      omega
    have hsize : w.size = 0 := by
      unfold WriterAt.size
      rw [hholds.failed hused]
      rfl
    rw [hsize]
    exact ⟨by omega, fun h => absurd rfl h⟩

/-! ## Reading the literal -/

/-- A literal is a document of one token. -/
theorem parse_literal {s : Bytes} (hsize : (Writer.literal s).length ≤ 2048) :
    parse (Writer.literal s) =
      some { input := Writer.literal s, tokens := [⟨0, (Writer.literal s).length, 1, .string⟩] } := by
  have htext : (Document.mk [] (Shape.leaf .string (Writer.literal s)) []).text = Writer.literal s :=
    List.append_nil _
  have hone : (grammar keyName 9).count (Shape.leaf .string (Writer.literal s)) ≤ 160 := Nat.le_of_ble_eq_true rfl
  refine parse_eq_some.mpr ⟨⟨[], Shape.leaf .string (Writer.literal s), []⟩, ?_, htext.symm, ?_⟩
  · exact ⟨blank_nil, leaf_literal s, blank_nil, by rw [htext]; exact hsize, hone⟩
  · unfold Document.json
    rw [htext]
    rfl

theorem string_literal {s : Bytes} (h : Readable s) {size : Nat} (hsize : s.length < size) :
    Json.string { input := Writer.literal s, tokens := [⟨0, (Writer.literal s).length, 1, .string⟩] } (some 0) size =
      some s := by
  have hraw : Json.raw { input := Writer.literal s, tokens := [⟨0, (Writer.literal s).length, 1, .string⟩] } (some 0) =
      Writer.literal s := List.take_length
  change (if TokenType.string == .string then decode size _ else none) = _
  rw [hraw, decode_literal h hsize]
  rfl

/-- What `json_escape` writes reads back. -/
theorem json_escape_round_trip (s : Bytes) (hs : ∀ c ∈ s, 1 ≤ c ∧ c ≤ 127) (buffer : Bytes) :
    ∃ buffer' n, jsonEscapeAt s buffer = .done (buffer', n) ∧ buffer'.length = buffer.length ∧
      (n = 0 ↔ buffer.length < (Writer.literal s).length + 1) ∧
      (n ≠ 0 → n = (Writer.literal s).length ∧ Written buffer' (buffer'.take n) ∧
        (∃ body, buffer'.take n = quoted body) ∧
        (n ≤ 2048 → ∃ j tok, parse (buffer'.take n) = some j ∧ j.tokens = [tok] ∧ tok.kind = .string ∧
          ∀ size, s.length < size → j.string (some 0) size = some s)) := by
  have hreadable : Readable s := by
    intro c hc
    obtain ⟨hlow, hhigh⟩ := hs c hc
    exact ⟨by grind, by grind⟩
  obtain ⟨buffer', n, hrun, hlength, hzero, hwritten⟩ := jsonEscapeAt_spec s buffer
  refine ⟨buffer', n, hrun, hlength, hzero, fun hn => ?_⟩
  obtain ⟨rfl, hheld⟩ := hwritten hn
  rw [hheld.start]
  refine ⟨rfl, hheld, ⟨_, rfl⟩, fun hsize => ?_⟩
  exact ⟨_, _, parse_literal hsize, rfl, rfl, fun size hfits => string_literal hreadable hfits⟩

/-- Control characters, both escaped characters and DEL. -/
theorem json_escape_round_trip_controls :
    ∃ buffer' n, jsonEscapeAt [1, 34, 92, 127, 65] (List.replicate 32 7) = .done (buffer', n) ∧ buffer'.length = 32 ∧
      (n = 0 ↔ 32 < (Writer.literal [1, 34, 92, 127, 65]).length + 1) ∧
      (n ≠ 0 → n = (Writer.literal [1, 34, 92, 127, 65]).length ∧ Written buffer' (buffer'.take n) ∧
        (∃ body, buffer'.take n = quoted body) ∧
        (n ≤ 2048 → ∃ j tok, parse (buffer'.take n) = some j ∧ j.tokens = [tok] ∧ tok.kind = .string ∧
          ∀ size, 5 < size → j.string (some 0) size = some [1, 34, 92, 127, 65])) :=
  json_escape_round_trip [1, 34, 92, 127, 65] (by decide +kernel) (List.replicate 32 7)

end Hound
