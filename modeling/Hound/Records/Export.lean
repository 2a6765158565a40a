import Hound.Records.ValidateLog
import Hound.Records.WriteRecord

/-!
# Exporting a log line

`export_log_record` of `records.cpp`: raw values are copied, the session and the
identifier are replaced by HMAC values under the export key.
-/

namespace Hound

open JsonTree Json Writer

/-- The fields of the loop, in its order. -/
def exportFields : List Bytes :=
  [ascii "schema_version", ascii "firmware_version", ascii "hardware", ascii "signature_pack",
    ascii "session_id", ascii "category", ascii "rule_ids", ascii "first_seen_ms",
    ascii "seen_count", ascii "score", ascii "confidence", ascii "rssi_min", ascii "rssi_max",
    ascii "channel", ascii "radio", ascii "region", ascii "time_quality", ascii "observed_at"]

/-- The loop over the digest, which stops at twenty letters. -/
def exportLetters : Bytes → Base32 → Base32
  | [], s => s
  | b :: rest, s =>
      let s := s.push (fun k => decide (k < 20)) b
      if s.out.length == 20 then s else exportLetters rest s

/-- The identifier, of which the letters replace as many characters as there are. -/
def exportId (id : Bytes) (digest : Digest) : Bytes :=
  let letters := (exportLetters digest.toList {}).out
  (letters ++ id.drop letters.length).take 20

def exportSession (digest : Digest) : Bytes := lowerHex (digest.toList.take 16)

/-- `j.raw(j.member(0, field))`. -/
def Json.rawAt (j : Json) (field : Bytes) : Bytes := j.raw (j.member 0 field)

/-- The body of the loop over the copied fields. -/
def Writer.copied (j : Json) (session : Bytes) (w : Writer) (field : Bytes × Nat) : Writer :=
  let w := if field.2 == 0 then w else w.text (ascii ",")
  let w := w.string field.1
  let w := w.text (ascii ":")
  if field.1 == ascii "session_id" then w.string session else w.text (j.rawAt field.1)

/-- The text of the row, once the session and the identifier have been replaced. -/
def writeExport (j : Json) (session id : Bytes) (out : Nat) : Bytes :=
  let w : Writer := { out }
  let w := w.text (ascii "\x7b")
  let w := exportFields.zipIdx.foldl (Writer.copied j session) w
  let w := w.text (ascii ",\"identifier\":")
  let w := w.string id
  let w := w.text (ascii ",\"last_seen_ms\":")
  let w := w.text (j.rawAt (ascii "uptime_ms"))
  let w := w.text (ascii ",\"source_privacy_mode\":")
  let w := w.text (j.rawAt (ascii "privacy_mode"))
  (w.text (ascii ",\"privacy_mode\":\"sanitized\",\"latitude\":null,\"longitude\":null,\"location_source\":\"none\"\x7d\n")).written

def exportLogRecord (hmac : Hmac) (line key : Bytes) (out : Nat) : Bytes :=
  match Json.parse line with
  | none => []
  | some j =>
    if !validateLog j || out == 0 || key.length != 32 then []
    else
      let session := (j.str (ascii "session_id") 33).getD []
      let id := (j.str (ascii "identifier") 21).getD []
      let identity := snprintf 56 (session ++ (ascii ":" ++ id))
      match hmac key identity with
      | none => []
      | some digest =>
        let id := exportId id digest
        match hmac key session with
        | none => []
        | some digest => writeExport j (exportSession digest) id out

/-! ## The replaced values -/

theorem drain_length_le (limit : Nat) (bits : UInt32) (fuel available : Nat) (out : Bytes)
    (h : out.length ≤ limit) :
    (drain (fun k => decide (k < limit)) bits fuel available out).2.length ≤ limit := by
  induction fuel generalizing available out with
  | zero => exact h
  | succ fuel ih =>
    unfold drain
    split
    · rename_i hgo
      simp only [Bool.and_eq_true, decide_eq_true_eq] at hgo
      refine ih _ _ ?_
      rw [List.length_append, List.length_singleton]
      omega
    · exact h

theorem exportLetters_spec (bytes : Bytes) (s : Base32) (h : ∀ c ∈ s.out, c ∈ alphabet)
    (hlen : s.out.length < 20) (hfive : s.available < 5)
    (henough : 100 ≤ 5 * s.out.length + s.available + 8 * bytes.length) :
    IsToken (exportLetters bytes s).out := by
  induction bytes generalizing s with
  | nil =>
    rw [List.length_nil] at henough
    omega
  | cons b bytes ih =>
    obtain ⟨hsum, hstop⟩ := drain_length (fun k => decide (k < 20)) (s.bits <<< 8 ||| b.toUInt32)
      (s.available + 8) (s.available + 8) s.out (Nat.le_refl _)
    have hletters := push_letters (fun k => decide (k < 20)) s b h
    have hout : (s.push (fun k => decide (k < 20)) b).out =
        (drain (fun k => decide (k < 20)) (s.bits <<< 8 ||| b.toUInt32) (s.available + 8)
          (s.available + 8) s.out).2 := rfl
    have havailable : (s.push (fun k => decide (k < 20)) b).available =
        (drain (fun k => decide (k < 20)) (s.bits <<< 8 ||| b.toUInt32) (s.available + 8)
          (s.available + 8) s.out).1 := rfl
    rw [← hout, ← havailable] at hsum hstop
    unfold exportLetters
    simp only
    split
    · rename_i htwenty
      exact ⟨beq_iff_eq.mp htwenty, hletters⟩
    · rename_i hmore
      have hne : (s.push (fun k => decide (k < 20)) b).out.length ≠ 20 := by simpa using hmore
      have hle : (s.push (fun k => decide (k < 20)) b).out.length ≤ 20 := by
        rw [hout]
        exact drain_length_le 20 _ _ _ _ (Nat.le_of_lt hlen)
      have hless : (s.push (fun k => decide (k < 20)) b).out.length < 20 := by omega
      have hrest : (s.push (fun k => decide (k < 20)) b).available < 5 := by
        rcases hstop with hlt | hfull
        · exact hlt
        · simp only [decide_eq_false_iff_not] at hfull
          omega
      rw [List.length_cons] at henough
      exact ih _ hletters hless hrest (by omega)

theorem exportId_isToken (id : Bytes) (digest : Digest) : IsToken (exportId id digest) := by
  have hletters := exportLetters_spec digest.toList {} (by simp) (by decide) (by decide) (by simp)
  have htake : exportId id digest = (exportLetters digest.toList {}).out := by
    rw [exportId, List.take_left' hletters.1]
  rw [htake]
  exact hletters

theorem exportSession_isSession (digest : Digest) : IsSession (exportSession digest) := by
  have hdigit : ∀ n < 16, hexDigit n ∈ lowerHexDigits := by decide
  constructor
  · rw [exportSession, length_lowerHex]
    simp
  · intro c hc
    obtain ⟨b, -, hb⟩ := List.mem_flatMap.mp hc
    have hlt : b.toNat < 256 := b.toNat_lt
    rcases List.mem_cons.mp hb with rfl | hb
    · exact hdigit _ (by omega)
    · rw [List.mem_singleton.mp hb]
      exact hdigit _ (by omega)

/-! ## The row that is written -/

/-- The value copied for a field of the input. -/
def copyOf (f : Bytes → Option Field) (key : Bytes) : Field := (f key).getD nullField

def exportRow (f : Bytes → Option Field) (session id : Bytes) : Row :=
  exportFields.map (fun key =>
    (key, if key == ascii "session_id" then stringField session else copyOf f key)) ++
  [(ascii "identifier", stringField id), (ascii "last_seen_ms", copyOf f (ascii "uptime_ms")),
    (ascii "source_privacy_mode", copyOf f (ascii "privacy_mode")),
    (ascii "privacy_mode", stringField (ascii "sanitized")), (ascii "latitude", nullField),
    (ascii "longitude", nullField), (ascii "location_source", stringField (ascii "none"))]

/-- The input fields an export copies as they are. -/
def copiedFields : List Bytes :=
  exportFields.filter (· != ascii "session_id") ++ [ascii "uptime_ms", ascii "privacy_mode"]

theorem exportFields_plain : ∀ key ∈ exportFields, Plain key := by decide

theorem foldl_copied {j : Json} {f : Bytes → Option Field} (session : Bytes) (w : Writer)
    (fields : List Bytes) (n : Nat) (a : Bytes) (plain : ∀ key ∈ fields, Plain key)
    (raws : ∀ key ∈ fields, key ≠ ascii "session_id" → j.rawAt key = (copyOf f key).text) :
    (fields.zipIdx n).foldl (Writer.copied j session) (w.text a) =
      w.text (a ++ (fields.zipIdx n).flatMap fun (key, i) => (if i == 0 then [] else [44]) ++
        Row.memberText
          (key, if key == ascii "session_id" then stringField session else copyOf f key)) := by
  induction fields generalizing n a with
  | nil => simp
  | cons key fields ih =>
    have hkey := plain key List.mem_cons_self
    have hstep : (w.text a).copied j session (key, n) =
        w.text (a ++ ((if n == 0 then [] else [44]) ++ Row.memberText
          (key, if key == ascii "session_id" then stringField session else copyOf f key))) := by
      have hcomma : ascii "," = [44] := by decide
      have hcolon : ascii ":" = [58] := by decide
      have hvalue : (if key == ascii "session_id" then literal session else j.rawAt key) =
          (if key == ascii "session_id" then stringField session else copyOf f key).text := by
        split
        · rfl
        · rename_i hne
          exact raws key List.mem_cons_self (by simpa using hne)
      unfold Writer.copied Row.memberText
      simp only [Writer.string_eq, literal_plain hkey, hcomma, hcolon, text_text]
      rw [← hvalue]
      cases n with
      | zero => split <;> simp [text_text]
      | succ n => split <;> simp [text_text]
    rw [List.zipIdx_cons, List.foldl_cons, hstep, ih _ _
      (fun k hk => plain k (List.mem_cons_of_mem key hk))
      (fun k hk => raws k (List.mem_cons_of_mem key hk)), List.flatMap_cons, List.append_assoc]

set_option maxRecDepth 20000 in
theorem writeExport_eq {j : Json} {f : Bytes → Option Field} {session id : Bytes} {out : Nat}
    (raws : ∀ key ∈ copiedFields, j.rawAt key = (copyOf f key).text) :
    writeExport j session id out =
      if (exportRow f session id).text.length < out then (exportRow f session id).text else [] := by
  have hloop := foldl_copied (j := j) (f := f) session { out } exportFields 0 (ascii "\x7b")
    exportFields_plain fun key hkey hne => raws key
      (List.mem_append_left _ (List.mem_filter.mpr ⟨hkey, by simpa using hne⟩))
  have huptime := raws (ascii "uptime_ms") (by decide)
  have hprivacy := raws (ascii "privacy_mode") (by decide)
  unfold writeExport
  simp only [hloop, Writer.string_eq, text_text, huptime, hprivacy]
  refine (congrArg (fun s => (Writer.text { out } s).written) ?_).trans (written_text out _)
  simp only [exportRow, exportFields, List.map_cons, List.map_nil, List.cons_append, List.nil_append,
    Row.text_cons, List.flatMap_cons, List.flatMap_nil, List.zipIdx_cons, List.zipIdx_nil,
    Row.memberText, text_stringField, List.append_assoc, List.append_nil, quoted]
  rfl

end Hound
