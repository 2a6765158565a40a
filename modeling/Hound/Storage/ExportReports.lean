import Hound.Storage.ExportCard

/-!
# What an export on a card reports

The storage task is modelled over what its calls report. Every export on a card, with
whichever faults, is one of these.
-/

namespace Hound

namespace OnCard

open Stdio Io
open HistoryExport (LineAnswers FileAnswers WriteAnswers Progress)

variable {hmac : Hmac} {key logs dir : Bytes} {s : Firmware}

/-! ## The rows -/

/-- The variables that the loop over the answers has too. -/
def Rows.progress (r : Rows) : Progress := { ok := r.ok, files := r.files, rows := r.rows }

theorem writeAll_isSome (out : Option (Stream UInt8)) (bytes : Bytes) (w : World UInt8) :
    Ends (writeAll out bytes) w fun r _ => r.2.isSome = out.isSome := by
  cases out with
  | none => exact ends_pure rfl
  | some f => exact (fwrite_ends f bytes w).bind fun r w' _ => ends_pure rfl

/-- The answers `fgets` and `fwrite` gave for a file. -/
theorem exportLines_reported (chunks : List Bytes) (r : Rows) (w : World UInt8) :
    Ends (exportLines hmac key r chunks) w fun r' _ => r'.out.isSome = r.out.isSome ∧
      ∃ lines, (HistoryExport.exportLines hmac key r.progress lines).value = r'.progress := by
  induction chunks generalizing r w with
  | nil =>
    unfold exportLines
    split
    · exact ends_pure ⟨rfl, [], rfl⟩
    · exact (fgets_ends [] w).bind fun read w₁ _ => ends_pure ⟨rfl, [], rfl⟩
  | cons chunk chunks ih =>
    unfold exportLines
    split
    · exact ends_pure ⟨rfl, [], rfl⟩
    rename_i hok
    rw [Bool.not_eq_true, Bool.not_eq_false'] at hok
    refine (fgets_ends (chunk :: chunks) w).bind fun read w₁ _ => ?_
    obtain ⟨line, error⟩ := read
    dsimp only
    split
    · exact ends_pure ⟨rfl, [], rfl⟩
    rename_i text _
    have hgoes : (!r.progress.ok) = false := by
      change (!r.ok) = false
      rw [hok]
      rfl
    -- what the loop over the answers does with this line
    have hline : ∀ (wrote : Bool) (lines : List LineAnswers),
        (HistoryExport.exportLines hmac key r.progress ({ line := text, wrote } :: lines)).value =
          if (cString text).getLast? != some 10 then { r.progress with ok := false }
          else if exportLogRecord hmac (cString text) key 2048 == [] then
            (HistoryExport.exportLines hmac key { r.progress with ok := false } lines).value
          else (HistoryExport.exportLines hmac key
            { r.progress with ok := wrote, rows := if wrote then r.progress.rows + 1 else r.progress.rows } lines).value := by
      intro wrote lines
      rw [HistoryExport.exportLines, hgoes, if_neg Bool.false_ne_true, Logged.value_bind]
      dsimp only
      by_cases hcut : ((cString text).getLast? != some 10) = true
      · rw [if_pos hcut, if_pos hcut]
        rfl
      · rw [if_neg hcut, if_neg hcut]
        by_cases hnone : (exportLogRecord hmac (cString text) key 2048 == []) = true
        · rw [if_pos hnone, if_pos hnone]
        · rw [if_neg hnone, if_neg hnone]
          rfl
    split
    · rename_i hcut
      refine ends_pure ⟨rfl, [{ line := text }], ?_⟩
      rw [hline, if_pos hcut]
      rfl
    rename_i hwhole
    split
    · rename_i hnone
      refine (ih _ w₁).mono fun r' w' h => ?_
      obtain ⟨hout, lines, hlines⟩ := h
      refine ⟨hout, { line := text } :: lines, ?_⟩
      rw [hline, if_neg hwhole, if_pos hnone]
      exact hlines
    · rename_i hsome
      refine (writeAll_isSome r.out _ w₁).bind fun written w₂ hwritten => ?_
      refine (ih _ w₂).mono fun r' w' h => ?_
      obtain ⟨hout, lines, hlines⟩ := h
      refine ⟨hout.trans hwritten, { line := text, wrote := written.1 } :: lines, ?_⟩
      rw [hline, if_neg hwhole, if_neg hsome]
      exact hlines

theorem exportFile_reported (name : Bytes) (r : Rows) (w : World UInt8) :
    Ends (exportFile hmac key logs name r) w fun r' _ => r'.out.isSome = r.out.isSome ∧
      ∃ a : FileAnswers, a.entry = .entry name ∧ (HistoryExport.exportFile hmac key r.progress a).value = r'.progress := by
  refine (fopenRead_ends ⟨logs, name⟩ w).bind fun input w₁ _ => ?_
  split
  · exact ends_pure ⟨rfl, { entry := .entry name, opened := false }, rfl, rfl⟩
  · rename_i text _
    refine (exportLines_reported (Lines.chunks 10 2047 text) { r with error := false } w₁).bind fun r' w₂ h => ?_
    obtain ⟨hout, lines, hlines⟩ := h
    refine (succeeds_ends w₂).bind fun closed w₃ _ => ?_
    refine ends_pure ⟨hout, { entry := .entry name, lines, streamError := r'.error, closed }, rfl, ?_⟩
    have hsame : (HistoryExport.exportLines hmac key r.progress lines).value = r'.progress := hlines
    unfold HistoryExport.exportFile
    simp only [Logged.value_bind, Bool.not_true, Bool.false_eq_true, if_false, Logged.value_pure]
    rw [hsame]
    rfl

theorem exportFiles_reported (names : List Bytes) (r : Rows) (w : World UInt8) :
    Ends (exportFiles hmac key logs r names) w fun r' _ => r'.out.isSome = r.out.isSome ∧
      ∃ files, (HistoryExport.exportFiles hmac key r.progress files).value = r'.progress := by
  induction names generalizing r w with
  | nil =>
    unfold exportFiles
    split
    · exact ends_pure ⟨rfl, [], rfl⟩
    rename_i hok
    rw [Bool.not_eq_true, Bool.not_eq_false'] at hok
    refine (succeeds_ends w).bind fun ended w₁ _ => ?_
    cases ended with
    | false =>
      refine ends_pure ⟨rfl, [{ entry := .failed }], ?_⟩
      rw [HistoryExport.exportFiles, show (!r.progress.ok) = false from congrArg _ hok]
      rfl
    | true =>
      refine ends_pure ⟨rfl, [], ?_⟩
      change r.progress = { r.progress with ok := true }
      rw [← hok]
      rfl
  | cons name names ih =>
    unfold exportFiles
    split
    · exact ends_pure ⟨rfl, [], rfl⟩
    rename_i hok
    rw [Bool.not_eq_true, Bool.not_eq_false'] at hok
    have hgoes : (!r.progress.ok) = false := congrArg _ hok
    refine (succeeds_ends w).bind fun read w₁ _ => ?_
    cases read with
    | false =>
      refine ends_pure ⟨rfl, [{ entry := .failed }], ?_⟩
      rw [HistoryExport.exportFiles, hgoes]
      rfl
    | true =>
      rw [if_neg (by decide)]
      -- what the loop over the answers does with this name
      have hname : ∀ (a : FileAnswers) (files : List FileAnswers), a.entry = .entry name →
          (HistoryExport.exportFiles hmac key r.progress (a :: files)).value =
            if !logName name then (HistoryExport.exportFiles hmac key r.progress files).value
            else if 4096 < r.progress.files + 1 then { r.progress with ok := false, files := r.progress.files + 1 }
            else (HistoryExport.exportFiles hmac key
              (HistoryExport.exportFile hmac key { r.progress with files := r.progress.files + 1 } a).value files).value := by
        intro a files ha
        rw [HistoryExport.exportFiles, hgoes, if_neg Bool.false_ne_true, Logged.value_bind]
        rw [ha]
        dsimp only
        split
        · rfl
        · split <;> rfl
      split
      · rename_i hother
        refine (ih r w₁).mono fun r' w' h => ?_
        obtain ⟨hout, files, hfiles⟩ := h
        refine ⟨hout, { entry := .entry name } :: files, ?_⟩
        rw [hname _ _ rfl, if_pos hother]
        exact hfiles
      rename_i hlog
      split
      · rename_i hmany
        have hmany' : 4096 < r.progress.files + 1 := hmany
        refine ends_pure ⟨rfl, [{ entry := .entry name }], ?_⟩
        rw [hname _ _ rfl, if_neg hlog, if_pos hmany']
        rfl
      · rename_i hfew
        have hfew' : ¬ 4096 < r.progress.files + 1 := hfew
        refine (exportFile_reported name { r with files := r.files + 1 } w₁).bind fun r₁ w₂ h => ?_
        obtain ⟨hout, a, ha, hfile⟩ := h
        refine (ih r₁ w₂).mono fun r' w' h => ?_
        obtain ⟨hout', files, hfiles⟩ := h
        refine ⟨hout'.trans hout, a :: files, ?_⟩
        have hfile' : (HistoryExport.exportFile hmac key { r.progress with files := r.progress.files + 1 } a).value =
            r₁.progress := hfile
        rw [hname a files ha, if_neg hlog, if_neg hfew', hfile']
        exact hfiles

/-! ## The other files -/

theorem value_finish (file : CardFile) (ok : Bool) : (HistoryExport.finish file { flushed := ok }).value = ok := by
  cases ok <;> rfl

theorem value_writeText (ok : Bool) : (HistoryExport.writeText { finish := { flushed := ok } }).value = ok := by
  cases ok <;> rfl

theorem value_writeManifest (ok : Bool) {done : Bool} {a : WriteAnswers} (hmanifest : a.manifest = true)
    (hhashes : a.hashes = fun _ => {}) (hfinish : a.manifestFinish = { flushed := done }) :
    (HistoryExport.writeManifest ok a).value = (ok && done) := by
  unfold HistoryExport.writeManifest
  rw [hmanifest, hhashes, hfinish]
  cases ok <;> cases done <;> rfl

theorem writeManifest_and (ok : Bool) (w : World UInt8) :
    Ends (writeManifest s dir ok) w fun done _ => done = (ok && done) := by
  cases ok with
  | false => exact ends_pure rfl
  | true => exact rfl

theorem finishOut_none (out : Option (Stream UInt8)) (w : World UInt8) :
    Ends (finishOut out) w fun ok _ => out.isSome = false → ok = true := by
  cases out with
  | none => exact ends_pure fun _ => rfl
  | some f => exact fun h => Bool.noConfusion h

theorem writeExport_reported (s : Firmware) (key logs dir : Bytes) (w : World UInt8) :
    Ends (writeExport s key logs dir) w fun r _ => ∃ a, (HistoryExport.writeExport s.hmac key a).value = r := by
  refine Ends.bind (Q := fun _ _ => True) trivial fun out w₁ _ => ?_
  refine Ends.bind (Q := fun _ _ => True) trivial fun names w₂ _ => ?_
  refine Ends.bind (Q := fun r _ => r.out.isSome = out.isSome ∧ ∃ files,
    (if names.isSome then (HistoryExport.exportFiles s.hmac key { ok := out.isSome } files).value else { ok := false }) =
      r.progress) ?_ fun r w₃ hrows => ?_
  · cases names with
    | none => exact ends_pure ⟨rfl, [], rfl⟩
    | some names => exact exportFiles_reported names { ok := out.isSome, out } w₂
  obtain ⟨hout, files, hfiles⟩ := hrows
  refine Ends.bind (Q := fun closed _ => closed = (!names.isSome || closed)) ?_ fun closed w₄ hclosed => ?_
  · cases names with
    | none => exact ends_pure rfl
    | some names => exact rfl
  refine (finishOut_none r.out w₄).bind fun finished w₅ hfinished => ?_
  refine Ends.bind (Q := fun _ _ => True) trivial fun readme w₆ _ => ?_
  refine Ends.bind (Q := fun _ _ => True) trivial fun summary w₇ _ => ?_
  refine (writeManifest_and _ w₇).bind fun done w₈ hdone => ?_
  generalize names.isSome = logs at *
  generalize out.isSome = opened at *
  refine ends_pure ⟨{ opened, logs, files, logsClosed := closed, finish := { flushed := finished },
                      readme := { finish := { flushed := readme } }, summary := { finish := { flushed := summary } },
                      manifestFinish := { flushed := done } }, ?_⟩
  have hfinish : (if opened then finished else true) = finished := by
    cases opened with
    | true => rfl
    | false => exact (hfinished hout).symm
  have hp : (if logs then HistoryExport.exportFiles s.hmac key { ok := opened } files else pure { ok := false }).value =
      r.progress := by
    rw [← hfiles]
    cases logs <;> rfl
  have hf : (if opened then HistoryExport.finish .export { flushed := finished } else pure true).value = finished := by
    rw [← hfinish]
    cases opened with
    | true => exact value_finish .export _
    | false => rfl
  unfold HistoryExport.writeExport
  simp only [Logged.value_bind, Logged.value_pure, value_writeText]
  rw [hp, hf]
  refine Prod.ext ?_ rfl
  refine (value_writeManifest _ rfl rfl rfl).trans ?_
  rw [← hclosed, Bool.and_comm r.progress.ok closed]
  exact hdone.symm

/-! ## The whole export -/

theorem exportHistoryFiles_reported (s : Firmware) (key logs dir : Bytes) (writer : Option (Stream UInt8)) (w : World UInt8) :
    Ends (exportHistoryFiles s key logs dir writer) w fun r _ =>
      ∃ a, (HistoryExport.exportHistoryFiles s.hmac key writer.isSome a).value = (r.1, r.2.1.isSome, r.2.2) := by
  cases writer with
  | none => exact ends_pure ⟨{}, rfl⟩
  | some f =>
    refine Ends.bind (Q := fun _ _ => True) trivial fun closed w₁ _ => ?_
    cases closed with
    | false => exact ends_pure ⟨{ close := { flushed := false } }, rfl⟩
    | true =>
      rw [if_neg (by decide)]
      refine Ends.bind (Q := fun _ _ => True) trivial fun created w₂ _ => ?_
      refine Ends.bind (Q := fun r _ => ∃ a, (if created then (HistoryExport.writeExport s.hmac key a).value else (false, 0)) = r)
        ?_ fun r w₃ hwritten => ?_
      · cases created with
        | false => exact ends_pure ⟨{}, rfl⟩
        | true => exact writeExport_reported s key logs dir w₂
      obtain ⟨a, hwritten⟩ := hwritten
      obtain ⟨written, rows⟩ := r
      refine Ends.bind (Q := fun _ _ => True) trivial fun writer w₄ _ => ?_
      refine Ends.bind (Q := fun _ _ => True) trivial fun _ w₅ _ => ?_
      refine ends_pure ⟨{ created, write := a, reopened := writer.isSome }, ?_⟩
      generalize writer.isSome = opened
      have hwrite : (if created then (HistoryExport.writeExport s.hmac key a).relabel WorkerEvent.card else pure (false, 0)).value =
          (written, rows) := by
        rw [← hwritten]
        cases created <;> rfl
      have hclose : (HistoryExport.closeLog true {}).value = (true, false) := rfl
      have hreopen : (HistoryExport.reopen { created, write := a, reopened := opened }).value = opened := by
        cases opened <;> rfl
      unfold HistoryExport.exportHistoryFiles
      rw [show (!(some f).isSome) = false from rfl, if_neg Bool.false_ne_true]
      simp only [Logged.value_bind, Option.isSome_some, hclose, Bool.not_true, Bool.false_eq_true, if_false]
      rw [hwrite, hreopen]
      rfl

/-- Every export on a card is one of those the storage task is modelled over. -/
theorem export_reported (s : Firmware) (key logs dir : Bytes) (writer : Option (Stream UInt8)) (w : World UInt8) :
    ∃ a, (HistoryExport.exportHistoryFiles s.hmac key writer.isSome a).value =
      ((exportHistoryFiles s key logs dir writer w).1.1, (exportHistoryFiles s key logs dir writer w).1.2.1.isSome,
        (exportHistoryFiles s key logs dir writer w).1.2.2) :=
  exportHistoryFiles_reported s key logs dir writer w

end OnCard

end Hound
