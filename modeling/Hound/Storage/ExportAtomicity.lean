import Hound.Storage.ExportCard
import Hound.Storage.RecoverySafety

/-!
# An export is all or nothing

The manifest of an export is there exactly when the export succeeded, and then the
rows are those of the whole history. No saved log changes but for what its writer
still held.
-/

namespace Hound

namespace OnCard

open Stdio Io

variable {hmac : Hmac} {key logs dir : Bytes} {s : Firmware} {w w' : World UInt8}

/-! ## Finishing a file -/

theorem finish_ends (f : Stream UInt8) (w : World UInt8) : Ends (finish f) w fun ok w' =>
    Served f w w' ∧ (ok = true → ∀ text, Carries w.card f text → w'.card.read f.path = some text) ∧
      (w.fates = [] → ok = true ∧ w'.fates = []) := by
  refine (fflush_ends f w).bind fun r w₁ hflush => ?_
  obtain ⟨hpath, hflushed, hcarries, hclean₁⟩ := hflush
  refine (succeeds_ends w₁).bind fun synced w₂ hsync => ?_
  obtain ⟨hcard, hclean₂⟩ := hsync
  refine (fclose_ends r.2 w₂).bind fun closed w₃ hclose => ?_
  obtain ⟨hclosed, hread, hclean₃⟩ := hclose
  refine ends_pure ⟨?_, fun hok text htext => ?_, fun h => ?_⟩
  · exact hflushed.trans ((Served.same hcard).trans hclosed rfl) hpath
  · simp only [Bool.and_eq_true] at hok
    obtain ⟨hcarried, hheld⟩ := hcarries text htext
    rw [← hcard] at hcarried
    rw [← hpath]
    exact hread text hcarried (.inl (hheld (.inr hok.2.2)))
  · obtain ⟨h₁, hfates₁⟩ := hclean₁ h
    obtain ⟨h₂, hfates₂⟩ := hclean₂ hfates₁
    obtain ⟨h₃, hfates₃⟩ := hclean₃ hfates₂
    exact ⟨by rw [h₁, h₂, h₃]; rfl, hfates₃⟩

/-! ## The rows -/

/-- What the loop does to the card: it writes to the export's stream alone. -/
structure Serves (dir : Bytes) (w : World UInt8) (out : Option (Stream UInt8)) (w' : World UInt8)
    (out' : Option (Stream UInt8)) : Prop where
  touches : Touches (· = sightings dir) w.card w'.card
  out : (∀ f ∈ out, f.path = sightings dir) → ∀ f ∈ out', f.path = sightings dir

/-- These lines have been exported, one row each. -/
structure Exported (hmac : Hmac) (key : Bytes) (lines : List Bytes) (w : World UInt8) (r : Rows) (w' : World UInt8)
    (r' : Rows) : Prop where
  ok : r.ok = true
  rows : r'.rows = r.rows + UInt32.ofNat lines.length
  accepted : ∀ line ∈ lines, exportLogRecord hmac line key 2048 ≠ []
  out : ∀ f ∈ r.out, ∀ text, Carries w.card f text →
    ∃ f' ∈ r'.out, Carries w'.card f' (text ++ (lines.map fun line => exportLogRecord hmac line key 2048).flatten)

theorem Serves.refl (dir : Bytes) (w : World UInt8) (out : Option (Stream UInt8)) : Serves dir w out w out :=
  ⟨.refl _ _, id⟩

theorem Serves.trans {w₁ w₂ : World UInt8} {out out₁ out₂ : Option (Stream UInt8)} (h : Serves dir w out w₁ out₁)
    (h' : Serves dir w₁ out₁ w₂ out₂) : Serves dir w out w₂ out₂ :=
  ⟨h.touches.trans h'.touches, fun hout => h'.out (h.out hout)⟩

theorem Serves.same {out : Option (Stream UInt8)} (h : w'.card = w.card) : Serves dir w out w' out := by
  refine ⟨?_, id⟩
  rw [h]
  exact .refl _ _

theorem Exported.none {r r' : Rows} (hok : r.ok = true) (hrows : r'.rows = r.rows) (hout : r'.out = r.out)
    (hcard : w'.card = w.card) : Exported hmac key [] w r w' r' := by
  refine ⟨hok, ?_, fun _ h => absurd h List.not_mem_nil, fun f hf text htext => ⟨f, ?_, ?_⟩⟩
  · rw [hrows]
    exact (UInt32.add_zero _).symm
  · rw [hout]
    exact hf
  · rw [hcard]
    exact (List.append_nil text).symm ▸ htext

theorem Exported.append {lines lines' : List Bytes} {w₁ w₂ : World UInt8} {r r₁ r₂ : Rows}
    (h : Exported hmac key lines w r w₁ r₁) (h' : Exported hmac key lines' w₁ r₁ w₂ r₂) :
    Exported hmac key (lines ++ lines') w r w₂ r₂ := by
  refine ⟨h.ok, ?_, fun line hline => ?_, fun f hf text htext => ?_⟩
  · rw [h'.rows, h.rows, List.length_append, UInt32.ofNat_add, UInt32.add_assoc]
  · rcases List.mem_append.mp hline with hline | hline
    · exact h.accepted line hline
    · exact h'.accepted line hline
  · obtain ⟨f₁, hf₁, htext₁⟩ := h.out f hf text htext
    obtain ⟨f₂, hf₂, htext₂⟩ := h'.out f₁ hf₁ _ htext₁
    refine ⟨f₂, hf₂, ?_⟩
    rw [List.map_append, List.flatten_append, ← List.append_assoc]
    exact htext₂

theorem writeAll_ends (dir : Bytes) (out : Option (Stream UInt8)) (bytes : Bytes) (w : World UInt8) :
    Ends (writeAll out bytes) w fun r w' =>
      ((∀ f ∈ out, f.path = sightings dir) → Serves dir w out w' r.2) ∧
      (r.1 = true → ∀ f ∈ out, ∀ text, Carries w.card f text → ∃ f' ∈ r.2, Carries w'.card f' (text ++ bytes)) ∧
      (w.fates = [] → out.isSome → r.1 = true ∧ r.2.isSome ∧ w'.fates = []) := by
  cases out with
  | none => exact ends_pure ⟨fun _ => .refl _ _ _, nofun, nofun⟩
  | some f =>
    refine (fwrite_ends f bytes w).bind fun r w' hwrite => ?_
    obtain ⟨hpath, hserved, hcarries, hclean⟩ := hwrite
    refine ends_pure ⟨fun hout => ⟨?_, fun _ f' hf' => ?_⟩, fun hok f' hf' text htext => ?_, fun h _ => ?_⟩
    · have hdir : f.path = sightings dir := hout f rfl
      rw [← hdir]
      exact hserved.touches
    · cases hf'
      exact hpath.trans (hout f rfl)
    · cases hf'
      exact ⟨r.2, rfl, hcarries hok text htext⟩
    · obtain ⟨hok, hfates⟩ := hclean h
      exact ⟨hok, rfl, hfates⟩

/-- A chunk that holds a whole line is exported, one row. -/
theorem Exported.line {text : Bytes} {out : Option (Stream UInt8)} {r : Rows} (hok : r.ok = true)
    (hexported : exportLogRecord hmac text key 2048 ≠ [])
    (hout : ∀ f ∈ r.out, ∀ written, Carries w.card f written →
      ∃ f' ∈ out, Carries w'.card f' (written ++ exportLogRecord hmac text key 2048)) {error : Bool} :
    Exported hmac key [text] w r w' { r with ok := true, out, rows := r.rows + 1, error } := by
  refine ⟨hok, rfl, fun line hline => ?_, fun f hf written hwritten => ?_⟩
  · rw [List.mem_singleton.mp hline]
    exact hexported
  · obtain ⟨f', hf', hcarried⟩ := hout f hf written hwritten
    refine ⟨f', hf', ?_⟩
    rw [List.map_singleton, List.flatten_singleton]
    exact hcarried

/-- The loop ends without an error only once every chunk has been exported. -/
theorem exportLines_ends (chunks : List Bytes) (r : Rows) (w : World UInt8) (hpath : ∀ f ∈ r.out, f.path = sightings dir) :
    Ends (exportLines hmac key r chunks) w fun r' w' =>
      Serves dir w r.out w' r'.out ∧ r'.files = r.files ∧
      (r'.ok = true → r'.error = false → r.error = false ∧
        (∀ chunk ∈ chunks, (cString chunk).getLast? = some 10) ∧
        Exported hmac key (chunks.map cString) w r w' r') := by
  induction chunks generalizing r w with
  | nil =>
    unfold exportLines
    split
    · rename_i hfailed
      refine ends_pure ⟨.refl _ _ _, rfl, fun hok => ?_⟩
      rw [hok] at hfailed
      exact Bool.noConfusion hfailed
    · rename_i hok
      rw [Bool.not_eq_true, Bool.not_eq_false'] at hok
      refine (fgets_ends [] w).bind fun read w₁ hread => ?_
      obtain ⟨hcard, -, -⟩ := hread
      refine ends_pure ⟨.same hcard, rfl, fun _ herror => ⟨(Bool.or_eq_false_iff.mp herror).1, nofun, ?_⟩⟩
      exact .none hok rfl rfl hcard
  | cons chunk chunks ih =>
    unfold exportLines
    split
    · rename_i hfailed
      refine ends_pure ⟨.refl _ _ _, rfl, fun hok => ?_⟩
      rw [hok] at hfailed
      exact Bool.noConfusion hfailed
    rename_i hok
    rw [Bool.not_eq_true, Bool.not_eq_false'] at hok
    refine (fgets_ends (chunk :: chunks) w).bind fun read w₁ hread => ?_
    obtain ⟨line, error⟩ := read
    obtain ⟨hcard, htaken, -⟩ := hread
    -- without an error the chunk was taken whole
    have hwhole : error = false → line = some chunk := htaken
    dsimp only
    split
    · refine ends_pure ⟨.same hcard, rfl, fun _ herror => ?_⟩
      cases hwhole (Bool.or_eq_false_iff.mp herror).2
    · rename_i text
      split
      · exact ends_pure ⟨.same hcard, rfl, nofun⟩
      rename_i hnewline
      rw [bne_iff_ne, ne_eq, not_not] at hnewline
      split
      · -- the loop ends at the line that cannot be exported
        refine Ends.mono (ih _ _ hpath) fun r' w' h => ⟨(Serves.same hcard).trans h.1, h.2.1, fun hok' herror' => ?_⟩
        exact Bool.noConfusion (h.2.2 hok' herror').2.2.ok
      · rename_i hexported
        rw [beq_iff_eq] at hexported
        refine (writeAll_ends dir r.out _ w₁).bind fun written w₂ hwritten => ?_
        obtain ⟨wrote, out⟩ := written
        obtain ⟨hserved, hcarries, -⟩ := hwritten
        have hserves := (Serves.same hcard).trans (hserved hpath)
        refine Ends.mono (ih _ _ (hserves.out hpath)) fun r' w' h => ⟨hserves.trans h.1, h.2.1, fun hok' herror' => ?_⟩
        obtain ⟨herror, hlines, hrest⟩ := h.2.2 hok' herror'
        have hwrote : wrote = true := hrest.ok
        subst hwrote
        obtain ⟨hclean, hgood⟩ := Bool.or_eq_false_iff.mp herror
        cases hwhole hgood
        refine ⟨hclean, ?_, ?_⟩
        · intro c hc
          rcases List.mem_cons.mp hc with rfl | hc
          · exact hnewline
          · exact hlines c hc
        · refine (Exported.line hok hexported fun f hf text htext => ?_).append hrest
          rw [← hcard] at htext
          exact hcarries rfl f hf text htext

/-! ## A history file -/

theorem mem_pieces {n fuel : Nat} {text chunk : Bytes} (h : chunk ∈ Lines.pieces 10 n fuel text) :
    ∃ rest, chunk = Lines.upTo 10 n rest := by
  induction fuel generalizing text with
  | zero => exact absurd h List.not_mem_nil
  | succ fuel ih =>
    unfold Lines.pieces at h
    split at h
    · exact absurd h List.not_mem_nil
    · rcases List.mem_cons.mp h with h | h
      · exact ⟨text, h⟩
      · exact ih h

/-- Where each chunk ends in a newline, NUL or not, the chunks are the lines. -/
theorem chunks_whole {text : Bytes} (h : ∀ chunk ∈ Lines.chunks 10 2047 text, (cString chunk).getLast? = some 10) :
    (Lines.chunks 10 2047 text).map cString = Lines.lines 10 text := by
  have hline : ∀ chunk ∈ Lines.chunks 10 2047 text, cString chunk = chunk ∧ 10 ∈ chunk := by
    intro chunk hchunk
    obtain ⟨rest, rfl⟩ := mem_pieces hchunk
    obtain ⟨hsame, body, hbody, -⟩ := Scan.cString_line (h _ hchunk)
    exact ⟨hsame, by rw [hbody]; exact List.mem_append_right _ List.mem_cons_self⟩
  rw [← Lines.chunks_eq_lines 10 fun chunk hchunk => (hline chunk hchunk).2]
  exact (List.map_congr_left fun chunk hchunk => (hline chunk hchunk).1).trans (List.map_id _)

/-- A line the loop can export. -/
structure Exportable (hmac : Hmac) (key line : Bytes) : Prop where
  whole : ∃ body, line = body ++ [10] ∧ 10 ∉ body ∧ 0 ∉ body ∧ body.length < 2047
  exported : exportLogRecord hmac line key 2048 ≠ []

theorem exportable_chunk {text chunk : Bytes} (hmem : chunk ∈ Lines.chunks 10 2047 text)
    (hlast : (cString chunk).getLast? = some 10) (hexported : exportLogRecord hmac (cString chunk) key 2048 ≠ []) :
    Exportable hmac key (cString chunk) := by
  obtain ⟨rest, rfl⟩ := mem_pieces hmem
  obtain ⟨hsame, body, hbody, hnot⟩ := Scan.cString_line hlast
  have hzero : (0 : UInt8) ∉ cString (Lines.upTo 10 2047 rest) := by
    intro hmem
    exact absurd (List.mem_takeWhile_imp hmem) (by decide)
  have hroom := Lines.length_upTo_le 10 2047 rest
  refine ⟨⟨body, hsame.trans hbody, hnot, fun hmem => hzero ?_, ?_⟩, hexported⟩
  · rw [hsame, hbody]
    exact List.mem_append_left _ hmem
  · rw [hbody, List.length_append, List.length_singleton] at hroom
    omega

theorem exportFile_ends (name : Bytes) (r : Rows) (w : World UInt8) (hpath : ∀ f ∈ r.out, f.path = sightings dir) :
    Ends (exportFile hmac key logs name r) w fun r' w' =>
      Serves dir w r.out w' r'.out ∧ r'.files = r.files ∧
      (r'.ok = true → ∃ text, w.card.read ⟨logs, name⟩ = some text ∧
        (∀ line ∈ Lines.lines 10 text, Exportable hmac key line) ∧ Exported hmac key (Lines.lines 10 text) w r w' r') := by
  refine (fopenRead_ends ⟨logs, name⟩ w).bind fun input w₁ hopen => ?_
  obtain ⟨hcard, hinput, -⟩ := hopen
  split
  · exact ends_pure ⟨.same hcard, rfl, nofun⟩
  · rename_i text
    refine (exportLines_ends (Lines.chunks 10 2047 text) { r with error := false } w₁ hpath).bind fun r' w₂ hlines => ?_
    obtain ⟨hserved, hfiles, hgood⟩ := hlines
    refine (succeeds_ends w₂).bind fun closed w₃ hclose => ?_
    have hserves : Serves dir w r.out w₃ r'.out := (Serves.same hcard).trans (hserved.trans (.same hclose.1))
    refine ends_pure ⟨hserves, hfiles, fun hok => ⟨text, hinput text rfl, ?_⟩⟩
    simp only [Bool.and_eq_true, Bool.not_eq_true'] at hok
    obtain ⟨-, hwhole, hexported⟩ := hgood hok.2.1 hok.2.2
    rw [← chunks_whole hwhole]
    constructor
    · intro line hline
      obtain ⟨chunk, hchunk, rfl⟩ := List.mem_map.mp hline
      exact exportable_chunk hchunk (hwhole chunk hchunk) (hexported.accepted _ hline)
    refine ⟨hexported.ok, hexported.rows, hexported.accepted, fun f hf written hwritten => ?_⟩
    rw [← hcard] at hwritten
    obtain ⟨f', hf', hcarried⟩ := hexported.out f hf written hwritten
    refine ⟨f', hf', ?_⟩
    rw [hclose.1]
    exact hcarried

/-! ## The history -/

/-- The lines of the history files among these. -/
def historyLines (c : Card UInt8) (logs : Bytes) (names : List Bytes) : List Bytes :=
  (names.filter logName).flatMap fun name => Lines.lines 10 ((c.read ⟨logs, name⟩).getD [])

theorem historyLines_congr {c c' : Card UInt8} (h : ∀ n, c'.read ⟨logs, n⟩ = c.read ⟨logs, n⟩) (names : List Bytes) :
    historyLines c' logs names = historyLines c logs names := by
  unfold historyLines
  simp only [h]

/-- Every history file has been read whole. -/
structure Exports (hmac : Hmac) (key logs : Bytes) (names : List Bytes) (w : World UInt8) (r : Rows) (w' : World UInt8)
    (r' : Rows) : Prop where
  there : ∀ name ∈ names, logName name = true → (w.card.read ⟨logs, name⟩).isSome
  exportable : ∀ line ∈ historyLines w.card logs names, Exportable hmac key line
  files : r'.files = r.files + (names.filter logName).length
  few : r.files ≤ 4096 → r'.files ≤ 4096
  exported : Exported hmac key (historyLines w.card logs names) w r w' r'

theorem exportFiles_ends (names : List Bytes) (r : Rows) (w : World UInt8) (hpath : ∀ f ∈ r.out, f.path = sightings dir) :
    Ends (exportFiles hmac key logs r names) w fun r' w' =>
      Serves dir w r.out w' r'.out ∧ (logs ≠ dir → r'.ok = true → Exports hmac key logs names w r w' r') := by
  induction names generalizing r w with
  | nil =>
    unfold exportFiles
    split
    · rename_i hfailed
      refine ends_pure ⟨.refl _ _ _, fun _ hok => ?_⟩
      rw [hok] at hfailed
      exact Bool.noConfusion hfailed
    · rename_i hok
      rw [Bool.not_eq_true, Bool.not_eq_false'] at hok
      refine (succeeds_ends w).bind fun ended w₁ hend => ?_
      exact ends_pure ⟨.same hend.1, fun _ _ => ⟨nofun, nofun, rfl, id, .none hok rfl rfl hend.1⟩⟩
  | cons name names ih =>
    unfold exportFiles
    split
    · rename_i hfailed
      refine ends_pure ⟨.refl _ _ _, fun _ hok => ?_⟩
      rw [hok] at hfailed
      exact Bool.noConfusion hfailed
    rename_i hok
    rw [Bool.not_eq_true, Bool.not_eq_false'] at hok
    refine (succeeds_ends w).bind fun read w₁ hread => ?_
    obtain ⟨hcard, -⟩ := hread
    split
    · exact ends_pure ⟨.same hcard, nofun⟩
    split
    · rename_i hother
      rw [Bool.not_eq_true'] at hother
      refine Ends.mono (ih r w₁ hpath) fun r' w' h => ⟨(Serves.same hcard).trans h.1, fun hlogs hok' => ?_⟩
      obtain ⟨hthere, hexportable, hfiles, hfew, hexported⟩ := h.2 hlogs hok'
      have hlines : historyLines w₁.card logs names = historyLines w.card logs (name :: names) := by
        unfold historyLines
        rw [hcard, List.filter_cons, if_neg (by rw [hother]; exact Bool.false_ne_true)]
      rw [hcard] at hthere
      refine ⟨fun n hn hlog => ?_, ?_, ?_, hfew, ?_⟩
      · rcases List.mem_cons.mp hn with rfl | hn
        · exact Bool.noConfusion (hother.symm.trans hlog)
        · exact hthere n hn hlog
      · rw [← hlines]
        exact hexportable
      · rw [List.filter_cons, if_neg (by rw [hother]; exact Bool.false_ne_true)]
        exact hfiles
      · rw [← hlines]
        exact (Exported.none hok rfl rfl hcard).append hexported
    · rename_i hlog
      rw [Bool.not_eq_true, Bool.not_eq_false'] at hlog
      split
      · exact ends_pure ⟨.same hcard, nofun⟩
      · rename_i hroom
        refine (exportFile_ends name { r with files := r.files + 1 } w₁ hpath).bind fun r₁ w₂ hfile => ?_
        obtain ⟨hserved, hfiles₁, hgood⟩ := hfile
        have hserves : Serves dir w r.out w₂ r₁.out := (Serves.same hcard).trans hserved
        refine Ends.mono (ih r₁ w₂ (hserves.out hpath)) fun r' w' h => ⟨hserves.trans h.1, fun hlogs hok' => ?_⟩
        obtain ⟨hthere, hexportable, hfiles, hfew, hexported⟩ := h.2 hlogs hok'
        obtain ⟨text, htext, hlinesOk, hfirst⟩ := hgood hexported.ok
        change r₁.files = r.files + 1 at hfiles₁
        rw [hcard] at htext
        -- the loop leaves the log directory as it is
        have hsame : ∀ n, w₂.card.read ⟨logs, n⟩ = w.card.read ⟨logs, n⟩ := fun n =>
          hserves.touches.file _ fun heq => hlogs (congrArg Path.folder heq)
        have hlines : historyLines w.card logs (name :: names) =
            Lines.lines 10 text ++ historyLines w₂.card logs names := by
          unfold historyLines
          rw [List.filter_cons, if_pos hlog, List.flatMap_cons, htext]
          simp only [hsame]
          rfl
        refine ⟨fun n hn hlogn => ?_, fun line hline => ?_, ?_, fun _ => hfew (by omega), ?_⟩
        · rcases List.mem_cons.mp hn with rfl | hn
          · rw [htext]
            rfl
          · rw [← hsame]
            exact hthere n hn hlogn
        · rw [hlines] at hline
          exact (List.mem_append.mp hline).elim (hlinesOk line) (hexportable line)
        · rw [List.filter_cons, if_pos hlog, List.length_cons, hfiles, hfiles₁]
          omega
        · rw [hlines]
          refine Exported.append ⟨hok, hfirst.rows, hfirst.accepted, fun f hf written hwritten => ?_⟩ hexported
          rw [← hcard] at hwritten
          exact hfirst.out f hf written hwritten

/-! ## The other files -/

theorem finishOut_ends (out : Option (Stream UInt8)) {p : Path UInt8} (hpath : ∀ f ∈ out, f.path = p) (w : World UInt8) :
    Ends (finishOut out) w fun ok w' => Touches (· = p) w.card w'.card ∧
      (ok = true → ∀ f ∈ out, ∀ text, Carries w.card f text → w'.card.read p = some text) ∧
      (w.fates = [] → ok = true ∧ w'.fates = []) := by
  cases out with
  | none => exact ends_pure ⟨.refl _ _, nofun, fun h => ⟨rfl, h⟩⟩
  | some f =>
    have hf : f.path = p := hpath f rfl
    refine (finish_ends f w).mono fun ok w' h => ⟨?_, fun hok f' hf' text htext => ?_, h.2.2⟩
    · rw [← hf]
      exact h.1.touches
    · cases hf'
      rw [← hf]
      exact h.2.1 hok text htext

theorem writeText_ends (p : Path UInt8) (text : Bytes) (w : World UInt8) : Ends (writeText p text) w fun _ w' =>
    Touches (· = p) w.card w'.card := by
  refine (fopenNew_ends p w).bind fun out w₁ hopen => ?_
  obtain ⟨htouches, hout, -⟩ := hopen
  cases out with
  | none => exact htouches
  | some f =>
    have hf : f.path = p := (hout f rfl).1
    refine Ends.bind (Q := fun r w' => Touches (· = p) w.card w'.card ∧ ∀ f' ∈ r.2, f'.path = p) ?_ fun r w₂ hwrote => ?_
    · refine (fwrite_ends f text w₁).bind fun r w₂ hwrite => ends_pure ⟨?_, fun f' hf' => ?_⟩
      · rw [← hf] at htouches ⊢
        exact htouches.trans hwrite.2.1.touches
      · cases hf'
        exact hwrite.1.trans hf
    · refine (finishOut_ends r.2 hwrote.2 w₂).bind fun _ w₃ hfinish => ?_
      exact ends_pure (hwrote.1.trans hfinish.1)

theorem hashFile_ends (s : Firmware) (p : Path UInt8) (w : World UInt8) : Ends (hashFile s p) w fun _ w' =>
    w'.card = w.card := by
  refine (fopenRead_ends p w).bind fun _ w₁ hopen => ?_
  refine (succeeds_ends w₁).bind fun _ _ hhash => ?_
  exact ends_pure (hhash.1.trans hopen.1)

theorem manifestLines_ends (names : List (Path UInt8)) (f : Stream UInt8) (w : World UInt8) :
    Ends (manifestLines s f names) w fun r w' => r.2.path = f.path ∧ Served f w w' := by
  induction names generalizing f w with
  | nil => exact ends_pure ⟨rfl, .same rfl⟩
  | cons p names ih =>
    refine (hashFile_ends s p w).bind fun digest w₁ hcard => ?_
    split
    · exact ends_pure ⟨rfl, .same hcard⟩
    · refine (fwrite_ends f _ w₁).bind fun r w₂ hwrite => ?_
      have hserved := (Served.same hcard).trans hwrite.2.1 rfl
      dsimp only
      split
      · exact ends_pure ⟨hwrite.1, hserved⟩
      · exact (ih r.2 w₂).mono fun r' w' h => ⟨h.1.trans hwrite.1, hserved.trans h.2 hwrite.1⟩

/-- A manifest that was completed is there. -/
theorem writeManifest_ends (dir : Bytes) (ok : Bool) (w : World UInt8) : Ends (writeManifest s dir ok) w fun ok' w' =>
    Touches (· = manifest dir) w.card w'.card ∧
      (ok' = true → ok = true ∧ (w'.card.read (manifest dir)).isSome) := by
  unfold writeManifest
  split
  · exact ends_pure ⟨.refl _ _, nofun⟩
  rename_i hok
  rw [Bool.not_eq_true, Bool.not_eq_false'] at hok
  refine (fopenNew_ends (manifest dir) w).bind fun out w₁ hopen => ?_
  obtain ⟨htouches, hout, -⟩ := hopen
  split
  · exact ends_pure ⟨htouches, nofun⟩
  · rename_i f
    obtain ⟨hpath, stored, hread, -⟩ := hout f rfl
    refine (manifestLines_ends (s := s) [sightings dir, summary dir, readme dir] f w₁).bind fun r w₂ hlines => ?_
    refine (finish_ends r.2 w₂).bind fun finished w₃ hfinish => ?_
    have hserved : Served f w₁ w₃ := hlines.2.trans hfinish.1 hlines.1
    refine ends_pure ⟨?_, fun _ => ⟨hok, ?_⟩⟩
    · rw [← hpath] at htouches ⊢
      exact htouches.trans hserved.touches
    · rw [← hpath, hserved.there, hread]
      rfl

/-! ## The whole export -/

/-- The files of a directory. -/
def Within (dir : Bytes) (p : Path UInt8) : Prop := p.folder = dir

/-- A history that can be exported. -/
structure Ready (hmac : Hmac) (key logs : Bytes) (c : Card UInt8) (folder : Folder UInt8) : Prop where
  listed : c logs = some folder
  few : (folder.names.filter logName).length ≤ 4096
  there : ∀ name ∈ folder.names, logName name = true → (c.read ⟨logs, name⟩).isSome
  exportable : ∀ line ∈ historyLines c logs folder.names, Exportable hmac key line

/-- A complete export of the history on the card `c`. -/
structure Complete (s : Firmware) (key logs dir : Bytes) (c : Card UInt8) (rows : UInt32) (c' : Card UInt8)
    (folder : Folder UInt8) : Prop extends Ready s.hmac key logs c folder where
  rows : rows = UInt32.ofNat (historyLines c logs folder.names).length
  valid : ∀ line ∈ historyLines c logs folder.names, validLogRecord line = true
  text : c'.read (sightings dir) =
    some ((historyLines c logs folder.names).map fun line => exportLogRecord s.hmac line key 2048).flatten

theorem read_congr {c₁ c₂ : Card UInt8} (h : c₁ logs = c₂ logs) (n : Bytes) : c₁.read ⟨logs, n⟩ = c₂.read ⟨logs, n⟩ := by
  unfold Card.read
  rw [show (⟨logs, n⟩ : Path UInt8).folder = logs from rfl, h]

/-- Only the log directory matters. -/
theorem Ready.congr {c₁ c₂ : Card UInt8} {folder : Folder UInt8} (h : Ready hmac key logs c₁ folder) (hsame : c₁ logs = c₂ logs) :
    Ready hmac key logs c₂ folder := by
  refine ⟨hsame ▸ h.listed, h.few, fun name hname hlog => ?_, ?_⟩
  · rw [← read_congr hsame]
    exact h.there name hname hlog
  · rw [← historyLines_congr (read_congr hsame) folder.names]
    exact h.exportable

theorem Complete.congr {c₁ c₂ c' : Card UInt8} {rows : UInt32} {folder : Folder UInt8}
    (h : Complete s key logs dir c₁ rows c' folder) (hsame : c₁ logs = c₂ logs) :
    Complete s key logs dir c₂ rows c' folder := by
  have hlines := historyLines_congr (read_congr hsame) folder.names
  refine ⟨h.toReady.congr hsame, ?_, ?_, ?_⟩
  · rw [← hlines]
    exact h.rows
  · rw [← hlines]
    exact h.valid
  · rw [← hlines]
    exact h.text

theorem valid_of_exported {line : Bytes} {out : Nat} (h : exportLogRecord hmac line key out ≠ []) :
    validLogRecord line = true := by
  unfold exportLogRecord at h
  unfold validLogRecord
  cases hparse : Json.parse line with
  | none =>
    rw [hparse] at h
    exact absurd rfl h
  | some j =>
    rw [hparse] at h
    dsimp only at h ⊢
    by_contra hinvalid
    rw [Bool.not_eq_true] at hinvalid
    rw [hinvalid] at h
    exact h rfl

theorem openLogs_ends (logs : Bytes) (w : World UInt8) : Ends (openLogs logs) w fun names w' =>
    w'.card = w.card ∧ (∀ ns, names = some ns → ∃ folder, w.card logs = some folder ∧ folder.names = ns) ∧
      (w.fates = [] → names = (w.card logs).map Folder.names ∧ w'.fates = []) := by
  refine (succeeds_ends w).bind fun opened w₁ hopen => ?_
  obtain ⟨hcard, hclean⟩ := hopen
  refine ⟨hcard, fun ns hns => ?_, fun h => ?_⟩
  · change (if opened = true then (w₁.card logs).map Folder.names else none) = some ns at hns
    split at hns
    · rw [hcard] at hns
      exact Option.map_eq_some_iff.mp hns
    · cases hns
  · change (if opened = true then (w₁.card logs).map Folder.names else none) = _ ∧ w₁.fates = []
    rw [(hclean h).1, if_pos rfl, hcard]
    exact ⟨rfl, (hclean h).2⟩

theorem Within.sightings (dir : Bytes) {p : Path UInt8} (h : p = sightings dir) : Within dir p := by
  rw [h]
  rfl

theorem path_ne (dir : Bytes) {a b : Bytes} (h : a ≠ b) : (⟨dir, a⟩ : Path UInt8) ≠ ⟨dir, b⟩ :=
  fun heq => h (congrArg Path.name heq)

/-- The rows of the history, once the export's own file has been made. -/
theorem rows_ends (out : Option (Stream UInt8)) (w : World UInt8) (hpath : ∀ f ∈ out, f.path = sightings dir)
    (names : Option (List Bytes)) :
    Ends (match names with
      | none => pure { ok := false, out }
      | some names => exportFiles hmac key logs { ok := out.isSome, out } names) w fun r w' =>
      Serves dir w out w' r.out ∧ (logs ≠ dir → r.ok = true → ∃ ns, names = some ns ∧
        Exports hmac key logs ns w { ok := out.isSome, out } w' r) := by
  cases names with
  | none => exact ends_pure ⟨.refl _ _ _, fun _ => nofun⟩
  | some ns =>
    exact (exportFiles_ends ns { ok := out.isSome, out } w hpath).mono fun r w' h =>
      ⟨h.1, fun hlogs hok => ⟨ns, rfl, h.2 hlogs hok⟩⟩

theorem writeExport_ends (s : Firmware) (key logs dir : Bytes) (w : World UInt8) : Ends (writeExport s key logs dir) w fun r w' =>
    Touches (Within dir) w.card w'.card ∧
      (r.1 = true → (w'.card.read (manifest dir)).isSome ∧
        (logs ≠ dir → ∃ folder, Complete s key logs dir w.card r.2 w'.card folder)) := by
  refine (fopenNew_ends (sightings dir) w).bind fun out w₁ hopen => ?_
  obtain ⟨htouches₁, hout, -⟩ := hopen
  have hpath : ∀ f ∈ out, f.path = sightings dir := fun f hf => (hout f hf).1
  refine (openLogs_ends logs w₁).bind fun names w₂ hnames => ?_
  obtain ⟨hcard₂, hlisted, -⟩ := hnames
  refine (rows_ends out w₂ hpath names).bind fun r w₃ hrows => ?_
  obtain ⟨hserved, hexports⟩ := hrows
  refine Ends.bind (Q := fun _ w₄ => w₄.card = w₃.card) ?_ fun closed w₄ hcard₄ => ?_
  · cases names with
    | none => exact ends_pure rfl
    | some _ => exact (succeeds_ends w₃).mono fun _ _ h => h.1
  refine (finishOut_ends r.out (hserved.out hpath) w₄).bind fun finished w₅ hfinish => ?_
  obtain ⟨htouches₅, htext, -⟩ := hfinish
  refine (writeText_ends (readme dir) readmeText w₅).bind fun readmeOk w₆ htouches₆ => ?_
  refine (writeText_ends (summary dir) (summaryText s.pack r.rows) w₆).bind fun summaryOk w₇ htouches₇ => ?_
  refine (writeManifest_ends (s := s) dir _ w₇).bind fun ok w₈ hmanifest => ?_
  obtain ⟨htouches₈, hmade⟩ := hmanifest
  have hserved' : Touches (· = sightings dir) w₁.card w₃.card := by
    rw [← hcard₂]
    exact hserved.touches
  have hrowsDone : Touches (· = sightings dir) w.card w₅.card := by
    rw [hcard₄] at htouches₅
    exact htouches₁.trans (hserved'.trans htouches₅)
  refine ends_pure ⟨?_, fun hok => ⟨(hmade hok).2, fun hlogs => ?_⟩⟩
  · have hrest : Touches (Within dir) w₅.card w₈.card :=
      (htouches₆.mono fun q hq => by rw [hq]; rfl).trans
        ((htouches₇.mono fun q hq => by rw [hq]; rfl).trans (htouches₈.mono fun q hq => by rw [hq]; rfl))
    exact (hrowsDone.mono fun q hq => Within.sightings dir hq).trans hrest
  · have hall := (hmade hok).1
    simp only [Bool.and_eq_true] at hall
    obtain ⟨-, -, hfinished, -, hrok⟩ := hall
    obtain ⟨ns, hns, hthere, hexportable, hfiles, hfew, hexported⟩ := hexports hlogs hrok
    have hlogs₁ : ∀ n, w₂.card.read ⟨logs, n⟩ = w.card.read ⟨logs, n⟩ := fun n => by
      rw [hcard₂]
      exact htouches₁.file _ fun heq => hlogs (congrArg Path.folder heq)
    have hlogsFolder : w₁.card logs = w.card logs :=
      htouches₁.folder logs fun name heq => hlogs (congrArg Path.folder heq)
    obtain ⟨folder, hfolder, hnames⟩ := hlisted ns hns
    rw [hlogsFolder] at hfolder
    rw [historyLines_congr hlogs₁] at hexported hexportable
    simp only [hlogs₁] at hthere
    rw [← hnames] at hthere hexported hexportable hfiles
    obtain ⟨f, hf⟩ := Option.isSome_iff_exists.mp hexported.ok
    have hstart : Carries w₂.card f [] := by
      rw [hcard₂]
      exact (hout f hf).2
    obtain ⟨f', hf', hcarried⟩ := hexported.out f hf [] hstart
    rw [← hcard₄] at hcarried
    have hread := htext hfinished f' hf' _ hcarried
    refine ⟨folder, ⟨hfolder, ?_, hthere, hexportable⟩, ?_, fun line hline => valid_of_exported (hexportable line hline).exported, ?_⟩
    · rw [hfiles] at hfew
      exact (Nat.zero_add _).symm.trans_le (hfew (Nat.zero_le _))
    · rw [hexported.rows]
      exact UInt32.zero_add _
    · -- the other files of the export have other names
      have hother : ∀ {p : Path UInt8} {c c' : Card UInt8}, Touches (· = p) c c' → sightings dir ≠ p →
          c'.read (sightings dir) = c.read (sightings dir) := fun h hne => h.file _ hne
      rw [hother htouches₈ (path_ne dir (by decide)), hother htouches₇ (path_ne dir (by decide)),
        hother htouches₆ (path_ne dir (by decide)), hread]
      rfl

/-! ## The writer of the log -/

/-- The open writer of a log, which the card has. -/
structure OpenLog (c : Card UInt8) where
  writer : Stream UInt8
  text : Bytes
  stored : c.read writer.path = some text
  inside : writer.pos ≤ text.length

/-- The log with this much of the buffer written to it. -/
def OpenLog.flushed {c : Card UInt8} (log : OpenLog c) (n : Nat) : Card UInt8 :=
  c.store log.writer.path (overwrite log.text log.writer.pos (log.writer.held.take n))

theorem finish_log (log : OpenLog w.card) : Ends (finish log.writer) w fun ok w' =>
    ∃ n, w'.card = log.flushed n ∧ (ok = true → log.writer.held.length ≤ n) := by
  refine (fflush_flushed log.stored).bind fun r w₁ hflush => ?_
  obtain ⟨m, hflushed, hall⟩ := hflush
  refine (succeeds_ends w₁).bind fun synced w₂ hsync => ?_
  have hread : w₂.card.read r.2.path = some (overwrite log.text log.writer.pos (log.writer.held.take m)) := by
    rw [hsync.1, hflushed.card, hflushed.stream]
    exact read_store_self log.stored _
  refine Ends.bind (Q := fun closed w₃ => ∃ n, w₃.card = log.flushed (m + n)) ?_ fun closed w₃ hclose => ?_
  · refine (fflush_flushed hread).bind fun r' w₃ hflush' => ?_
    obtain ⟨n, hflushed', -⟩ := hflush'
    rw [hsync.1] at hflushed'
    exact ends_pure ⟨n, (hflushed.trans hflushed' log.inside).card⟩
  · obtain ⟨n, hcard⟩ := hclose
    refine ends_pure ⟨m + n, hcard, fun hok => ?_⟩
    simp only [Bool.and_eq_true] at hok
    exact (hall hok.2.2).trans (Nat.le_add_right m n)

/-- The log is open again at its end, or not open. -/
theorem reopen_ends (p : Path UInt8) (w : World UInt8) : Ends (reopen p) w fun writer w' =>
    w'.card = w.card ∧
      (∀ f ∈ writer, ∃ text, w.card.read p = some text ∧ f = { path := p, pos := text.length }) ∧
      (w.fates = [] → (w.card.read p).isSome → writer.isSome ∧ w'.fates = []) := by
  refine (fopenUpdate_ends p w).bind fun writer w₁ hopen => ?_
  obtain ⟨hcard₁, hout, hclean₁⟩ := hopen
  split
  · exact ends_pure ⟨hcard₁, nofun, fun h hthere => absurd (hclean₁ h hthere).1 Bool.false_ne_true⟩
  · rename_i f
    obtain ⟨rfl, hthere⟩ := hout f rfl
    obtain ⟨text, htext⟩ := Option.isSome_iff_exists.mp hthere
    rw [← hcard₁] at htext
    refine (fseekEnd_ends (s := { path := p }) htext rfl).bind fun r w₂ hseek => ?_
    obtain ⟨hcard₂, hsought, hunsought, hclean₂⟩ := hseek
    have hcard : w₂.card = w.card := hcard₂.trans hcard₁
    dsimp only
    split
    · rename_i hok
      refine ends_pure ⟨hcard, fun g hg => ⟨text, ?_, ?_⟩, fun h hthere => ⟨rfl, (hclean₂ (hclean₁ h hthere).2).2⟩⟩
      · rw [← hcard₁]
        exact htext
      · cases hg
        exact (hsought hok).trans rfl
    · rename_i hfails
      refine Ends.bind (Q := fun _ w₃ => w₃.card = w.card) ?_ fun _ w₃ hclosed => ?_
      · rw [← hcard₂] at htext
        rw [hunsought (Bool.not_eq_true _ ▸ hfails)]
        exact (fclose_nothing htext rfl).mono fun _ _ h => h.trans hcard
      · exact ends_pure ⟨hclosed, nofun, fun h hthere => absurd (hclean₂ (hclean₁ h hthere).2).1 hfails⟩

/-! ## All or nothing -/

/-- The log with all that its writer held. -/
def OpenLog.saved {c : Card UInt8} (log : OpenLog c) : Card UInt8 := log.flushed log.writer.held.length

theorem OpenLog.flushed_all {c : Card UInt8} (log : OpenLog c) {n : Nat} (h : log.writer.held.length ≤ n) :
    log.flushed n = log.saved := by
  unfold saved flushed
  rw [List.take_of_length_le h, List.take_length]

/-- A writer that holds nothing leaves its log as it is. -/
theorem OpenLog.flushed_nothing {c : Card UInt8} (log : OpenLog c) (h : log.writer.held = []) (n : Nat) : log.flushed n = c := by
  unfold flushed
  rw [h, List.take_nil, overwrite_nil]
  exact Card.store_self log.stored

theorem OpenLog.saved_nothing {c : Card UInt8} (log : OpenLog c) (h : log.writer.held = []) : log.saved = c :=
  log.flushed_nothing h _

theorem OpenLog.folder_flushed {c : Card UInt8} (log : OpenLog c) (n : Nat) (folder : Bytes) :
    (log.flushed n folder).isSome = (c folder).isSome := by
  unfold flushed Card.store Card.change
  by_cases h : folder = log.writer.path.folder
  · rw [h, Function.update_self, Option.isSome_map]
  · rw [Function.update_of_ne h]

/-- What a call of `export_history_files` leaves behind. -/
structure Outcome (s : Firmware) (key logs dir : Bytes) {c : Card UInt8} (log : OpenLog c) (ok : Bool)
    (writer : Option (Stream UInt8)) (rows : UInt32) (c' : Card UInt8) : Prop where
  kept : ∃ n, (ok = true → log.writer.held.length ≤ n) ∧
    ∀ folder, folder ≠ dir ∨ (c dir).isSome → c' folder = log.flushed n folder
  manifest : c dir = none → ((c'.read (manifest dir)).isSome ↔ ok = true)
  complete : ok = true → (c logs).isSome → ∃ folder, Complete s key logs dir log.saved rows c' folder
  reopened : ∀ f ∈ writer, ∃ text, c'.read log.writer.path = some text ∧ f = { path := log.writer.path, pos := text.length }
  resumed : ok = true → writer.isSome

/-- A card that keeps its saved logs while the new directory is filled. -/
theorem OpenLog.path_apart {c : Card UInt8} (log : OpenLog c) (hnew : c dir = none) : log.writer.path.folder ≠ dir := by
  intro heq
  have hstored := log.stored
  unfold Card.read at hstored
  rw [heq, hnew] at hstored
  cases hstored

/-- A call that has not made the directory. -/
theorem outcome_unmade {log : OpenLog w.card} {n : Nat} {c' : Card UInt8} {writer : Option (Stream UInt8)} {rows : UInt32}
    (hcard : c' = log.flushed n ∨ w.card dir = none ∧ c' = (log.flushed n).mkdir dir)
    (hwriter : ∀ f ∈ writer, ∃ text, c'.read log.writer.path = some text ∧ f = { path := log.writer.path, pos := text.length }) :
    Outcome s key logs dir log false writer rows c' := by
  refine ⟨⟨n, nofun, fun folder hfolder => ?_⟩, fun hnew => ⟨fun hthere => ?_, nofun⟩, nofun, hwriter, nofun⟩
  · rcases hcard with hcard | ⟨hnew, hcard⟩
    · rw [hcard]
    · rw [hcard]
      refine Function.update_of_ne (hfolder.resolve_right ?_) _ _
      rw [hnew]
      exact Bool.false_ne_true
  · have hflushed : log.flushed n dir = none := by
      rw [← Option.not_isSome_iff_eq_none, log.folder_flushed, hnew]
      exact Bool.false_ne_true
    rcases hcard with hcard | ⟨-, hcard⟩
    · rw [hcard, Card.read, show (manifest dir).folder = dir from rfl, hflushed] at hthere
      exact Bool.noConfusion hthere
    · rw [hcard, read_mkdir dir rfl] at hthere
      exact Bool.noConfusion hthere

theorem exportHistoryFiles_ends (s : Firmware) (key logs dir : Bytes) (log : OpenLog w.card) :
    Ends (exportHistoryFiles s key logs dir (some log.writer)) w fun r w' =>
      Outcome s key logs dir log r.1 r.2.1 r.2.2 w'.card := by
  refine (finish_log log).bind fun closed w₁ hclose => ?_
  obtain ⟨n, hcard₁, hall⟩ := hclose
  split
  · exact ends_pure (outcome_unmade (.inl hcard₁) nofun)
  rename_i hclosed
  rw [Bool.not_eq_true, Bool.not_eq_false'] at hclosed
  have hn := hall hclosed
  refine (mkdir_ends dir w₁).bind fun created w₂ hmade => ?_
  have hsome : (w₁.card dir).isSome = (w.card dir).isSome := by
    rw [hcard₁]
    exact log.folder_flushed n dir
  cases created with
  | false =>
    refine Ends.bind (Q := fun r w₃ => r.1 = false ∧ w₃.card = w₂.card) (ends_pure ⟨rfl, rfl⟩) fun r w₃ hnone => ?_
    refine (reopen_ends log.writer.path w₃).bind fun writer w₄ hreopen => ?_
    obtain ⟨hcard₄, hwriter, -⟩ := hreopen
    obtain ⟨written, rows⟩ := r
    obtain ⟨hwritten, hcard₃⟩ := hnone
    have hok : (writer.isSome && written) = false := by
      rw [show written = false from hwritten, Bool.and_false]
    dsimp only
    rw [hok]
    refine Ends.bind (Q := fun _ w₅ => w₅.card = w₄.card) ?_ fun _ w₅ hcard₅ => ends_pure ?_
    · exact (rfl : w₄.card = _)
    have hcard : w₅.card = w₂.card := hcard₅.trans (hcard₄.trans hcard₃)
    refine outcome_unmade (n := n) ?_ fun f hf => ?_
    · rw [hcard, ← hcard₁]
      cases hthere : (w₁.card dir).isSome with
      | true => exact .inl (hmade.there hthere).2
      | false =>
        refine (hmade.failed rfl).imp_right fun hmkdir => ⟨?_, hmkdir⟩
        rw [hthere] at hsome
        exact Option.isSome_eq_false_iff.mp hsome.symm |> Option.isNone_iff_eq_none.mp
    · rw [hcard₅, hcard₄]
      exact hwriter f hf
  | true =>
    have hnew : w.card dir = none := by
      rw [← Option.not_isSome_iff_eq_none, ← hsome]
      intro hthere
      exact Bool.noConfusion (hmade.there hthere).1
    have hcard₂ : w₂.card = log.saved.mkdir dir := by
      rw [hmade.made rfl, hcard₁, log.flushed_all hn]
    rw [if_pos rfl]
    refine (writeExport_ends s key logs dir w₂).bind fun r w₃ hwrite => ?_
    obtain ⟨htouches₃, hwritten⟩ := hwrite
    obtain ⟨written, rows⟩ := r
    refine (reopen_ends log.writer.path w₃).bind fun writer w₄ hreopen => ?_
    obtain ⟨hcard₄, hwriter, -⟩ := hreopen
    -- what happens from here on stays within the new directory
    have htouches : Touches (Within dir) log.saved w₄.card := by
      rw [hcard₄]
      rw [hcard₂] at htouches₃
      exact touches_mkdir.trans htouches₃
    have hkept : ∀ {c' : Card UInt8}, Touches (Within dir) log.saved c' →
        ∃ n, (n = log.writer.held.length) ∧ ∀ folder, folder ≠ dir ∨ (w.card dir).isSome → c' folder = log.flushed n folder := by
      intro c' h
      refine ⟨_, rfl, fun folder hfolder => h.folder folder fun name hname => ?_⟩
      rw [hnew] at hfolder
      exact hfolder.elim (fun hne => hne hname) Bool.false_ne_true
    dsimp only
    cases hok : (writer.isSome && written) with
    | false =>
      refine Ends.bind (Q := fun _ w₅ => w₅.card = w₄.card.remove (manifest dir)) ?_ fun _ w₅ hcard₅ => ends_pure ?_
      · exact (rfl : (w₄.card.remove (manifest dir)) = _)
      have hremoved : Touches (Within dir) w₄.card w₅.card := by
        rw [hcard₅]
        exact (touches_remove _ _).mono fun q hq => by rw [hq]; rfl
      obtain ⟨m, -, hsame⟩ := hkept (htouches.trans hremoved)
      refine ⟨⟨m, nofun, hsame⟩, fun _ => ⟨fun hthere => ?_, nofun⟩, nofun, fun f hf => ?_, nofun⟩
      · rw [hcard₅, Card.read_remove, if_pos rfl] at hthere
        exact Bool.noConfusion hthere
      · rw [hremoved.file _ (log.path_apart hnew), hcard₄]
        exact hwriter f hf
    | true =>
      refine Ends.bind (Q := fun _ w₅ => w₅.card = w₄.card) ?_ fun _ w₅ hcard₅ => ends_pure ?_
      · exact (rfl : w₄.card = _)
      obtain ⟨hopen, hgood⟩ := Bool.and_eq_true_iff.mp hok
      obtain ⟨hmanifest, hcomplete⟩ := hwritten hgood
      obtain ⟨m, hm, hsame⟩ := hkept htouches
      rw [← hcard₅] at hsame
      refine ⟨⟨m, fun _ => hm.ge, hsame⟩, fun _ => ⟨fun _ => rfl, fun _ => ?_⟩, fun _ hlogs => ?_, fun f hf => ?_, fun _ => hopen⟩
      · rw [hcard₅, hcard₄]
        exact hmanifest
      · have hapart : logs ≠ dir := by
          rintro rfl
          rw [hnew] at hlogs
          exact Bool.noConfusion hlogs
        obtain ⟨folder, hcomplete⟩ := hcomplete hapart
        rw [hcard₅, hcard₄]
        rw [hcard₂] at hcomplete
        exact ⟨folder, hcomplete.congr (Function.update_of_ne hapart _ _)⟩
      · rw [hcard₅, hcard₄]
        exact hwriter f hf

/-- Whatever fails, an export is all or nothing. -/
theorem export_all_or_nothing (s : Firmware) (key logs dir : Bytes) (c : Card UInt8) (fates : List Fate) (log : OpenLog c) :
    ∃ ok writer rows w', exportHistoryFiles s key logs dir (some log.writer) { card := c, fates } = ((ok, writer, rows), w') ∧
      Outcome s key logs dir log ok writer rows w'.card :=
  ⟨_, _, _, _, rfl, exportHistoryFiles_ends (w := { card := c, fates }) s key logs dir log⟩

end OnCard

end Hound
