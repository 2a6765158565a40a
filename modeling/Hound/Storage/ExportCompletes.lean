import Hound.Records.ExportTotal
import Hound.Storage.ExportAtomicity

/-!
# An export that nothing obstructs

Where no call fails, an export succeeds exactly on a history of whole lines that can be
exported, in at most 4096 files. The number of rows is kept in 32 bits.
-/

namespace Hound

/-! ## Lines of the log -/

/-- A line that every reader of the log takes. -/
structure GoodLine (line : Bytes) : Prop where
  whole : ∃ body, line = body ++ [10] ∧ 10 ∉ body ∧ 0 ∉ body ∧ body.length < 2047
  valid : validLogRecord line = true

theorem GoodLine.line {line : Bytes} (h : GoodLine line) : ∃ body, line = body ++ [10] ∧ 10 ∉ body := by
  obtain ⟨body, hbody, hnot, -⟩ := h.whole
  exact ⟨body, hbody, hnot⟩

/-- `fgets` leaves a whole line as the string in its buffer. -/
theorem cString_whole {line : Bytes} (h : ∃ body, line = body ++ [10] ∧ 10 ∉ body ∧ 0 ∉ body ∧ body.length < 2047) :
    cString line = line ∧ line.getLast? = some 10 := by
  obtain ⟨body, rfl, -, hzero, -⟩ := h
  refine ⟨?_, List.getLast?_concat⟩
  unfold cString
  rw [List.takeWhile_eq_self_iff]
  intro b hb
  rw [bne_iff_ne]
  rintro rfl
  rcases List.mem_append.mp hb with hb | hb
  · exact hzero hb
  · exact absurd (List.mem_singleton.mp hb) (by decide)

theorem record_good {pack : Vector UInt8 6} {d : Detection} {session token : Bytes} {research : Bool} {region : UInt8}
    (h : Recordable d) (hs : IsSession session) (ht : IsToken token) :
    GoodLine (writeRecord pack d session token research 2048 region) := by
  obtain ⟨body, hbody, hlow, hroom⟩ : ∃ body, writeRecord pack d session token research 2048 region = body ++ [10] ∧
    (∀ c ∈ body, 32 ≤ c) ∧ body.length < 2047 := record_line h hs ht
  refine ⟨⟨body, hbody, fun hten => ?_, fun hzero => ?_, hroom⟩, record_valid h hs ht⟩
  · exact absurd (hlow 10 hten) (by decide)
  · exact absurd (hlow 0 hzero) (by decide)

namespace OnCard

open Stdio Io

variable {hmac : Hmac} {key logs dir : Bytes} {s : Firmware} {w w' : World UInt8}

/-! ## The rows -/

/-- The loop goes on, and nothing has failed. -/
structure Going (r : Rows) (w : World UInt8) : Prop where
  ok : r.ok = true
  error : r.error = false
  out : r.out.isSome
  fates : w.fates = []

theorem exportLines_going (chunks : List Bytes) (r : Rows) (h : Going r w)
    (hchunks : ∀ chunk ∈ chunks, (cString chunk).getLast? = some 10 ∧ exportLogRecord hmac (cString chunk) key 2048 ≠ []) :
    Ends (exportLines hmac key r chunks) w Going := by
  induction chunks generalizing r w with
  | nil =>
    unfold exportLines
    rw [h.ok, if_neg (by decide)]
    refine (fgets_ends [] w).bind fun read w₁ hread => ?_
    obtain ⟨herror, hfates⟩ := hread.2.2 h.fates
    refine ends_pure (Q := Going) ⟨rfl, ?_, h.out, hfates⟩
    change (r.error || read.2) = false
    rw [h.error, herror]
    rfl
  | cons chunk chunks ih =>
    obtain ⟨hnewline, hexported⟩ := hchunks chunk List.mem_cons_self
    unfold exportLines
    rw [h.ok, if_neg (by decide)]
    refine (fgets_ends (chunk :: chunks) w).bind fun read w₁ hread => ?_
    obtain ⟨line, error⟩ := read
    obtain ⟨-, htaken, hclean⟩ := hread
    obtain ⟨herror, hfates⟩ := hclean h.fates
    cases herror
    cases htaken rfl
    dsimp only [List.head?_cons]
    rw [hnewline, if_neg (by decide), if_neg (by rw [beq_iff_eq]; exact hexported)]
    refine (writeAll_ends [] r.out _ w₁).bind fun written w₂ hwritten => ?_
    obtain ⟨wrote, out⟩ := written
    obtain ⟨hwrote, hout, hfates₂⟩ := hwritten.2.2 hfates h.out
    cases hwrote
    refine ih _ ⟨rfl, ?_, hout, hfates₂⟩ fun c hc => hchunks c (List.mem_cons_of_mem _ hc)
    change (r.error || false) = false
    rw [h.error]
    rfl

/-- `fgets` takes these lines one by one. -/
theorem chunks_exportable {text : Bytes} (h : ∀ line ∈ Lines.lines 10 text, Exportable hmac key line) :
    Lines.chunks 10 2047 text = Lines.lines 10 text :=
  Lines.pieces_of_lines 10 (Nat.le_refl _) fun line hline => by
    obtain ⟨body, hbody, hnot, -, hroom⟩ := (h line hline).whole
    exact ⟨body, hbody, hnot, hroom⟩

theorem exportFile_going (name : Bytes) (r : Rows) (text : Bytes) (hok : r.ok = true) (hout : r.out.isSome)
    (hfates : w.fates = []) (htext : w.card.read ⟨logs, name⟩ = some text)
    (hlines : ∀ line ∈ Lines.lines 10 text, Exportable hmac key line) :
    Ends (exportFile hmac key logs name r) w fun r' w' => r'.ok = true ∧ r'.out.isSome ∧ w'.fates = [] := by
  refine (fopenRead_ends ⟨logs, name⟩ w).bind fun input w₁ hopen => ?_
  obtain ⟨hinput, hfates₁⟩ := hopen.2.2 hfates
  rw [htext] at hinput
  subst hinput
  refine (exportLines_going (Lines.chunks 10 2047 text) { r with error := false } ⟨hok, rfl, hout, hfates₁⟩ ?_).bind
    fun r' w₂ hgoing => ?_
  · intro chunk hchunk
    rw [chunks_exportable hlines] at hchunk
    obtain ⟨hsame, hlast⟩ := cString_whole (hlines chunk hchunk).whole
    rw [hsame]
    exact ⟨hlast, (hlines chunk hchunk).exported⟩
  · refine (succeeds_ends w₂).bind fun closed w₃ hclose => ?_
    obtain ⟨hclosed, hfates₃⟩ := hclose.2 hgoing.fates
    refine ends_pure ⟨?_, hgoing.out, hfates₃⟩
    change (closed && (r'.ok && !r'.error)) = true
    rw [hclosed, hgoing.ok, hgoing.error]
    rfl

theorem exportFiles_going (names : List Bytes) (r : Rows) (hpath : ∀ f ∈ r.out, f.path = sightings dir) (hlogs : logs ≠ dir)
    (hok : r.ok = true) (hout : r.out.isSome) (hfates : w.fates = [])
    (hcount : r.files + (names.filter logName).length ≤ 4096)
    (hthere : ∀ name ∈ names, logName name = true → ∃ text, w.card.read ⟨logs, name⟩ = some text ∧
      ∀ line ∈ Lines.lines 10 text, Exportable hmac key line) :
    Ends (exportFiles hmac key logs r names) w fun r' w' => r'.ok = true ∧ r'.out.isSome ∧ w'.fates = [] := by
  induction names generalizing r w with
  | nil =>
    unfold exportFiles
    rw [if_neg (by rw [hok]; decide)]
    refine (succeeds_ends w).bind fun ended w₁ hend => ?_
    obtain ⟨hended, hfates₁⟩ := hend.2 hfates
    exact ends_pure ⟨hended, hout, hfates₁⟩
  | cons name names ih =>
    unfold exportFiles
    rw [if_neg (by rw [hok]; decide)]
    refine (succeeds_ends w).bind fun read w₁ hread => ?_
    obtain ⟨hcard₁, hclean₁⟩ := hread
    obtain ⟨hgood, hfates₁⟩ := hclean₁ hfates
    subst hgood
    rw [if_neg (by decide)]
    rw [← hcard₁] at hthere
    have hrest : ∀ n ∈ names, logName n = true → ∃ text, w₁.card.read ⟨logs, n⟩ = some text ∧
        ∀ line ∈ Lines.lines 10 text, Exportable hmac key line := fun n hn => hthere n (List.mem_cons_of_mem _ hn)
    cases hlog : logName name with
    | false =>
      rw [if_pos (by decide)]
      rw [List.filter_cons, if_neg (by rw [hlog]; exact Bool.false_ne_true)] at hcount
      exact ih r hpath hok hout hfates₁ hcount hrest
    | true =>
      rw [if_neg (by decide)]
      rw [List.filter_cons, if_pos hlog, List.length_cons] at hcount
      rw [if_neg (by omega)]
      obtain ⟨text, htext, hlines⟩ := hthere name List.mem_cons_self hlog
      refine ((exportFile_going name { r with files := r.files + 1 } text hok hout hfates₁ htext hlines).and
        (exportFile_ends name { r with files := r.files + 1 } w₁ hpath)).bind fun r₁ w₂ hfile => ?_
      obtain ⟨⟨hok₁, hout₁, hfates₂⟩, hserved, hfiles, -⟩ := hfile
      refine ih r₁ (hserved.out hpath) hok₁ hout₁ hfates₂ ?_ fun n hn hlogn => ?_
      · rw [hfiles]
        change r.files + 1 + _ ≤ 4096
        omega
      · rw [hserved.touches.file _ fun heq => hlogs (congrArg Path.folder heq)]
        exact hrest n hn hlogn

/-! ## The other files -/

theorem isSome_folder {c : Card UInt8} {p : Path UInt8} (h : (c.read p).isSome) : (c p.folder).isSome := by
  unfold Card.read at h
  cases hfolder : c p.folder with
  | none =>
    rw [hfolder] at h
    exact h
  | some _ => rfl

theorem writeText_made (p : Path UInt8) (text : Bytes) (hfates : w.fates = []) (hfolder : (w.card p.folder).isSome)
    (hnew : w.card.read p = none) :
    Ends (writeText p text) w fun ok w' => ok = true ∧ (w'.card.read p).isSome ∧ w'.fates = [] := by
  refine (fopenNew_ends p w).bind fun out w₁ hopen => ?_
  obtain ⟨-, hout, hclean⟩ := hopen
  obtain ⟨hmade, hfates₁⟩ := hclean hfates hfolder hnew
  obtain ⟨f, rfl⟩ := Option.isSome_iff_exists.mp hmade
  obtain ⟨hpath, stored, hread, -⟩ := hout f rfl
  refine Ends.bind (Q := fun r w' => r.1 = true ∧ ∃ f', r.2 = some f' ∧ f'.path = p ∧ (w'.card.read p).isSome ∧ w'.fates = [])
    ?_ fun r w₂ hwrote => ?_
  · refine (fwrite_ends f text w₁).bind fun r w₂ hwrite => ?_
    obtain ⟨hsame, hserved, -, hclean₂⟩ := hwrite
    obtain ⟨hok, hfates₂⟩ := hclean₂ hfates₁
    refine ends_pure ⟨hok, r.2, rfl, hsame.trans hpath, ?_, hfates₂⟩
    rw [← hpath, hserved.there, hread]
    rfl
  · obtain ⟨wrote, out⟩ := r
    obtain ⟨hok, f', hf', hpath', hthere, hfates₂⟩ := hwrote
    cases hok
    cases hf'
    refine (finish_ends f' w₂).bind fun finished w₃ hfinish => ?_
    obtain ⟨hserved, -, hclean₃⟩ := hfinish
    obtain ⟨hfinished, hfates₃⟩ := hclean₃ hfates₂
    refine ends_pure ⟨?_, ?_, hfates₃⟩
    · rw [hfinished]
      rfl
    · rw [← hpath', hserved.there, hpath']
      exact hthere

theorem manifestLines_made (names : List (Path UInt8)) (f : Stream UInt8) (hfates : w.fates = [])
    (hhash : ∀ text, (s.sha256 text).isSome) (hthere : ∀ p ∈ names, p ≠ f.path ∧ (w.card.read p).isSome) :
    Ends (manifestLines s f names) w fun r w' => r.1 = true ∧ w'.fates = [] := by
  induction names generalizing f w with
  | nil => exact ends_pure ⟨rfl, hfates⟩
  | cons p names ih =>
    obtain ⟨-, hp⟩ := hthere p List.mem_cons_self
    obtain ⟨text, htext⟩ := Option.isSome_iff_exists.mp hp
    obtain ⟨digest, hdigest⟩ := Option.isSome_iff_exists.mp (hhash text)
    refine Ends.bind (Q := fun d w' => d = some (lowerHex digest.toList) ∧ w'.card = w.card ∧ w'.fates = []) ?_
      fun d w₁ hhashed => ?_
    · refine (fopenRead_ends p w).bind fun input w₁ hopen => ?_
      obtain ⟨hinput, hfates₁⟩ := hopen.2.2 hfates
      refine (succeeds_ends w₁).bind fun hashed w₂ hhashed => ?_
      obtain ⟨hgood, hfates₂⟩ := hhashed.2 hfates₁
      refine ends_pure ⟨?_, hhashed.1.trans hopen.1, hfates₂⟩
      rw [hgood, hinput, htext, if_pos rfl, Option.bind_some, hdigest]
      rfl
    · obtain ⟨rfl, hcard₁, hfates₁⟩ := hhashed
      refine (fwrite_ends f _ w₁).bind fun r w₂ hwrite => ?_
      obtain ⟨hpath, hserved, -, hclean₂⟩ := hwrite
      obtain ⟨wrote, f'⟩ := r
      obtain ⟨hwrote, hfates₂⟩ := hclean₂ hfates₁
      cases hwrote
      refine ih f' hfates₂ fun q hq => ?_
      obtain ⟨hne, hread⟩ := hthere q (List.mem_cons_of_mem _ hq)
      rw [hpath]
      refine ⟨hne, ?_⟩
      rw [hserved.touches.file q hne, hcard₁]
      exact hread

theorem writeManifest_made (hfates : w.fates = []) (hhash : ∀ text, (s.sha256 text).isSome)
    (hthere : ∀ p ∈ [sightings dir, summary dir, readme dir], (w.card.read p).isSome)
    (hnew : w.card.read (manifest dir) = none) : Ends (writeManifest s dir true) w fun ok w' => ok = true ∧ w'.fates = [] := by
  unfold writeManifest
  rw [if_neg (by decide)]
  refine (fopenNew_ends (manifest dir) w).bind fun out w₁ hopen => ?_
  obtain ⟨htouches, hout, hclean⟩ := hopen
  have hfolder : (w.card (sightings dir).folder).isSome := isSome_folder (hthere (sightings dir) List.mem_cons_self)
  obtain ⟨hmade, hfates₁⟩ := hclean hfates hfolder hnew
  obtain ⟨f, rfl⟩ := Option.isSome_iff_exists.mp hmade
  have hpath : f.path = manifest dir := (hout f rfl).1
  -- the other files have other names
  have hother : ∀ p ∈ [sightings dir, summary dir, readme dir], p ≠ manifest dir := by
    intro p hp
    simp only [List.mem_cons, List.not_mem_nil, or_false] at hp
    rcases hp with rfl | rfl | rfl <;> exact path_ne dir (by decide)
  refine (manifestLines_made [sightings dir, summary dir, readme dir] f hfates₁ hhash fun p hp => ?_).bind fun r w₂ hlines => ?_
  · rw [hpath, htouches.file p (hother p hp)]
    exact ⟨hother p hp, hthere p hp⟩
  · refine (finish_ends r.2 w₂).bind fun finished w₃ hfinish => ?_
    obtain ⟨hfinished, hfates₃⟩ := hfinish.2.2 hlines.2
    refine ends_pure ⟨?_, hfates₃⟩
    rw [hfinished, hlines.1]
    rfl

/-! ## The whole export -/

theorem Ready.text {c : Card UInt8} {folder : Folder UInt8} (h : Ready hmac key logs c folder) {name : Bytes}
    (hname : name ∈ folder.names) (hlog : logName name = true) :
    ∃ text, c.read ⟨logs, name⟩ = some text ∧ ∀ line ∈ Lines.lines 10 text, Exportable hmac key line := by
  obtain ⟨text, htext⟩ := Option.isSome_iff_exists.mp (h.there name hname hlog)
  refine ⟨text, htext, fun line hline => h.exportable line ?_⟩
  refine List.mem_flatMap.mpr ⟨name, List.mem_filter.mpr ⟨hname, hlog⟩, ?_⟩
  rw [htext]
  exact hline

theorem writeExport_made {folder : Folder UInt8} (hfates : w.fates = []) (hdir : w.card dir = some {}) (hlogs : logs ≠ dir)
    (hready : Ready s.hmac key logs w.card folder) (hhash : ∀ text, (s.sha256 text).isSome) :
    Ends (writeExport s key logs dir) w fun r w' => r.1 = true ∧ w'.fates = [] := by
  have hempty : ∀ name, w.card.read ⟨dir, name⟩ = none := fun name => by
    unfold Card.read
    rw [show (⟨dir, name⟩ : Path UInt8).folder = dir from rfl, hdir]
    rfl
  refine (fopenNew_ends (sightings dir) w).bind fun out w₁ hopen => ?_
  obtain ⟨htouches₁, hout, hclean₁⟩ := hopen
  obtain ⟨hmade, hfates₁⟩ := hclean₁ hfates (by rw [show (sightings dir).folder = dir from rfl, hdir]; rfl) (hempty _)
  have hpath : ∀ f ∈ out, f.path = sightings dir := fun f hf => (hout f hf).1
  have hthere₁ : (w₁.card.read (sightings dir)).isSome := by
    obtain ⟨f, hf⟩ := Option.isSome_iff_exists.mp hmade
    obtain ⟨hfpath, stored, hread, -⟩ := hout f hf
    rw [← hfpath, hread]
    rfl
  have hlogs₁ : w₁.card logs = w.card logs := htouches₁.folder logs fun name heq => hlogs (congrArg Path.folder heq)
  refine (openLogs_ends logs w₁).bind fun names w₂ hnames => ?_
  obtain ⟨hcard₂, -, hclean₂⟩ := hnames
  obtain ⟨hlisted, hfates₂⟩ := hclean₂ hfates₁
  rw [hlogs₁, hready.listed] at hlisted
  subst hlisted
  have hready₂ : ∀ name ∈ folder.names, logName name = true → ∃ text, w₂.card.read ⟨logs, name⟩ = some text ∧
      ∀ line ∈ Lines.lines 10 text, Exportable s.hmac key line := fun name hname hlog => by
    rw [hcard₂, htouches₁.file _ fun heq => hlogs (congrArg Path.folder heq)]
    exact hready.text hname hlog
  refine ((exportFiles_going folder.names { ok := out.isSome, out } hpath hlogs hmade hmade hfates₂
    ((Nat.zero_add _).trans_le hready.few) hready₂).and
      (exportFiles_ends folder.names { ok := out.isSome, out } w₂ hpath)).bind fun r w₃ hrows => ?_
  obtain ⟨⟨hok, hout₃, hfates₃⟩, hserved, hexports⟩ := hrows
  refine (succeeds_ends w₃).bind fun closed w₄ hclose => ?_
  obtain ⟨hcard₄, hclean₄⟩ := hclose
  obtain ⟨hclosed, hfates₄⟩ := hclean₄ hfates₃
  refine (finishOut_ends r.out (hserved.out hpath) w₄).bind fun finished w₅ hfinish => ?_
  obtain ⟨htouches₅, htext, hclean₅⟩ := hfinish
  obtain ⟨hfinished, hfates₅⟩ := hclean₅ hfates₄
  have hsightings : (w₅.card.read (sightings dir)).isSome := by
    obtain ⟨f, hf⟩ := Option.isSome_iff_exists.mp hmade
    have hstart : Carries w₂.card f [] := by
      rw [hcard₂]
      exact (hout f hf).2
    obtain ⟨f', hf', hcarried⟩ := (hexports hlogs hok).exported.out f hf [] hstart
    rw [← hcard₄] at hcarried
    rw [htext hfinished f' hf' _ hcarried]
    rfl
  have hrest : Touches (· = sightings dir) w.card w₅.card := by
    rw [hcard₄] at htouches₅
    rw [← hcard₂] at htouches₁
    exact htouches₁.trans (hserved.touches.trans htouches₅)
  -- each of the other files is new when it is written
  refine ((writeText_made (readme dir) readmeText hfates₅ (isSome_folder (p := sightings dir) hsightings) ?_).and
    (writeText_ends (readme dir) readmeText w₅)).bind fun readmeOk w₆ hreadme => ?_
  · rw [hrest.file (readme dir) (path_ne dir (by decide))]
    exact hempty _
  obtain ⟨⟨hreadmeOk, hreadmeThere, hfates₆⟩, htouches₆⟩ := hreadme
  have hsightings₆ : (w₆.card.read (sightings dir)).isSome := by
    rw [htouches₆.file (sightings dir) (path_ne dir (by decide))]
    exact hsightings
  refine ((writeText_made (summary dir) (summaryText s.pack r.rows) hfates₆ (isSome_folder (p := sightings dir) hsightings₆) ?_).and
    (writeText_ends (summary dir) (summaryText s.pack r.rows) w₆)).bind fun summaryOk w₇ hsummary => ?_
  · rw [htouches₆.file (summary dir) (path_ne dir (by decide)), hrest.file (summary dir) (path_ne dir (by decide))]
    exact hempty _
  obtain ⟨⟨hsummaryOk, hsummaryThere, hfates₇⟩, htouches₇⟩ := hsummary
  have hall : (summaryOk && (readmeOk && (finished && (closed && r.ok)))) = true := by
    rw [hsummaryOk, hreadmeOk, hfinished, hclosed, hok]
    rfl
  rw [hall]
  refine (writeManifest_made (s := s) hfates₇ hhash (fun p hp => ?_) ?_).bind fun ok w₈ hmanifest => ends_pure hmanifest
  · simp only [List.mem_cons, List.not_mem_nil, or_false] at hp
    rcases hp with rfl | rfl | rfl
    · rw [htouches₇.file (sightings dir) (path_ne dir (by decide))]
      exact hsightings₆
    · exact hsummaryThere
    · rw [htouches₇.file (readme dir) (path_ne dir (by decide))]
      exact hreadmeThere
  · rw [htouches₇.file (manifest dir) (path_ne dir (by decide)), htouches₆.file (manifest dir) (path_ne dir (by decide)),
      hrest.file (manifest dir) (path_ne dir (by decide))]
    exact hempty _

theorem exportHistoryFiles_made {folder : Folder UInt8} (log : OpenLog w.card) (hfates : w.fates = [])
    (hnew : w.card dir = none) (hready : Ready s.hmac key logs log.saved folder) (hhash : ∀ text, (s.sha256 text).isSome) :
    Ends (exportHistoryFiles s key logs dir (some log.writer)) w fun r _ => r.1 = true := by
  refine ((finish_log log).and (finish_ends log.writer w)).bind fun closed w₁ hclose => ?_
  obtain ⟨⟨n, hcard₁, hall⟩, -, -, hclean₁⟩ := hclose
  obtain ⟨hclosed, hfates₁⟩ := hclean₁ hfates
  subst hclosed
  rw [log.flushed_all (hall rfl)] at hcard₁
  rw [if_neg (by decide)]
  have hlogs : logs ≠ dir := by
    rintro rfl
    have hfolder := log.folder_flushed log.writer.held.length logs
    rw [hnew, show log.flushed log.writer.held.length = log.saved from rfl, hready.listed] at hfolder
    exact Bool.noConfusion hfolder
  have hnew₁ : w₁.card dir = none := by
    rw [hcard₁, ← Option.not_isSome_iff_eq_none, OpenLog.saved, log.folder_flushed, hnew]
    exact Bool.false_ne_true
  refine (mkdir_ends dir w₁).bind fun created w₂ hmade => ?_
  obtain ⟨hcreated, hfates₂⟩ := hmade.clean hfates₁ hnew₁
  subst hcreated
  have hcard₂ : w₂.card = log.saved.mkdir dir := by rw [hmade.made rfl, hcard₁]
  have hready₂ : Ready s.hmac key logs w₂.card folder := by
    rw [hcard₂]
    exact hready.congr (Function.update_of_ne hlogs _ _).symm
  refine ((writeExport_made hfates₂ (by rw [hcard₂]; exact Function.update_self _ _ _) hlogs hready₂ hhash).and
    (writeExport_ends s key logs dir w₂)).bind fun r w₃ hwrite => ?_
  obtain ⟨⟨hok, hfates₃⟩, htouches, -⟩ := hwrite
  have hthere : (w₃.card.read log.writer.path).isSome := by
    rw [htouches.file _ (log.path_apart hnew), hcard₂, Touches.file touches_mkdir _ (log.path_apart hnew), OpenLog.saved]
    unfold OpenLog.flushed
    rw [read_store_self log.stored]
    rfl
  refine (reopen_ends log.writer.path w₃).bind fun writer w₄ hreopen => ?_
  obtain ⟨hopen, -⟩ := hreopen.2.2 hfates₃ hthere
  obtain ⟨written, rows⟩ := r
  have hgood : (writer.isSome && written) = true := by rw [hopen, show written = true from hok]; rfl
  dsimp only
  rw [hgood]
  exact Ends.bind (Q := fun _ _ => True) trivial fun _ _ _ => ends_pure rfl

/-- An export that nothing obstructs succeeds exactly when the history can be exported. -/
theorem export_succeeds_iff (s : Firmware) (key logs dir : Bytes) (c : Card UInt8) (log : OpenLog c) (hlogs : (c logs).isSome)
    (hnew : c dir = none) (hhash : ∀ text, (s.sha256 text).isSome) :
    (exportHistoryFiles s key logs dir (some log.writer) { card := c }).1.1 = true ↔
      ∃ folder, Ready s.hmac key logs log.saved folder := by
  constructor
  · intro hok
    have houtcome := exportHistoryFiles_ends (w := { card := c }) s key logs dir log
    obtain ⟨folder, hcomplete⟩ := houtcome.complete hok hlogs
    exact ⟨folder, hcomplete.toReady⟩
  · rintro ⟨folder, hready⟩
    exact exportHistoryFiles_made (w := { card := c }) log rfl hnew hready hhash

/-! ## The board of the examples -/

/-- SHA-256 of `README.TXT`. -/
def readmeDigest : Digest :=
  #v[168, 11, 123, 129, 13, 174, 124, 18, 193, 12, 155, 167, 3, 253, 106, 131, 221, 117, 143, 94, 134, 33, 94, 3, 146, 9, 70,
    192, 93, 10, 46, 60]

/-- A board whose SHA-256 has been computed on the three files of an export with this many rows. -/
def exportFirmware (rows : UInt32) (summary sightings : Digest) : Firmware where
  pack := quotingPack
  id := []
  hmac := quotingHmac
  sha256 text := some (if text = readmeText then readmeDigest
    else if text = summaryText quotingPack rows then summary else sightings)

theorem quotingHmac_works (key input : Bytes) : ∃ digest, quotingHmac key input = some digest := by
  unfold quotingHmac
  split
  · exact ⟨_, rfl⟩
  · exact ⟨_, rfl⟩

theorem quotingLine_good : GoodLine quotingLine := record_good quotingDetection_recordable (by decide) (by decide)

/-- An export of one row of the quoting line. -/
def rowFirmware : Firmware :=
  exportFirmware 1
    #v[51, 60, 10, 253, 148, 231, 242, 186, 165, 197, 114, 164, 238, 20, 241, 192, 252, 127, 114, 18, 113, 133, 87, 167, 59, 231,
      233, 50, 116, 96, 104, 72]
    #v[62, 139, 154, 239, 66, 64, 174, 145, 77, 85, 125, 237, 158, 114, 1, 50, 251, 201, 164, 240, 116, 47, 169, 12, 9, 0, 76, 77,
      190, 243, 71, 96]

/-- An export of 2^32 such rows. -/
def fullFirmware : Firmware :=
  exportFirmware 0
    #v[39, 138, 126, 93, 204, 77, 52, 183, 73, 216, 245, 49, 231, 98, 182, 143, 60, 150, 205, 71, 66, 117, 43, 146, 36, 88, 17,
      172, 137, 250, 52, 103]
    #v[212, 132, 219, 42, 128, 218, 139, 133, 107, 238, 210, 226, 185, 157, 196, 95, 99, 61,
      242, 236, 113, 251, 244, 138, 17, 96, 239, 82, 123, 29, 204, 113]

/-! ## A history with too many rows -/

def fullLogs : Bytes := ascii "/LOGS"

def fullDir : Bytes := ascii "/EXPORT"

def fullName (i : Nat) : Bytes := Decimal.padded 8 i ++ ascii ".JSONL"

/-- `n` times the same row. -/
def fullText (line : Bytes) (n : Nat) : Bytes := (List.replicate n line).flatten

/-- `m` files, alike. -/
def fullFolder (m : Nat) (text : Bytes) : Folder UInt8 where
  names := (List.range m).map fullName
  files := fun _ => some text

def fullCard (m : Nat) (text : Bytes) : Card UInt8 := fun path => if path = fullLogs then some (fullFolder m text) else none

section Full

variable (m n : Nat) (text : Bytes) {line : Bytes}

theorem fullCard_logs : fullCard m text fullLogs = some (fullFolder m text) := if_pos rfl

theorem fullCard_read (name : Bytes) : (fullCard m text).read ⟨fullLogs, name⟩ = some text := by
  unfold Card.read
  rw [show (⟨fullLogs, name⟩ : Path UInt8).folder = fullLogs from rfl, fullCard_logs]
  rfl

def fullLog : OpenLog (fullCard m text) where
  writer := { path := ⟨fullLogs, fullName 0⟩, pos := text.length }
  text := text
  stored := fullCard_read m text _
  inside := Nat.le_refl _

theorem fullLog_saved : (fullLog m text).saved = fullCard m text := (fullLog m text).saved_nothing rfl

theorem fullText_lines (h : Exportable hmac key line) :
    Lines.lines 10 (fullText line n) = List.replicate n line := by
  obtain ⟨body, hbody, hnot, -⟩ := h.whole
  exact Lines.lines_flatten 10 fun l hl => ⟨body, (List.eq_of_mem_replicate hl).trans hbody, hnot⟩

theorem logName_fullName (i : Nat) : logName (fullName i) = true := by
  have hslash : (fullName i).contains 47 = false := by
    rw [Bool.eq_false_iff, ne_eq, List.contains_iff_mem]
    intro hmem
    rcases List.mem_append.mp hmem with hmem | hmem
    · exact absurd (Decimal.isDigit_padded hmem) (by decide)
    · exact absurd hmem (by decide)
  have hlength : (fullName i).length - 6 = (Decimal.padded 8 i).length := by
    rw [fullName, List.length_append]
    exact Nat.add_sub_cancel _ _
  unfold logName
  rw [hslash, hlength, fullName, List.drop_left]
  rfl

theorem historyLines_full (h : Exportable hmac key line) :
    historyLines (fullCard m (fullText line n)) fullLogs (fullFolder m (fullText line n)).names =
      List.replicate (m * n) line := by
  have hall : (fullFolder m (fullText line n)).names.filter logName = (fullFolder m (fullText line n)).names := by
    refine List.filter_eq_self.mpr fun name hname => ?_
    obtain ⟨i, -, rfl⟩ := List.mem_map.mp hname
    exact logName_fullName i
  have hlines : ∀ names : List Bytes, names.flatMap (fun name =>
      Lines.lines 10 (((fullCard m (fullText line n)).read ⟨fullLogs, name⟩).getD [])) =
        List.replicate (names.length * n) line := by
    intro names
    induction names with
    | nil => rw [List.flatMap_nil, List.length_nil, Nat.zero_mul, List.replicate_zero]
    | cons name names ih =>
      rw [List.flatMap_cons, ih, fullCard_read, Option.getD_some, fullText_lines n h, List.replicate_append_replicate,
        List.length_cons, Nat.succ_mul, Nat.add_comm]
  unfold historyLines
  rw [hall, hlines]
  rw [show (fullFolder m (fullText line n)).names.length = m from (List.length_map _).trans List.length_range]

theorem full_ready (hm : m ≤ 4096) (h : Exportable hmac key line) :
    Ready hmac key fullLogs (fullCard m (fullText line n)) (fullFolder m (fullText line n)) := by
  refine ⟨fullCard_logs m _, ?_, fun name _ _ => ?_, fun l hl => ?_⟩
  · refine (List.length_filter_le _ _).trans ?_
    exact ((List.length_map _).trans List.length_range).trans_le hm
  · rw [fullCard_read]
    rfl
  · rw [historyLines_full m n h] at hl
    rw [List.eq_of_mem_replicate hl]
    exact h

/-- The export of such a history, and how many rows it gives. -/
theorem full_rows (s : Firmware) (hhash : ∀ text, (s.sha256 text).isSome) (hm : m ≤ 4096) (h : Exportable s.hmac key line) :
    Ends (exportHistoryFiles s key fullLogs fullDir (some (fullLog m (fullText line n)).writer))
      { card := fullCard m (fullText line n) } fun r _ => r.1 = true ∧ r.2.2 = UInt32.ofNat (m * n) := by
  have hnew : fullCard m (fullText line n) fullDir = none := if_neg (by decide)
  have hready := full_ready m n hm h
  rw [← fullLog_saved] at hready
  refine ((exportHistoryFiles_made (w := { card := fullCard m (fullText line n) }) (fullLog m _) rfl hnew hready hhash).and
    (exportHistoryFiles_ends (w := { card := fullCard m (fullText line n) }) s key fullLogs fullDir (fullLog m _))).mono
      fun r w' hdone => ⟨hdone.1, ?_⟩
  have hlogs : (fullCard m (fullText line n) fullLogs).isSome := by
    rw [fullCard_logs]
    rfl
  obtain ⟨folder, hcomplete⟩ := hdone.2.complete hdone.1 hlogs
  rw [fullLog_saved] at hcomplete
  have hfolder : folder = fullFolder m (fullText line n) := Option.some.inj (hcomplete.listed.symm.trans (fullCard_logs m _))
  have hrows := hcomplete.rows
  rw [hfolder, historyLines_full m n h, List.length_replicate] at hrows
  exact hrows

end Full

/-- A line the reader accepts is exported, where the hash works. -/
theorem exported_of_valid {line : Bytes} (hvalid : validLogRecord line = true) (hkey : key.length = 32)
    (works : ∀ input, ∃ digest, hmac key input = some digest) : exportLogRecord hmac line key 2048 ≠ [] := by
  obtain ⟨d, ok, rfl, hparse, h⟩ := accepted_of_valid hvalid
  obtain ⟨items, hroot⟩ := root_of_accepted ok h
  obtain ⟨identity, hidentity⟩ := works (identityInput d.json)
  obtain ⟨session, hsession⟩ := works (sessionInput d.json)
  have hs := exportSession_isSession session
  have ht := exportId_isToken [] identity
  have hrow := exportRow_ok ok hroot h hs ht
  have hsize := exportRow_size ok hroot h hs ht
  have hlimit := ok.size
  rw [exportLogRecord_eq hmac hparse h (by decide) hkey, hidentity, hsession]
  simp only
  rw [writeExport_eq (rawAt_copyOf ok hroot h), if_pos (by omega)]
  refine List.ne_nil_of_length_pos ?_
  rw [Row.length_text hrow.nonempty]
  omega

theorem exportable_of_good {line : Bytes} (h : GoodLine line) (hkey : key.length = 32)
    (works : ∀ input, ∃ digest, hmac key input = some digest) : Exportable hmac key line :=
  ⟨h.whole, exported_of_valid h.valid hkey works⟩

/-- A log of one record is exported. -/
theorem export_succeeds_row :
    (exportHistoryFiles rowFirmware countingKey fullLogs fullDir (some (fullLog 1 (fullText quotingLine 1)).writer)
      { card := fullCard 1 (fullText quotingLine 1) }).1.1 = true ∧
      historyLines (fullCard 1 (fullText quotingLine 1)) fullLogs (fullFolder 1 (fullText quotingLine 1)).names =
        [quotingLine] := by
  have hgood := quotingLine_good
  generalize quotingLine = line at hgood ⊢
  have hline : Exportable quotingHmac countingKey line := exportable_of_good hgood (by decide) (quotingHmac_works countingKey)
  have hready := full_ready 1 1 (by decide) hline
  rw [← fullLog_saved] at hready
  exact ⟨(export_succeeds_iff rowFirmware countingKey fullLogs fullDir (fullCard 1 (fullText line 1))
    (fullLog 1 (fullText line 1)) (by rw [fullCard_logs]; rfl) (if_neg (by decide)) fun _ => rfl).mpr ⟨_, hready⟩,
    historyLines_full 1 1 hline⟩

/-- 4096 files of 2^20 rows each: the export succeeds, and the number of rows is given as 0. -/
theorem full_history_miscounted :
    ¬ ∀ (s : Firmware) (key logs dir : Bytes) (c : Card UInt8) (fates : List Fate) (log : OpenLog c) (folder : Folder UInt8),
      (exportHistoryFiles s key logs dir (some log.writer) { card := c, fates }).1.1 = true → log.saved logs = some folder →
        (exportHistoryFiles s key logs dir (some log.writer) { card := c, fates }).1.2.2.toNat =
          (historyLines log.saved logs folder.names).length := by
  intro h
  have hgood := quotingLine_good
  generalize quotingLine = line at hgood
  have hline : Exportable quotingHmac countingKey line := exportable_of_good hgood (by decide) (quotingHmac_works countingKey)
  obtain ⟨n, hn⟩ : ∃ n, n = 2 ^ 20 := ⟨_, rfl⟩
  obtain ⟨m, hm⟩ : ∃ m, m = 4096 := ⟨_, rfl⟩
  have hdone := full_rows m n fullFirmware (fun _ => rfl) hm.le hline
  obtain ⟨hok, hrows⟩ := hdone
  have hcount := h fullFirmware countingKey fullLogs fullDir (fullCard m (fullText line n)) [] (fullLog m (fullText line n))
    (fullFolder m (fullText line n)) hok (by rw [fullLog_saved, fullCard_logs])
  rw [hrows, fullLog_saved, historyLines_full m n hline, List.length_replicate, hm, hn] at hcount
  exact absurd hcount (by decide)

end OnCard

end Hound
