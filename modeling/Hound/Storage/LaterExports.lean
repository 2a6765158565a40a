import Hound.Storage.ExportCompletes

/-!
# What a later export gives

A recovery that ends with nothing wrong has read every line of the history. An export
afterwards gives these lines and those that were added since, and so does the export
after it.
-/

namespace Hound

namespace Scan

open HistoryRecovery

/-! ## Passes after which nothing is wrong -/

theorem nextFile_clean {r : HistoryRecovery} {p : RecoveryPass} (hopened : p.opened = true) (hclosed : p.closed = true)
    (hdirectory : p.directoryClosed = true) (hinput : r.input = false) (hclean : (r.nextFile p).1.readOnly = false) :
    (p.entry = .done ∧ (r.nextFile p).1 = { r with directory := false }) ∨
      ∃ name, p.entry = .entry name ∧
        ((logName name = false ∧ (r.nextFile p).1 = r) ∨
          (logName name = true ∧ ¬ (4096 : UInt32) < r.files + 1 ∧ (r.nextFile p).1 =
            { r with files := r.files + 1, path := pathOf r.root name, input := true, good := 0 })) := by
  unfold HistoryRecovery.nextFile at hclean ⊢
  cases hentry : p.entry with
  | failed =>
    rw [hentry] at hclean
    simp [hclosed, hdirectory, cancel_true] at hclean
  | done =>
    left
    refine ⟨rfl, ?_⟩
    simp only [hclosed, hdirectory, cancel_true]
    rw [← hinput]
  | entry name =>
    right
    refine ⟨name, rfl, ?_⟩
    rw [hentry] at hclean
    simp only [hclosed, hdirectory, hopened, Bool.not_true, Bool.false_eq_true, if_false] at hclean ⊢
    cases hlog : logName name with
    | false => exact .inl ⟨rfl, by simp⟩
    | true =>
      rw [hlog] at hclean
      simp only [Bool.not_true, Bool.false_eq_true, if_false] at hclean ⊢
      by_cases hmany : (4096 : UInt32) < r.files + 1
      · rw [if_pos hmany, cancel_true] at hclean
        simp at hclean
      rw [if_neg hmany] at hclean ⊢
      by_cases hlong : 300 ≤ (r.root ++ (ascii "/" ++ name)).length
      · rw [if_pos hlong] at hclean
        simp at hclean
      rw [if_neg hlong]
      have hfits : (r.root ++ (ascii "/" ++ name)).length ≤ 299 := by omega
      have hpath : snprintf 300 (r.root ++ (ascii "/" ++ name)) = pathOf r.root name := List.take_of_length_le hfits
      rw [hpath]
      exact .inr ⟨trivial, hmany, rfl⟩

/-! ## What has been read -/

/-- The lines of the history files among these names. -/
def lines (root : Bytes) (files : Bytes → Bytes) (names : List Bytes) : List Bytes :=
  (names.filter logName).flatMap fun name => Lines.lines 10 (files (pathOf root name))

theorem lines_congr {root : Bytes} {files files' : Bytes → Bytes} {names : List Bytes}
    (h : ∀ name ∈ names, files' (pathOf root name) = files (pathOf root name)) : lines root files' names = lines root files names := by
  refine List.flatMap_congr fun name hname => ?_
  rw [h name (List.mem_filter.mp hname).1]

theorem lines_concat (root : Bytes) (files : Bytes → Bytes) (names : List Bytes) (name : Bytes) :
    lines root files (names ++ [name]) =
      lines root files names ++ if logName name then Lines.lines 10 (files (pathOf root name)) else [] := by
  unfold lines
  rw [List.filter_append, List.flatMap_append]
  congr 1
  cases hlog : logName name with
  | false => rw [List.filter_singleton, hlog]; rfl
  | true =>
    rw [List.filter_singleton, hlog]
    exact List.flatMap_singleton _ _

/-- The names that have been opened, the lines that have been read. -/
structure Counted (d : LogDirectory) (s : Scan) (opened read : List Bytes) : Prop where
  names : d.names = opened ++ s.pending
  files : s.recovery.files = UInt32.ofNat (opened.filter logName).length
  few : (opened.filter logName).length ≤ 4096
  accepted : ∀ line ∈ read, GoodLine line
  rows : s.recovery.rows = UInt32.ofNat read.length

/-- How far a recovery has come with nothing wrong. -/
inductive Swept (d : LogDirectory) (s : Scan) : Prop
  /-- These files have been read. -/
  | between (seen : List Bytes) (input : s.recovery.input = false) (ended : s.recovery.active = false → s.pending = [])
      (counted : Counted d s seen (lines d.root s.files seen))
  /-- These lines of the file `name` have been taken. -/
  | within (seen : List Bytes) (name : Bytes) (taken : List Bytes) (input : s.recovery.input = true)
      (active : s.recovery.active = true) (log : logName name = true) (path : s.recovery.path = pathOf d.root name)
      (text : (s.files s.recovery.path).take s.pos = taken.flatten)
      (counted : Counted d s (seen ++ [name]) (lines d.root s.files seen ++ taken))

theorem swept_start (d : LogDirectory) : Swept d (start d) := by
  refine .between [] rfl (fun h => ?_) ⟨rfl, rfl, Nat.zero_le _, nofun, rfl⟩
  exact Bool.noConfusion h

/-- A pass that may open a file. -/
theorem swept_file {d : LogDirectory} {s : Scan} {seen : List Bytes} (hsound : Sound d s) (hactive : s.recovery.active = true)
    (hinput : s.recovery.input = false) (hcounted : Counted d s seen (lines d.root s.files seen))
    (hclean : s.next.recovery.readOnly = false) : Swept d s.next := by
  obtain ⟨hfiles, hpending, hpos, -⟩ := next_file hinput
  have hpass : s.next.recovery = (s.recovery.nextFile s.reply).1 := by
    rw [next, HistoryRecovery.pass, if_neg (by simp [hinput])]
  rw [hpass] at hclean
  have hnames := hcounted.names
  rcases nextFile_clean rfl rfl rfl hinput hclean with ⟨hdone, hnext⟩ | ⟨name, hname, hcases⟩
  · have hnone : s.pending = [] := by
      cases hp : s.pending with
      | nil => rfl
      | cons name more =>
        rw [reply, hp] at hdone
        cases hdone
    refine .between seen ?_ (fun _ => ?_) ⟨?_, ?_, hcounted.few, ?_, ?_⟩
    · rw [hpass, hnext]
      exact hinput
    · rw [hpending, hnone]
      rfl
    · rw [hpending, hnames, hnone]
      rfl
    · rw [hpass, hnext]
      exact hcounted.files
    · rw [hfiles]
      exact hcounted.accepted
    · rw [hpass, hnext, hfiles]
      exact hcounted.rows
  · obtain ⟨more, hmore⟩ : ∃ more, s.pending = name :: more := by
      cases hp : s.pending with
      | nil =>
        rw [reply, hp] at hname
        cases hname
      | cons first more =>
        rw [reply, hp] at hname
        rw [Readdir.entry.inj hname]
        exact ⟨more, rfl⟩
    have hnames' : d.names = (seen ++ [name]) ++ s.next.pending := by
      rw [hpending, hnames, hmore, List.append_assoc]
      rfl
    rcases hcases with ⟨hlog, hnext⟩ | ⟨hlog, hmany, hnext⟩
    · have hfilter : (seen ++ [name]).filter logName = seen.filter logName := by
        rw [List.filter_append, List.filter_singleton, hlog]
        exact List.append_nil _
      have hlines : lines d.root s.next.files (seen ++ [name]) = lines d.root s.files seen := by
        rw [lines_concat, hlog, hfiles]
        exact List.append_nil _
      refine .between (seen ++ [name]) ?_ (fun hstop => ?_) ⟨hnames', ?_, ?_, ?_, ?_⟩
      · rw [hpass, hnext]
        exact hinput
      · rw [hpass, hnext, hactive] at hstop
        exact Bool.noConfusion hstop
      · rw [hpass, hnext, hfilter]
        exact hcounted.files
      · rw [hfilter]
        exact hcounted.few
      · rw [hlines]
        exact hcounted.accepted
      · rw [hpass, hnext, hlines]
        exact hcounted.rows
    · have hcount : ((seen ++ [name]).filter logName).length = (seen.filter logName).length + 1 := by
        rw [List.filter_append, List.filter_singleton, hlog, List.length_append]
        rfl
      have hopened : s.recovery.files + 1 = UInt32.ofNat ((seen.filter logName).length + 1) := by
        rw [hcounted.files, UInt32.ofNat_add]
        rfl
      have hfew := hcounted.few
      refine .within seen name [] ?_ ?_ hlog ?_ ?_ ⟨hnames', ?_, ?_, ?_, ?_⟩
      · rw [hpass, hnext]
      · rw [hpass, hnext]
        exact hactive
      · rw [hpass, hnext, hsound.root]
      · rw [hpos]
        rfl
      · rw [hpass, hnext, hcount]
        exact hopened
      · rw [hopened, UInt32.not_lt, UInt32.le_iff_toNat_le, UInt32.toNat_ofNat_of_lt' (by change _ < 2 ^ 32; omega)] at hmany
        rw [hcount]
        exact hmany
      · rw [List.append_nil, hfiles]
        exact hcounted.accepted
      · rw [hpass, hnext, List.append_nil, hfiles]
        exact hcounted.rows

/-- The end of a file of which every line is good. -/
theorem Counted.close {d : LogDirectory} {s s' : Scan} {seen taken : List Bytes} {name : Bytes}
    (h : Counted d s (seen ++ [name]) (lines d.root s.files seen ++ taken)) (hlog : logName name = true)
    (htaken : s'.files (pathOf d.root name) = taken.flatten)
    (hothers : ∀ path, path ≠ pathOf d.root name → s'.files path = s.files path) (hpending : s'.pending = s.pending)
    (hfiles : s'.recovery.files = s.recovery.files) (hrows : s'.recovery.rows = s.recovery.rows) :
    Counted d s' (seen ++ [name]) (lines d.root s'.files (seen ++ [name])) := by
  have hlines : lines d.root s'.files (seen ++ [name]) = lines d.root s.files seen ++ taken := by
    rw [lines_concat, if_pos hlog, htaken, Lines.lines_flatten 10 fun line hline =>
      (h.accepted line (List.mem_append_right _ hline)).line]
    congr 1
    refine lines_congr fun other hother => hothers _ fun heq => ?_
    -- the names that have been read before are different from this one
    have hdistinct := d.distinct
    rw [h.names, List.append_assoc, List.nodup_append] at hdistinct
    exact hdistinct.2.2 other hother name List.mem_cons_self (pathOf_injective d.root heq)
  refine ⟨?_, ?_, h.few, ?_, ?_⟩
  · rw [hpending]
    exact h.names
  · rw [hfiles]
    exact h.files
  · rw [hlines]
    exact h.accepted
  · rw [hrows, hlines]
    exact h.rows

/-- A pass over an open file. -/
theorem swept_line {d : LogDirectory} {s : Scan} {seen taken : List Bytes} {name : Bytes} (hsound : Sound d s)
    (hactive : s.recovery.active = true) (hinput : s.recovery.input = true) (hlog : logName name = true)
    (hpath : s.recovery.path = pathOf d.root name) (htext : (s.files s.recovery.path).take s.pos = taken.flatten)
    (hcounted : Counted d s (seen ++ [name]) (lines d.root s.files seen ++ taken))
    (hclean : s.next.recovery.readOnly = false) : Swept d s.next := by
  obtain ⟨hpending, hroot, hcases⟩ := next_line hinput
  obtain ⟨hgood, -⟩ := hsound.good hinput
  have hstays : s.recovery.active = false → s.next.pending = [] := fun h => by
    rw [hactive] at h
    exact Bool.noConfusion h
  rcases hcases with ⟨hfiles, -, hclosed⟩ | ⟨hfiles, hnext, hpos, hrest, hvalid, hwhole, body, hbody, hnot⟩ |
    ⟨hfiles, hnext, -, hrest, -⟩
  · obtain ⟨hrest, hnext⟩ := hclosed hclean
    have hend : s.next.files (pathOf d.root name) = taken.flatten := by
      rw [hfiles, ← hpath, ← htext]
      exact (List.take_of_length_le (List.drop_eq_nil_iff.mp hrest)).symm
    refine .between (seen ++ [name]) ?_ ?_ (hcounted.close hlog hend (fun _ _ => by rw [hfiles]) hpending ?_ ?_)
    · rw [hnext]
    · rw [hnext]
      exact hstays
    · rw [hnext]
    · rw [hnext]
  · have haccepted : GoodLine s.chunk := by
      refine ⟨⟨body, hbody, hnot, fun hmem => ?_, ?_⟩, hvalid⟩
      · have hzero : (0 : UInt8) ∈ cString s.chunk := by
          rw [hwhole, hbody]
          exact List.mem_append_left _ hmem
        exact absurd (List.mem_takeWhile_imp hzero) (by decide)
      · have hroom : s.chunk.length ≤ 2047 := Lines.length_upTo_le 10 2047 s.rest
        rw [hbody, List.length_append, List.length_singleton] at hroom
        omega
    refine .within seen name (taken ++ [s.chunk]) ?_ ?_ hlog ?_ ?_ ⟨?_, ?_, hcounted.few, ?_, ?_⟩
    · rw [hnext]
      exact hinput
    · rw [hnext]
      exact hactive
    · rw [hnext]
      exact hpath
    · have hstart : s.chunk <+: s.rest := ⟨_, Lines.upTo_append_drop 10 2047 s.rest⟩
      rw [hnext, hfiles, hpos, List.take_add, htext, List.flatten_append, List.flatten_singleton]
      exact congrArg _ (List.prefix_iff_eq_take.mp hstart).symm
    · rw [hpending]
      exact hcounted.names
    · rw [hnext]
      exact hcounted.files
    · rw [hfiles, ← List.append_assoc]
      intro line hline
      rcases List.mem_append.mp hline with hline | hline
      · exact hcounted.accepted line hline
      · rw [List.mem_singleton.mp hline]
        exact haccepted
    · rw [hnext, hfiles, ← List.append_assoc, List.length_append, UInt32.ofNat_add, ← hcounted.rows]
      rfl
  · have hend : s.next.files (pathOf d.root name) = taken.flatten := by
      rw [hfiles, ← hpath, Function.update_self, hgood, htext]
    refine .between (seen ++ [name]) ?_ ?_ (hcounted.close hlog hend (fun path hother => ?_) hpending ?_ ?_)
    · rw [hnext]
    · rw [hnext]
      exact hstays
    · rw [hfiles, hpath, Function.update_of_ne hother]
    · rw [hnext]
    · rw [hnext]

/-- Nothing has been wrong before a pass after which nothing is. -/
theorem clean_next {s : Scan} (hclean : s.next.recovery.readOnly = false) : s.recovery.readOnly = false := by
  cases hinput : s.recovery.input with
  | false =>
    obtain ⟨-, -, -, -, hbefore, -⟩ := next_file hinput
    exact (hbefore hclean).1
  | true =>
    obtain ⟨-, -, hcases⟩ := next_line hinput
    rcases hcases with ⟨-, -, hclosed⟩ | ⟨-, hnext, -⟩ | ⟨-, -, hbefore, -⟩
    · obtain ⟨-, hnext⟩ := hclosed hclean
      rw [hnext] at hclean
      exact hclean
    · rw [hnext] at hclean
      exact hclean
    · exact hbefore

theorem swept_next {d : LogDirectory} {s : Scan} (hsound : Sound d s) (hactive : s.recovery.active = true)
    (h : Swept d s) (hclean : s.next.recovery.readOnly = false) : Swept d s.next := by
  cases h with
  | between seen hinput _ hcounted => exact swept_file hsound hactive hinput hcounted hclean
  | within seen name taken hinput _ hlog hpath htext hcounted =>
    exact swept_line hsound hactive hinput hlog hpath htext hcounted hclean

theorem swept_advance (d : LogDirectory) (n : Nat) (hclean : ((start d).advance n).recovery.readOnly = false) :
    Swept d ((start d).advance n) := by
  induction n with
  | zero => exact swept_start d
  | succ n ih =>
    rw [advance_add _ n 1, advance_succ] at hclean ⊢
    by_cases hactive : ((start d).advance n).recovery.active = true
    · rw [if_pos hactive] at hclean ⊢
      exact swept_next (sound_advance d n) hactive (ih (clean_next hclean)) hclean
    · rw [if_neg hactive] at hclean ⊢
      exact ih hclean

/-- A recovery that has ended with nothing wrong. -/
theorem swept_all {d : LogDirectory} {ops : List Op} (hops : .cancel ∉ ops) (hdone : (run d ops).recovery.active = false)
    (hclean : (run d ops).recovery.readOnly = false) :
    Counted d (run d ops) d.names (lines d.root (run d ops).files d.names) := by
  rw [run_steps d hops] at hdone hclean ⊢
  cases swept_advance d _ hclean with
  | between seen _ hended hcounted =>
    have hnames : d.names = seen := by rw [hcounted.names, hended hdone, List.append_nil]
    rw [hnames]
    exact hcounted
  | within seen name taken _ hactive =>
    rw [hdone] at hactive
    exact Bool.noConfusion hactive

end Scan

/-! ## The export afterwards -/

namespace OnCard

open Stdio Scan

variable {key logs : Bytes}

/-- The log directory after a recovery, and after new files have been written. -/
structure Resumed (c : Card UInt8) (logs : Bytes) (d : LogDirectory) (files : Bytes → Bytes) (fresh : List Bytes)
    (folder : Folder UInt8) : Prop where
  listed : c logs = some folder
  names : folder.names = d.names ++ fresh
  recovered : ∀ name ∈ d.names, folder.files name = some (files (pathOf d.root name))
  there : ∀ name ∈ fresh, (folder.files name).isSome
  added : ∀ line ∈ historyLines c logs fresh, GoodLine line

theorem historyLines_append (c : Card UInt8) (logs : Bytes) (names names' : List Bytes) :
    historyLines c logs (names ++ names') = historyLines c logs names ++ historyLines c logs names' := by
  unfold historyLines
  rw [List.filter_append, List.flatMap_append]

section Resumed

variable {c : Card UInt8} {d : LogDirectory} {files : Bytes → Bytes} {fresh : List Bytes} {folder : Folder UInt8}

theorem Resumed.read (h : Resumed c logs d files fresh folder) (name : Bytes) : c.read ⟨logs, name⟩ = folder.files name := by
  unfold Card.read
  rw [show (⟨logs, name⟩ : Path UInt8).folder = logs from rfl, h.listed]
  rfl

theorem Resumed.lines (h : Resumed c logs d files fresh folder) :
    historyLines c logs folder.names = Scan.lines d.root files d.names ++ historyLines c logs fresh := by
  rw [h.names, historyLines_append]
  congr 1
  refine List.flatMap_congr fun name hname => ?_
  rw [h.read, h.recovered name (List.mem_filter.mp hname).1, Option.getD_some]

end Resumed

/-- After a recovery with nothing wrong, an export gives the recovered rows and those that were added. -/
theorem export_after_recovery (d : LogDirectory) (ops : List Scan.Op) (s : Firmware) (key logs dir : Bytes) (c : Card UInt8)
    (log : OpenLog c) (fresh : List Bytes) (folder : Folder UInt8) (hops : .cancel ∉ ops)
    (hdone : (run d ops).recovery.active = false) (hclean : (run d ops).recovery.readOnly = false)
    (hcard : Resumed log.saved logs d (run d ops).files fresh folder)
    (hfew : (run d ops).recovery.files.toNat + (fresh.filter logName).length ≤ 4096) (hnew : c dir = none)
    (hkey : key.length = 32) (hworks : ∀ input, ∃ digest, s.hmac key input = some digest)
    (hhash : ∀ text, (s.sha256 text).isSome) :
    ∃ writer, (exportHistoryFiles s key logs dir (some log.writer) { card := c }).1 =
      (true, writer, (run d ops).recovery.rows + UInt32.ofNat (historyLines log.saved logs fresh).length) := by
  have hcounted := swept_all hops hdone hclean
  have hready : Ready s.hmac key logs log.saved folder := by
    refine ⟨hcard.listed, ?_, fun name hname _ => ?_, fun line hline => exportable_of_good ?_ hkey hworks⟩
    · have hfiles : (run d ops).recovery.files.toNat = (d.names.filter logName).length := by
        rw [hcounted.files]
        exact UInt32.toNat_ofNat_of_lt' (hcounted.few.trans_lt (by decide))
      rw [hcard.names, List.filter_append, List.length_append, ← hfiles]
      exact hfew
    · rw [hcard.read]
      rw [hcard.names] at hname
      rcases List.mem_append.mp hname with hname | hname
      · rw [hcard.recovered name hname]
        rfl
      · exact hcard.there name hname
    · rw [hcard.lines] at hline
      rcases List.mem_append.mp hline with hline | hline
      · exact hcounted.accepted line hline
      · exact hcard.added line hline
  have hok := exportHistoryFiles_made (w := { card := c }) log rfl hnew hready hhash
  have houtcome := exportHistoryFiles_ends (w := { card := c }) s key logs dir log
  have hlogs : (c logs).isSome := by
    rw [← log.folder_flushed log.writer.held.length, show log.flushed log.writer.held.length = log.saved from rfl, hcard.listed]
    rfl
  obtain ⟨folder', hcomplete⟩ := houtcome.complete hok hlogs
  have hsame : folder' = folder := Option.some.inj (hcomplete.listed.symm.trans hcard.listed)
  have hrows := hcomplete.rows
  rw [hsame, hcard.lines, List.length_append, UInt32.ofNat_add, ← hcounted.rows] at hrows
  exact ⟨_, Prod.ext hok (Prod.ext rfl hrows)⟩

/-! ## A log that was torn -/

/-- A directory whose logs end in an incomplete line after a record. -/
def worn (line : Bytes) : LogDirectory where
  root := ascii "/sd/LOGS"
  names := torn.names
  distinct := torn.distinct
  files _ := line ++ ascii "torn"

section Worn

open HistoryRecovery

variable {line : Bytes}

/-- A pass over a good line. -/
theorem next_good {s : Scan} {more : Bytes} (h : GoodLine line) (hinput : s.recovery.input = true) (hrest : s.rest = line ++ more) :
    s.next = { s with
      recovery := { s.recovery with good := s.pos + line.length, rows := s.recovery.rows + 1 }
      pos := s.pos + line.length } := by
  obtain ⟨htext, hlast⟩ := cString_whole h.whole
  obtain ⟨body, hbody, hnot, -, hroom⟩ := h.whole
  have hchunk : s.chunk = line := by
    unfold Scan.chunk
    rw [hrest, hbody, List.append_assoc]
    exact Lines.upTo_line 10 hnot hroom more
  have hsome : s.rest.isEmpty = false := by
    rw [hrest, hbody]
    simp
  have hreply : s.reply.line = some line := by
    unfold Scan.reply
    rw [hsome, hchunk]
    rfl
  have htold : s.reply.told = some (s.pos + line.length) := by
    rw [← hchunk]
    rfl
  have hpass : s.recovery.pass s.reply =
      ({ s.recovery with good := s.pos + line.length, rows := s.recovery.rows + 1 }, [.read .history]) := by
    unfold HistoryRecovery.pass HistoryRecovery.nextLine
    rw [if_pos hinput, hreply]
    dsimp only
    rw [htext, hlast, h.valid, htold]
    rfl
  unfold Scan.next
  rw [hpass, hchunk, if_pos hinput, if_pos hinput]
  rfl

/-- A pass over the incomplete end. -/
theorem next_torn {s : Scan} (hinput : s.recovery.input = true) (hclean : s.recovery.readOnly = false) (hsome : s.rest ≠ [])
    (hnot : 10 ∉ s.rest) (hshort : s.rest.length < 2047) :
    s.next = { s with
      recovery := { s.recovery with input := false }
      files := Function.update s.files s.recovery.path ((s.files s.recovery.path).take s.recovery.good)
      pos := s.pos + s.rest.length } := by
  have hchunk : s.chunk = s.rest := by
    have hsplit := Lines.upTo_append_drop 10 2047 s.rest
    have hfew : s.chunk.length ≤ s.rest.length := by
      rw [← congrArg List.length hsplit, List.length_append]
      exact Nat.le_add_right _ _
    refine Lines.upTo_of_not_mem 10 (fun hmem => hnot ?_) (hfew.trans_lt hshort)
    rw [← hsplit]
    exact List.mem_append_left _ hmem
  have hline : s.reply.line = some s.rest := by
    unfold Scan.reply
    rw [hchunk, List.isEmpty_eq_false_iff.mpr hsome]
    rfl
  have heof : s.reply.eof = true := by
    have hno : s.rest.contains 10 = false := by simpa using hnot
    unfold Scan.reply Scan.hitEnd
    rw [hchunk, hno, decide_eq_true hshort]
    rfl
  have hopen : ((cString s.rest).getLast? != some 10) = true := by
    rw [bne_iff_ne]
    intro hlast
    exact hnot ((List.takeWhile_prefix _).subset (List.mem_of_getLast? hlast))
  obtain ⟨hstate, hcut⟩ := finishFile_cut s.recovery s.reply rfl rfl rfl rfl rfl rfl hclean s.files
  have hpass : s.recovery.pass s.reply =
      ((s.recovery.finishFile true s.reply).1, .read .history :: (s.recovery.finishFile true s.reply).2) := by
    unfold HistoryRecovery.pass HistoryRecovery.nextLine
    rw [if_pos hinput, hline]
    dsimp only
    rw [if_pos hopen, heof]
    rfl
  unfold Scan.next
  rw [hpass, hchunk, if_pos hinput, if_pos hinput]
  dsimp only
  rw [hstate, List.foldl_cons, show Scan.apply s.files (.read .history) = s.files from rfl, hcut]

/-- The states between the passes of the recovery of such a directory. -/
theorem run_worn (h : GoodLine line) :
    (Scan.run (worn line) [.step 8]).recovery.active = false ∧
      (Scan.run (worn line) [.step 8]).recovery.readOnly = false ∧
      (Scan.run (worn line) [.step 8]).recovery.files = 1 ∧ (Scan.run (worn line) [.step 8]).recovery.rows = 1 := by
  -- past the name that is no log, the log is open at its start
  have hopen : (start (worn line)).next.next =
      { recovery := { root := (worn line).root, directory := true, input := true, path := pathOf (worn line).root (ascii "B.JSONL")
                      files := 1 }
        pending := [], files := (worn line).files } := rfl
  have hfront : (start (worn line)).next.next.rest = line ++ ascii "torn" := by
    rw [hopen]
    rfl
  have hgood := next_good h (by rw [hopen]) hfront
  have hrest : (start (worn line)).next.next.next.rest = ascii "torn" := by
    rw [hgood, hopen]
    unfold Scan.rest
    dsimp only
    rw [Nat.zero_add]
    exact List.drop_left
  have htorn := next_torn (s := (start (worn line)).next.next.next) (by rw [hgood, hopen]) (by rw [hgood, hopen])
    (by rw [hrest]; decide) (by rw [hrest]; decide) (by rw [hrest]; decide)
  have hlast : (start (worn line)).next.next.next.next.next.recovery.active = false ∧
      (start (worn line)).next.next.next.next.next.recovery.readOnly = false ∧
      (start (worn line)).next.next.next.next.next.recovery.files = 1 ∧
      (start (worn line)).next.next.next.next.next.recovery.rows = 1 := by
    rw [htorn, hgood, hopen]
    exact ⟨rfl, rfl, rfl, rfl⟩
  have hrun : run (worn line) [.step 8] = (start (worn line)).next.next.next.next.next := by
    have hbegun : (start (worn line)).recovery.active = true := rfl
    have hskips : (start (worn line)).next.recovery.active = true := rfl
    have hreads : (start (worn line)).next.next.recovery.active = true := by rw [hopen]; rfl
    have hcuts : (start (worn line)).next.next.next.recovery.active = true := by rw [hgood, hopen]; rfl
    have hcloses : (start (worn line)).next.next.next.next.recovery.active = true := by rw [htorn, hgood, hopen]; rfl
    change (start (worn line)).advance 8 = _
    rw [advance_succ, if_pos hbegun, advance_succ, if_pos hskips, advance_succ, if_pos hreads, advance_succ, if_pos hcuts,
      advance_succ, if_pos hcloses, advance_inactive hlast.1]
  rw [hrun]
  exact hlast

/-- What recovery leaves of such a directory, and a log of one line since. -/
def resumedFolder (line : Bytes) : Folder UInt8 where
  names := (worn line).names ++ [ascii "S.JSONL"]
  files name := some (if name = ascii "S.JSONL" then line else (run (worn line) [.step 8]).files (pathOf (worn line).root name))

def resumedCard (line : Bytes) : Card UInt8 := fun path => if path = ascii "/sd/LOGS" then some (resumedFolder line) else none

theorem resumedCard_logs : resumedCard line (ascii "/sd/LOGS") = some (resumedFolder line) := if_pos rfl

theorem resumedCard_read : (resumedCard line).read ⟨ascii "/sd/LOGS", ascii "S.JSONL"⟩ = some line := by
  unfold Card.read
  rw [show (⟨ascii "/sd/LOGS", ascii "S.JSONL"⟩ : Path UInt8).folder = ascii "/sd/LOGS" from rfl, resumedCard_logs]
  exact congrArg some (if_pos rfl)

/-- The new log is open at its end. -/
theorem resumedCard_open (line : Bytes) : ∃ log : OpenLog (resumedCard line), log.writer.held = [] :=
  ⟨{ writer := { path := ⟨ascii "/sd/LOGS", ascii "S.JSONL"⟩, pos := line.length }
     text := line
     stored := resumedCard_read
     inside := Nat.le_refl _ }, rfl⟩

theorem historyLines_resumed (h : GoodLine line) :
    historyLines (resumedCard line) (ascii "/sd/LOGS") [ascii "S.JSONL"] = [line] := by
  have hflat : [line].flatten = line := List.flatten_singleton
  have hlines : Lines.lines 10 line = [line] := by
    conv_lhs => rw [← hflat]
    exact Lines.lines_flatten 10 fun l hl => List.mem_singleton.mp hl ▸ h.line
  have hlog : [ascii "S.JSONL"].filter logName = [ascii "S.JSONL"] := by decide
  unfold historyLines
  rw [hlog, List.flatMap_singleton, resumedCard_read, Option.getD_some, hlines]

theorem resumed_worn (h : GoodLine line) :
    Resumed (resumedCard line) (ascii "/sd/LOGS") (worn line) (run (worn line) [.step 8]).files [ascii "S.JSONL"]
      (resumedFolder line) := by
  refine ⟨resumedCard_logs, rfl, fun name hname => congrArg some (if_neg ?_), fun _ _ => rfl, fun l hl => ?_⟩
  · rintro rfl
    have hno : ascii "S.JSONL" ∉ [ascii "A.TXT", ascii "B.JSONL"] := by decide
    exact hno hname
  · rw [historyLines_resumed h] at hl
    rw [List.mem_singleton.mp hl]
    exact h

end Worn

/-- An export of two rows of the quoting line. -/
def rowsFirmware : Firmware :=
  exportFirmware 2
    #v[3, 94, 31, 10, 16, 167, 141, 105, 125, 62, 80, 220, 224, 238, 80, 61, 202, 205, 247, 132, 116, 183, 4, 174, 91, 233, 140,
      102, 82, 170, 121, 32]
    #v[68, 241, 121, 52, 64, 164, 20, 43, 170, 217, 239, 48, 199, 104, 32, 232, 180, 233, 16, 217, 145, 167, 140, 106, 168, 109,
      99, 50, 8, 124, 113, 190]

/-- One row is recovered before the torn end of its file, and another was added. -/
theorem export_after_recovery_row : (run (worn quotingLine) [.step 8]).recovery.rows = 1 ∧
    ∃ log : OpenLog (resumedCard quotingLine), ∃ writer,
      (exportHistoryFiles rowsFirmware countingKey (ascii "/sd/LOGS") fullDir (some log.writer)
        { card := resumedCard quotingLine }).1 = (true, writer, 2) := by
  have hgood := quotingLine_good
  generalize quotingLine = line at hgood ⊢
  obtain ⟨hdone, hclean, hfiles, hrows⟩ := run_worn hgood
  obtain ⟨log, hheld⟩ := resumedCard_open line
  have hresumed := resumed_worn hgood
  have hthere : (resumedCard line (ascii "/sd/LOGS")).isSome := by
    rw [resumedCard_logs]
    rfl
  have hfew : (run (worn line) [.step 8]).recovery.files.toNat + ([ascii "S.JSONL"].filter logName).length ≤ 4096 := by
    rw [hfiles]
    decide
  rw [← log.saved_nothing hheld] at hresumed
  have hexport := export_after_recovery (worn line) [.step 8] rowsFirmware countingKey (ascii "/sd/LOGS") fullDir
    (resumedCard line) log [ascii "S.JSONL"] (resumedFolder line) (by simp) hdone hclean hresumed hfew (if_neg (by decide))
    (by decide) (quotingHmac_works countingKey) fun _ => rfl
  rw [log.saved_nothing hheld, historyLines_resumed hgood, hrows] at hexport
  exact ⟨hrows, log, hexport⟩

/-! ## An export after another -/

section Again

variable {s : Firmware} {dir dir' : Bytes} {c c' : Card UInt8} {log : OpenLog c} {ok : Bool} {writer : Option (Stream UInt8)}
  {rows : UInt32}

/-- The writer an export leaves holds nothing. -/
theorem Outcome.held (h : Outcome s key logs dir log ok writer rows c') {log' : OpenLog c'} (hwriter : writer = some log'.writer) :
    log'.writer.held = [] := by
  obtain ⟨text, -, hf⟩ := h.reopened log'.writer (hwriter ▸ Option.mem_some_self _)
  rw [hf]

theorem Outcome.same_logs (h : Outcome s key logs dir log true writer rows c') (hlogs : (c logs).isSome) :
    c' logs = log.saved logs := by
  obtain ⟨n, hall, hsame⟩ := h.kept
  rw [← log.flushed_all (hall rfl)]
  refine hsame logs ?_
  by_cases hdir : logs = dir
  · right
    rw [← hdir]
    exact hlogs
  · exact .inl hdir

end Again

/-- An export repeated under the same key gives the same rows, and leaves the earlier one as it is. -/
theorem export_repeats (s : Firmware) (key logs dir dir' : Bytes) (c : Card UInt8) (fates fates' : List Fate) (log : OpenLog c)
    (log' : OpenLog (exportHistoryFiles s key logs dir (some log.writer) { card := c, fates }).2.card) (rows rows' : UInt32)
    (writer : Option (Stream UInt8)) (w : World UInt8) (hlogs : (c logs).isSome)
    (hfirst : (exportHistoryFiles s key logs dir (some log.writer) { card := c, fates }).1 = (true, some log'.writer, rows))
    (hsecond : exportHistoryFiles s key logs dir' (some log'.writer)
      { card := (exportHistoryFiles s key logs dir (some log.writer) { card := c, fates }).2.card, fates := fates' } =
        ((true, writer, rows'), w)) :
    rows' = rows ∧
      w.card.read (sightings dir') =
        (exportHistoryFiles s key logs dir (some log.writer) { card := c, fates }).2.card.read (sightings dir) ∧
      ∀ q, q.folder ≠ dir' →
        w.card.read q = (exportHistoryFiles s key logs dir (some log.writer) { card := c, fates }).2.card.read q := by
  have houtcome := exportHistoryFiles_ends (w := { card := c, fates }) s key logs dir log
  have houtcome' := exportHistoryFiles_ends (w := { card := _, fates := fates' }) s key logs dir' log'
  unfold Io.Ends at houtcome houtcome'
  rw [hsecond] at houtcome'
  rw [hfirst] at houtcome
  generalize (exportHistoryFiles s key logs dir (some log.writer) { card := c, fates }).2.card = c₁ at *
  have hheld := houtcome.held rfl
  have hsame := houtcome.same_logs hlogs
  have hlogs₁ : (c₁ logs).isSome := by
    rw [hsame, OpenLog.saved, log.folder_flushed]
    exact hlogs
  obtain ⟨folder, hcomplete⟩ := houtcome.complete rfl hlogs
  obtain ⟨folder', hcomplete'⟩ := houtcome'.complete rfl hlogs₁
  rw [log'.saved_nothing hheld] at hcomplete'
  have hagain := hcomplete'.congr hsame
  obtain rfl : folder' = folder := Option.some.inj (hagain.listed.symm.trans hcomplete.listed)
  refine ⟨hagain.rows.trans hcomplete.rows.symm, hagain.text.trans hcomplete.text.symm, fun q hq => ?_⟩
  obtain ⟨n, -, hkept⟩ := houtcome'.kept
  unfold Card.read
  rw [hkept q.folder (.inl hq), log'.flushed_nothing hheld]

/-! ## A log of one record, exported twice -/

def againDir : Bytes := ascii "/AGAIN"

def firstExport (line : Bytes) : (Bool × Option (Stream UInt8) × UInt32) × World UInt8 :=
  exportHistoryFiles rowFirmware countingKey fullLogs fullDir (some (fullLog 1 (fullText line 1)).writer)
    { card := fullCard 1 (fullText line 1) }

section Twice

variable {line : Bytes}

theorem firstExport_outcome : Outcome rowFirmware countingKey fullLogs fullDir (fullLog 1 (fullText line 1))
    (firstExport line).1.1 (firstExport line).1.2.1 (firstExport line).1.2.2 (firstExport line).2.card := by
  have houtcome := exportHistoryFiles_ends (w := { card := fullCard 1 (fullText line 1) }) rowFirmware countingKey fullLogs
    fullDir (fullLog 1 (fullText line 1))
  dsimp only [Io.Ends] at houtcome
  unfold firstExport
  exact houtcome

theorem firstExport_rows (h : Exportable quotingHmac countingKey line) :
    (firstExport line).1.1 = true ∧ (firstExport line).1.2.2 = 1 := by
  have hdone := full_rows 1 1 rowFirmware (fun _ => rfl) (by decide) h
  unfold Io.Ends at hdone
  unfold firstExport
  exact ⟨hdone.1, hdone.2.trans (by decide)⟩

/-- The writer that is left after the first export. -/
theorem firstExport_writer (hok : (firstExport line).1.1 = true) :
    ∃ log : OpenLog (firstExport line).2.card, (firstExport line).1.2.1 = some log.writer := by
  have houtcome := @firstExport_outcome line
  obtain ⟨f, hf⟩ := Option.isSome_iff_exists.mp (houtcome.resumed hok)
  obtain ⟨text, hread, hopen⟩ := houtcome.reopened f hf
  subst hopen
  exact ⟨{ writer := { path := (fullLog 1 (fullText line 1)).writer.path, pos := text.length }, text, stored := hread
           inside := Nat.le_refl _ }, hf⟩

/-- Nothing obstructs a second export after such a first one. -/
theorem secondExport_ok {c' : Card UInt8} {writer : Option (Stream UInt8)} {rows : UInt32} (log' : OpenLog c')
    (h : Exportable quotingHmac countingKey line)
    (houtcome : Outcome rowFirmware countingKey fullLogs fullDir (fullLog 1 (fullText line 1)) true writer rows c')
    (hwriter : writer = some log'.writer) :
    (exportHistoryFiles rowFirmware countingKey fullLogs againDir (some log'.writer) { card := c' }).1.1 = true := by
  have hlogs : (fullCard 1 (fullText line 1) fullLogs).isSome := by
    rw [fullCard_logs]
    rfl
  have hnew : c' againDir = none := by
    obtain ⟨n, -, hkept⟩ := houtcome.kept
    rw [hkept againDir (.inl (by decide)), (fullLog 1 (fullText line 1)).flushed_nothing rfl]
    exact if_neg (by decide)
  have hready : Ready rowFirmware.hmac countingKey fullLogs log'.saved (fullFolder 1 (fullText line 1)) := by
    rw [log'.saved_nothing (houtcome.held hwriter)]
    refine (full_ready 1 1 (by decide) h).congr ?_
    rw [houtcome.same_logs hlogs, fullLog_saved]
  exact exportHistoryFiles_made (w := { card := c' }) log' rfl hnew hready fun _ => rfl

end Twice

/-- Both exports give the one row. -/
theorem export_repeats_row : (firstExport quotingLine).1.2.2 = 1 ∧
    ∃ log : OpenLog (firstExport quotingLine).2.card, (firstExport quotingLine).1.2.1 = some log.writer ∧
      (exportHistoryFiles rowFirmware countingKey fullLogs againDir (some log.writer)
        { card := (firstExport quotingLine).2.card }).1.2.2 = 1 ∧
      (exportHistoryFiles rowFirmware countingKey fullLogs againDir (some log.writer)
        { card := (firstExport quotingLine).2.card }).2.card.read (sightings againDir) =
          (firstExport quotingLine).2.card.read (sightings fullDir) := by
  have hgood := quotingLine_good
  generalize quotingLine = line at hgood ⊢
  have hline : Exportable quotingHmac countingKey line := exportable_of_good hgood (by decide) (quotingHmac_works countingKey)
  have hlogs : (fullCard 1 (fullText line 1) fullLogs).isSome := by
    rw [fullCard_logs]
    rfl
  obtain ⟨hdone, hrows⟩ := firstExport_rows hline
  have hopen := firstExport_writer hdone
  have houtcome := @firstExport_outcome line
  unfold firstExport at hdone hrows hopen houtcome ⊢
  obtain ⟨log, hwriter⟩ := hopen
  rw [hdone] at houtcome
  have hok := secondExport_ok log hline houtcome hwriter
  refine ⟨hrows, log, hwriter, ?_⟩
  generalize hsecond : exportHistoryFiles rowFirmware countingKey fullLogs againDir (some log.writer) _ = second at hok ⊢
  obtain ⟨⟨ok, writer, rows⟩, w⟩ := second
  cases hok
  obtain ⟨hsame, htext, -⟩ := export_repeats rowFirmware countingKey fullLogs fullDir againDir (fullCard 1 (fullText line 1)) [] []
    (fullLog 1 (fullText line 1)) log 1 rows writer w hlogs (Prod.ext hdone (Prod.ext hwriter hrows)) hsecond
  exact ⟨hsame, htext⟩

end OnCard

end Hound
