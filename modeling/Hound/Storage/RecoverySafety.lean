import Hound.Lib.Lines
import Hound.Lib.Runs
import Hound.Storage.HistoryRecovery

/-!
# What recovery does to a card

Recovery over real files, without faults: the passes report what the files
hold. A file loses at most an incomplete line at its end, and only as long as
nothing was wrong before. The result does not depend on how the passes are
grouped into steps.
-/

namespace Hound

open HistoryRecovery

/-! ## Files and passes -/

/-- A log directory as `readdir` lists it, each name once. -/
structure LogDirectory where
  root : Bytes
  names : List Bytes
  distinct : names.Nodup
  files : Bytes → Bytes

structure Scan where
  recovery : HistoryRecovery
  /-- Names `readdir` has not returned yet. -/
  pending : List Bytes
  files : Bytes → Bytes
  /-- Where the open stream is. -/
  pos : Nat := 0

namespace Scan

/-- What is left in the open stream. -/
def rest (s : Scan) : Bytes := (s.files s.recovery.path).drop s.pos

/-- What `fgets` reads into the buffer of 2048 bytes. -/
def chunk (s : Scan) : Bytes := Lines.upTo 10 2047 s.rest

/-- The stream met its end: there was room for more, and no newline. -/
def hitEnd (s : Scan) : Bool := decide (s.chunk.length < 2047) && !s.chunk.contains 10

/-- What the calls of the next pass report. -/
def reply (s : Scan) : RecoveryPass :=
  { entry := match s.pending with
      | [] => .done
      | name :: _ => .entry name
    line := if s.rest.isEmpty then none else some s.chunk
    eof := s.hitEnd
    told := some (s.pos + s.chunk.length) }

/-- A truncation that succeeded changes its file; nothing else does. -/
def apply (files : Bytes → Bytes) : CardEvent → Bytes → Bytes
  | .truncated path size true => Function.update files path ((files path).take size)
  | _ => files

def next (s : Scan) : Scan :=
  let (recovery, events) := s.recovery.pass s.reply
  { recovery
    pending := if s.recovery.input then s.pending else s.pending.tail
    files := events.foldl apply s.files
    pos := if s.recovery.input then s.pos + s.chunk.length else 0 }

/-- At most `budget` passes. -/
def advance (s : Scan) : Nat → Scan
  | 0 => s
  | budget + 1 => if s.recovery.active then s.next.advance budget else s

inductive Op where
  | step (budget : Nat)
  | cancel

def exec (s : Scan) : Op → Scan
  | .step budget => s.advance budget
  | .cancel =>
    let (recovery, events) := s.recovery.cancel true true
    { s with recovery, files := events.foldl apply s.files }

def start (d : LogDirectory) : Scan :=
  { recovery := (({} : HistoryRecovery).begin d.root true).1, pending := d.names, files := d.files }

def run (d : LogDirectory) (ops : List Op) : Scan := Runs.run exec (start d) ops

/-- The replies to `budget` passes. -/
def replies (s : Scan) : Nat → List RecoveryPass
  | 0 => []
  | budget + 1 => s.reply :: s.next.replies budget

/-- `advance` is `step` on the replies the files give. -/
theorem step_replies (s : Scan) (budget : Nat) :
    (s.recovery.step (s.replies budget)).1 = (s.advance budget).recovery ∧
      (s.recovery.step (s.replies budget)).2.foldl apply s.files = (s.advance budget).files := by
  induction budget generalizing s with
  | zero => exact ⟨rfl, rfl⟩
  | succ budget ih =>
    unfold replies HistoryRecovery.step advance
    by_cases hactive : s.recovery.active = true
    · obtain ⟨hrecovery, hfiles⟩ := ih s.next
      have hnext : s.next.recovery = (s.recovery.pass s.reply).1 := rfl
      have happlied : s.next.files = (s.recovery.pass s.reply).2.foldl apply s.files := rfl
      rw [if_pos hactive, if_pos hactive]
      rw [hnext] at hrecovery hfiles
      refine ⟨hrecovery, ?_⟩
      rw [← hfiles, happlied, ← List.foldl_append]
    · rw [if_neg hactive, if_neg hactive]
      exact ⟨rfl, rfl⟩

theorem advance_succ (s : Scan) (n : Nat) :
    s.advance (n + 1) = if s.recovery.active then s.next.advance n else s := rfl

theorem advance_inactive {s : Scan} (h : s.recovery.active = false) (n : Nat) : s.advance n = s := by
  cases n with
  | zero => rfl
  | succ n => rw [advance_succ, if_neg (by simp [h])]

theorem advance_add (s : Scan) (m n : Nat) : s.advance (m + n) = (s.advance m).advance n := by
  induction m generalizing s with
  | zero => rw [Nat.zero_add]; rfl
  | succ m ih =>
    rw [Nat.succ_add, advance_succ, advance_succ]
    by_cases hactive : s.recovery.active = true
    · rw [if_pos hactive, if_pos hactive]
      exact ih s.next
    · rw [if_neg hactive, if_neg hactive, advance_inactive (by simpa using hactive)]

/-! ## One pass -/

/-- The path of a directory entry. -/
def pathOf (root name : Bytes) : Bytes := root ++ (ascii "/" ++ name)

theorem pathOf_injective (root : Bytes) : Function.Injective (pathOf root) := by
  intro a b h
  exact List.append_cancel_left (List.append_cancel_left h)

theorem closeInput_true (r : HistoryRecovery) : (r.closeInput true).1 = { r with input := false } := by
  unfold HistoryRecovery.closeInput
  split
  · rfl
  · rename_i hinput
    simp only [Bool.not_eq_true] at hinput
    cases r
    cases hinput
    rfl

theorem closeInput_files (r : HistoryRecovery) (closed : Bool) (files : Bytes → Bytes) :
    (r.closeInput closed).2.foldl apply files = files := by
  unfold HistoryRecovery.closeInput
  split <;> rfl

theorem cancel_true (r : HistoryRecovery) :
    (r.cancel true true).1 = { r with input := false, directory := false } := by
  unfold HistoryRecovery.cancel
  have hclose := closeInput_true r
  cases h : r.closeInput true with
  | mk r' events =>
    rw [h] at hclose
    have hr : r' = { r with input := false } := hclose
    subst hr
    cases hdirectory : r.directory with
    | true => simp
    | false => simp

theorem cancel_files (r : HistoryRecovery) (closed directoryClosed : Bool) (files : Bytes → Bytes) :
    (r.cancel closed directoryClosed).2.foldl apply files = files := by
  unfold HistoryRecovery.cancel
  have hclose := closeInput_files r closed files
  cases h : r.closeInput closed with
  | mk r' events =>
    rw [h] at hclose
    simp only
    split
    · rw [List.foldl_append, hclose]
      rfl
    · exact hclose

/-- Closing a file that needs no repair. -/
theorem finishFile_kept (r : HistoryRecovery) {partial' : Bool} (p : RecoveryPass) (hstream : p.streamError = false)
    (hclosed : p.closed = true) (h : partial' = false ∨ r.readOnly = true) (files : Bytes → Bytes) :
    (r.finishFile partial' p).1 = { r with input := false } ∧
      (r.finishFile partial' p).2.foldl apply files = files := by
  unfold HistoryRecovery.finishFile
  have hclose := closeInput_true r
  have hfiles := closeInput_files r true files
  rw [hstream, hclosed]
  cases hc : r.closeInput true with
  | mk r' events =>
    rw [hc] at hclose hfiles
    have hr : r' = { r with input := false } := hclose
    subst hr
    have hstop : (!partial' || r.readOnly) = true := by
      rcases h with rfl | h
      · rfl
      · simp [h]
    simp only [Bool.false_eq_true, if_false, hc, hstop, if_true]
    exact ⟨trivial, hfiles⟩

/-- Closing a file with an incomplete line at its end, when nothing was wrong. -/
theorem finishFile_cut (r : HistoryRecovery) (p : RecoveryPass) (hstream : p.streamError = false)
    (hclosed : p.closed = true) (hreopened : p.reopened = true) (htruncated : p.truncated = true)
    (hsynced : p.synced = true) (hreclosed : p.reclosed = true) (hclean : r.readOnly = false)
    (files : Bytes → Bytes) :
    (r.finishFile true p).1 = { r with input := false } ∧
      (r.finishFile true p).2.foldl apply files =
        Function.update files r.path ((files r.path).take r.good) := by
  unfold HistoryRecovery.finishFile
  have hclose := closeInput_true r
  have hfiles := closeInput_files r true files
  rw [hstream, hclosed]
  cases hc : r.closeInput true with
  | mk r' events =>
    rw [hc] at hclose hfiles
    have hr : r' = { r with input := false } := hclose
    subst hr
    simp only [Bool.false_eq_true, if_false, hc, Bool.not_true, hclean, Bool.or_self]
    rw [List.foldl_append, hfiles]
    simp [HistoryRecovery.repair, hreopened, htruncated, hsynced, hreclosed,
      HistoryRecovery.closeInput, apply]

@[simp] theorem error_readOnly (r : HistoryRecovery) : r.error.readOnly = true := rfl

@[simp] theorem error_input (r : HistoryRecovery) : r.error.input = r.input := rfl

@[simp] theorem error_root (r : HistoryRecovery) : r.error.root = r.root := rfl

/-- What opening the next file can come to. -/
theorem nextFile_spec {r : HistoryRecovery} {p : RecoveryPass} (h : r.input = false) (hopened : p.opened = true)
    (hclosed : p.closed = true) (hdirectory : p.directoryClosed = true) (files : Bytes → Bytes) :
    (r.nextFile p).2.foldl apply files = files ∧ (r.nextFile p).1.root = r.root ∧
    ((r.nextFile p).1.readOnly = false → r.readOnly = false ∧ (r.nextFile p).1.errors = r.errors) ∧
    ((r.nextFile p).1.input = true → ∃ name, p.entry = .entry name ∧
      (r.nextFile p).1.path = pathOf r.root name ∧ (r.nextFile p).1.good = 0) := by
  unfold HistoryRecovery.nextFile
  cases hentry : p.entry with
  | failed => simp [hclosed, hdirectory, cancel_files, cancel_true, apply]
  | done => simp [hclosed, hdirectory, cancel_files, cancel_true, apply]
  | entry name =>
    simp only [hclosed, hdirectory, hopened, Bool.not_true, Bool.false_eq_true, if_false]
    by_cases hlog : logName name = true
    · rw [if_neg (by simp [hlog])]
      by_cases hmany : (4096 : UInt32) < r.files + 1
      · rw [if_pos hmany]
        simp [cancel_files, cancel_true, apply]
      · rw [if_neg hmany]
        by_cases hlong : 300 ≤ (r.root ++ (ascii "/" ++ name)).length
        · rw [if_pos hlong]
          simp [apply, h]
        · rw [if_neg hlong]
          have hfits : (r.root ++ (ascii "/" ++ name)).length ≤ 299 := by omega
          have hpath : snprintf 300 (r.root ++ (ascii "/" ++ name)) = pathOf r.root name :=
            List.take_of_length_le hfits
          simp [apply, hpath]
    · rw [if_pos (by simpa using hlog)]
      simp [apply, h]

/-- A pass with no file open: the next name, which may open its file. -/
theorem next_file {s : Scan} (h : s.recovery.input = false) :
    s.next.files = s.files ∧ s.next.pending = s.pending.tail ∧ s.next.pos = 0 ∧
    s.next.recovery.root = s.recovery.root ∧
    (s.next.recovery.readOnly = false → s.recovery.readOnly = false ∧
      s.next.recovery.errors = s.recovery.errors) ∧
    (s.next.recovery.input = true → ∃ name more, s.pending = name :: more ∧
      s.next.recovery.path = pathOf s.recovery.root name ∧ s.next.recovery.good = 0) := by
  have hpass : s.recovery.pass s.reply = s.recovery.nextFile s.reply := by
    rw [HistoryRecovery.pass, if_neg (by simp [h])]
  obtain ⟨hfiles, hroot, hclean, hopen⟩ :=
    nextFile_spec (r := s.recovery) (p := s.reply) h rfl rfl rfl s.files
  rw [← hpass] at hfiles hroot hclean hopen
  refine ⟨hfiles, ?_, ?_, hroot, hclean, fun hinput => ?_⟩
  · rw [next]
    simp [h]
  · rw [next]
    simp [h]
  · obtain ⟨name, hentry, hpath, hgood⟩ := hopen hinput
    cases hpending : s.pending with
    | nil =>
      rw [reply, hpending] at hentry
      exact nomatch hentry
    | cons first more =>
      rw [reply, hpending] at hentry
      obtain rfl := Readdir.entry.inj hentry
      exact ⟨first, more, rfl, hpath, hgood⟩

/-! ## Lines of a file -/

/-- Complete lines, each of which passes the validator. -/
def ValidLines (text : Bytes) : Prop :=
  ∃ lines : List Bytes, text = lines.flatten ∧
    ∀ l ∈ lines, validLogRecord l = true ∧ ∃ body, l = body ++ [10] ∧ 10 ∉ body

theorem validLines_nil : ValidLines [] := ⟨[], rfl, fun _ hl => nomatch hl⟩

theorem ValidLines.append {text l : Bytes} (h : ValidLines text) (hl : validLogRecord l = true)
    (hline : ∃ body, l = body ++ [10] ∧ 10 ∉ body) : ValidLines (text ++ l) := by
  obtain ⟨lines, rfl, hlines⟩ := h
  refine ⟨lines ++ [l], by simp, fun l' hl' => ?_⟩
  rcases List.mem_append.mp hl' with hl' | hl'
  · exact hlines l' hl'
  · rw [List.mem_singleton.mp hl']
    exact ⟨hl, hline⟩

/-- A buffer whose text ends in a newline holds one whole line and no NUL. -/
theorem cString_line {n : Nat} {rest : Bytes}
    (h : (cString (Lines.upTo 10 n rest)).getLast? = some 10) :
    cString (Lines.upTo 10 n rest) = Lines.upTo 10 n rest ∧
      ∃ body, Lines.upTo 10 n rest = body ++ [10] ∧ 10 ∉ body := by
  have hstart : cString (Lines.upTo 10 n rest) <+: Lines.upTo 10 n rest := List.takeWhile_prefix _
  have hmem : 10 ∈ cString (Lines.upTo 10 n rest) := List.mem_of_getLast? h
  obtain ⟨body, hbody, hnot⟩ := Lines.upTo_of_mem 10 (hstart.subset hmem)
  refine ⟨?_, body, hbody, hnot⟩
  rw [hbody] at hstart hmem ⊢
  rcases List.prefix_concat_iff.mp hstart with heq | hshort
  · exact heq
  · exact absurd (hshort.subset hmem) hnot

/-- A pass over an open file: it is closed as it is, its next line is good, or it
is cut. -/
theorem next_line {s : Scan} (h : s.recovery.input = true) :
    s.next.pending = s.pending ∧ s.next.recovery.root = s.recovery.root ∧
    ((s.next.files = s.files ∧ s.next.recovery.input = false ∧
        (s.next.recovery.readOnly = false → s.rest = [] ∧
          s.next.recovery = { s.recovery with input := false })) ∨
      (s.next.files = s.files ∧ s.next.recovery =
          { s.recovery with good := s.pos + s.chunk.length, rows := s.recovery.rows + 1 } ∧
        s.next.pos = s.pos + s.chunk.length ∧ s.rest ≠ [] ∧ validLogRecord s.chunk = true ∧
        cString s.chunk = s.chunk ∧ ∃ body, s.chunk = body ++ [10] ∧ 10 ∉ body) ∨
      (s.next.files = Function.update s.files s.recovery.path
          ((s.files s.recovery.path).take s.recovery.good) ∧
        s.next.recovery = { s.recovery with input := false } ∧ s.recovery.readOnly = false ∧
        s.rest ≠ [] ∧ 10 ∉ s.rest ∧ s.rest.length < 2047)) := by
  have hpass : s.recovery.pass s.reply = s.recovery.nextLine s.reply := by
    rw [HistoryRecovery.pass, if_pos h]
  have hrecovery : s.next.recovery = (s.recovery.nextLine s.reply).1 := by rw [← hpass]; rfl
  have hfiles : s.next.files = (s.recovery.nextLine s.reply).2.foldl apply s.files := by
    rw [← hpass]
    rfl
  have hpending : s.next.pending = s.pending := by rw [next]; simp [h]
  have hpos : s.next.pos = s.pos + s.chunk.length := by rw [next]; simp [h]
  have hclose : ∀ (r : HistoryRecovery) partial', partial' = false ∨ r.readOnly = true →
      (r.finishFile partial' s.reply).1 = { r with input := false } ∧
        (r.finishFile partial' s.reply).2.foldl apply s.files = s.files :=
    fun r partial' hr => finishFile_kept r s.reply rfl rfl hr s.files
  rw [hrecovery, hfiles, hpending, hpos]
  refine ⟨rfl, ?_⟩
  unfold HistoryRecovery.nextLine
  by_cases hrest : s.rest = []
  · have hline : s.reply.line = none := by simp [reply, hrest]
    obtain ⟨hstate, hsame⟩ := hclose s.recovery false (.inl rfl)
    simp only [hline, List.foldl_cons, apply]
    rw [hstate, hsame]
    exact ⟨rfl, .inl ⟨rfl, rfl, fun _ => ⟨hrest, rfl⟩⟩⟩
  have hline : s.reply.line = some s.chunk := by simp [reply, hrest]
  have heof : s.reply.eof = s.hitEnd := rfl
  simp only [hline, heof]
  by_cases hwhole : (cString s.chunk).getLast? = some 10
  · obtain ⟨htext, hbody⟩ := cString_line hwhole
    have hchunk : cString s.chunk = s.chunk := htext
    rw [if_neg (by simp [hwhole])]
    by_cases hvalid : validLogRecord (cString s.chunk) = true
    · have htold : s.reply.told = some (s.pos + s.chunk.length) := rfl
      simp only [hvalid, htold, Bool.not_true, Bool.false_eq_true, if_false, List.foldl_cons,
        List.foldl_nil, apply]
      rw [hchunk] at hvalid
      exact ⟨trivial, .inr (.inl ⟨trivial, trivial, trivial, hrest, hvalid, hchunk, hbody⟩)⟩
    · rw [if_pos (by simpa using hvalid)]
      obtain ⟨hstate, hsame⟩ := hclose s.recovery.error false (.inl rfl)
      simp only [List.foldl_cons, apply]
      rw [hstate, hsame]
      exact ⟨rfl, .inl ⟨rfl, rfl, fun hclean => absurd hclean (by simp)⟩⟩
  · rw [if_pos (by simpa using hwhole)]
    cases hend : s.hitEnd with
    | false =>
      obtain ⟨hstate, hsame⟩ := hclose s.recovery.error false (.inl rfl)
      simp only [Bool.false_eq_true, if_false, List.foldl_cons, apply]
      rw [hstate, hsame]
      exact ⟨rfl, .inl ⟨rfl, rfl, fun hclean => absurd hclean (by simp)⟩⟩
    | true =>
      simp only [if_true, List.foldl_cons, apply]
      by_cases hclean : s.recovery.readOnly = true
      · obtain ⟨hstate, hsame⟩ := hclose s.recovery true (.inr hclean)
        rw [hstate, hsame]
        refine ⟨rfl, .inl ⟨rfl, rfl, fun hcontra => ?_⟩⟩
        have hcontra' : s.recovery.readOnly = false := hcontra
        rw [hclean] at hcontra'
        exact nomatch hcontra'
      · have hnever : s.recovery.readOnly = false := by simpa using hclean
        obtain ⟨hstate, hcut⟩ := finishFile_cut s.recovery s.reply rfl rfl rfl rfl rfl rfl hnever s.files
        rw [hstate, hcut]
        simp only [hitEnd, Bool.and_eq_true, decide_eq_true_eq, Bool.not_eq_true',
          List.contains_eq_mem, decide_eq_false_iff_not] at hend
        have hall : s.chunk = s.rest := Lines.upTo_of_not_mem 10 hend.2 hend.1
        rw [hall] at hend
        exact ⟨rfl, .inr (.inr ⟨rfl, rfl, hnever, hrest, hend.2, hend.1⟩)⟩

/-! ## All passes -/

/-- Only the end of `path` was cut: an incomplete line after good ones, by a pass
before which nothing was wrong. -/
structure Trimmed (d : LogDirectory) (path kept : Bytes) : Prop where
  cut : ∃ n tail, d.files path = kept ++ tail ∧ tail ≠ [] ∧ 10 ∉ tail ∧ tail.length < 2047 ∧
    ValidLines kept ∧ ((start d).advance n).recovery.readOnly = false ∧
    ((start d).advance n).recovery.errors = 0 ∧ ((start d).advance n).files path = d.files path ∧
    ((start d).advance (n + 1)).files path = kept

/-- What holds between passes. -/
structure Sound (d : LogDirectory) (s : Scan) : Prop where
  root : s.recovery.root = d.root
  honest : s.recovery.readOnly = false → s.recovery.errors = 0
  listed : ∃ seen, d.names = seen ++ s.pending
  untouched : ∀ name ∈ s.pending, s.files (pathOf d.root name) = d.files (pathOf d.root name)
  unread : s.recovery.input = true → s.files s.recovery.path = d.files s.recovery.path ∧
    ∀ name ∈ s.pending, pathOf d.root name ≠ s.recovery.path
  good : s.recovery.input = true → s.recovery.good = s.pos ∧
    ValidLines ((s.files s.recovery.path).take s.pos)
  result : ∀ path, s.files path = d.files path ∨ Trimmed d path (s.files path)

theorem sound_start (d : LogDirectory) : Sound d (start d) where
  root := rfl
  honest _ := rfl
  listed := ⟨[], rfl⟩
  untouched _ _ := rfl
  unread h := nomatch h
  good h := nomatch h
  result _ := .inl rfl

theorem sound_file {d : LogDirectory} {s : Scan} (h : Sound d s) (hinput : s.recovery.input = false) :
    Sound d s.next := by
  obtain ⟨hfiles, hpending, hpos, hroot, hclean, hopen⟩ := next_file hinput
  obtain ⟨seen, hseen⟩ := h.listed
  refine ⟨hroot.trans h.root, fun hno => ?_, ?_, fun name hname => ?_, fun hin => ?_, fun hin => ?_,
    fun path => ?_⟩
  · obtain ⟨hbefore, herrors⟩ := hclean hno
    rw [herrors]
    exact h.honest hbefore
  · rw [hpending]
    cases hnames : s.pending with
    | nil => exact ⟨seen, by rw [hseen, hnames]; rfl⟩
    | cons name more => exact ⟨seen ++ [name], by rw [hseen, hnames, List.append_assoc]; rfl⟩
  · rw [hfiles]
    rw [hpending] at hname
    exact h.untouched name (List.mem_of_mem_tail hname)
  · obtain ⟨name, more, hnames, hpath, -⟩ := hopen hin
    rw [hpath, h.root, hfiles]
    refine ⟨h.untouched name (by rw [hnames]; exact List.mem_cons_self), fun other hother heq => ?_⟩
    -- the names still to come are different from this one
    have hdistinct := d.distinct
    rw [hseen, hnames, List.nodup_append] at hdistinct
    rw [hpending, hnames] at hother
    rw [pathOf_injective d.root heq] at hother
    exact (List.nodup_cons.mp hdistinct.2.1).1 hother
  · obtain ⟨name, more, -, -, hgood⟩ := hopen hin
    rw [hgood, hpos]
    exact ⟨rfl, validLines_nil⟩
  · rw [hfiles]
    exact h.result path

theorem sound_line {d : LogDirectory} {n : Nat} (h : Sound d ((start d).advance n))
    (hinput : ((start d).advance n).recovery.input = true)
    (hnext : (start d).advance (n + 1) = ((start d).advance n).next) :
    Sound d ((start d).advance n).next := by
  obtain ⟨hpending, hroot, hcases⟩ := next_line hinput
  obtain ⟨hsame, hother⟩ := h.unread hinput
  obtain ⟨hgood, hlines⟩ := h.good hinput
  rcases hcases with ⟨hfiles, hclosed, hclean⟩ | ⟨hfiles, hrecovery, hpos, hrest, hvalid, -, hbody⟩ |
    ⟨hfiles, hrecovery, hclean, hrest, hnot, hshort⟩
  · refine ⟨hroot.trans h.root, fun hno => ?_, by rw [hpending]; exact h.listed, fun name hname => ?_,
      fun hin => ?_, fun hin => ?_, fun path => ?_⟩
    · obtain ⟨-, hrecovery⟩ := hclean hno
      rw [hrecovery] at hno ⊢
      exact h.honest hno
    · rw [hfiles]
      rw [hpending] at hname
      exact h.untouched name hname
    · rw [hclosed] at hin
      exact nomatch hin
    · rw [hclosed] at hin
      exact nomatch hin
    · rw [hfiles]
      exact h.result path
  · refine ⟨hroot.trans h.root, fun hno => ?_, by rw [hpending]; exact h.listed, fun name hname => ?_,
      fun _ => ?_, fun _ => ?_, fun path => ?_⟩
    · rw [hrecovery] at hno ⊢
      exact h.honest hno
    · rw [hfiles]
      rw [hpending] at hname
      exact h.untouched name hname
    · rw [hfiles, hrecovery, hpending]
      exact ⟨hsame, hother⟩
    · rw [hrecovery, hfiles, hpos]
      refine ⟨rfl, ?_⟩
      -- the good lines now include the one just read
      have htaken := Lines.upTo_append_drop 10 2047 ((start d).advance n).rest
      have htake : ((((start d).advance n).files ((start d).advance n).recovery.path).take
          (((start d).advance n).pos + ((start d).advance n).chunk.length)) =
          (((start d).advance n).files ((start d).advance n).recovery.path).take
            ((start d).advance n).pos ++ ((start d).advance n).chunk := by
        rw [List.take_add]
        congr 1
        have hstart : ((start d).advance n).chunk <+: ((start d).advance n).rest := ⟨_, htaken⟩
        exact (List.prefix_iff_eq_take.mp hstart).symm
      simp only
      rw [htake]
      exact hlines.append hvalid hbody
    · rw [hfiles]
      exact h.result path
  · refine ⟨hroot.trans h.root, fun hno => ?_, by rw [hpending]; exact h.listed, fun name hname => ?_,
      fun hin => ?_, fun hin => ?_, fun path => ?_⟩
    · rw [hrecovery] at hno ⊢
      exact h.honest hno
    · rw [hpending] at hname
      rw [hfiles, Function.update_of_ne (hother name hname)]
      exact h.untouched name hname
    · rw [hrecovery] at hin
      exact nomatch hin
    · rw [hrecovery] at hin
      exact nomatch hin
    · by_cases hpath : path = ((start d).advance n).recovery.path
      · subst hpath
        right
        have hkept : ((start d).advance n).next.files ((start d).advance n).recovery.path =
            (((start d).advance n).files ((start d).advance n).recovery.path).take
              ((start d).advance n).pos := by
          rw [hfiles, Function.update_self, hgood]
        rw [hkept]
        refine ⟨n, ((start d).advance n).rest, ?_, hrest, hnot, hshort, hlines, hclean,
          h.honest hclean, hsame, ?_⟩
        · rw [rest, List.take_append_drop, hsame]
        · rw [hnext, hkept]
      · rw [hfiles, Function.update_of_ne hpath]
        exact h.result path

theorem sound_advance (d : LogDirectory) (n : Nat) : Sound d ((start d).advance n) := by
  induction n with
  | zero => exact sound_start d
  | succ n ih =>
    have hsucc : (start d).advance (n + 1) = ((start d).advance n).advance 1 := advance_add _ n 1
    by_cases hactive : ((start d).advance n).recovery.active = true
    · have hnext : (start d).advance (n + 1) = ((start d).advance n).next := by
        rw [hsucc, advance_succ, if_pos hactive]
        rfl
      rw [hnext]
      cases hinput : ((start d).advance n).recovery.input with
      | false => exact sound_file ih hinput
      | true => exact sound_line ih hinput hnext
    · rw [hsucc, advance_succ, if_neg hactive]
      exact ih

/-! ## Runs -/

/-- A run is some passes, and perhaps the end of them. -/
theorem run_advance (d : LogDirectory) (ops : List Op) :
    ∃ n, run d ops = (start d).advance n ∨
      ((run d ops).files = ((start d).advance n).files ∧ (run d ops).recovery.active = false) := by
  induction ops using List.reverseRecOn with
  | nil => exact ⟨0, .inl rfl⟩
  | append_singleton ops op ih =>
    obtain ⟨n, hn⟩ := ih
    have hrun : run d (ops ++ [op]) = exec (run d ops) op := Runs.run_concat _ _ _ _
    rw [hrun]
    cases op with
    | step budget =>
      rcases hn with hn | ⟨hfiles, hinactive⟩
      · exact ⟨n + budget, .inl (by rw [exec, hn, advance_add])⟩
      · refine ⟨n, .inr ?_⟩
        rw [exec, advance_inactive hinactive]
        exact ⟨hfiles, hinactive⟩
    | cancel =>
      refine ⟨n, .inr ⟨?_, ?_⟩⟩
      · rw [exec]
        simp only [cancel_files]
        rcases hn with hn | ⟨hfiles, -⟩
        · rw [hn]
        · exact hfiles
      · rw [exec]
        simp only [cancel_true]
        rfl

def Op.budget : Op → Nat
  | .step budget => budget
  | .cancel => 0

theorem run_steps (d : LogDirectory) {ops : List Op} (h : .cancel ∉ ops) :
    run d ops = (start d).advance (ops.map Op.budget).sum := by
  induction ops using List.reverseRecOn with
  | nil => rfl
  | append_singleton ops op ih =>
    have hrun : run d (ops ++ [op]) = exec (run d ops) op := Runs.run_concat _ _ _ _
    have hops : .cancel ∉ ops := fun hmem => h (List.mem_append_left _ hmem)
    rw [hrun, ih hops]
    cases op with
    | step budget =>
      rw [exec, ← advance_add, List.map_append, List.sum_append]
      simp [Op.budget]
    | cancel => exact absurd (List.mem_append_right _ List.mem_cons_self) h

/-! ## The passes end -/

/-- Passes that are left at most: two for a name, one for a byte. -/
def work (s : Scan) : Nat :=
  if s.recovery.active then
    1 + (s.pending.map fun name => 2 + (s.files (pathOf s.recovery.root name)).length).sum +
      (if s.recovery.input then 1 + s.rest.length else 0)
  else 0

theorem work_active {s : Scan} (h : s.recovery.active = true) :
    s.work = 1 + (s.pending.map fun name => 2 + (s.files (pathOf s.recovery.root name)).length).sum +
      (if s.recovery.input then 1 + s.rest.length else 0) := by
  rw [work, if_pos h]

theorem next_done {s : Scan} (hinput : s.recovery.input = false) (hpending : s.pending = []) :
    s.next.recovery.active = false := by
  have hentry : s.reply.entry = .done := by simp [reply, hpending]
  have hpass : s.next.recovery = (s.recovery.nextFile s.reply).1 := by
    rw [next, HistoryRecovery.pass, if_neg (by simp [hinput])]
  have hcancel : (s.recovery.nextFile s.reply).1 = (s.recovery.cancel true true).1 := by
    rw [HistoryRecovery.nextFile, hentry]
    rfl
  rw [hpass, hcancel, cancel_true]
  rfl

theorem work_file {s : Scan} (hactive : s.recovery.active = true) (hinput : s.recovery.input = false)
    (hnext : s.next.recovery.active = true) : s.next.work < s.work := by
  obtain ⟨hfiles, hpending, hpos, hroot, -, hopen⟩ := next_file hinput
  cases hnames : s.pending with
  | nil =>
    have hdone := next_done hinput hnames
    rw [hnext] at hdone
    exact nomatch hdone
  | cons name more =>
    have htail : s.next.pending = more := by rw [hpending, hnames]; rfl
    rw [work_active hactive, work_active hnext, htail, hnames, hfiles, hroot, List.map_cons,
      List.sum_cons, hinput]
    by_cases hin : s.next.recovery.input = true
    · obtain ⟨name', more', hnames', hpath, -⟩ := hopen hin
      rw [hnames] at hnames'
      obtain ⟨rfl, rfl⟩ := List.cons.inj hnames'
      have hrest : s.next.rest = s.files (pathOf s.recovery.root name) := by
        rw [rest, hpos, hfiles, hpath]
        rfl
      rw [if_pos hin, hrest]
      simp only [Bool.false_eq_true, if_false]
      omega
    · rw [if_neg hin]
      simp only [Bool.false_eq_true, if_false]
      omega

/-- Cutting a file leaves less to read. -/
theorem sum_cut_le (files : Bytes → Bytes) (cut : Bytes) (size : Nat) (root : Bytes) (names : List Bytes) :
    (names.map fun name =>
        2 + (Function.update files cut ((files cut).take size) (pathOf root name)).length).sum ≤
      (names.map fun name => 2 + (files (pathOf root name)).length).sum := by
  refine List.sum_le_sum fun name _ => ?_
  by_cases hname : pathOf root name = cut
  · rw [hname, Function.update_self, List.length_take]
    omega
  · rw [Function.update_of_ne hname]

theorem work_line {s : Scan} (hactive : s.recovery.active = true) (hinput : s.recovery.input = true)
    (hnext : s.next.recovery.active = true) : s.next.work < s.work := by
  obtain ⟨hpending, hroot, hcases⟩ := next_line hinput
  rw [work_active hactive, work_active hnext, hpending, hroot, if_pos hinput]
  rcases hcases with ⟨hfiles, hclosed, -⟩ | ⟨hfiles, hrecovery, hpos, hrest, -, -, body, hbody, -⟩ |
    ⟨hfiles, hrecovery, -⟩
  · rw [hfiles, hclosed]
    simp only [Bool.false_eq_true, if_false]
    omega
  · -- the line that was read is not empty
    have hread : s.next.rest = s.rest.drop s.chunk.length := by
      rw [rest, rest, hpos, hfiles, hrecovery, List.drop_drop]
    have hchunk : 0 < s.chunk.length := by rw [hbody, List.length_append]; simp
    have hlength : 0 < s.rest.length := List.length_pos_of_ne_nil hrest
    rw [hfiles, hread, List.length_drop]
    split <;> omega
  · have hsum := sum_cut_le s.files s.recovery.path s.recovery.good s.recovery.root s.pending
    have hclosed : s.next.recovery.input = false := by rw [hrecovery]
    rw [hfiles, hclosed]
    simp only [Bool.false_eq_true, if_false]
    omega

theorem work_next {s : Scan} (h : s.recovery.active = true) : s.next.work < s.work := by
  by_cases hnext : s.next.recovery.active = true
  · cases hinput : s.recovery.input with
    | false => exact work_file h hinput hnext
    | true => exact work_line h hinput hnext
  · rw [work, if_neg hnext, work_active h]
    omega

theorem advance_done (s : Scan) (n : Nat) (h : s.work ≤ n) : (s.advance n).recovery.active = false := by
  induction n generalizing s with
  | zero =>
    cases hactive : s.recovery.active with
    | false => exact hactive
    | true =>
      rw [work_active hactive] at h
      omega
  | succ n ih =>
    rw [advance_succ]
    by_cases hactive : s.recovery.active = true
    · rw [if_pos hactive]
      have hless := work_next hactive
      exact ih s.next (by omega)
    · rw [if_neg hactive]
      simpa using hactive

/-- Two runs that reach the end are at the same place. -/
theorem run_complete (d : LogDirectory) {ops ops' : List Op} (h : .cancel ∉ ops) (h' : .cancel ∉ ops')
    (hdone : (run d ops).recovery.active = false) (hdone' : (run d ops').recovery.active = false) :
    run d ops = run d ops' := by
  rw [run_steps d h] at hdone ⊢
  rw [run_steps d h'] at hdone' ⊢
  rcases Nat.le_total (ops.map Op.budget).sum (ops'.map Op.budget).sum with hle | hle
  · obtain ⟨more, hmore⟩ := Nat.exists_eq_add_of_le hle
    rw [hmore, advance_add, advance_inactive hdone]
  · obtain ⟨more, hmore⟩ := Nat.exists_eq_add_of_le hle
    rw [hmore, advance_add, advance_inactive hdone']

/-- Nothing changes after a cancel. -/
theorem run_cancelled (d : LogDirectory) (before after : List Op) :
    (run d (before ++ .cancel :: after)).files = (run d before).files := by
  have hsplit : run d (before ++ .cancel :: after) =
      Runs.run exec (exec (run d before) .cancel) after := Runs.run_append _ _ _ _
  have hcancelled : (exec (run d before) .cancel).recovery.active = false ∧
      (exec (run d before) .cancel).files = (run d before).files := by
    rw [exec]
    simp only [cancel_true, cancel_files]
    exact ⟨rfl, trivial⟩
  rw [hsplit]
  refine (Runs.invariant
    (fun s : Scan => s.recovery.active = false ∧ s.files = (run d before).files) ?_ hcancelled after).2
  intro s op ⟨hinactive, hfiles⟩
  cases op with
  | step budget =>
    rw [exec, advance_inactive hinactive]
    exact ⟨hinactive, hfiles⟩
  | cancel =>
    rw [exec]
    simp only [cancel_true, cancel_files]
    exact ⟨rfl, hfiles⟩

theorem run_result (d : LogDirectory) (ops : List Op) (path : Bytes) :
    (run d ops).files path = d.files path ∨ Trimmed d path ((run d ops).files path) := by
  obtain ⟨n, hn | ⟨hfiles, -⟩⟩ := run_advance d ops
  · rw [hn]
    exact (sound_advance d n).result path
  · rw [hfiles]
    exact (sound_advance d n).result path

/-- Recovery removes nothing but an incomplete line at the end of a file, nothing
after a cancel, and its result does not depend on the budgets. -/
theorem recovery_removes_tails (d : LogDirectory) :
    (∀ ops path, (run d ops).files path = d.files path ∨ Trimmed d path ((run d ops).files path)) ∧
    (∀ before after, (run d (before ++ .cancel :: after)).files = (run d before).files) ∧
    (∃ total, ∀ ops, .cancel ∉ ops → total ≤ (ops.map Op.budget).sum →
      (run d ops).recovery.active = false) ∧
    ∀ ops ops', .cancel ∉ ops → .cancel ∉ ops' → (run d ops).recovery.active = false →
      (run d ops').recovery.active = false →
      (run d ops).files = (run d ops').files ∧ (run d ops).recovery = (run d ops').recovery := by
  refine ⟨run_result d, run_cancelled d, ⟨(start d).work, fun ops hops htotal => ?_⟩,
    fun ops ops' hops hops' hdone hdone' => ?_⟩
  · rw [run_steps d hops]
    exact advance_done _ _ htotal
  · rw [run_complete d hops hops' hdone hdone']
    exact ⟨rfl, rfl⟩

/-- A directory with an incomplete line and a name that is no log. -/
def torn : LogDirectory where
  root := ascii "/sd/LOGS"
  names := [ascii "A.TXT", ascii "B.JSONL"]
  distinct := by decide
  files _ := ascii "torn"

theorem recovery_removes_tails_torn :
    (run torn [.step 1, .step 7]).files (ascii "/sd/LOGS/B.JSONL") = [] ∧
    (run torn [.step 1, .step 7]).recovery = (run torn [.step 8]).recovery := by
  have hcut : (run torn [.step 1, .step 7]).files (ascii "/sd/LOGS/B.JSONL") = [] := by decide
  refine ⟨hcut, ?_⟩
  exact ((recovery_removes_tails torn).2.2.2 [.step 1, .step 7] [.step 8] (by simp) (by simp)
    (by decide) (by decide +kernel)).2

end Scan

end Hound
