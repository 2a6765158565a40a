import Hound.Lib.Lines
import Hound.Lib.Upsert
import Hound.Records.SanitizeRow

/-!
# Aggregating logs on the host

`export` of `export_logs.py`: the lines of all files are upserted into a table
of episodes, which a query then groups by identity.
-/

namespace Hound.Host

/-! ## The identity of a row -/

def hexDigit (n : Nat) : Nat := if n < 10 then '0'.toNat + n else 'a'.toNat + (n - 10)

def escapeCode (n : Nat) : Str := codes "\\u" ++ [hexDigit (n / 4096), hexDigit (n / 256 % 16), hexDigit (n / 16 % 16), hexDigit (n % 16)]

/-- A character as `json.dumps` writes it. -/
def dumpsChar (c : Nat) : Str :=
  if c == '"'.toNat then codes "\\\""
  else if c == '\\'.toNat then codes "\\\\"
  else if c == 10 then codes "\\n"
  else if c == 13 then codes "\\r"
  else if c == 9 then codes "\\t"
  else if c == 12 then codes "\\f"
  else if c == 8 then codes "\\b"
  else if 32 ≤ c ∧ c ≤ 126 then [c]
  else if c < 65536 then escapeCode c
  else escapeCode (0xd800 + (c - 65536) / 1024) ++ escapeCode (0xdc00 + (c - 65536) % 1024)

def dumpsStr (s : Str) : Str := codes "\"" ++ s.flatMap dumpsChar ++ codes "\""

def dumpsList (items : List Str) : Str := codes "[" ++ (codes ",").intercalate items ++ codes "]"

def identity (row : SanitizedRow) : Str :=
  dumpsList [dumpsStr row.sessionId, dumpsStr row.identifier, dumpsStr row.category,
    dumpsList (row.ruleIds.map dumpsStr), dumpsStr row.radio, dumpsStr row.signaturePack, dumpsStr row.region]

/-! ## The table of episodes -/

/-- The columns beside the key. `row` is stored as text and read back. -/
structure Episode where
  last : Int
  seen : Int
  score : Int
  rmin : Int
  rmax : Int
  row : SanitizedRow

/-- `INSERT INTO episodes VALUES(…)`. -/
def Episode.insert (row : SanitizedRow) : Episode :=
  ⟨row.lastSeenMs, row.seenCount, row.score, row.rssiMin, row.rssiMax, row⟩

/-- `DO UPDATE SET`, whose right sides read the old columns. -/
def Episode.update (e : Episode) (excluded : SanitizedRow) : Episode where
  last := max e.last excluded.lastSeenMs
  seen := max e.seen excluded.seenCount
  score := max e.score excluded.score
  rmin := min e.rmin excluded.rssiMin
  rmax := max e.rmax excluded.rssiMax
  row := if e.last ≤ excluded.lastSeenMs then excluded else e.row

abbrev Episodes := List ((Str × Int) × Episode)

/-- `PRIMARY KEY(identity,first)`. -/
def episodeKey (row : SanitizedRow) : Str × Int := (identity row, row.firstSeenMs)

def insertRow : Episodes → SanitizedRow → Episodes := Upsert.put episodeKey Episode.insert Episode.update

/-! ## Reading the files -/

def maxLine : Nat := 4096

/-- What is done with a line, the salt and the catalog being fixed. -/
abbrev Cleaner := Bytes → Except String SanitizedRow

/-- `sanitize(json.loads(line), salt, catalog)`. -/
def cleanLine (loads : Bytes → Except String PyValue) (digest : Bytes → Digest) (catalog : List SignatureEntry) : Cleaner :=
  fun line => (loads line).bind (sanitize digest catalog)

/-- The loop over the lines of one file. -/
def readLog (clean : Cleaner) (name : String) (stream : Bytes) (t : Episodes) : Except String Episodes :=
  let line := Lines.upTo 10 (maxLine + 1) stream
  if _hend : line = [] then .ok t
  else if maxLine < line.length then .error (name ++ ": oversized record")
  else if line.getLast? != some 10 then .error (name ++ ": partial tail; run recover_logs.py first")
  else (clean line).bind fun row => readLog clean name (stream.drop line.length) (insertRow t row)
termination_by stream.length
decreasing_by
  have hpos : 0 < line.length := List.length_pos_iff.mpr _hend
  have hle : line.length ≤ stream.length := by
    have hsplit := congrArg List.length (Lines.upTo_append_drop 10 (maxLine + 1) stream)
    rw [List.length_append] at hsplit
    exact Nat.le_of_add_right_le (Nat.le_of_eq hsplit)
  rw [List.length_drop]
  exact Nat.sub_lt (Nat.lt_of_lt_of_le hpos hle) hpos

abbrev LogFile := String × Bytes

def readLogs (clean : Cleaner) : List LogFile → Episodes → Except String Episodes
  | [], t => .ok t
  | f :: rest, t => (readLog clean f.1 f.2 t).bind (readLogs clean rest)

/-! ## The query -/

/-- `SELECT e2.row … ORDER BY e2.last DESC LIMIT 1`: which of several greatest
rows comes first is not said. -/
structure LatestFirst where
  pick : List Episode → Option Episode
  greatest : ∀ l e, pick l = some e → e ∈ l ∧ ∀ e' ∈ l, e'.last ≤ e.last
  total : ∀ l, pick l = none → l = []

/-- The episodes of an identity, each with its `first`. -/
def members (t : Episodes) (i : Str) : List (Int × Episode) :=
  (t.filter fun e => e.1.1 == i).map fun e => (e.1.2, e.2)

structure Selected where
  row : SanitizedRow
  first : Int
  last : Int
  count : Int
  score : Int
  rmin : Int
  rmax : Int

def selected (latest : LatestFirst) (group : List (Int × Episode)) : Option Selected := do
  let e ← latest.pick (group.map Prod.snd)
  let first ← (group.map Prod.fst).min?
  let last ← (group.map fun m => m.2.last).max?
  let score ← (group.map fun m => m.2.score).max?
  let rmin ← (group.map fun m => m.2.rmin).min?
  let rmax ← (group.map fun m => m.2.rmax).max?
  return { row := e.row, first, last, count := (group.map fun m => m.2.seen).sum, score, rmin, rmax }

/-- `GROUP BY identity ORDER BY identity`. -/
def groups (t : Episodes) : List Str := (t.map fun e => e.1.1).dedup.insertionSort (· ≤ ·)

/-! ## The rows written -/

def confidenceOf (score : Int) : Str :=
  if 80 ≤ score then codes "high"
  else if 50 ≤ score then codes "medium"
  else if 20 ≤ score then codes "low"
  else codes "informational"

/-- A row of `SIGHTINGS.JSONL`. -/
structure Sighting extends SanitizedRow where
  schemaVersion : Int
  confidence : Str
  hardware : Str
  latitude : Option Int
  longitude : Option Int
  locationSource : Str
  privacyMode : Str
  deriving DecidableEq

/-- `row.update(…)`. -/
def Selected.sighting (g : Selected) : Sighting :=
  { g.row with
    schemaVersion := 1
    firstSeenMs := g.first
    lastSeenMs := g.last
    seenCount := g.count
    score := g.score
    rssiMin := g.rmin
    rssiMax := g.rmax
    confidence := confidenceOf g.score
    hardware := codes "E32R40T"
    latitude := none
    longitude := none
    locationSource := codes "none"
    privacyMode := codes "sanitized" }

/-- `SUM` of a group raises an exception where the total leaves 64 bits. -/
def Selected.written (g : Selected) : Except String Sighting :=
  if g.count ≤ 2 ^ 63 - 1 then .ok g.sighting else .error "integer overflow"

def writeRows : List Selected → Except String (List Sighting)
  | [] => .ok []
  | g :: rest => g.written.bind fun s => (writeRows rest).bind fun ss => .ok (s :: ss)

/-- `export`, from the files to the rows of `SIGHTINGS.JSONL`. -/
def exportLogs (clean : Cleaner) (latest : LatestFirst) (files : List LogFile) : Except String (List Sighting) :=
  if files.isEmpty then .error "No JSONL files found"
  else (readLogs clean files []).bind fun t => writeRows ((groups t).filterMap fun i => selected latest (members t i))

/-! ## Reading valid lines -/

/-- A line ends in its only newline, fits the limit and holds a valid row. -/
structure ValidLine (clean : Cleaner) (line : Bytes) : Prop where
  ended : ∃ body, line = body ++ [10] ∧ 10 ∉ body
  fits : line.length ≤ maxLine
  valid : ∃ row, clean line = .ok row

def rowsOf (clean : Cleaner) (lines : List Bytes) : List SanitizedRow :=
  lines.filterMap fun line => (clean line).toOption

theorem upTo_line {body rest : Bytes} {n : Nat} (hbody : 10 ∉ body) (hn : body.length < n) :
    Lines.upTo 10 n (body ++ [10] ++ rest) = body ++ [10] := by
  induction body generalizing n with
  | nil =>
    obtain ⟨m, rfl⟩ := Nat.exists_eq_succ_of_ne_zero (Nat.ne_of_gt hn)
    simp [Lines.upTo]
  | cons c body ih =>
    obtain ⟨m, rfl⟩ := Nat.exists_eq_succ_of_ne_zero (Nat.ne_of_gt (Nat.lt_of_le_of_lt (Nat.zero_le _) hn))
    have hc : c ≠ 10 := fun heq => hbody (heq ▸ List.mem_cons_self)
    have hrest := ih (n := m) (fun hmem => hbody (List.mem_cons_of_mem c hmem)) (by simpa using hn)
    simp only [List.cons_append, Lines.upTo, if_neg hc]
    rw [hrest]

theorem readLog_cons {clean : Cleaner} {line : Bytes} (h : ValidLine clean line) {row : SanitizedRow}
    (hrow : clean line = .ok row) (name : String) (rest : Bytes) (t : Episodes) :
    readLog clean name (line ++ rest) t = readLog clean name rest (insertRow t row) := by
  obtain ⟨body, rfl, hbody⟩ := h.ended
  have hfits := h.fits
  have hline : Lines.upTo 10 (maxLine + 1) (body ++ [10] ++ rest) = body ++ [10] := by
    refine upTo_line hbody ?_
    rw [List.length_append] at hfits
    exact Nat.lt_succ_of_le (Nat.le_of_add_right_le hfits)
  rw [readLog]
  simp only [hline]
  rw [dif_neg (by simp), if_neg (Nat.not_lt.mpr hfits), if_neg (by simp), List.drop_left, hrow]
  rfl

theorem readLog_lines {clean : Cleaner} {lines : List Bytes} (h : ∀ line ∈ lines, ValidLine clean line)
    (name : String) (t : Episodes) :
    readLog clean name lines.flatten t = .ok ((rowsOf clean lines).foldl insertRow t) := by
  induction lines generalizing t with
  | nil =>
    rw [List.flatten_nil, readLog]
    simp [Lines.upTo, rowsOf]
  | cons line lines ih =>
    have hline := h line List.mem_cons_self
    obtain ⟨row, hrow⟩ := hline.valid
    have hrows : rowsOf clean (line :: lines) = row :: rowsOf clean lines := by
      simp [rowsOf, hrow, Except.toOption]
    rw [List.flatten_cons, readLog_cons hline hrow, hrows, List.foldl_cons]
    exact ih (fun line hmem => h line (List.mem_cons_of_mem _ hmem)) _

abbrev Log := List (String × List Bytes)

namespace Log

def lines (log : Log) : List Bytes := log.flatMap Prod.snd

def files (log : Log) : List LogFile := log.map fun f => (f.1, f.2.flatten)

end Log

theorem readLogs_lines {clean : Cleaner} {log : Log} (h : ∀ line ∈ log.lines, ValidLine clean line) (t : Episodes) :
    readLogs clean log.files t = .ok ((rowsOf clean log.lines).foldl insertRow t) := by
  induction log generalizing t with
  | nil => rfl
  | cons f log ih =>
    have hlines : Log.lines (f :: log) = f.2 ++ Log.lines log := List.flatMap_cons
    rw [hlines] at h ⊢
    have hhead := readLog_lines (fun line hmem => h line (List.mem_append_left _ hmem)) f.1 t
    have htail := ih (fun line hmem => h line (List.mem_append_right _ hmem)) ((rowsOf clean f.2).foldl insertRow t)
    have hrows : rowsOf clean (f.2 ++ Log.lines log) = rowsOf clean f.2 ++ rowsOf clean (Log.lines log) :=
      List.filterMap_append
    rw [hrows, List.foldl_append, ← htail]
    change (readLog clean f.1 f.2.flatten t).bind _ = _
    rw [hhead]
    rfl

end Hound.Host
