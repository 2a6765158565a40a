import Hound.Lib.Lines
import Hound.Lib.Stdio
import Hound.Storage.HistoryExport
import Hound.Storage.Worker

/-!
# The export on a card

`history_export.cpp` again, over the files of a card: what each call reads and writes
there, whichever of them fail.
-/

namespace Hound

namespace OnCard

open Stdio

/-! ## Files of an export -/

def finish (f : Stream UInt8) : Io UInt8 Bool := do
  let (flushed, f) ← fflush f
  let synced ← succeeds
  let closed ← fclose f
  pure (closed && (synced && flushed))

/-- `if (out) ok = finish(out) && ok` -/
def finishOut (out : Option (Stream UInt8)) : Io UInt8 Bool :=
  match out with
  | none => pure true
  | some f => finish f

def writeAll (out : Option (Stream UInt8)) (text : Bytes) : Io UInt8 (Bool × Option (Stream UInt8)) :=
  match out with
  | none => pure (false, none)
  | some f => do
    let (ok, f) ← fwrite f text
    pure (ok, some f)

/-! ## The rows -/

/-- The variables of the loop in `write_export`. `error` is `ferror(input)`. -/
structure Rows where
  ok : Bool
  out : Option (Stream UInt8)
  files : Nat := 0
  rows : UInt32 := 0
  error : Bool := false

/-- `while (ok && fgets(line.data(), line.size(), input))`, over what is left to read. -/
def exportLines (hmac : Hmac) (key : Bytes) (r : Rows) : List Bytes → Io UInt8 Rows
  | [] =>
    if !r.ok then pure r
    else do
      let (_, error) ← fgets []
      pure { r with error := r.error || error }
  | chunk :: chunks =>
    if !r.ok then pure r
    else do
      let (line, error) ← fgets (chunk :: chunks)
      let r := { r with error := r.error || error }
      match line with
      | none => pure r
      | some line =>
        let text := cString line
        if text.getLast? != some 10 then pure { r with ok := false }
        else
          let exported := exportLogRecord hmac text key 2048
          if exported == [] then exportLines hmac key { r with ok := false } chunks
          else do
            let (wrote, out) ← writeAll r.out exported
            exportLines hmac key { r with ok := wrote, out, rows := if wrote then r.rows + 1 else r.rows } chunks

/-- One history file, once its name has been read. -/
def exportFile (hmac : Hmac) (key logs name : Bytes) (r : Rows) : Io UInt8 Rows := do
  let input ← fopenRead ⟨logs, name⟩
  match input with
  | none => pure { r with ok := false }
  | some text =>
    let r ← exportLines hmac key { r with error := false } (Lines.chunks 10 2047 text)
    let closed ← succeeds
    pure { r with ok := closed && (r.ok && !r.error) }

/-- `while (ok)`, over the names `readdir` has not returned yet. -/
def exportFiles (hmac : Hmac) (key logs : Bytes) (r : Rows) : List Bytes → Io UInt8 Rows
  | [] =>
    if !r.ok then pure r
    else do
      let ended ← succeeds
      pure { r with ok := ended }
  | name :: names =>
    if !r.ok then pure r
    else do
      let read ← succeeds
      if !read then pure { r with ok := false }
      else if !logName name then exportFiles hmac key logs r names
      else if 4096 < r.files + 1 then pure { r with ok := false, files := r.files + 1 }
      else do
        let r ← exportFile hmac key logs name { r with files := r.files + 1 }
        exportFiles hmac key logs r names

/-- The names `opendir` gives `readdir`. -/
def openLogs (logs : Bytes) : Io UInt8 (Option (List Bytes)) := do
  let opened ← succeeds
  let c ← card
  pure (if opened then (c logs).map Folder.names else none)

/-! ## The directory of an export -/

def sightings (dir : Bytes) : Path UInt8 := ⟨dir, ascii "SIGHTINGS.JSONL"⟩

def summary (dir : Bytes) : Path UInt8 := ⟨dir, ascii "SUMMARY.JSON"⟩

def readme (dir : Bytes) : Path UInt8 := ⟨dir, ascii "README.TXT"⟩

def manifest (dir : Bytes) : Path UInt8 := ⟨dir, ascii "MANIFEST.SHA256"⟩

def readmeText : Bytes :=
  ascii "Surveillance Hound complete historical event export. Repeated updates are retained.\n" ++
  ascii "No location is collected; not map-ready. No raw MAC, SSID, payload, or drone serial.\n" ++
  ascii "Identifiers are rekeyed per export. Host export tool can aggregate events.\n" ++
  ascii "Radio clues may be spoofed. Confidence is evidence strength, not proof of surveillance.\n"

def summaryText (pack : Vector UInt8 6) (rows : UInt32) : Bytes :=
  ascii "\x7b\"schema_version\":1,\"scope\":\"full_history_events\",\"file_limit\":4096,\"rows\":" ++
  Decimal.natural rows.toNat ++ ascii ",\"firmware_version\":\"" ++ firmwareVersion ++
  ascii "\",\"hardware\":\"E32R40T\",\"signature_pack\":\"" ++ signaturePackVersion pack ++ ascii "\"\x7d\n"

/-- Write a file of fixed text, as `README.TXT` and `SUMMARY.JSON` are. -/
def writeText (p : Path UInt8) (text : Bytes) : Io UInt8 Bool := do
  let out ← fopenNew p
  let (wrote, out) ← writeAll out text
  let finished ← finishOut out
  pure (finished && wrote)

/-- `hash_file`: the digest of a file in hexadecimal. -/
def hashFile (s : Firmware) (p : Path UInt8) : Io UInt8 (Option Bytes) := do
  let input ← fopenRead p
  let hashed ← succeeds
  pure (if hashed then (input.bind s.sha256).map fun digest => lowerHex digest.toList else none)

/-- The lines of the manifest for these files. -/
def manifestLines (s : Firmware) (f : Stream UInt8) : List (Path UInt8) → Io UInt8 (Bool × Stream UInt8)
  | [] => pure (true, f)
  | p :: names => do
    let digest ← hashFile s p
    match digest with
    | none => pure (false, f)
    | some digest =>
      let (wrote, f) ← fwrite f (digest ++ (ascii "  " ++ (p.name ++ [10])))
      if !wrote then pure (false, f) else manifestLines s f names

def writeManifest (s : Firmware) (dir : Bytes) (ok : Bool) : Io UInt8 Bool :=
  if !ok then pure false
  else do
    let out ← fopenNew (manifest dir)
    match out with
    | none => pure false
    | some f =>
      let (ok, f) ← manifestLines s f [sightings dir, summary dir, readme dir]
      let finished ← finish f
      pure (finished && ok)

/-- `write_export`, with the number of rows. -/
def writeExport (s : Firmware) (key logs dir : Bytes) : Io UInt8 (Bool × UInt32) := do
  let out ← fopenNew (sightings dir)
  let names ← openLogs logs
  let r ← (match names with
    | none => pure { ok := false, out }
    | some names => exportFiles s.hmac key logs { ok := out.isSome, out } names)
  let closed ← (if names.isSome then succeeds else pure true)
  let finished ← finishOut r.out
  let readme ← writeText (readme dir) readmeText
  let summary ← writeText (summary dir) (summaryText s.pack r.rows)
  let ok ← writeManifest s dir (summary && (readme && (finished && (closed && r.ok))))
  pure (ok, r.rows)

/-! ## The writer of the log -/

/-- Open the log again and move to its end. -/
def reopen (path : Path UInt8) : Io UInt8 (Option (Stream UInt8)) := do
  let writer ← fopenUpdate path
  match writer with
  | none => pure none
  | some f =>
    let (sought, f) ← fseekEnd f
    if sought then pure (some f)
    else do
      let _ ← fclose f
      pure none

/-- `export_history_files`: its result, the writer and the number of rows. -/
def exportHistoryFiles (s : Firmware) (key logs dir : Bytes) (writer : Option (Stream UInt8)) :
    Io UInt8 (Bool × Option (Stream UInt8) × UInt32) :=
  match writer with
  | none => pure (false, none, 0)
  | some f => do
    let closed ← finish f
    if !closed then pure (false, none, 0)
    else do
      let created ← mkdir dir
      let (written, rows) ← (if created then writeExport s key logs dir else pure (false, 0))
      let writer ← reopen f.path
      let ok := writer.isSome && written
      (if !ok && created then unlink (manifest dir) else pure ())
      pure (ok, writer, rows)

end OnCard

end Hound
