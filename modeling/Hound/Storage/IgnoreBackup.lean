import Hound.Core.Privacy
import Hound.Lib.Runs
import Hound.Storage.Layouts

/-!
# Ignore lists on the card

`ignore_backup.cpp`: an authenticated image of the ignore list in one of two
slot files. Every stdio step may fail. What a failed or interrupted write
leaves in its file is a prefix of the image.
-/

namespace Hound

namespace IgnoreBackup

def ignoreBackupBytes : Nat := 624

def signedSize : Nat := ignoreBackupBytes - 32

def magic : Bytes := ascii "HNDIGN02"

def keyOk (key : Bytes) : Bool := key.any (· != 0)

abbrev Slot := Fin 2

/-- `path`: the name of a slot's file, unless it is too long for its buffer. -/
def path (base : Bytes) (slot : Slot) : Option Bytes :=
  let name := base ++ (ascii "-" ++ ((if slot = 0 then ascii "0" else ascii "1") ++ ascii ".BIN"))
  if name.length < 192 then some name else none

/-- The generation and the list, as they follow the magic. -/
def contents : Layout (UInt64 × IgnoreList) := Layout.u64.seq (Layout.array 64 Layouts.ignored)

def decode (hmac : Hmac) (key bytes : Bytes) : Option (IgnoreList × UInt64) :=
  if !keyOk key || bytes.take 8 != magic then none
  else
    match hmac key (bytes.take signedSize) with
    | none => none
    | some mac =>
      if mac.toList != bytes.drop signedSize then none
      else
        let (gen, list) := contents.read (bytes.drop 8)
        if gen == 0 then none
        else if !validIgnores list then none
        else some (list, gen)

/-! ## Reading -/

inductive Read where
  | Missing
  | Invalid
  | Error
  | Valid (list : IgnoreList) (generation : UInt64)
  deriving DecidableEq

/-- What the calls on one file report: `fopen` (other than for a missing file),
`ferror` and `fclose`. -/
structure ReadFault where
  opened : Bool := true
  error : Bool := false
  closed : Bool := true

def readSlot (hmac : Hmac) (key base : Bytes) (slot : Slot) (fault : ReadFault)
    (file : Option Bytes) : Read :=
  if (path base slot).isNone then .Error
  else if !fault.opened then .Error
  else
    match file with
    | none => .Missing
    | some bytes =>
      if fault.error || !fault.closed then .Error
      else if bytes.length == ignoreBackupBytes then
        match decode hmac key bytes with
        | some (list, generation) => .Valid list generation
        | none => .Invalid
      else .Invalid

/-- `Latest`, with the list it was given to fill. -/
structure Latest where
  slot : Option Slot := none
  generation : UInt64 := 0
  existing : Bool := false
  error : Bool := false
  out : IgnoreList := Vector.replicate 64 {}

/-- The body of the loop in `latest`. -/
def Latest.visit (result : Latest) (slot : Slot) (status : Read) : Latest :=
  let result := { result with
    existing := result.existing || status != .Missing
    error := result.error || status == .Error }
  match status with
  | .Valid list gen =>
    if result.generation < gen then { result with slot := some slot, generation := gen, out := list }
    else result
  | _ => result

/-- The two files of a card, `none` where there is none. -/
abbrev Card := Slot → Option Bytes

def latest (hmac : Hmac) (key base : Bytes) (faults : Slot → ReadFault) (card : Card) : Latest :=
  (({} : Latest).visit 0 (readSlot hmac key base 0 (faults 0) (card 0))).visit 1
    (readSlot hmac key base 1 (faults 1) (card 1))

def noFaults : Slot → ReadFault := fun _ => {}

def readIgnoreBackup (hmac : Hmac) (key base : Bytes) (faults : Slot → ReadFault) (card : Card) :
    Option (IgnoreList × UInt64) :=
  let found := latest hmac key base faults card
  if found.error then none else found.slot.map fun _ => (found.out, found.generation)

/-! ## Writing -/

inductive BackupResult where
  | Failed
  | Unchanged
  | Written
  deriving DecidableEq

/-- The part of `backup_ignores` before it opens a file for writing: the slot to
open and the image to write, or the result to return at once. -/
def prepare (hmac : Hmac) (key base : Bytes) (faults : Slot → ReadFault) (list : IgnoreList)
    (card : Card) : Except BackupResult (Slot × Bytes) :=
  if !keyOk key || !validIgnores list then .error .Failed
  else
    let found := latest hmac key base faults card
    if found.error || (found.slot.isNone && found.existing) ||
        found.generation == 0xffffffffffffffff then .error .Failed
    else if found.slot.isSome && found.out == list then .error .Unchanged
    else
      let bytes := magic ++ contents.write (found.generation + 1, list)
      match hmac key bytes with
      | none => .error .Failed
      | some mac =>
        let slot := if found.slot == some 0 then 1 else 0
        if (path base slot).isNone then .error .Failed else .ok (slot, bytes ++ mac.toList)

/-- What the calls of the write report, and what they leave. A failed `fopen` may
have emptied the file; otherwise `kept` bytes of the image reach it unless
every step succeeds. -/
structure WriteFault where
  opened : Bool := true
  emptied : Bool := false
  kept : Nat := 0
  wrote : Bool := true
  flushed : Bool := true
  synced : Bool := true
  closed : Bool := true

def WriteFault.ok (fault : WriteFault) : Bool :=
  fault.wrote && fault.flushed && fault.synced && fault.closed

def backupIgnores (hmac : Hmac) (key base : Bytes) (reads : Slot → ReadFault) (write : WriteFault)
    (list : IgnoreList) (card : Card) : BackupResult × Card :=
  match prepare hmac key base reads list card with
  | .error result => (result, card)
  | .ok (slot, image) =>
    if !write.opened then
      (.Failed, if write.emptied then Function.update card slot (some []) else card)
    else
      (if write.ok then .Written else .Failed,
        Function.update card slot (some (if write.ok then image else image.take write.kept)))

/-- One call. Where power goes off in its course nobody sees its result. -/
structure Call where
  list : IgnoreList
  reads : Slot → ReadFault := noFaults
  write : WriteFault := {}
  returns : Bool := true

section Runs

variable (hmac : Hmac) (key base : Bytes)

def Call.result (card : Card) (call : Call) : BackupResult :=
  (backupIgnores hmac key base call.reads call.write call.list card).1

def Call.step (card : Card) (call : Call) : Card :=
  (backupIgnores hmac key base call.reads call.write call.list card).2

/-- A card without slot files. -/
def blank : Card := fun _ => none

def run (calls : List Call) : Card := Runs.run (Call.step hmac key base) blank calls

end Runs

end IgnoreBackup

end Hound
