/-
# GuestDos.CommandLine.Report -- what the commands print

* `entryLine` -- one line of a directory listing: short name, mark of a directory, long name, each
  in its column.
* `directoryReport`, `tablesReport` -- the lines of a command, or the text of its failure.

Init and `Std.Data.TreeMap`.
-/
import GuestDos.CommandLine.Arguments
import GuestDos.Kernel.Boot
import GuestDos.Listing

namespace GuestDos.CommandLine

set_option autoImplicit false

open GuestDos.Host (View)
open GuestDos.Kernel (Config KernelError KernelTables MachineModel System setupTables)
open GuestDos.Listing (Entry Handle ShortNameMode)
open GuestDos.Machine (FarPointer)

/-- Fills a text up with spaces to `width` characters; a longer one stays as it is. -/
def padRight (width : Nat) (text : Text) : Text :=
  text ++ List.replicate (width - text.length) ' '

/-- The width of the column of short names. -/
abbrev shortNameColumn : Nat := 12

/-- The width of the column that marks directories. -/
abbrev markColumn : Nat := 5

/-- What marks an entry that is a directory. -/
def mark (isDirectory : Bool) : Text :=
  if isDirectory then "<DIR>".toList else []

/-- The line of an entry. -/
def entryLine (entry : Entry) : Text :=
  padRight shortNameColumn entry.shortName ++ ' '
    :: padRight markColumn (mark entry.isDirectory) ++ ' ' :: entry.longName

/-- The lines of a directory, or why it could not be opened. -/
def directoryReport (host : View) (path : Text) (codePage : Option UInt16)
    (hostShortNames : Bool) : Except String (List Text) :=
  match Handle.open? host path with
  | .error e =>
      .error ("Error: Couldn't open " ++ String.ofList path ++ "\n\nCaused by:\n    " ++ e.message)
  | .ok handle =>
      let mode := if hostShortNames then ShortNameMode.hostOnly else .synthesize
      let handle := (handle.withCodePage ⟨codePage.getD 437⟩).withMode mode
      .ok ((handle.readRest host).1.map entryLine)

/-- The lines that say where the kernel tables are. -/
def tableLines (tables : KernelTables) : List String :=
  let line (label : String) (p : FarPointer) : String :=
    String.ofList (padRight 17 label.toList) ++ p.text
  let segmentLine (label : String) (segment : UInt16) : String := line label (.ofSegment segment)
  [ line "list of lists" tables.infoBlock.listOfLists,
    line "media id" tables.mediaIds,
    line "temp DTA" tables.transferArea,
    line "FCB delete DTA" tables.deletionTransferArea,
    line "DBCS table" tables.leadBytes,
    line "file name chars" tables.fileNameChars,
    line "collating seq" tables.collation,
    line "upper case" tables.upperCase,
    line "FCB SFT" tables.fileTable,
    segmentLine "DPB" tables.driveParameters,
    segmentLine "device packet" tables.devicePacket,
    line "disk buffer" tables.diskBuffer,
    segmentLine "country info" tables.country,
    line "case map" tables.caseMap,
    segmentLine "LFN DTA" tables.longNameArea ]
    ++ match tables.japanese with
      | none => []
      | some (driver, startup) =>
          [segmentLine "$IBMADSP" driver, segmentLine "Win startup info" startup]

/-- The text shown when the tables cannot be built. -/
def tablesFailure : KernelError → String
  | e@(.outOfTableMemory ..) => e.message
  | e => "Error: " ++ e.message

/-- The lines of the kernel tables of a fresh machine, or why they could not be built. -/
def tablesReport (model : MachineModel) (codePage : Option UInt16) (setAx : Bool) :
    Except String (List String) :=
  match setupTables ⟨model, setAx, codePage.getD model.defaultCodePage⟩ System.fresh with
  | .ok tables _ => .ok (tableLines tables)
  | .error e _ => .error (tablesFailure e)

end GuestDos.CommandLine
