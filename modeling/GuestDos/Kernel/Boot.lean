/-
# GuestDos.Kernel.Boot -- laying out the kernel tables

`setupTables` runs once, before any program: it reserves private memory table by table, lays the
tables out, links them to the info block, and installs the case map routine.  Running out of
paragraphs or of callback numbers ends it; what was reserved, written or installed before that
stays (`Boot` keeps the system on failure).

Init only.
-/
import GuestDos.Kernel.Callback
import GuestDos.Kernel.InfoBlock
import GuestDos.Kernel.PrivateMemory
import GuestDos.Kernel.Tables

namespace GuestDos.Kernel

set_option autoImplicit false

open GuestDos.Machine (FarPointer Memory Image)

/-- What booting works on. -/
structure System where
  memory : Memory
  privateMemory : PrivateMemory
  callbacks : CallbackTable

/-- A machine that has just been switched on. -/
def System.fresh : System :=
  ⟨.zero, .fresh, .empty⟩

/-- A step of booting.  A failure keeps the system as it was when it failed. -/
abbrev Boot := EStateM KernelError System

namespace Boot

/-- Hands out paragraphs of private memory. -/
def reserve (paragraphs : UInt16) : Boot UInt16 := fun s =>
  match s.privateMemory.take paragraphs with
  | .ok (segment, rest) => .ok segment { s with privateMemory := rest }
  | .error e => .error e s

/-- Changes the memory. -/
def onMemory (change : Memory → Memory) : Boot Unit := fun s =>
  .ok () { s with memory := change s.memory }

/-- Lays a table out at a segment. -/
def lay (segment : UInt16) (image : Image) : Boot Unit :=
  onMemory fun m => m.lay segment image

/-- Hands out a callback number. -/
def allocateCallback : Boot UInt16 := fun s =>
  match s.callbacks.allocate with
  | .ok (number, callbacks) => .ok number { s with callbacks }
  | .error e => .error e s

/-- Installs a routine and writes its stub. -/
def installCallback (number : UInt16) (routine : Routine) : Boot FarPointer := fun s =>
  match s.callbacks.install number routine s.memory with
  | .ok (entry, callbacks, memory) => .ok entry { s with callbacks, memory }
  | .error e => .error e s

end Boot

/-- The routine that programs find in the country information; it changes nothing. -/
def caseMapRoutine : Routine :=
  ⟨"DOS CaseMap", fun m => (.resume, m)⟩

/-- Where the kernel tables are. -/
structure KernelTables where
  infoBlock : InfoBlock
  mediaIds : FarPointer
  transferArea : FarPointer
  deletionTransferArea : FarPointer
  leadBytes : FarPointer
  fileNameChars : FarPointer
  collation : FarPointer
  upperCase : FarPointer
  fileTable : FarPointer
  driveParameters : UInt16
  devicePacket : UInt16
  diskBuffer : FarPointer
  country : UInt16
  caseMap : FarPointer
  longNameArea : UInt16
  /-- The segments of the Japanese console driver and start-up information. -/
  japanese : Option (UInt16 × UInt16)
deriving DecidableEq, Repr

open Boot

/-- Lays out what only the Japanese models have: the console driver in front of the plain one, and
the start-up information. -/
def setupJapanese (block : InfoBlock) : Boot (UInt16 × UInt16) := do
  let driver ← reserve Tables.ibmAdspParagraphs
  lay driver Tables.ibmAdsp
  let startup ← reserve Tables.startupInfoParagraphs
  lay startup (Tables.startupInfo startup)
  onMemory (block.setPointer .deviceChain (.ofSegment driver))
  pure (driver, startup)

/-- Lays the kernel tables out. -/
def setupTables (config : Config) : Boot KernelTables := do
  let mediaIds ← reserve Tables.mediaIdParagraphs
  let transferArea ← reserve Tables.transferAreaParagraphs
  let deletionTransferArea ← reserve Tables.transferAreaParagraphs
  lay mediaIds Tables.mediaIds

  let block : InfoBlock := ⟨Layout.infoBlockSegment⟩
  onMemory block.place
  onMemory (initSwappableArea Layout.swappableArea)
  lay Layout.consoleNamesSegment Tables.consoleNames
  let japanese ←
    if config.model.isJapanese then some <$> setupJapanese block else pure none
  lay Layout.consoleDriverSegment Tables.consoleDriver
  if !config.model.isJapanese then
    onMemory (block.setPointer .deviceChain (.ofSegment Layout.consoleDriverSegment))
  lay Layout.currentDirectorySegment Tables.currentDirectory
  onMemory (block.setPointer .currentDirectory (.ofSegment Layout.currentDirectorySegment))
  lay Layout.leadByteTable.segment <|
    if config.setAx || config.model.isJapanese then Tables.leadBytes else Tables.noLeadBytes

  let fileNameChars ← reserve Tables.fileNameCharsParagraphs
  lay fileNameChars Tables.fileNameChars
  let collation ← reserve Tables.collationParagraphs
  lay collation Tables.collation
  let fileTable ← reserve Tables.fileTableParagraphs
  lay fileTable Tables.fileTable
  onMemory (block.setPointer .fcbTable (.ofSegment fileTable))
  let driveParameters ← reserve Tables.driveParametersParagraphs
  lay driveParameters Tables.driveParameters
  let devicePacket ← reserve Tables.devicePacketParagraphs
  let diskBuffer ← reserve Tables.diskBufferParagraphs
  lay diskBuffer Tables.diskBuffer
  onMemory (block.setPointer .diskBufferHead (.ofSegment diskBuffer))
  onMemory (block.setBuffers Tables.bufferCount Tables.bufferCount)

  let number ← allocateCallback
  let caseMap ← installCallback number caseMapRoutine
  let country ← reserve Tables.countryParagraphs
  lay country (Tables.country config caseMap)
  let longNameArea ← reserve Tables.longNameAreaParagraphs
  pure {
    infoBlock := block
    mediaIds := .ofSegment mediaIds
    transferArea := .ofSegment transferArea
    deletionTransferArea := .ofSegment deletionTransferArea
    leadBytes := Layout.leadByteTable
    fileNameChars := .ofSegment fileNameChars
    collation := .ofSegment collation
    upperCase := (FarPointer.ofSegment collation).advance Tables.upperCaseOffset
    fileTable := .ofSegment fileTable
    driveParameters, devicePacket
    diskBuffer := .ofSegment diskBuffer
    country, caseMap, longNameArea, japanese }

end GuestDos.Kernel
