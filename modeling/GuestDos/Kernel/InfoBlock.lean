/-
# GuestDos.Kernel.InfoBlock -- the list of lists and the swappable data area

The info block is known to programs by the list of lists pointer into it.  `bootImage` is what a
freshly booted system reports; five fields are filled in later: four far pointers and the pair of
buffer counts.

* `InfoBlock.place` -- lays the boot image at a segment.
* `PointerField` -- the four far pointers, with `setPointer` and `pointer`.
* `setBuffers`, `buffers` -- the buffer counts.
* `initSwappableArea` -- the fields of the swappable data area that are read before any program runs.

Init only.
-/
import GuestDos.Machine.Image
import GuestDos.Kernel.Layout

namespace GuestDos.Kernel

set_option autoImplicit false

open GuestDos.Machine (FarPointer Memory Image Field)

/-- An info block is known by its segment. -/
structure InfoBlock where
  segment : UInt16
deriving DecidableEq, Repr

namespace InfoBlock

/-- The far pointers of the block that are filled in after it has been placed. -/
inductive PointerField where
  /-- The next driver of the NUL device header, which heads the driver chain. -/
  | deviceChain
  /-- The current directory structure. -/
  | currentDirectory
  /-- The table of file control blocks. -/
  | fcbTable
  /-- The head of the disk buffer chain. -/
  | diskBufferHead
deriving DecidableEq, Repr

/-- Where a far pointer stands in the block. -/
def PointerField.offset : PointerField → UInt16
  | .deviceChain => 0x48
  | .currentDirectory => 0x3c
  | .fcbTable => 0x40
  | .diskBufferHead => 0x6d

/-- The size of the block in bytes. -/
def size : Nat := 0x90

/-- The list of lists pointer points here. -/
def listOfListsOffset : UInt16 := 0x26

/-- The two buffer counts. -/
def bufferOffsets : UInt16 × UInt16 := (0x65, 0x67)

/-- The contents of the block in a freshly booted system. -/
def bootImage : Image :=
  [ .zeros 0x00 size,
    .word 0x04 0x0001,                                 -- magic word
    .word 0x10 0x00ff,                                 -- FCB caching: count
    .word 0x12 0x00ff,                                 -- FCB caching: opens
    .word 0x1a 1,                                      -- sharing: retries
    .word 0x1c 1,                                      -- sharing: delay
    .dword 0x1e 0,                                     -- current disk buffer
    .word 0x22 0,                                      -- unread console input
    .word 0x24 Layout.firstControlBlock,
    .dword listOfListsOffset 0,                        -- first drive parameter block
    .dword 0x2a 0,                                     -- first file table
    .dword 0x2e 0,                                     -- active CLOCK$
    .dword 0x32 0,                                     -- active CON
    .word 0x36 0x200,                                  -- largest sector
    .dword 0x38 0,                                     -- disk buffer information
    .dword PointerField.currentDirectory.offset 0,
    .dword PointerField.fcbTable.offset 0,
    .word 0x44 0,                                      -- protected FCBs
    .byte 0x46 0,                                      -- block devices
    .byte 0x47 (UInt8.ofNat Layout.driveCount),        -- last drive
    .dword PointerField.deviceChain.offset 0xffffffff,
    .word 0x4c 0x8004,                                 -- NUL: attributes
    .dword 0x4e 0,                                     -- NUL: strategy
    .ascii 0x52 "NUL     ",
    .byte 0x5a 0,                                      -- joined drives
    .word 0x5b 0,                                      -- special code segment
    .dword 0x5d 0,                                     -- SETVER list
    .word 0x61 0,                                      -- A20 fix
    .word 0x63 0,                                      -- last program in high memory
    .word bufferOffsets.1 0,
    .word bufferOffsets.2 0,
    .byte 0x69 3,                                      -- boot drive C:
    .byte 0x6a 1,                                      -- double word moves
    .word 0x6b 0,                                      -- extended memory
    .dword PointerField.diskBufferHead.offset 0,
    .word 0x71 0,                                      -- dirty disk buffers
    .dword 0x73 0,                                     -- look-ahead buffers
    .word 0x77 0,                                      -- number of look-ahead buffers
    .byte 0x79 0,                                      -- buffer location
    .dword 0x7a 0,                                     -- working buffer
    .word 0x7e 0,                                      -- least memory for a program
    .word 0x80 Layout.firstControlBlock,               -- allocation scan start
    .word 0x82 0xffff,                                 -- upper memory chain
    .byte 0x84 0 ]                                     -- upper memory linked

/-- Places a block at a segment with the contents of a freshly booted system. -/
def place (block : InfoBlock) (m : Memory) : Memory :=
  m.lay block.segment bootImage

/-- The start of the block. -/
def location (block : InfoBlock) : FarPointer :=
  FarPointer.ofSegment block.segment

/-- The pointer into the block by which programs know it. -/
def listOfLists (block : InfoBlock) : FarPointer :=
  ⟨block.segment, listOfListsOffset⟩

/-- Where a far pointer of the block is stored. -/
def slot (block : InfoBlock) (field : PointerField) : FarPointer :=
  ⟨block.segment, field.offset⟩

/-- Fills a far pointer of the block in. -/
def setPointer (block : InfoBlock) (field : PointerField) (value : FarPointer) (m : Memory) :
    Memory :=
  m.writePointer (block.slot field) value

/-- Reads a far pointer of the block. -/
def pointer (block : InfoBlock) (field : PointerField) (m : Memory) : FarPointer :=
  m.readPointer (block.slot field)

/-- Fills the two buffer counts in. -/
def setBuffers (block : InfoBlock) (x y : UInt16) (m : Memory) : Memory :=
  (m.writeWord ⟨block.segment, bufferOffsets.1⟩ x).writeWord ⟨block.segment, bufferOffsets.2⟩ y

/-- Reads the two buffer counts. -/
def buffers (block : InfoBlock) (m : Memory) : UInt16 × UInt16 :=
  (m.readWord ⟨block.segment, bufferOffsets.1⟩, m.readWord ⟨block.segment, bufferOffsets.2⟩)

/-- The boot image stays within the block. -/
theorem bootImage_fitsIn : bootImage.FitsIn size := by decide +kernel

end InfoBlock

/-- The size of the part of the swappable data area that is read before any program runs. -/
def swappableAreaSize : Nat := 0x1a

/-- Clears the swappable data area and marks that no drive has had a critical error. -/
def initSwappableArea (location : FarPointer) (m : Memory) : Memory :=
  (m.fill location.physical 0 swappableAreaSize).writeByte (location.advance 2) 0xff

end GuestDos.Kernel
