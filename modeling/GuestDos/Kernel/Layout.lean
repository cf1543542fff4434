/-
# GuestDos.Kernel.Layout -- the fixed places of the kernel structures

Segments below the first memory control block, and the range from which the internal tables are
carved.

Init only.
-/
import GuestDos.Machine.FarPointer

namespace GuestDos.Kernel.Layout

set_option autoImplicit false

open GuestDos.Machine (FarPointer)

/-- The info block. -/
def infoBlockSegment : UInt16 := 0x80
/-- The header of the console driver. -/
def consoleDriverSegment : UInt16 := 0xa0
/-- Names that programs look for to count open files. -/
def consoleNamesSegment : UInt16 := 0xa8
/-- The swappable data area. -/
def swappableAreaSegment : UInt16 := 0xb2
/-- The current directory structure. -/
def currentDirectorySegment : UInt16 := 0x108

/-- The first memory control block. -/
def firstControlBlock : UInt16 := 0x158

/-- Internal tables live from here up to `privateLimit`. -/
def privateStart : UInt16 := 0xc800
/-- The end of the internal tables. -/
def privateLimit : UInt16 := 0xd000

/-- Drives A to Z. -/
def driveCount : Nat := 26

/-- The start of the swappable data area. -/
def swappableArea : FarPointer :=
  FarPointer.ofSegment swappableAreaSegment

/-- The lead byte table sits in the paragraph just under the first memory control block: Windows
3.1 falls back to English mode if it is any higher. -/
def leadByteTable : FarPointer :=
  FarPointer.ofSegment (firstControlBlock - 1)

end GuestDos.Kernel.Layout
