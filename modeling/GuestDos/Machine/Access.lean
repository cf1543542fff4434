/-
# GuestDos.Machine.Access -- words, double words and far pointers in memory

Every wider access is a block of little-endian bytes, at a 32 bit address or at a far pointer.
A far pointer never reaches the end of memory, so an access through it does not wrap.

Init only.
-/
import GuestDos.Machine.LittleEndian
import GuestDos.Machine.FarPointer
import GuestDos.Machine.Memory

namespace GuestDos.Machine.Memory

set_option autoImplicit false

/-! ## By address -/

/-- The word whose low byte is at an address. -/
def peekWord (m : Memory) (address : UInt32) : UInt16 :=
  UInt16.ofNat (LittleEndian.decode (m.readBlock address 2))

/-- Stores a word, low byte first. -/
def pokeWord (m : Memory) (address : UInt32) (value : UInt16) : Memory :=
  m.writeBlock address (LittleEndian.encode 2 value.toNat)

/-- The double word whose low byte is at an address. -/
def peekDword (m : Memory) (address : UInt32) : UInt32 :=
  UInt32.ofNat (LittleEndian.decode (m.readBlock address 4))

/-- Stores a double word, low byte first. -/
def pokeDword (m : Memory) (address : UInt32) (value : UInt32) : Memory :=
  m.writeBlock address (LittleEndian.encode 4 value.toNat)

/-! ## By segment and offset -/

/-- The byte that a far pointer names. -/
def readByte (m : Memory) (p : FarPointer) : UInt8 :=
  m.peek p.physical

/-- Stores a byte where a far pointer points. -/
def writeByte (m : Memory) (p : FarPointer) (value : UInt8) : Memory :=
  m.poke p.physical value

/-- The word that starts where a far pointer points. -/
def readWord (m : Memory) (p : FarPointer) : UInt16 :=
  m.peekWord p.physical

/-- Stores a word where a far pointer points. -/
def writeWord (m : Memory) (p : FarPointer) (value : UInt16) : Memory :=
  m.pokeWord p.physical value

/-- The double word that starts where a far pointer points. -/
def readDword (m : Memory) (p : FarPointer) : UInt32 :=
  m.peekDword p.physical

/-- Stores a double word where a far pointer points. -/
def writeDword (m : Memory) (p : FarPointer) (value : UInt32) : Memory :=
  m.pokeDword p.physical value

/-- The far pointer stored at `p`. -/
def readPointer (m : Memory) (p : FarPointer) : FarPointer :=
  FarPointer.ofDword (m.readDword p)

/-- Stores a far pointer at `p`, offset first. -/
def writePointer (m : Memory) (p value : FarPointer) : Memory :=
  m.writeDword p value.toDword

end GuestDos.Machine.Memory
