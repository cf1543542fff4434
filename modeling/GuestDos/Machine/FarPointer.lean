/-
# GuestDos.Machine.FarPointer -- real mode segment:offset pairs

A far pointer names the byte `16 * segment + offset`.  In memory it is a double word with the
segment in the high half.

* `ofDword_toDword`, `toDword_ofDword` -- a far pointer and its double word determine each other.
* `physical_lt` -- no far pointer reaches the last 16 bytes of the address space.

Init only besides the text of a pointer.
-/
import GuestDos.Text

namespace GuestDos.Machine

set_option autoImplicit false

/-- A real mode segment:offset pair. -/
@[ext] structure FarPointer where
  segment : UInt16
  offset : UInt16
deriving DecidableEq, Repr

namespace FarPointer

/-- The first byte of a segment. -/
def ofSegment (segment : UInt16) : FarPointer :=
  ⟨segment, 0⟩

/-- Unpacks a double word whose high half is the segment. -/
def ofDword (value : UInt32) : FarPointer :=
  ⟨(value / 65536).toUInt16, value.toUInt16⟩

/-- Packs the segment into the high half of a double word. -/
def toDword (p : FarPointer) : UInt32 :=
  p.segment.toUInt32 * 65536 + p.offset.toUInt32

/-- The address of the byte that the pointer names. -/
def physical (p : FarPointer) : UInt32 :=
  p.segment.toUInt32 * 16 + p.offset.toUInt32

/-- Moves the offset forward; like the 16 bit register it stays within the segment. -/
def advance (p : FarPointer) (bytes : UInt16) : FarPointer :=
  ⟨p.segment, p.offset + bytes⟩

/-- Four hexadecimal digits, a colon, and four more. -/
def text (p : FarPointer) : String :=
  String.ofList (Text.hex 4 p.segment.toNat ++ ':' :: Text.hex 4 p.offset.toNat)

theorem toNat_physical (p : FarPointer) :
    p.physical.toNat = 16 * p.segment.toNat + p.offset.toNat := by
  have segmentBound := p.segment.toNat_lt
  have offsetBound := p.offset.toNat_lt
  simp only [physical, UInt32.toNat_add, UInt32.toNat_mul, UInt16.toNat_toUInt32,
    UInt32.reduceToNat]
  omega

theorem physical_lt (p : FarPointer) : p.physical.toNat + 16 < 0x110000 := by
  have segmentBound := p.segment.toNat_lt
  have offsetBound := p.offset.toNat_lt
  rw [toNat_physical]
  omega

theorem toNat_toDword (p : FarPointer) :
    p.toDword.toNat = 65536 * p.segment.toNat + p.offset.toNat := by
  have segmentBound := p.segment.toNat_lt
  have offsetBound := p.offset.toNat_lt
  simp only [toDword, UInt32.toNat_add, UInt32.toNat_mul, UInt16.toNat_toUInt32,
    UInt32.reduceToNat]
  omega

@[simp] theorem ofDword_toDword (p : FarPointer) : ofDword p.toDword = p := by
  have segmentBound := p.segment.toNat_lt
  have offsetBound := p.offset.toNat_lt
  have packed := p.toNat_toDword
  apply FarPointer.ext <;> apply UInt16.toNat_inj.1
  · simp only [ofDword, UInt32.toNat_toUInt16, UInt32.toNat_div, UInt32.reduceToNat]
    omega
  · simp only [ofDword, UInt32.toNat_toUInt16]
    omega

@[simp] theorem toDword_ofDword (value : UInt32) : (ofDword value).toDword = value := by
  have bound := value.toNat_lt
  apply UInt32.toNat_inj.1
  rw [toNat_toDword]
  simp only [ofDword, UInt32.toNat_toUInt16, UInt32.toNat_div, UInt32.reduceToNat]
  omega

end FarPointer

end GuestDos.Machine
