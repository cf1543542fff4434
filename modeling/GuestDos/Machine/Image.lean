/-
# GuestDos.Machine.Image -- contents of a table, as fields at offsets

A table that goes into memory is a list of fields.  Laying it out at a segment stores the fields
in order, so where two fields overlap the later one holds: `Image.byteAt?` is that reading, made
without any memory, and `Memory.byteAt_lay` says that the memory agrees with it.

Init only.
-/
import GuestDos.Machine.Access

namespace GuestDos.Machine

set_option autoImplicit false

/-- Bytes that belong at an offset of a segment. -/
structure Field where
  offset : UInt16
  bytes : List UInt8
deriving DecidableEq, Repr

namespace Field

/-- One byte. -/
def byte (offset : UInt16) (value : UInt8) : Field :=
  ⟨offset, [value]⟩

/-- A word, low byte first. -/
def word (offset value : UInt16) : Field :=
  ⟨offset, LittleEndian.encode 2 value.toNat⟩

/-- A double word, low byte first. -/
def dword (offset : UInt16) (value : UInt32) : Field :=
  ⟨offset, LittleEndian.encode 4 value.toNat⟩

/-- A far pointer, offset first. -/
def pointer (offset : UInt16) (value : FarPointer) : Field :=
  dword offset value.toDword

/-- `count` zero bytes. -/
def zeros (offset : UInt16) (count : Nat) : Field :=
  ⟨offset, List.replicate count 0⟩

/-- ASCII characters, a byte each. -/
def ascii (offset : UInt16) (text : String) : Field :=
  ⟨offset, text.toList.map fun c => UInt8.ofNat c.toNat⟩

/-- The byte that the field holds at offset `k` of its segment. -/
def byteAt? (field : Field) (k : Nat) : Option UInt8 :=
  if field.offset.toNat ≤ k then field.bytes[k - field.offset.toNat]? else none

/-- The offset just past the field. -/
def finish (field : Field) : Nat :=
  field.offset.toNat + field.bytes.length

theorem byteAt?_of_lt {field : Field} {k : Nat} (before : k < field.offset.toNat) :
    field.byteAt? k = none :=
  if_neg (Nat.not_le.2 before)

theorem byteAt?_of_finish_le {field : Field} {k : Nat} (past : field.finish ≤ k) :
    field.byteAt? k = none := by
  unfold byteAt?
  unfold finish at past
  rw [if_pos (by omega)]
  exact List.getElem?_eq_none (by omega)

end Field

/-- The contents of a table: its fields, in the order in which they are stored. -/
abbrev Image := List Field

namespace Image

/-- The byte at offset `k` once every field is stored; the last field that covers it decides. -/
def byteAt? : Image → Nat → Option UInt8
  | [], _ => none
  | field :: rest, k => (byteAt? rest k).or (field.byteAt? k)

/-- Every field ends within `size` bytes of the start of the segment. -/
def FitsIn (image : Image) (size : Nat) : Prop :=
  ∀ field ∈ image, field.finish ≤ size

instance (image : Image) (size : Nat) : Decidable (image.FitsIn size) :=
  inferInstanceAs (Decidable (∀ field ∈ image, _))

end Image

/-- Stores the fields of an image, in order, at their offsets of a segment. -/
def Memory.lay (m : Memory) (segment : UInt16) : Image → Memory
  | [] => m
  | field :: rest =>
      (m.writeBlock (FarPointer.mk segment field.offset).physical field.bytes).lay segment rest

/-- What a laid out image leaves in memory: its own reading where a field covers the byte, and the
byte that was there elsewhere. -/
theorem Memory.byteAt_lay (m : Memory) (segment : UInt16) (image : Image)
    (fits : image.FitsIn 0x10000) (i : Fin memorySize) :
    (m.lay segment image).byteAt i =
      (if 16 * segment.toNat ≤ i then image.byteAt? (i - 16 * segment.toNat) else none).getD
        (m.byteAt i) := by
  induction image generalizing m with
  | nil => simp [lay, Image.byteAt?]
  | cons field rest ih =>
    have first : field.finish ≤ 0x10000 := fits field (List.mem_cons_self ..)
    have others : Image.FitsIn rest 0x10000 := fun f member => fits f (List.mem_cons_of_mem _ member)
    have bound := segment.toNat_lt
    simp only [lay]
    rw [ih _ others, byteAt_writeBlock]
    · rw [FarPointer.toNat_physical]
      by_cases below : 16 * segment.toNat ≤ i
      · simp only [below, if_true, Image.byteAt?, Field.byteAt?]
        cases Image.byteAt? rest (↑i - 16 * segment.toNat) with
        | some b => simp
        | none =>
          by_cases reach : 16 * segment.toNat + field.offset.toNat ≤ i
          · have inner : field.offset.toNat ≤ i - 16 * segment.toNat := by omega
            simp [reach, inner, Nat.sub_sub]
          · have inner : ¬ field.offset.toNat ≤ i - 16 * segment.toNat := by omega
            simp [reach, inner]
      · have outside : ¬ 16 * segment.toNat + field.offset.toNat ≤ i := by omega
        simp [below, outside]
    · rw [FarPointer.toNat_physical]
      unfold Field.finish at first
      simp only [memorySize]
      omega

/-- What storing one field leaves in memory. -/
theorem Memory.byteAt_storeField (m : Memory) (segment : UInt16) (field : Field)
    (fits : field.finish ≤ 0x10000) (i : Fin memorySize) :
    (m.writeBlock (FarPointer.mk segment field.offset).physical field.bytes).byteAt i =
      (if 16 * segment.toNat ≤ i then field.byteAt? (i - 16 * segment.toNat) else none).getD
        (m.byteAt i) := by
  have alone : Image.FitsIn [field] 0x10000 := by
    intro f member
    obtain rfl := List.mem_singleton.1 member
    exact fits
  exact byteAt_lay m segment [field] alone i

end GuestDos.Machine
