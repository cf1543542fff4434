/-
# GuestDos.Proofs.Kernel.Readings -- the images, read as bytes

What the images of the kernel tables say, stretch by stretch, as the bytes that a program finds.
A stretch without anything that varies is computed; a far pointer, a code page or a segment is
read off the one field that holds it.

* `infoBlockStretches`, `countryBytes`, `startupInfoBytes` -- the tables that are linked to others.
* `infoBlock_reads`, `link_reads`, `country_reads`, `startupInfo_reads`.
-/
import GuestDos.Proofs.Kernel.Contents

namespace GuestDos.Kernel

set_option autoImplicit false

open GuestDos.Machine (FarPointer Field Image)
open GuestDos.Machine.LittleEndian (encode)

/-! ## The info block -/

/-- What stands between the far pointers of the info block. -/
def infoBlockStretches : List (UInt16 × List UInt8) :=
  [ (0x00, [
      0x00, 0x00, 0x00, 0x00, 0x01, 0x00, 0x00, 0x00, 0x00, 0x00, 0x00, 0x00, 0x00, 0x00, 0x00, 0x00,
      0xff, 0x00, 0xff, 0x00, 0x00, 0x00, 0x00, 0x00, 0x00, 0x00, 0x01, 0x00, 0x01, 0x00, 0x00, 0x00,
      0x00, 0x00, 0x00, 0x00, 0x58, 0x01, 0x00, 0x00, 0x00, 0x00, 0x00, 0x00, 0x00, 0x00, 0x00, 0x00,
      0x00, 0x00, 0x00, 0x00, 0x00, 0x00, 0x00, 0x02, 0x00, 0x00, 0x00, 0x00 ]),
    (0x44, [0x00, 0x00, 0x00, 0x1a]),
    (0x4c, [
      0x04, 0x80, 0x00, 0x00, 0x00, 0x00, 0x4e, 0x55, 0x4c, 0x20, 0x20, 0x20, 0x20, 0x20, 0x00, 0x00,
      0x00, 0x00, 0x00, 0x00, 0x00, 0x00, 0x00, 0x00, 0x00, 0x32, 0x00, 0x32, 0x00, 0x03, 0x01, 0x00,
      0x00 ]),
    (0x71, [
      0x00, 0x00, 0x00, 0x00, 0x00, 0x00, 0x00, 0x00, 0x00, 0x00, 0x00, 0x00, 0x00, 0x00, 0x00, 0x58,
      0x01, 0xff, 0xff, 0x00, 0x00, 0x00, 0x00, 0x00, 0x00, 0x00, 0x00, 0x00, 0x00, 0x00, 0x00 ]) ]

theorem infoBlock_reads (site : Site) :
    ∀ stretch ∈ infoBlockStretches,
      (site.image .infoBlock).Reads stretch.1.toNat stretch.2 := by
  have counts : ∀ stretch ∈ infoBlockStretches,
      (InfoBlock.bootImage ++
        [ .word InfoBlock.bufferOffsets.1 Tables.bufferCount,
          .word InfoBlock.bufferOffsets.2 Tables.bufferCount ] : Image).Reads
        stretch.1.toNat stretch.2 := by
    decide +kernel
  intro stretch member
  refine Image.reads_append_congr ?_ (counts stretch member)
  simp only [infoBlockStretches, List.mem_cons, List.not_mem_nil, or_false] at member
  obtain rfl | rfl | rfl | rfl := member <;>
    simp [Site.links, Field.meets, Field.finish, Field.pointer, Field.dword, Field.word,
      InfoBlock.PointerField.offset, InfoBlock.bufferOffsets]

theorem link_reads (site : Site) (field : InfoBlock.PointerField) :
    (site.image .infoBlock).Reads field.offset.toNat
      (encode 4 (site.linked field).toDword.toNat) := by
  apply Image.reads_append_field (Field.pointer field.offset (site.linked field))
  cases field <;> rfl

/-! ## The country information -/

/-- Version, size and country. -/
def countryHead (model : MachineModel) : List UInt8 :=
  [0x01, 0x26, 0x00, if model.isAxFamily then 81 else 1, 0x00]

/-- Date, currency, separators and clock. -/
def countryFormats (model : MachineModel) : List UInt8 :=
  let ax := model.isAxFamily
  [ if ax then 0x02 else 0x00, 0x00,
    if ax then 0x5c else 0x24, 0x00, 0x00, 0x00, 0x00,
    0x2c, 0x00, 0x2e, 0x00, 0x2d, 0x00, 0x3a, 0x00, 0x00,
    if ax then 0x00 else 0x02,
    if ax then 0x01 else 0x00 ]

/-- List separator. -/
def countryTail : List UInt8 :=
  [0x2c, 0x00, 0x00, 0x00, 0x00, 0x00, 0x00, 0x00, 0x00, 0x00, 0x00, 0x00]

/-- The country information for programs. -/
def countryBytes (config : Config) (caseMap : FarPointer) : List UInt8 :=
  countryHead config.model ++ encode 2 config.codePage.toNat ++ countryFormats config.model
    ++ encode 4 caseMap.toDword.toNat ++ countryTail

theorem country_reads (config : Config) (caseMap : FarPointer) :
    (Tables.country config caseMap).Reads 0 (countryBytes config caseMap) := by
  obtain ⟨model, setAx, codePage⟩ := config
  have fixed : (Tables.country ⟨model, false, 0⟩ ⟨0, 0⟩).Reads 0 (countryHead model) ∧
      (Tables.country ⟨model, false, 0⟩ ⟨0, 0⟩).Reads 0x07 (countryFormats model) ∧
      (Tables.country ⟨model, false, 0⟩ ⟨0, 0⟩).Reads 0x1d countryTail := by
    cases model <;> decide +kernel
  obtain ⟨head, formats, tail⟩ := fixed
  unfold countryBytes
  rw [Image.reads_append, Image.reads_append, Image.reads_append, Image.reads_append]
  refine ⟨⟨⟨⟨Image.reads_congr ?_ head, Image.reads_field (.word 0x05 codePage) ?_⟩,
    Image.reads_congr ?_ formats⟩, Image.reads_field (.pointer 0x19 caseMap) ?_⟩,
    Image.reads_congr ?_ tail⟩
  all_goals
    cases model <;>
      simp [Tables.country, Tables.axCountryFields, MachineModel.isAxFamily, countryHead,
        countryFormats, countryTail, Field.meets, Field.finish, Field.pointer, Field.dword,
        Field.word, Field.byte]

/-! ## The start-up information -/

/-- Version and the links of the start-up information, up to its instance data record. -/
def startupInfoHead : List UInt8 :=
  [0x03, 0x00, 0x00, 0x00, 0x00, 0x00, 0x00, 0x00, 0x00, 0x00, 0x00, 0x00, 0x00, 0x00, 0x12, 0x00]

/-- The size of the instance data, and the end of the table. -/
def startupInfoTail : List UInt8 :=
  [0x04, 0x00, 0x00, 0x00, 0x00, 0x00, 0x00, 0x00, 0x00, 0x00]

/-- The start-up information of Japanese Windows in a segment. -/
def startupInfoBytes (segment : UInt16) : List UInt8 :=
  startupInfoHead ++ encode 2 segment.toNat ++ [0x1c, 0x00] ++ encode 2 segment.toNat
    ++ startupInfoTail

theorem startupInfo_reads (segment : UInt16) :
    (Tables.startupInfo segment).Reads 0 (startupInfoBytes segment) := by
  have fixed : (Tables.startupInfo 0).Reads 0 startupInfoHead ∧
      (Tables.startupInfo 0).Reads 0x12 [0x1c, 0x00] ∧
      (Tables.startupInfo 0).Reads 0x16 startupInfoTail := by
    decide +kernel
  obtain ⟨head, data, tail⟩ := fixed
  unfold startupInfoBytes
  rw [Image.reads_append, Image.reads_append, Image.reads_append, Image.reads_append]
  refine ⟨⟨⟨⟨Image.reads_congr ?_ head, Image.reads_field (.word 0x10 segment) ?_⟩,
    Image.reads_congr ?_ data⟩, Image.reads_field (.word 0x14 segment) ?_⟩,
    Image.reads_congr ?_ tail⟩
  all_goals
    simp [Tables.startupInfo, startupInfoHead, startupInfoTail, Field.meets, Field.finish,
      Field.dword, Field.word]

/-! ## The collating and the upper case table -/

/-- The collating table: its size, then every byte. -/
def collatingBytes : List UInt8 :=
  [0x00, 0x01] ++ (List.range 0x100).map UInt8.ofNat

/-- The upper case table: its size, then the bytes of the upper half. -/
def upperCaseBytes : List UInt8 :=
  [0x80, 0x00] ++ (List.range 0x80).map fun i => UInt8.ofNat (0x80 + i)

theorem collation_reads :
    Tables.collation.Reads 0 collatingBytes ∧
      Tables.collation.Reads Tables.upperCaseOffset.toNat upperCaseBytes := by
  have all : ((List.range 0x100).map UInt8.ofNat).length = 0x100 := by
    rw [List.length_map, List.length_range]
  have upper : ((List.range 0x80).map fun i => UInt8.ofNat (0x80 + i)).length = 0x80 := by
    rw [List.length_map, List.length_range]
  unfold collatingBytes upperCaseBytes Tables.collation
  -- Only the lengths decide which fields meet.
  generalize (List.range 0x100).map UInt8.ofNat = allBytes at all
  generalize ((List.range 0x80).map fun i => UInt8.ofNat (0x80 + i)) = upperBytes at upper
  rw [Image.reads_append, Image.reads_append]
  refine ⟨⟨Image.reads_field (.word 0 0x100) ?_, Image.reads_field ⟨2, allBytes⟩ ?_⟩,
    Image.reads_field (.word Tables.upperCaseOffset 0x80) ?_,
    Image.reads_field ⟨Tables.upperCaseOffset + 2, upperBytes⟩ ?_⟩
  all_goals
    simp [Tables.upperCaseOffset, Field.meets, Field.finish, Field.word, all, upper]

end GuestDos.Kernel
