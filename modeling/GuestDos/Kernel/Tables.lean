/-
# GuestDos.Kernel.Tables -- the contents of the kernel tables

One image per table, at the offsets of its own segment, and the number of paragraphs that each
private table asks for.  Only the segments that a table mentions, the code page and the country
vary.

Init only.
-/
import GuestDos.Machine.Image
import GuestDos.Kernel.Layout
import GuestDos.Kernel.Model

namespace GuestDos.Kernel.Tables

set_option autoImplicit false

open GuestDos.Machine (FarPointer Field Image)

/-! ## Fixed places -/

/-- Programs look for these to detect room for more than 20 open files. -/
def consoleNames : Image :=
  [.ascii 0x0a "CON ", .ascii 0x1a "CON ", .ascii 0x2a "CON "]

/-- The header of the console driver. -/
def consoleDriver : Image :=
  [ .dword 0x00 0xffffffff,        -- next driver
    .word 0x04 0x8013,             -- attributes
    .dword 0x06 0xffffffff,        -- strategy routine
    .ascii 0x0a "CON     " ]

/-- The current directory of the boot drive. -/
def currentDirectory : Image :=
  [⟨0, [0x43, 0x3a, 0x5c, 0x00]⟩]

/-- The size of the lead byte table and the ranges of Shift-JIS lead bytes, ended by zeros. -/
def leadBytes : Image :=
  [.word 0 6, ⟨2, [0x81, 0x9f, 0xe0, 0xfc, 0x00, 0x00]⟩]

/-- A lead byte table without lead bytes. -/
def noLeadBytes : Image :=
  [.dword 0 0]

/-! ## Private tables -/

/-- Room for the media id words. -/
def mediaIdParagraphs : UInt16 := 4

/-- A word for each drive, none of them known yet. -/
def mediaIds : Image :=
  [.zeros 0 (2 * Layout.driveCount)]

/-- Room for a temporary disk transfer area. -/
def transferAreaParagraphs : UInt16 := 4

/-- Room for the Japanese console driver. -/
def ibmAdspParagraphs : UInt16 := 2

/-- The console driver that the Japanese systems chain in front of the plain one. -/
def ibmAdsp : Image :=
  [ .word 0x00 0x0000,                                        -- next driver
    .word 0x02 Layout.consoleDriverSegment,
    .word 0x04 0xc000,                                        -- attributes
    .word 0x06 0x0018,                                        -- strategy routine
    .word 0x08 0x001e,                                        -- interrupt routine
    .ascii 0x0a "$IBMADSP",
    ⟨0x18, [0x26, 0x81, 0x4f, 0x03, 0x00, 0x01]⟩,             -- or word ptr es:[bx+03],0100h
    .byte 0x1e 0xcb ]                                         -- far return

/-- Room for the start-up information. -/
def startupInfoParagraphs : UInt16 := 2

/-- The start-up information without which Japanese Windows 3.1 does not enter enhanced mode.  Its
instance data record names its own segment. -/
def startupInfo (segment : UInt16) : Image :=
  [ .word 0x00 0x03,               -- version, major
    .word 0x01 0x00,               -- version, minor
    .dword 0x02 0,                 -- next start-up information
    .dword 0x06 0,                 -- virtual device name
    .dword 0x0a 0,                 -- virtual device reference data
    .word 0x0e 0x0012,             -- instance data record
    .word 0x10 segment,
    .word 0x12 0x001c,             -- instance data
    .word 0x14 segment,
    .word 0x16 0x0004,             -- instance data size
    .dword 0x18 0,                 -- end of the instance table
    .dword 0x1c 0 ]

/-- Room for the file name characters. -/
def fileNameCharsParagraphs : UInt16 := 2

/-- Characters that end a file name. -/
def fileNameSeparators : List UInt8 :=
  [0x2e, 0x22, 0x2f, 0x5c, 0x5b, 0x5d, 0x3a, 0x7c, 0x3c, 0x3e, 0x2b, 0x3d, 0x3b, 0x2c]

/-- The permitted range, the excluded range, and the separators of file names. -/
def fileNameChars : Image :=
  [ .word 0x00 0x16,
    ⟨0x02, [0x01, 0x00, 0xff, 0x00, 0x00, 0x20, 0x02, UInt8.ofNat fileNameSeparators.length]⟩,
    ⟨0x0a, fileNameSeparators⟩ ]

/-- Room for the collating and the upper case table. -/
def collationParagraphs : UInt16 := 25

/-- The upper case table follows the collating table in the same paragraphs. -/
def upperCaseOffset : UInt16 := 2 + 0x100

/-- Every character collates as itself, and every upper half character is its own upper case. -/
def collation : Image :=
  [ .word 0 0x100,
    ⟨2, (List.range 0x100).map UInt8.ofNat⟩,
    .word upperCaseOffset 0x80,
    ⟨upperCaseOffset + 2, (List.range 0x80).map fun i => UInt8.ofNat (0x80 + i)⟩ ]

/-- Room for the file table. -/
def fileTableParagraphs : UInt16 := 4

/-- The last file table, with room for 100 file control blocks. -/
def fileTable : Image :=
  [.dword 0 0xffffffff, .word 4 100]

/-- Room for the drive parameter blocks. -/
def driveParametersParagraphs : UInt16 := 2

/-- The parameter block of a drive just carries its number. -/
def driveParameters : Image :=
  [⟨0, (List.range Layout.driveCount).map UInt8.ofNat⟩]

/-- Room for the device request packet, which stays as it is. -/
def devicePacketParagraphs : UInt16 := 3

/-- Room for the disk buffer. -/
def diskBufferParagraphs : UInt16 := 6

/-- One disk buffer that is not in use. -/
def diskBuffer : Image :=
  [ .zeros 0x00 0x20,
    .word 0x00 0xffff,             -- forward
    .word 0x02 0xffff,             -- backward
    .byte 0x04 0xff,               -- not in use
    .byte 0x0a 0x01,               -- number of allocation tables
    .dword 0x0d 0xffffffff ]       -- drive parameter block

/-- The number of disk buffers, and of those for looking ahead. -/
def bufferCount : UInt16 := 50

/-- Room for the country information. -/
def countryParagraphs : UInt16 := 3

/-- What the models of the AX family change in the country information. -/
def axCountryFields : Image :=
  [ .word 0x07 2,                  -- year, month, day
    .byte 0x09 0x5c,               -- yen sign
    .byte 0x17 0,                  -- no decimals
    .byte 0x18 1 ]                 -- 24 hour clock

/-- The country information; programs get `caseMap` to call from it. -/
def country (config : Config) (caseMap : FarPointer) : Image :=
  [ ⟨0x07,
      [ 0x00, 0x00,                      -- date format
        0x24, 0x00, 0x00, 0x00, 0x00,    -- currency sign
        0x2c, 0x00,                      -- thousands separator
        0x2e, 0x00,                      -- decimal separator
        0x2d, 0x00,                      -- date separator
        0x3a, 0x00,                      -- time separator
        0x00,                            -- currency format
        0x02,                            -- digits after the decimal separator
        0x00,                            -- time format
        0x00, 0x00, 0x00, 0x00,          -- case map routine
        0x2c, 0x00,                      -- list separator
        0x00, 0x00, 0x00, 0x00, 0x00,
        0x00, 0x00, 0x00, 0x00, 0x00 ]⟩,
    .byte 0x00 1,
    .word 0x01 0x26,                     -- size
    .word 0x03 config.model.countryCode,
    .word 0x05 config.codePage,
    .pointer 0x19 caseMap ]
    ++ if config.model.isAxFamily then axCountryFields else []

/-- Room for the transfer area of long file names, which stays as it is. -/
def longNameAreaParagraphs : UInt16 := 8

/-! ## Each private table stays within its paragraphs -/

theorem mediaIds_fitsIn : mediaIds.FitsIn (16 * mediaIdParagraphs.toNat) := by
  decide +kernel

theorem ibmAdsp_fitsIn : ibmAdsp.FitsIn (16 * ibmAdspParagraphs.toNat) := by
  decide +kernel

theorem startupInfo_fitsIn (segment : UInt16) :
    (startupInfo segment).FitsIn (16 * startupInfoParagraphs.toNat) := by
  intro field member
  simp only [startupInfo, List.mem_cons, List.not_mem_nil, or_false] at member
  rcases member with rfl | rfl | rfl | rfl | rfl | rfl | rfl | rfl | rfl | rfl | rfl | rfl <;>
    simp [Field.finish, Field.word, Field.dword, startupInfoParagraphs]

theorem fileNameChars_fitsIn : fileNameChars.FitsIn (16 * fileNameCharsParagraphs.toNat) := by
  decide +kernel

theorem collation_fitsIn : collation.FitsIn (16 * collationParagraphs.toNat) := by
  decide +kernel

theorem fileTable_fitsIn : fileTable.FitsIn (16 * fileTableParagraphs.toNat) := by
  decide +kernel

theorem driveParameters_fitsIn : driveParameters.FitsIn (16 * driveParametersParagraphs.toNat) := by
  decide +kernel

theorem diskBuffer_fitsIn : diskBuffer.FitsIn (16 * diskBufferParagraphs.toNat) := by
  decide +kernel

theorem country_fitsIn (config : Config) (caseMap : FarPointer) :
    (country config caseMap).FitsIn (16 * countryParagraphs.toNat) := by
  intro field member
  rw [country, List.mem_append] at member
  obtain common | ofAx := member
  · simp only [List.mem_cons, List.not_mem_nil, or_false] at common
    rcases common with rfl | rfl | rfl | rfl | rfl | rfl <;>
      simp [Field.finish, Field.byte, Field.word, Field.pointer, Field.dword, countryParagraphs]
  · have everyField : axCountryFields.FitsIn (16 * countryParagraphs.toNat) := by decide +kernel
    split at ofAx
    · exact everyField field ofAx
    · exact absurd ofAx List.not_mem_nil

end GuestDos.Kernel.Tables
