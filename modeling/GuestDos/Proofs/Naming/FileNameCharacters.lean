/-
# GuestDos.Proofs.Naming.FileNameCharacters -- short names beside the characters that the guest is told

Programs find in the kernel tables which characters a file name cannot have: those of an excluded
range, and those that end a name.  Short names are made by two lists of their own, which do not say
the same.  The legality check lets a backslash and square brackets through, so that a host name keeps
them if it keeps itself; the conversion replaces the brackets, and lets a backslash through.

* `FileNameChars` -- the table as programs read it; `read_booted` for every machine that boots.
* `bars_iff_of_legal` -- what the table has and the legality check has not.
* `Origin.mark` -- which of these characters a short name can have, and by which way.
* `assign_respects_iff` -- which short names respect the table.
* `unreplaced_marks_barred` -- two that do not, one for each way.
-/
import GuestDos.Proofs.Kernel.Booted
import GuestDos.Proofs.Machine.Accesses
import GuestDos.Proofs.Naming.DosFiles
import GuestDos.Proofs.Naming.Legality

namespace GuestDos.Naming

set_option autoImplicit false

open GuestDos.Machine (FarPointer Memory)
open GuestDos.Kernel

/-! ## The table, as programs read it -/

/-- What programs are told about the characters of file names. -/
structure FileNameChars where
  firstExcluded : UInt8
  lastExcluded : UInt8
  separators : List UInt8
deriving DecidableEq, Repr

namespace FileNameChars

/-- The excluded range is at offset 6, and the separators follow their count at offset 9. -/
def read (m : Memory) (table : FarPointer) : FileNameChars where
  firstExcluded := m.readByte (table.advance 6)
  lastExcluded := m.readByte (table.advance 7)
  separators := m.readBlock (table.advance 10).physical (m.readByte (table.advance 9)).toNat

/-- A character of the excluded range, or one that ends a file name. -/
def Bars (chars : FileNameChars) (c : Char) : Prop :=
  (chars.firstExcluded.toNat ≤ c.toNat ∧ c.toNat ≤ chars.lastExcluded.toNat) ∨
    c.toNat ∈ chars.separators.map UInt8.toNat

instance (chars : FileNameChars) (c : Char) : Decidable (chars.Bars c) :=
  inferInstanceAs (Decidable (_ ∨ _))

/-- Title and extension of a short name have no character that is barred.  The dot between them is
in neither. -/
def Respects (chars : FileNameChars) (short : Text) : Prop :=
  ∀ c ∈ (ShortName.ofText short).title ++ (ShortName.ofText short).extension, ¬ chars.Bars c

instance (chars : FileNameChars) (short : Text) : Decidable (chars.Respects short) :=
  List.decidableBAll (¬ chars.Bars ·) _

/-- What the kernel tables say. -/
def ofTables : FileNameChars :=
  ⟨0x00, 0x20, Tables.fileNameSeparators⟩

theorem read_of_holds {m : Memory} {segment : UInt16}
    (holds : m.Holds (.ofSegment segment)
      [ 0x16, 0x00, 0x01, 0x00, 0xff, 0x00, 0x00, 0x20, 0x02, 0x0e,
        0x2e, 0x22, 0x2f, 0x5c, 0x5b, 0x5d, 0x3a, 0x7c, 0x3c, 0x3e, 0x2b, 0x3d, 0x3b, 0x2c ]) :
    read m (.ofSegment segment) = ofTables := by
  have place (offset : UInt16) : ((FarPointer.ofSegment segment).advance offset).physical =
      (FarPointer.ofSegment segment).physical + offset.toUInt32 := by
    simp [FarPointer.physical, FarPointer.ofSegment, FarPointer.advance]
  change m.readBlock (FarPointer.ofSegment segment).physical (10 + 14) =
    [0x16, 0x00, 0x01, 0x00, 0xff, 0x00, 0x00, 0x20, 0x02, 0x0e] ++ Tables.fileNameSeparators at holds
  -- the ranges and the count, whose bytes are read one by one, and the block behind them
  rw [Memory.readBlock_add] at holds
  obtain ⟨ranges, separators⟩ := List.append_inj holds (Memory.length_readBlock _ _ _)
  simp only [Memory.readBlock, List.range_succ, List.range_zero, List.nil_append, List.map_cons,
    List.map_nil, List.cons_append, List.cons.injEq] at ranges
  obtain ⟨-, -, -, -, -, -, first, last, -, count, -⟩ := ranges
  have counted : (m.readByte ((FarPointer.ofSegment segment).advance 9)).toNat = 14 := by
    rw [Memory.readByte, place]
    exact congrArg UInt8.toNat count
  rw [read, ofTables, counted, FileNameChars.mk.injEq]
  simp only [Memory.readByte, place]
  exact ⟨first, last, separators⟩

/-- **Every machine that boots is told the same**, whatever its model, code page and memory. -/
theorem read_booted {config : Config} {s : System} (bootable : Bootable config s) :
    ∃ tables final, setupTables config s = .ok tables final ∧
      read final.memory tables.fileNameChars = ofTables := by
  obtain ⟨final, booted⟩ := bootable.boots
  refine ⟨_, final, setupTables_of_ok booted, ?_⟩
  exact read_of_holds (tablesHold_booted bootable booted).fileNameChars

/-! ## The three lists -/

/-- What the table has and the legality check has not, besides the dot, which no title and no
extension has. -/
def marks : List Char :=
  ['/', '\\', '[', ']']

theorem ne_dot_of_mem_marks {c : Char} (mark : c ∈ marks) : c ≠ '.' := by
  rintro rfl
  exact absurd mark (by decide)

/-- Of the characters that may stand in a legal name, the table bars the dot and four more. -/
theorem bars_iff_of_legal {c : Char} (legal : isIllegalChar c = false) (other : c ≠ '.') :
    ofTables.Bars c ↔ c ∈ marks := by
  constructor
  · rintro (⟨-, low⟩ | separator)
    · have small : c.toNat ≤ 0x20 := low
      simp [isIllegalChar, small] at legal
    · have separators : ∀ n ∈ ofTables.separators.map UInt8.toNat,
          isIllegalChar (Char.ofNat n) = true ∨ Char.ofNat n = '.' ∨ Char.ofNat n ∈ marks := by
        decide
      have found := separators c.toNat separator
      rw [Char.ofNat_toNat] at found
      simpa [legal, other] using found
  · intro mark
    simp only [marks, List.mem_cons, List.not_mem_nil, or_false] at mark
    obtain rfl | rfl | rfl | rfl := mark <;> decide

/-- Upper case makes none of the four, and the conversion replaces the brackets. -/
theorem convertChar_mark {page : CodePage} {source c : Char} (mark : c ∈ marks)
    (made : convertChar page source = c) : source = c ∧ c ≠ '[' ∧ c ≠ ']' := by
  have place : ∀ d ∈ marks, d ≠ '_' ∧ ¬ (65 ≤ d.toNat ∧ d.toNat ≤ 90) := by simp [marks]
  obtain ⟨replacement, letter⟩ := place c mark
  unfold convertChar at made
  split at made
  · exact absurd made.symm replacement
  · rename_i kept
    -- a letter becomes a letter, and none of the four is one
    rcases toUpper_cases source with same | ⟨low, high, moved⟩
    · obtain rfl : source = c := same.symm.trans made
      simp only [Bool.or_eq_true, not_or, beq_iff_eq] at kept
      exact ⟨rfl, kept.1.2, kept.2⟩
    · rw [made] at moved
      omega

/-- No tail has one of the four. -/
theorem mark_not_mem_tailText {tail : Option Nat} {c : Char} (mark : c ∈ marks) :
    c ∉ tailText tail := by
  have place : ∀ d ∈ marks, d ≠ '~' ∧ d.isDigit = false := by simp [marks, Char.isDigit]
  obtain ⟨tilde, digit⟩ := place c mark
  cases tail with
  | none => exact List.not_mem_nil
  | some n =>
      intro member
      rcases List.mem_cons.1 member with same | number
      · exact tilde same
      · have isDigit := Nat.isDigit_of_mem_toDigits (by decide) (by decide) number
        rw [digit] at isDigit
        cases isDigit

/-- **What a conversion has of the four** the host name had, and it is no bracket. -/
theorem mem_convert_mark {page : CodePage} {tail : Option Nat} {host : Text} {c : Char}
    (mark : c ∈ marks)
    (member : c ∈ (ShortName.convert page tail host).title ++
      (ShortName.convert page tail host).extension) :
    c ∈ host ∧ c ≠ '[' ∧ c ≠ ']' := by
  rcases mem_of_mem_convert member with ending | rfl | converted
  · exact absurd ending (mark_not_mem_tailText mark)
  · exact absurd mark (by decide)
  · obtain ⟨source, inHost, made⟩ := exists_of_mem_convertText converted
    obtain ⟨rfl, noBracket⟩ := convertChar_mark mark made
    exact ⟨inHost, noBracket⟩

end FileNameChars

/-! ## Short names -/

namespace ShortNames

open FileNameChars

variable {calls : List Call} {host short : Text}

/-- Title and extension of a short name pass the legality check, whichever way it was made. -/
theorem Origin.legal (origin : Origin calls host short) :
    ∀ c ∈ (ShortName.ofText short).title ++ (ShortName.ofText short).extension,
      isIllegalChar c = false ∧ c ≠ '.' := by
  cases origin with
  | itself _ _ legal same =>
      obtain ⟨title, extension⟩ := legalPart_ofText legal
      rw [same]
      intro c member
      rcases List.mem_append.1 member with inTitle | inExtension
      · exact ⟨title.legal c inTitle, fun dot => title.dotless (dot ▸ inTitle)⟩
      · exact ⟨extension.legal c inExtension, fun dot => extension.dotless (dot ▸ inExtension)⟩
  | @converted call _ _ tail same =>
      have presentable := presentable_convert call.page tail host
      rw [same, ShortName.ofText_text presentable.title_dotless]
      intro c member
      refine ⟨(presentable.shown c member).legal, ?_⟩
      rintro rfl
      exact (List.mem_append.1 member).elim presentable.title_dotless presentable.extension_dotless

/-- **Which of the four a short name can have**: those of the host name, and the brackets only if it
is the host name. -/
theorem Origin.mark (origin : Origin calls host short) {c : Char} (mark : c ∈ marks)
    (member : c ∈ short) : c ∈ host ∧ (c = '[' ∨ c = ']' → short = host) := by
  cases origin with
  | itself _ _ _ same => exact ⟨same ▸ member, fun _ => same⟩
  | @converted call _ _ tail same =>
      have presentable := presentable_convert call.page tail host
      rw [same, ← ShortName.mem_ofText (ne_dot_of_mem_marks mark),
        ShortName.ofText_text presentable.title_dotless] at member
      obtain ⟨inHost, noLeft, noRight⟩ := mem_convert_mark mark member
      exact ⟨inHost, fun bracket => (bracket.elim noLeft noRight).elim⟩

theorem Origin.respects_iff_marks (origin : Origin calls host short) :
    ofTables.Respects short ↔ ∀ c ∈ marks, c ∉ short := by
  constructor
  · intro respects c mark member
    have other := ne_dot_of_mem_marks mark
    have inParts := (ShortName.mem_ofText other).2 member
    exact respects c inParts ((bars_iff_of_legal (origin.legal c inParts).1 other).2 mark)
  · intro clear c inParts barred
    obtain ⟨legal, other⟩ := origin.legal c inParts
    exact clear c ((bars_iff_of_legal legal other).1 barred) ((ShortName.mem_ofText other).1 inParts)

theorem Origin.respects_iff (origin : Origin calls host short) (onHost : '/' ∉ host) :
    ofTables.Respects short ↔
      '\\' ∉ short ∧ (short = host → '[' ∉ host ∧ ']' ∉ host) := by
  rw [origin.respects_iff_marks]
  constructor
  · intro clear
    refine ⟨clear '\\' (by decide), ?_⟩
    rintro rfl
    exact ⟨clear '[' (by decide), clear ']' (by decide)⟩
  · rintro ⟨noBackslash, kept⟩ c mark member
    obtain ⟨inHost, own⟩ := origin.mark mark member
    simp only [marks, List.mem_cons, List.not_mem_nil, or_false] at mark
    obtain rfl | rfl | rfl | rfl := mark
    · exact onHost inHost
    · exact noBackslash member
    · exact (kept (own (.inl rfl))).1 inHost
    · exact (kept (own (.inr rfl))).2 inHost

/-- **Which short names respect the table.**  A machine that boots tells its programs which characters
a file name cannot have.  After any calls, under any pages, the short name of a file of the host
respects that in title and extension just when it has no backslash, and no square bracket if it is the
name of the file itself.  The backslashes are those of the host name. -/
theorem assign_respects_iff {config : Config} {s : System} (bootable : Bootable config s) :
    ∃ tables final, setupTables config s = .ok tables final ∧
      let chars := FileNameChars.read final.memory tables.fileNameChars
      ∀ (calls : List Call) (page : CodePage) {host : Text}, '/' ∉ host →
        let short := ((empty.run calls).assign page host).1
        (chars.Respects short ↔
          '\\' ∉ short ∧ (short = host → '[' ∉ host ∧ ']' ∉ host)) ∧
          ('\\' ∈ short → '\\' ∈ host) := by
  obtain ⟨tables, final, booted, told⟩ := read_booted bootable
  refine ⟨tables, final, booted, ?_⟩
  intro chars calls page host onHost short
  have seen : (empty.run (calls ++ [.assign page host])).assigned[host]? = some short := by
    rw [run_concat]
    exact assigned_assign _ page host
  have origin := origin_run seen
  refine ⟨?_, fun member => (origin.mark (by decide) member).1⟩
  show (FileNameChars.read final.memory tables.fileNameChars).Respects short ↔ _
  rw [told]
  exact origin.respects_iff onHost

/-- The brackets of a host name that is too long are replaced. -/
theorem converted_brackets_respect :
    let host := "notes [1].text".toList
    let calls : List Call := [.reserve ⟨932⟩ "NOTES_~1.TEX".toList]
    let short := ((empty.run calls).assign ⟨932⟩ host).1
    Bootable (.ofModel .dosV) .fresh ∧ '/' ∉ host ∧
      ∃ tables final, setupTables (.ofModel .dosV) .fresh = .ok tables final ∧
        let chars := FileNameChars.read final.memory tables.fileNameChars
        short = "NOTES_~2.TEX".toList ∧
          (chars.Respects short ↔
            '\\' ∉ short ∧ (short = host → '[' ∉ host ∧ ']' ∉ host)) ∧
          chars.Respects short := by
  intro host calls short
  have bootable : Bootable (.ofModel .dosV) .fresh := bootable_fresh _
  have onHost : '/' ∉ host := by decide
  obtain ⟨tables, final, booted, each⟩ := assign_respects_iff bootable
  obtain ⟨respects, -⟩ := each calls ⟨932⟩ onHost
  have named : short = "NOTES_~2.TEX".toList := by decide +kernel
  have clear : '\\' ∉ short ∧ (short = host → '[' ∉ host ∧ ']' ∉ host) := by
    rw [named]
    decide
  exact ⟨bootable, onHost, tables, final, booted, named, respects, respects.2 clear⟩

/-- A short name that is the host name, with its brackets, and one that was converted, with its
backslash. -/
theorem unreplaced_marks_barred :
    '/' ∉ "A[1].TXT".toList ∧ '/' ∉ "sub\\longfilename.txt".toList ∧
      (empty.assign .western "A[1].TXT".toList).1 = "A[1].TXT".toList ∧
      (empty.assign .western "sub\\longfilename.txt".toList).1 = "SUB\\LO~1.TXT".toList ∧
      ∃ tables final, setupTables (.ofModel .ibm) .fresh = .ok tables final ∧
        let chars := FileNameChars.read final.memory tables.fileNameChars
        ¬ chars.Respects "A[1].TXT".toList ∧ ¬ chars.Respects "SUB\\LO~1.TXT".toList := by
  obtain ⟨tables, final, booted, told⟩ := read_booted (bootable_fresh (.ofModel .ibm))
  refine ⟨by decide, by decide, by decide +kernel, by decide +kernel, tables, final, booted, ?_⟩
  rw [told]
  decide +kernel

end ShortNames

end GuestDos.Naming
