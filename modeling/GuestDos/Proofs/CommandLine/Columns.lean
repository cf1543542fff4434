/-
# GuestDos.Proofs.CommandLine.Columns -- the lines of a directory, read back

Nothing in a line says where a column ends, and the long name behind the last one may have any
characters.  The line can be read back because the columns stand still: no short name outgrows its
column, and none has a space that reading would take for padding.  Both hold of short names that are
legal, and short names are legal as long as the directory is too small to drive an alias past seven
digits (`ShortNames.LegalAmong`).

* `Columns` -- what the columns of a line say about an entry; `Columns.unique`.
* `columns_entryLine` -- the line of an entry whose short name is `InColumn`.
* `inColumn_listing` -- every short name of a listing is.
* `directoryReport_columns` -- the lines of a directory, under every page and in both modes.
-/
import Mathlib.Data.List.DropRight
import GuestDos.CommandLine.Report
import GuestDos.Proofs.Listing.Keepers
import GuestDos.Proofs.Naming.OwnNames

namespace GuestDos.CommandLine

set_option autoImplicit false

open GuestDos.Host (View DirId)
open GuestDos.Listing (Entry Handle ShortNameMode)
open GuestDos.Listing.Handle (entryTexts visibleNames)
open GuestDos.Naming (CodePage ShortNames isLegal)

/-! ## A line -/

/-- Drops the spaces at the end. -/
def trimEnd (text : Text) : Text :=
  text.rdropWhile (· == ' ')

/-- What the columns of a line say about an entry. -/
structure Columns (text : Text) (entry : Entry) : Prop where
  shortName : trimEnd (text.take 12) = entry.shortName
  gap : text[12]? = some ' '
  directory : trimEnd ((text.drop 13).take 5) = if entry.isDirectory then "<DIR>".toList else []
  secondGap : text[18]? = some ' '
  longName : text.drop 19 = entry.longName

/-- A line is that of one entry only. -/
theorem Columns.unique {text : Text} {entry other : Entry} (first : Columns text entry)
    (second : Columns text other) : entry = other := by
  obtain ⟨long, short, isDirectory⟩ := entry
  obtain ⟨otherLong, otherShort, otherIsDirectory⟩ := other
  obtain rfl : short = otherShort := first.shortName.symm.trans second.shortName
  obtain rfl : long = otherLong := first.longName.symm.trans second.longName
  have marks : ∀ a b : Bool,
      (if a then "<DIR>".toList else []) = (if b then "<DIR>".toList else []) → a = b := by
    decide
  obtain rfl : isDirectory = otherIsDirectory :=
    marks _ _ (first.directory.symm.trans second.directory)
  rfl

/-- A short name that its column holds, and that can be told from the spaces behind it. -/
structure InColumn (short : Text) : Prop where
  length_le : short.length ≤ 12
  spaceless : ' ' ∉ short

theorem length_padRight {width : Nat} {text : Text} (fits : text.length ≤ width) :
    (padRight width text).length = width := by
  simp only [padRight, List.length_append, List.length_replicate]
  omega

/-- Padding is dropped again. -/
theorem trimEnd_padRight (width : Nat) {text : Text} (spaceless : ' ' ∉ text) :
    trimEnd (padRight width text) = text := by
  have padding : ∀ c ∈ List.replicate (width - text.length) ' ', (c == ' ') = true := by
    intro c member
    exact beq_iff_eq.2 (List.eq_of_mem_replicate member)
  have kept : text.rdropWhile (· == ' ') = text := by
    rw [List.rdropWhile_eq_self_iff]
    intro nonempty space
    exact spaceless (beq_iff_eq.1 space ▸ List.getLast_mem nonempty)
  rw [List.rdropWhile] at kept
  rw [trimEnd, padRight, List.rdropWhile, List.reverse_append, List.reverse_replicate,
    List.dropWhile_append_of_pos padding, kept]

/-- A column, the space behind it, and the rest of the line. -/
theorem split_column {column : Text} {width : Nat} (fits : column.length = width) (rest : Text) :
    (column ++ ' ' :: rest).take width = column ∧ (column ++ ' ' :: rest)[width]? = some ' ' ∧
      (column ++ ' ' :: rest).drop (width + 1) = rest := by
  subst fits
  simp

theorem columns_entryLine {entry : Entry} (fits : InColumn entry.shortName) :
    Columns (entryLine entry) entry := by
  have spaceless : ∀ isDirectory : Bool, ' ' ∉ mark isDirectory := by decide
  have narrow : ∀ isDirectory : Bool, (mark isDirectory).length ≤ markColumn := by decide
  have whole : entryLine entry = padRight shortNameColumn entry.shortName ++
      ' ' :: (padRight markColumn (mark entry.isDirectory) ++ ' ' :: entry.longName) := by
    simp [entryLine]
  obtain ⟨shortName, gap, behind⟩ := split_column (length_padRight fits.length_le)
    (padRight markColumn (mark entry.isDirectory) ++ ' ' :: entry.longName)
  obtain ⟨directory, secondGap, longName⟩ :=
    split_column (length_padRight (narrow entry.isDirectory)) entry.longName
  rw [← whole] at shortName gap behind
  rw [← behind] at directory secondGap longName
  rw [List.getElem?_drop] at secondGap
  rw [List.drop_drop] at longName
  constructor
  case shortName => rw [shortName, trimEnd_padRight _ fits.spaceless]
  case gap => exact gap
  case directory =>
    rw [directory, trimEnd_padRight _ (spaceless entry.isDirectory)]
    rfl
  case secondGap => exact secondGap
  case longName => exact longName

/-! ## The short names of a listing -/

theorem inColumn_of_isLegal {page : CodePage} {short : Text} (legal : isLegal page short = true) :
    InColumn short where
  length_le := Naming.length_le_of_isLegal legal
  spaceless := by
    intro space
    obtain ⟨title, extension⟩ := Naming.legalPart_ofText legal
    rcases List.mem_append.1 ((Naming.ShortName.mem_ofText (by decide)).2 space) with inTitle | inExtension
    · exact absurd (title.legal ' ' inTitle) (by decide)
    · exact absurd (extension.legal ' ' inExtension) (by decide)

theorem inColumn_nil : InColumn [] :=
  ⟨by decide, by decide⟩

theorem inColumn_dotEntry (h : Handle) {dot : Text} (isDot : dot = ['.'] ∨ dot = ['.', '.']) :
    InColumn (h.dotEntry dot).shortName := by
  have dots : InColumn ['.'] ∧ InColumn ['.', '.'] :=
    ⟨⟨by decide, by decide⟩, ⟨by decide, by decide⟩⟩
  unfold Handle.dotEntry
  cases h.mode with
  | hostOnly => exact inColumn_nil
  | synthesize => exact isDot.elim (fun one => one ▸ dots.1) (fun two => two ▸ dots.2)

/-- **What finding a short name keeps**, in either mode, and what is found. -/
theorem shorten_inColumn {h : Handle} {hosts : List Text}
    (kept : h.shortNames.LegalAmong hosts h.page) (few : hosts.length < 9999999) (long : Text) :
    InColumn (h.shorten long).1 ∧
      (long ∈ hosts → (h.shorten long).2.LegalAmong hosts h.page) := by
  unfold Handle.shorten
  cases h.mode with
  | hostOnly => exact ⟨inColumn_nil, fun _ => kept⟩
  | synthesize =>
      have legal := (kept.legal.assign (Nat.lt_of_le_of_lt kept.size_le few) long).2
      exact ⟨inColumn_of_isLegal legal, fun about => kept.call few (c := .assign h.page long) rfl about⟩

/-- The claims of the legal names are legal, whether any are made or none. -/
theorem reserveLegal_legalAmong {h : Handle} {claiming : View} {d : DirId}
    (unused : h.shortNames = .empty) (directory : claiming.openDirectory h.basePath = .ok d)
    (few : (entryTexts (claiming.entries d)).length < 9999999) :
    (h.reserveLegal claiming).LegalAmong (entryTexts (claiming.entries d)) h.page := by
  have none_ := ShortNames.legalAmong_empty (entryTexts (claiming.entries d)) h.page
  cases mode : h.mode with
  | hostOnly =>
      simp only [Handle.reserveLegal, mode, unused]
      exact none_
  | synthesize =>
      rw [Listing.reserveLegal_eq_run mode directory, unused]
      refine none_.run few fun c member => ?_
      obtain ⟨host, about, rfl⟩ := List.mem_map.1 member
      exact ⟨rfl, about⟩

/-- **Every short name of a listing is in its column**, when the directory has fewer than 9999999
entries; the host may list them in one order for the claims and in another for the reading. -/
theorem inColumn_listing {h : Handle} {claiming reading : View} {d : DirId}
    (unused : h.shortNames = .empty) (directory : claiming.openDirectory h.basePath = .ok d)
    (few : (claiming.entries d).length < 9999999)
    (unchanged : ((reading.entries d).map (·.name)).Perm ((claiming.entries d).map (·.name))) :
    ∀ entry ∈ (Handle.readOn reading (h.readFirst claiming)).1, InColumn entry.shortName := by
  let texts := entryTexts (claiming.entries d)
  let begun : Handle := { h with started := true }
  have fewTexts : texts.length < 9999999 :=
    Nat.lt_of_le_of_lt (List.length_filterMap_le _ _) few
  have claims : (h.reserveLegal claiming).LegalAmong texts h.page :=
    reserveLegal_legalAmong unused directory fewTexts
  have step : ∀ names, ∀ long ∈ visibleNames h.page (reading.entries d),
      names.LegalAmong texts h.page →
        ({ begun with shortNames := names }.shorten long).2.LegalAmong texts h.page := by
    intro names long visible kept
    -- the claims were made over the same texts in another order
    have about : long ∈ texts :=
      (Listing.entryTexts_perm unchanged).subset (List.mem_filter.1 visible).1
    exact (shorten_inColumn (h := { begun with shortNames := names }) kept fewTexts long).2 about
  rw [Handle.readOn_readFirst reading directory]
  intro entry member
  rcases List.mem_cons.1 member with rfl | member
  · exact inColumn_dotEntry h (.inl rfl)
  rcases List.mem_cons.1 member with rfl | member
  · exact inColumn_dotEntry h (.inr rfl)
  obtain ⟨before, kept, found⟩ :=
    Handle.readThrough_shortens (h := begun) reading _ claims step entry member
  rw [found]
  exact (shorten_inColumn (h := { begun with shortNames := before }) kept fewTexts _).1

/-! ## A directory -/

/-- **The lines of a directory can be read back.**  The command prints a line for each entry of a
directory with fewer than 9999999 of them, under any page and in either mode, also when the host lists
them in another order by the time they are read.  The first 12 characters are the short name, then
follow a space, 5 characters for the mark of a directory, another space, and the long name as it is.
So different entries never have the same line. -/
theorem directoryReport_columns {host : View} {path : Text} {opened : Handle} {d : DirId}
    (codePage : Option UInt16) (hostShortNames : Bool)
    (fresh : Handle.open? host path = .ok opened) (directory : host.openDirectory path = .ok d)
    (few : (host.entries d).length < 9999999) :
    let mode := if hostShortNames then ShortNameMode.hostOnly else .synthesize
    let h := (opened.withCodePage ⟨codePage.getD 437⟩).withMode mode
    directoryReport host path codePage hostShortNames =
        .ok ((Handle.readOn host (h.next host)).1.map entryLine) ∧
      ∀ reading : View,
        ((reading.entries d).map (·.name)).Perm ((host.entries d).map (·.name)) →
        let entries := (Handle.readOn reading (h.next host)).1
        entries.map (·.longName) =
            ['.'] :: ['.', '.'] :: visibleNames h.page (reading.entries d) ∧
          (∀ entry ∈ entries, Columns (entryLine entry) entry) ∧
          ∀ first ∈ entries, ∀ second ∈ entries,
            entryLine first = entryLine second → first = second := by
  intro mode h
  constructor
  · rw [directoryReport, fresh]
    rfl
  intro reading unchanged entries
  obtain rfl := Handle.eq_of_open? fresh
  have listed : entries = (Handle.readOn reading (h.readFirst host)).1 := rfl
  have columns : ∀ entry ∈ entries, Columns (entryLine entry) entry := by
    intro entry member
    rw [listed] at member
    exact columns_entryLine (inColumn_listing rfl directory few unchanged entry member)
  refine ⟨?_, columns, fun first firstIn second secondIn same => ?_⟩
  · have dots : ∀ dot, (h.dotEntry dot).longName = dot := by
      intro dot
      unfold Handle.dotEntry
      cases h.mode <;> rfl
    rw [listed, Handle.readOn_readFirst reading directory]
    simp only [List.map_cons, dots, Handle.longName_readThrough]
  · have read := columns first firstIn
    rw [same] at read
    exact read.unique (columns second secondIn)

/-- A directory with names that are short, long, of spaces, of double byte characters, and of no text. -/
def spacedFiles : List Host.DirEntry :=
  [⟨.text "  two  spaces  ".toList, .file⟩, ⟨.text "日本語の名前.text".toList, .directory⟩,
    ⟨.raw [0xff], .file⟩, ⟨.text "A.B".toList, .file⟩]

/-- Its lines, and what they say about the entries when the host lists them the other way round. -/
theorem spacedFiles_columns :
    let host := Listing.uniformView spacedFiles
    let reading := Listing.uniformView spacedFiles.reverse
    let opened : Handle := ⟨['.'], .western, .synthesize, .empty, none, false⟩
    let h := (opened.withCodePage ⟨932⟩).withMode .synthesize
    let entries := (Handle.readOn reading (h.next host)).1
    Handle.open? host ['.'] = .ok opened ∧ host.openDirectory ['.'] = .ok 0 ∧
      (host.entries 0).length < 9999999 ∧
      ((reading.entries 0).map (·.name)).Perm ((host.entries 0).map (·.name)) ∧
      directoryReport host ['.'] (some 932) false = .ok
        [ ".            <DIR> .".toList,
          "..           <DIR> ..".toList,
          "TWOSPA~1             two  spaces  ".toList,
          "日本語~1.TEX    <DIR> 日本語の名前.text".toList,
          "A.B                A.B".toList ] ∧
      entries.map (·.longName) =
        [ ".".toList, "..".toList, "A.B".toList, "日本語の名前.text".toList,
          "  two  spaces  ".toList ] ∧
      (∀ entry ∈ entries, Columns (entryLine entry) entry) ∧
      ∀ first ∈ entries, ∀ second ∈ entries, entryLine first = entryLine second → first = second := by
  intro host reading opened h entries
  have fresh : Handle.open? host ['.'] = .ok opened := rfl
  have few : (host.entries 0).length < 9999999 := by decide
  have unchanged : ((reading.entries 0).map (·.name)).Perm ((host.entries 0).map (·.name)) :=
    (List.reverse_perm spacedFiles).map _
  obtain ⟨printed, each⟩ := directoryReport_columns (d := 0) (some 932) false fresh rfl few
  obtain ⟨longNames, columns, apart⟩ := each reading unchanged
  refine ⟨fresh, rfl, few, unchanged, ?_, longNames.trans (by decide), columns, apart⟩
  rw [printed]
  decide +kernel

end GuestDos.CommandLine
