/-
# GuestDos.Proofs.Listing.Keepers -- who keeps its own name in a listing

Two passes over a directory decide it, each in whatever order the host lists: the claims before the
first entry, and the short names made entry by entry.

* `KeepOwnNames` -- what a listing owes to the legal names of its directory.
* `listing_keepOwnNames` -- every listing of a fresh handle keeps it, for every two orders.
-/
import GuestDos.Proofs.Listing.Reading
import GuestDos.Proofs.Naming.Reserving

namespace GuestDos.Listing

set_option autoImplicit false

open GuestDos.Host (View Name DirEntry DirId)
open GuestDos.Naming (CodePage ShortNames isLegal legalNames mem_legalNames firstTwin?
  firstTwin?_eq_some firstTwin?_eq_none)
open GuestDos.Naming.ShortNames (Call reserved claimed_reserved AfterReserving)
open Handle (entryTexts visibleNames)

/-- Who keeps its own name among the files of a listing, where `legal` are the legal names of the
directory in the order of their claims.  Names are twins if they are equal without regard to ASCII
case. -/
structure KeepOwnNames (legal : List Text) (files : List Entry) : Prop where
  /-- Every legal name is listed. -/
  listed : ∀ name ∈ legal, ∃ file ∈ files, file.longName = name
  /-- A legal name without a twin is its own short name. -/
  alone : ∀ file ∈ files, file.longName ∈ legal →
    (∀ other ∈ legal, Text.upper other = Text.upper file.longName → other = file.longName) →
    file.shortName = file.longName
  /-- Of all twins the first one keeps its name, and no other does. -/
  first : ∀ name ∈ legal, ∃ keeper ∈ legal, firstTwin? legal name = some keeper ∧
    Text.upper keeper = Text.upper name ∧
    ∀ file ∈ files, file.longName ∈ legal → Text.upper file.longName = Text.upper name →
      (file.shortName = file.longName ↔ file.longName = keeper)
  /-- What does not keep its name is not given that of a legal file in any case. -/
  apart : ∀ file ∈ files,
    file.longName ∉ legal ∨ firstTwin? legal file.longName ≠ some file.longName →
    ∀ other ∈ legal, Text.upper file.shortName ≠ Text.upper other

/-- Short names that are claims, or far from all claims, keep own names. -/
theorem keepOwnNames_of_claimed {names : ShortNames} {legal : List Text} {files : List Entry}
    (claimed : names.Claimed legal)
    (listed : ∀ name ∈ legal, ∃ file ∈ files, file.longName = name)
    (short : ∀ file ∈ files, names.assigned[file.longName]? = some file.shortName ∨
      names.assigned[file.longName]? = none ∧ Text.upper file.shortName ∉ names.used) :
    KeepOwnNames legal files := by
  have keeps : ∀ file ∈ files, firstTwin? legal file.longName = some file.longName →
      file.shortName = file.longName := by
    intro file member first
    have claim := claimed.assigned file.longName
    rw [if_pos first] at claim
    rcases short file member with same | ⟨unclaimed, -⟩
    · rw [claim] at same
      exact (Option.some.inj same).symm
    · rw [claim] at unclaimed
      cases unclaimed
  have apart : ∀ file ∈ files, firstTwin? legal file.longName ≠ some file.longName →
      ∀ other ∈ legal, Text.upper file.shortName ≠ Text.upper other := by
    intro file member later other known same
    have claim := claimed.assigned file.longName
    rw [if_neg later] at claim
    rcases short file member with own | ⟨-, unused⟩
    · rw [claim] at own
      cases own
    · exact unused ((claimed.mem_used_iff _).2 ⟨other, known, same.symm⟩)
  have found : ∀ name ∈ legal, ∃ keeper, firstTwin? legal name = some keeper := by
    intro name member
    cases first : firstTwin? legal name with
    | some keeper => exact ⟨keeper, rfl⟩
    | none => exact absurd rfl (firstTwin?_eq_none.1 first name member)
  constructor
  case listed => exact listed
  case alone =>
    intro file member known single
    obtain ⟨keeper, first⟩ := found file.longName known
    obtain ⟨here, twin⟩ := firstTwin?_eq_some first
    rw [single keeper here twin] at first
    exact keeps file member first
  case first =>
    intro name member
    obtain ⟨keeper, first⟩ := found name member
    obtain ⟨here, twin⟩ := firstTwin?_eq_some first
    refine ⟨keeper, here, first, twin, fun file file_ known same => ?_⟩
    rw [← Naming.firstTwin?_congr same] at first
    constructor
    · intro own
      apply Classical.byContradiction
      intro other
      refine apart file file_ ?_ file.longName known (congrArg Text.upper own)
      rw [first]
      exact fun e => other (Option.some.inj e).symm
    · intro itself
      exact keeps file file_ (itself ▸ first)
  case apart =>
    intro file member other
    refine apart file member ?_
    rcases other with unknown | later
    · exact fun first => unknown (firstTwin?_eq_some first).1
    · exact later

/-! ## A listing -/

/-- Legal names can be encoded, so they are visible. -/
theorem encodes_of_isLegal {page : CodePage} {name : Text} (legal : isLegal page name = true) :
    page.encodes name = true := by
  unfold isLegal at legal
  simp only [Bool.and_eq_true] at legal
  exact legal.1.2

/-- The same names in another order have the same texts. -/
theorem entryTexts_perm {entries others : List DirEntry}
    (same : (entries.map (·.name)).Perm (others.map (·.name))) :
    (entryTexts entries).Perm (entryTexts others) := by
  have texts : ∀ l : List DirEntry, entryTexts l = (l.map (·.name)).filterMap Name.text? := by
    intro l
    rw [List.filterMap_map]
    rfl
  rw [texts, texts]
  exact same.filterMap _

/-- The claims when a listing starts. -/
theorem reserveLegal_eq_run {h : Handle} {host : View} {d : DirId} (mode : h.mode = .synthesize)
    (directory : host.openDirectory h.basePath = .ok d) :
    h.reserveLegal host =
      h.shortNames.run ((entryTexts (host.entries d)).map (Call.reserve h.page)) := by
  simp only [Handle.reserveLegal, mode, directory, Handle.reserveAll_eq, ShortNames.run,
    List.foldl_map]
  rfl

/-- The claims of a handle that has handed out no short name. -/
theorem reserveLegal_eq_reserved {h : Handle} {host : View} {d : DirId}
    (mode : h.mode = .synthesize) (unused : h.shortNames = .empty)
    (directory : host.openDirectory h.basePath = .ok d) :
    h.reserveLegal host = reserved h.page (entryTexts (host.entries d)) := by
  rw [reserveLegal_eq_run mode directory, unused, reserved]

/-- Every short name that is read after the claims is one, or far from them all. -/
theorem short_readThrough {h : Handle} {claims : ShortNames} (mode : h.mode = .synthesize)
    (host : View) (entries : List DirEntry) :
    ∀ file ∈ (h.readThrough host claims entries).1,
      claims.assigned[file.longName]? = some file.shortName ∨
        claims.assigned[file.longName]? = none ∧ Text.upper file.shortName ∉ claims.used := by
  intro file member
  obtain ⟨before, after, short⟩ := Handle.readThrough_keeps mode host
    claims.AfterReserving (AfterReserving.refl claims)
    (fun names long _ after => after.assign h.page long) file member
  rw [short]
  exact after.short h.page file.longName

/-- A legal name is read, in whatever order the host lists. -/
theorem legal_readThrough (h : Handle) (host : View) (names : ShortNames)
    {entries others : List DirEntry}
    (same : (entries.map (·.name)).Perm (others.map (·.name))) :
    ∀ name ∈ legalNames h.page (entryTexts others),
      ∃ file ∈ (h.readThrough host names entries).1, file.longName = name := by
  intro name member
  obtain ⟨text, legal⟩ := mem_legalNames.1 member
  have visible : name ∈ visibleNames h.page entries :=
    List.mem_filter.2 ⟨(entryTexts_perm same).mem_iff.2 text, encodes_of_isLegal legal⟩
  rw [← h.longName_readThrough host names] at visible
  exact List.mem_map.1 visible

/-- A listing of a handle that has handed out no short name: the dots, every visible name, and who
keeps its own. -/
theorem listing_of_unused {h : Handle} {reserving reading : View} {d : DirId}
    (mode : h.mode = .synthesize) (unused : h.shortNames = .empty)
    (directory : reserving.openDirectory h.basePath = .ok d)
    (unchanged : ((reading.entries d).map (·.name)).Perm ((reserving.entries d).map (·.name))) :
    ∃ files ended, Handle.readOn reading (h.readFirst reserving) =
        (h.dotEntry ['.'] :: h.dotEntry ['.', '.'] :: files, ended) ∧
      (ended.readNext reading).1 = none ∧
      files.map (·.longName) = visibleNames h.page (reading.entries d) ∧
      KeepOwnNames (legalNames h.page (entryTexts (reserving.entries d))) files := by
  have listed := Handle.readOn_readFirst reading directory
  rw [reserveLegal_eq_reserved mode unused directory] at listed
  refine ⟨_, _, listed, Handle.readNext_end _ _ reading ▸ rfl,
    Handle.longName_readThrough _ reading _ _, ?_⟩
  apply keepOwnNames_of_claimed (claimed_reserved h.page _)
  · exact legal_readThrough { h with started := true } reading _ unchanged
  · exact short_readThrough (h := { h with started := true }) mode reading _

/-- **Who keeps its own name.**  A fresh handle that synthesizes short names reads from the first
entry until there are none; the host lists the directory in one order when the legal names claim
themselves and in any other when the entries are read.  The listing has the dots and then every
visible name, and it keeps own names. -/
theorem listing_keepOwnNames {before reserving reading : View} {path : Text} {opened : Handle}
    {d : DirId} (page : CodePage)
    (fresh : Handle.open? before path = .ok opened)
    (directory : reserving.openDirectory path = .ok d)
    (unchanged : ((reading.entries d).map (·.name)).Perm ((reserving.entries d).map (·.name))) :
    let h := (opened.withCodePage page).withMode .synthesize
    ∃ files ended, Handle.readOn reading (h.readFirst reserving) =
        (h.dotEntry ['.'] :: h.dotEntry ['.', '.'] :: files, ended) ∧
      (ended.readNext reading).1 = none ∧
      files.map (·.longName) = visibleNames page (reading.entries d) ∧
      KeepOwnNames (legalNames page (entryTexts (reserving.entries d))) files := by
  intro h
  have base : h.basePath = path := congrArg Handle.basePath (Handle.eq_of_open? fresh)
  exact listing_of_unused (h := h) rfl rfl (base ▸ directory) unchanged

/-! ## Poles -/

/-- A host whose directories all list the same entries. -/
def uniformView (entries : List DirEntry) : View where
  stat _ := .ok .directory
  openDirectory _ := .ok 0
  items _ := entries.map .ok

/-- Twins, a name that an alias would take, and a name that is no text. -/
def twinFiles : List DirEntry :=
  [⟨.text "a.txt".toList, .file⟩, ⟨.text "longfilename.txt".toList, .file⟩, ⟨.raw [0xff], .file⟩,
    ⟨.text "A.TXT".toList, .directory⟩, ⟨.text "LONGFI~1.TXT".toList, .file⟩]

/-- The twins claim in one order and are read in the other. -/
theorem twinFiles_keepOwnNames :
    let claiming := uniformView twinFiles
    let reading := uniformView twinFiles.reverse
    let opened : Handle := ⟨['.'], .western, .synthesize, .empty, none, false⟩
    Handle.open? claiming ['.'] = .ok opened ∧
      claiming.openDirectory ['.'] = .ok 0 ∧
      ((reading.entries 0).map (·.name)).Perm ((claiming.entries 0).map (·.name)) ∧
      ∃ files ended, Handle.readOn reading
          (((opened.withCodePage .western).withMode .synthesize).readFirst claiming) =
          (⟨['.'], ['.'], true⟩ :: ⟨['.', '.'], ['.', '.'], true⟩ :: files, ended) ∧
        (ended.readNext reading).1 = none ∧
        files.map (·.longName) = visibleNames .western (reading.entries 0) ∧
        KeepOwnNames (legalNames .western (entryTexts (claiming.entries 0))) files := by
  have orders : ((twinFiles.reverse).map (·.name)).Perm (twinFiles.map (·.name)) :=
    (List.reverse_perm twinFiles).map _
  have opening : Handle.open? (uniformView twinFiles) ['.'] =
      .ok ⟨['.'], .western, .synthesize, .empty, none, false⟩ := rfl
  exact ⟨rfl, rfl, orders, listing_keepOwnNames .western opening rfl orders⟩

end GuestDos.Listing
