/-
# GuestDos.Proofs.Listing.Reading -- a whole listing at once

Reading on entry by entry until nothing is left is one recursion over the host's entries.

* `Handle.readThrough` -- what is read of some host entries, and the short names after it.
* `readSome_inside` -- reading on often enough gives that, and ends at the end.
* `readOn_readFirst` -- a listing from its start: the dots, then the entries that the host lists when
  the first of them is due.
* `longName_readThrough` -- it reads every visible name once, in the host's order.
* `readThrough_shortens`, `readThrough_keeps` -- what the short names keep from entry to entry holds
  where each short name is found, or made.
-/
import GuestDos.Listing

namespace GuestDos.Listing.Handle

set_option autoImplicit false

open GuestDos.Host (View Name DirEntry DirId)
open GuestDos.Naming (CodePage ShortNames)

/-- A handle that was just opened: nothing listed, no short names handed out. -/
theorem eq_of_open? {host : View} {path : Text} {h : Handle} (opened : open? host path = .ok h) :
    h = ⟨path, .western, .synthesize, .empty, none, false⟩ := by
  unfold open? at opened
  split at opened
  · cases opened
  · split at opened
    · cases opened
    · split at opened <;> cases opened
      rfl
    · cases opened

/-! ## Inside a listing -/

/-- A handle that has read the dots: the names handed out, and the host entries to come. -/
def inside (h : Handle) (names : ShortNames) (stream : Stream) : Handle :=
  { h with shortNames := names, cursor := some ⟨[], stream⟩ }

/-- What is read of some host entries when `names` were handed out, and the names after it. -/
def readThrough (h : Handle) (host : View) : ShortNames → List DirEntry → List Entry × ShortNames
  | names, [] => ([], names)
  | names, entry :: rest =>
      match h.visible? entry.name with
      | none => h.readThrough host names rest
      | some long =>
          let (short, names) := { h with shortNames := names }.shorten long
          let (entries, last) := h.readThrough host names rest
          (⟨long, short, h.leadsToDirectory host entry long⟩ :: entries, last)

theorem readNext_inside (h : Handle) (names : ShortNames) (stream : Stream) (host : View) :
    (h.inside names stream).readNext host =
      (h.inside names stream).readEntries host (stream.entries host) :=
  rfl

/-- What comes next does not depend on where the host entries come from. -/
theorem readEntries_inside (h : Handle) (names : ShortNames) (stream other : Stream) (host : View)
    (entries : List DirEntry) :
    (h.inside names stream).readEntries host entries =
      (h.inside names other).readEntries host entries := by
  induction entries with
  | nil => rfl
  | cons entry rest ih =>
      simp only [readEntries]
      rw [ih]
      rfl

/-- A hidden entry is passed over. -/
theorem readSome_hidden {h : Handle} {names : ShortNames} {stream : Stream} {host : View}
    {entry : DirEntry} {rest : List DirEntry} (left : stream.entries host = entry :: rest)
    (hidden : h.visible? entry.name = none) (count : Nat) :
    (h.inside names stream).readSome host (count + 1) =
      (h.inside names (.remaining rest)).readSome host (count + 1) := by
  have next : (h.inside names stream).readNext host =
      (h.inside names (.remaining rest)).readNext host := by
    have unseen : (h.inside names stream).visible? entry.name = none := hidden
    rw [readNext_inside, left, readNext_inside]
    simp only [readEntries, unseen]
    exact readEntries_inside h names stream (.remaining rest) host rest
  simp only [readSome, next]

/-- Reading on often enough reads everything that is left, and ends at the end. -/
theorem readSome_inside (h : Handle) (names : ShortNames) (stream : Stream) (host : View)
    {entries : List DirEntry} {count : Nat} (left : stream.entries host = entries)
    (enough : entries.length < count) :
    (h.inside names stream).readSome host count =
      ((h.readThrough host names entries).1,
        h.inside (h.readThrough host names entries).2 (.remaining [])) := by
  induction entries generalizing names stream count with
  | nil =>
      obtain ⟨count, rfl⟩ : ∃ k, count = k + 1 := ⟨count - 1, by omega⟩
      simp only [readSome, readNext_inside, left]
      rfl
  | cons entry rest ih =>
      obtain ⟨count, rfl⟩ : ∃ k, count = k + 1 := ⟨count - 1, by omega⟩
      have fewer : rest.length < count := by simpa using enough
      cases sight : h.visible? entry.name with
      | none =>
          rw [readSome_hidden left sight, ih names _ rfl (by omega)]
          simp only [readThrough, sight]
      | some long =>
          have onward := ih ({ h with shortNames := names }.shorten long).2 (.remaining rest) rfl
            fewer
          have next : (h.inside names stream).readNext host =
              (some ⟨long, ({ h with shortNames := names }.shorten long).1,
                h.leadsToDirectory host entry long⟩,
              h.inside ({ h with shortNames := names }.shorten long).2 (.remaining rest)) := by
            rw [readNext_inside, left]
            have seen : (h.inside names stream).visible? entry.name = some long := sight
            simp only [readEntries, seen]
            rfl
          simp only [readSome, next, onward, readThrough, sight]

/-- Nothing is left at the end. -/
theorem readNext_end (h : Handle) (names : ShortNames) (host : View) :
    (h.inside names (.remaining [])).readNext host = (none, h.inside names (.remaining [])) :=
  rfl

/-- A listing from its start to its end: the two dots, and what is read of the entries that the host
lists after them. -/
theorem readOn_readFirst {h : Handle} {first : View} (later : View) {d : DirId}
    (listed : first.openDirectory h.basePath = .ok d) :
    let begun : Handle := { h with started := true }
    let read := begun.readThrough later (h.reserveLegal first) (later.entries d)
    readOn later (h.readFirst first) =
      (h.dotEntry ['.'] :: h.dotEntry ['.', '.'] :: read.1,
        begun.inside read.2 (.remaining [])) := by
  intro begun read
  have start : h.firstCursor first = some ⟨[['.'], ['.', '.']], .unread d⟩ := by
    unfold firstCursor
    rw [listed]
  -- the handle between the two dots
  let between : Handle :=
    { begun with
      shortNames := h.reserveLegal first
      cursor := some ⟨[['.', '.']], .unread d⟩ }
  have dot : h.readFirst first = (some (h.dotEntry ['.']), between) := by
    simp only [readFirst, start, readNext]
    rfl
  have dots : between.readNext later =
      (some (h.dotEntry ['.', '.']), begun.inside (h.reserveLegal first) (.unread d)) :=
    rfl
  have left : between.pending later = (later.entries d).length + 1 := Nat.add_comm 1 _
  have rest := readSome_inside begun (h.reserveLegal first) (.unread d) later rfl
    (Nat.lt_succ_self (later.entries d).length)
  have onward : between.readSome later (between.pending later + 1) =
      (h.dotEntry ['.', '.'] :: read.1, begun.inside read.2 (.remaining [])) := by
    rw [left, readSome, dots]
    simp only [rest]
    rfl
  rw [dot, readOn, onward]

/-! ## What is read -/

/-- The names of some host entries, as far as they are text. -/
def entryTexts (entries : List DirEntry) : List Text :=
  entries.filterMap (·.name.text?)

/-- The names among some host entries that the guest can see. -/
def visibleNames (page : CodePage) (entries : List DirEntry) : List Text :=
  (entryTexts entries).filter page.encodes

theorem visible?_eq (h : Handle) (name : Name) :
    h.visible? name = name.text?.filter h.page.encodes := by
  unfold visible?
  cases name.text? with
  | none => rfl
  | some long => simp [Option.filter]

theorem visibleNames_eq (h : Handle) (entries : List DirEntry) :
    visibleNames h.page entries = entries.filterMap fun entry => h.visible? entry.name := by
  rw [visibleNames, entryTexts, List.filter_filterMap]
  congr 1
  funext entry
  exact (h.visible?_eq entry.name).symm

/-- Every visible name is read once, in the host's order. -/
theorem longName_readThrough (h : Handle) (host : View) (names : ShortNames)
    (entries : List DirEntry) :
    (h.readThrough host names entries).1.map (·.longName) = visibleNames h.page entries := by
  rw [visibleNames_eq]
  induction entries generalizing names with
  | nil => rfl
  | cons entry rest ih =>
      cases sight : h.visible? entry.name with
      | none => simp only [readThrough, sight, List.filterMap_cons, ih]
      | some long => simp only [readThrough, sight, List.filterMap_cons, List.map_cons, ih]

theorem reserveAll_eq (page : CodePage) (names : ShortNames) (entries : List DirEntry) :
    reserveAll page names entries =
      (entryTexts entries).foldl (fun names long => (names.reserve page long).2) names := by
  rw [reserveAll, entryTexts, List.foldl_filterMap]
  congr 1
  funext names entry
  cases entry.name.text? <;> rfl

theorem shorten_synthesize {h : Handle} (mode : h.mode = .synthesize) (names : ShortNames)
    (long : Text) : { h with shortNames := names }.shorten long = names.assign h.page long := by
  simp only [shorten, mode]

/-- What the short names keep from entry to entry holds where the short name of an entry is found. -/
theorem readThrough_shortens {h : Handle} (host : View) (Kept : ShortNames → Prop)
    {names : ShortNames} {entries : List DirEntry} (kept : Kept names)
    (step : ∀ names, ∀ long ∈ visibleNames h.page entries, Kept names →
      Kept ({ h with shortNames := names }.shorten long).2) :
    ∀ entry ∈ (h.readThrough host names entries).1, ∃ before, Kept before ∧
      entry.shortName = ({ h with shortNames := before }.shorten entry.longName).1 := by
  rw [visibleNames_eq] at step
  induction entries generalizing names with
  | nil => intro entry member; cases member
  | cons first rest ih =>
      cases sight : h.visible? first.name with
      | none =>
          simp only [readThrough, sight]
          exact ih kept fun names long member => step names long (by simp [sight, member])
      | some long =>
          simp only [readThrough, sight]
          intro entry member
          rcases List.mem_cons.1 member with rfl | later
          · exact ⟨names, kept, rfl⟩
          · refine ih ?_ (fun names long member => step names long ?_) entry later
            · exact step names long (by simp [sight]) kept
            · simp [sight, member]

/-- Where short names are made, that is where each one is made. -/
theorem readThrough_keeps {h : Handle} (mode : h.mode = .synthesize) (host : View)
    (Kept : ShortNames → Prop) {names : ShortNames} {entries : List DirEntry} (kept : Kept names)
    (step : ∀ names, ∀ long ∈ visibleNames h.page entries, Kept names →
      Kept (names.assign h.page long).2) :
    ∀ entry ∈ (h.readThrough host names entries).1, ∃ before, Kept before ∧
      entry.shortName = (before.assign h.page entry.longName).1 := by
  simp only [← shorten_synthesize mode] at step ⊢
  exact readThrough_shortens host Kept kept step

end GuestDos.Listing.Handle
