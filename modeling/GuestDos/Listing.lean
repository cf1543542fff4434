/-
# GuestDos.Listing -- a host directory as the guest lists it

A handle lists one host directory: first `.` and `..`, then every entry that can be read and whose
name is text that the code page can encode, with the short name that the guest sees.  Before anything
is listed, every legal name claims itself, so that it keeps its own name in whatever order the host
lists.

* `Handle.open?` -- a handle on a directory, or why there is none.
* `readFirst` starts or restarts the listing, `readNext` continues it, `next` does whichever is due,
  `close` ends it.  All answer `none` when there is nothing (more) to read.
* `readAll`, `readRest` -- a whole listing, and what is left of one.

Every reading takes the host as it is at that moment.  The directory is opened by `readFirst`, and
its entries are taken from the host once, when the first one is due.
-/
import GuestDos.Host.View
import GuestDos.Naming.ShortNames

namespace GuestDos.Listing

set_option autoImplicit false

open GuestDos.Host (View Name DirEntry DirId HostError DosError childPath)
open GuestDos.Naming (CodePage ShortNames)

/-- Where short names come from. -/
inductive ShortNameMode where
  /-- Only what the host reports, which is no short names at all. -/
  | hostOnly
  /-- Legal names as they are, and made-up aliases for all others. -/
  | synthesize
deriving DecidableEq, Repr

/-- An entry as the guest sees it. -/
structure Entry where
  longName : Text
  shortName : Text
  isDirectory : Bool
deriving DecidableEq, Repr

/-- The host entries that are still to come. -/
inductive Stream where
  /-- None was read yet. -/
  | unread (directory : DirId)
  | remaining (entries : List DirEntry)
deriving DecidableEq, Repr

/-- How far a listing has come. -/
structure Cursor where
  dots : List Text
  stream : Stream
deriving DecidableEq, Repr

/-- A listing of one host directory. -/
structure Handle where
  basePath : Text
  page : CodePage
  mode : ShortNameMode
  shortNames : ShortNames
  /-- Where the listing is; there is none before it starts and after it is closed. -/
  cursor : Option Cursor
  /-- Whether it was ever started. -/
  started : Bool

/-- The host entries that are still to come, as the host has them now. -/
def Stream.entries (host : View) : Stream → List DirEntry
  | .unread directory => host.entries directory
  | .remaining entries => entries

namespace Handle

/-- A handle on a directory that can be listed, or the error for the guest. -/
def open? (host : View) (path : Text) : Except DosError Handle :=
  if path.isEmpty then .error .pathNotFound
  else match host.stat path with
    | .error e => .error (.ofHost e)
    | .ok .directory =>
        match host.openDirectory path with
        | .error e => .error (.ofHost e)
        | .ok _ => .ok ⟨path, .western, .synthesize, .empty, none, false⟩
    | .ok _ => .error .pathNotFound

/-- Another code page; the short names handed out so far are forgotten. -/
def withCodePage (h : Handle) (page : CodePage) : Handle :=
  { h with page, shortNames := .empty }

/-- Another source of short names; those handed out so far are kept. -/
def withMode (h : Handle) (mode : ShortNameMode) : Handle :=
  { h with mode }

/-- The pattern that stands for every entry of the directory. -/
def searchPattern (h : Handle) : Text :=
  childPath h.basePath "*.*".toList

/-- Whether a listing is in progress. -/
def isOpen (h : Handle) : Bool :=
  h.cursor.isSome

/-- Ends the listing; nothing happens if there is none. -/
def close (h : Handle) : Handle :=
  { h with cursor := none }

/-- The text of a name that the guest can see. -/
def visible? (h : Handle) (name : Name) : Option Text :=
  match name.text? with
  | some long => if h.page.encodes long then some long else none
  | none => none

/-- The short name of an entry, and the names handed out then. -/
def shorten (h : Handle) (long : Text) : Text × ShortNames :=
  match h.mode with
  | .hostOnly => ([], h.shortNames)
  | .synthesize => h.shortNames.assign h.page long

/-- Whether an entry is a directory; what a link leads to is asked of the host. -/
def leadsToDirectory (h : Handle) (host : View) (entry : DirEntry) (long : Text) : Bool :=
  match entry.kind with
  | .directory => true
  | .file => false
  | .link => host.isDirectory (childPath h.basePath long)

/-- Reads host entries up to the first one that the guest can see. -/
def readEntries (h : Handle) (host : View) : List DirEntry → Option Entry × Handle
  | [] => (none, { h with cursor := some ⟨[], .remaining []⟩ })
  | entry :: rest =>
      match h.visible? entry.name with
      | none => h.readEntries host rest
      | some long =>
          let (short, shortNames) := h.shorten long
          (some ⟨long, short, h.leadsToDirectory host entry long⟩,
            { h with shortNames, cursor := some ⟨[], .remaining rest⟩ })

/-- The entry for a dot name: a directory that the guest knows by that name. -/
def dotEntry (h : Handle) (dot : Text) : Entry :=
  match h.mode with
  | .hostOnly => ⟨dot, [], true⟩
  | .synthesize => ⟨dot, dot, true⟩

/-- Continues a listing. -/
def readNext (h : Handle) (host : View) : Option Entry × Handle :=
  match h.cursor with
  | none => (none, h)
  | some ⟨dot :: dots, stream⟩ =>
      (some (h.dotEntry dot), { h with cursor := some ⟨dots, stream⟩ })
  | some ⟨[], stream⟩ => h.readEntries host (stream.entries host)

/-- Lets every legal name among some entries claim itself. -/
def reserveAll (page : CodePage) (names : ShortNames) (entries : List DirEntry) : ShortNames :=
  entries.foldl (fun names entry =>
    match entry.name.text? with
    | some long => (names.reserve page long).2
    | none => names) names

/-- The short names that hold when a listing starts. -/
def reserveLegal (h : Handle) (host : View) : ShortNames :=
  match h.mode, host.openDirectory h.basePath with
  | .synthesize, .ok directory => reserveAll h.page h.shortNames (host.entries directory)
  | _, _ => h.shortNames

/-- The start of a listing; there is none if the directory can no longer be opened. -/
def firstCursor (h : Handle) (host : View) : Option Cursor :=
  match host.openDirectory h.basePath with
  | .ok directory => some ⟨[['.'], ['.', '.']], .unread directory⟩
  | .error _ => none

/-- Starts a listing, or starts it again. -/
def readFirst (h : Handle) (host : View) : Option Entry × Handle :=
  { h with
    started := true
    shortNames := h.reserveLegal host
    cursor := h.firstCursor host }.readNext host

/-- Continues a listing, or starts the first one. -/
def next (h : Handle) (host : View) : Option Entry × Handle :=
  if h.started then h.readNext host else h.readFirst host

/-! ## Whole listings -/

/-- The number of readings after which nothing can be left. -/
def pending (h : Handle) (host : View) : Nat :=
  match h.cursor with
  | none => 0
  | some cursor => cursor.dots.length + (cursor.stream.entries host).length

/-- Reads on for at most `count` entries, until there is nothing more to read. -/
def readSome (h : Handle) (host : View) : (count : Nat) → List Entry × Handle
  | 0 => ([], h)
  | count + 1 =>
      match h.readNext host with
      | (none, h) => ([], h)
      | (some entry, h) =>
          let (entries, h) := h.readSome host count
          (entry :: entries, h)

/-- An entry that was read, and all that follow it. -/
def readOn (host : View) : Option Entry × Handle → List Entry × Handle
  | (none, h) => ([], h)
  | (some entry, h) =>
      let (entries, h) := h.readSome host (h.pending host + 1)
      (entry :: entries, h)

/-- A listing from its start to its end. -/
def readAll (h : Handle) (host : View) : List Entry × Handle :=
  readOn host (h.readFirst host)

/-- What is left of a listing, or all of it if it was never started. -/
def readRest (h : Handle) (host : View) : List Entry × Handle :=
  readOn host (h.next host)

end Handle

end GuestDos.Listing
