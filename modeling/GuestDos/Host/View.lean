/-
# GuestDos.Host.View -- what a host directory shows at one moment

Everything that a listing asks of the host: what a path names, how a directory is opened, and which
items an open directory lists.  An item may fail to be read.  Names are bytes on the host; those that
are not valid UTF-8 have no text.

* `Name` -- a name in a directory.
* `View` -- the answers of the host at one moment; a directory that changes is a sequence of views.
* `View.entries` -- the items of a directory that can be read, which is all that a listing is about.

Init only.
-/
import GuestDos.Host.Error

namespace GuestDos.Host

set_option autoImplicit false

/-- A name in a host directory: its characters, or its bytes if they are not valid UTF-8. -/
inductive Name where
  | text (characters : Text)
  | raw (bytes : List UInt8)
deriving DecidableEq, Repr

namespace Name

/-- The name that some bytes spell. -/
def ofBytes (bytes : List UInt8) : Name :=
  match String.fromUTF8? ⟨bytes.toArray⟩ with
  | some s => .text s.toList
  | none => .raw bytes

/-- The characters of a name that has any. -/
def text? : Name → Option Text
  | text characters => some characters
  | raw _ => none

end Name

/-- What an entry of a directory is. -/
inductive Kind where
  | file
  | directory
  /-- A link or anything else that is neither by its own type, also where the host fails to tell the
  type: what the path leads to decides. -/
  | link
deriving DecidableEq, Repr

/-- An entry as the directory lists it, links not followed.  The host may fail to read an item of a
directory as a whole (`View.items`), or its name as text (`Name.raw`), or its type (`Kind.link`). -/
structure DirEntry where
  name : Name
  kind : Kind
deriving DecidableEq, Repr

/-- A directory that was opened is known by a number, also after its path names something else. -/
abbrev DirId := Nat

/-- The answers of the host at one moment. -/
structure View where
  /-- What a path names, links followed. -/
  stat : Text → Except HostError Kind
  /-- Opens a directory for listing. -/
  openDirectory : Text → Except HostError DirId
  /-- The items of an open directory, in the order in which it lists them. -/
  items : DirId → List (Except HostError DirEntry)

/-- The entries of an open directory; items that cannot be read are passed over. -/
def View.entries (host : View) (directory : DirId) : List DirEntry :=
  (host.items directory).filterMap Except.toOption

/-- Whether a path leads to a directory; a link that leads nowhere does not. -/
def View.isDirectory (host : View) (path : Text) : Bool :=
  match host.stat path with
  | .ok .directory => true
  | _ => false

/-- A name below a path. -/
def childPath (base name : Text) : Text :=
  if base.getLast? = some '/' then base ++ name else base ++ '/' :: name

end GuestDos.Host
