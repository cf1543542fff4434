/-
# GuestDos.Proofs.Listing.Automaton -- the listing of a directory as an automaton

The automaton has never started, is closed, or is listing what remains.  A listing begins with the
two dots and the host's entries in whatever order the host has them this time; a reading pops up to
the first entry that is visible.  Short names are left out.

* `Phase`, `State`, `Step`, `Run` -- the automaton.
* `isDirectory` -- what it says of an entry: what the path leads to, if the host can say.
* `Steady` -- a directory stays the same while it is listed.
-/
import GuestDos.Proofs.Listing.Operations

namespace GuestDos.Listing

set_option autoImplicit false

open GuestDos.Host (View Name DirEntry DirId childPath)
open GuestDos.Naming (CodePage)

/-- What is seen of an entry apart from its short name. -/
structure Seen where
  longName : Text
  isDirectory : Bool
deriving DecidableEq, Repr

/-- An entry without its short name. -/
def Entry.seen (entry : Entry) : Seen :=
  ⟨entry.longName, entry.isDirectory⟩

/-- A dot name as an entry of its directory. -/
def dotAsEntry (dot : Text) : DirEntry :=
  ⟨.text dot, .directory⟩

/-- The names that every listing begins with. -/
def dotNames : List Text :=
  [['.'], ['.', '.']]

/-- The entries that every listing begins with. -/
def dotEntries : List DirEntry :=
  dotNames.map dotAsEntry

/-! ## The automaton -/

namespace Automaton

/-- Where a listing is. -/
inductive Phase where
  | neverStarted
  | closed
  | listing (remaining : List DirEntry)
deriving DecidableEq, Repr

/-- The code page in force, and where the listing is. -/
structure State where
  page : CodePage
  phase : Phase
deriving DecidableEq, Repr

/-- Whether the host says that a path below the directory leads to a directory, links followed; of
what the host cannot say this of, only an entry that is itself a directory counts as one. -/
def isDirectory (host : View) (base : Text) (entry : DirEntry) (long : Text) : Bool :=
  match host.stat (childPath base long) with
  | .ok kind => kind == .directory
  | .error _ => entry.kind == .directory

/-- Pops entries up to the first one whose name is text that the page can encode. -/
def pop (page : CodePage) (host : View) (base : Text) :
    List DirEntry → Option Seen × List DirEntry
  | [] => (none, [])
  | entry :: rest =>
      match entry.name.text?.filter page.encodes with
      | none => pop page host base rest
      | some long => (some ⟨long, isDirectory host base entry long⟩, rest)

/-- Reads on in a listing; there is nothing to read without one. -/
def Phase.read (page : CodePage) (host : View) (base : Text) : Phase → Option Seen × Phase
  | neverStarted => (none, neverStarted)
  | closed => (none, closed)
  | listing remaining =>
      let (seen, rest) := pop page host base remaining
      (seen, listing rest)

/-- Ends a listing. -/
def Phase.close : Phase → Phase
  | neverStarted => neverStarted
  | closed => closed
  | listing _ => closed

/-- Whether a listing is in progress. -/
def Phase.isListing : Phase → Bool
  | listing _ => true
  | _ => false

/-- How a listing begins: with the dots and the host's entries in some order, or not at all if the
host cannot list the directory. -/
inductive Begins (host : View) (base : Text) : Phase → Prop where
  | lists {d : DirId} {order : List DirEntry} (directory : host.openDirectory base = .ok d)
      (chosen : order.Perm (host.entries d)) : Begins host base (.listing (dotEntries ++ order))
  | fails {e : Host.HostError} (directory : host.openDirectory base = .error e) :
      Begins host base .closed

/-- One operation of the automaton. -/
inductive Step (host : View) (base : Text) (s : State) :
    Operation → Answer Seen → State → Prop where
  | readFirst {begun : Phase} (begins : Begins host base begun) :
      Step host base s .readFirst (.read (begun.read s.page host base).1)
        ⟨s.page, (begun.read s.page host base).2⟩
  | readNext :
      Step host base s .readNext (.read (s.phase.read s.page host base).1)
        ⟨s.page, (s.phase.read s.page host base).2⟩
  | nextFirst {begun : Phase} (never : s.phase = .neverStarted)
      (begins : Begins host base begun) :
      Step host base s .next (.read (begun.read s.page host base).1)
        ⟨s.page, (begun.read s.page host base).2⟩
  | nextOn (started : s.phase ≠ .neverStarted) :
      Step host base s .next (.read (s.phase.read s.page host base).1)
        ⟨s.page, (s.phase.read s.page host base).2⟩
  | close : Step host base s .close .done ⟨s.page, s.phase.close⟩
  | isOpen : Step host base s .isOpen (.inProgress s.phase.isListing) s
  | withCodePage (page : CodePage) :
      Step host base s (.withCodePage page) .done ⟨page, s.phase⟩
  | withMode (mode : ShortNameMode) : Step host base s (.withMode mode) .done s

/-- Operations one after the other, each on the host as it is then. -/
inductive Run (base : Text) :
    State → List (Operation × View) → List (Answer Seen) → State → Prop where
  | nil (s : State) : Run base s [] [] s
  | cons {host : View} {s between last : State} {op : Operation} {answer : Answer Seen}
      {moments : List (Operation × View)} {answers : List (Answer Seen)}
      (step : Step host base s op answer between) (run : Run base between moments answers last) :
      Run base s ((op, host) :: moments) (answer :: answers) last

end Automaton

/-! ## A directory that stays the same while it is listed -/

/-- A directory that is being listed, with the entries that it had when that began. -/
structure Watched where
  directory : DirId
  entries : List DirEntry

/-- The directory still has these entries, in whatever order; and of those that are no links the host
says what they are, if it can say anything. -/
structure Unchanged (base : Text) (host : View) (watched : Watched) : Prop where
  same : (host.entries watched.directory).Perm watched.entries
  kinds : ∀ entry ∈ dotEntries ++ watched.entries, entry.kind ≠ .link →
    ∀ long ∈ entry.name.text?, ∀ kind ∈ (host.stat (childPath base long)).toOption,
      kind = entry.kind

instance (base : Text) (host : View) (watched : Watched) :
    Decidable (Unchanged base host watched) :=
  decidable_of_iff (_ ∧ _) ⟨fun ⟨same, kinds⟩ => ⟨same, kinds⟩, fun ⟨same, kinds⟩ => ⟨same, kinds⟩⟩

/-- The directory whose listing begins now, if there is one. -/
def watch? (host : View) (base : Text) : Option Watched :=
  match host.openDirectory base with
  | .ok d => some ⟨d, host.entries d⟩
  | .error _ => none

/-- The directory that is being listed after an operation. -/
def Operation.watched (host : View) (base : Text) (listed : Option Watched) (started : Bool)
    (op : Operation) : Option Watched :=
  if op.begins started then watch? host base else if op = .close then none else listed

/-- A directory does not change from the beginning of a listing until it is closed or another one
begins. -/
def Steady (base : Text) : Option Watched → Bool → List (Operation × View) → Prop
  | _, _, [] => True
  | listed, started, (op, host) :: rest =>
      (∀ watched ∈ op.watched host base listed started, Unchanged base host watched) ∧
        Steady base (op.watched host base listed started) (started || op.begins started) rest

instance decidableSteady (base : Text) : (listed : Option Watched) → (started : Bool) →
    (moments : List (Operation × View)) → Decidable (Steady base listed started moments)
  | _, _, [] => isTrue trivial
  | listed, started, (op, host) :: rest =>
      have := decidableSteady base (op.watched host base listed started)
        (started || op.begins started) rest
      inferInstanceAs (Decidable (_ ∧ _))

end GuestDos.Listing
