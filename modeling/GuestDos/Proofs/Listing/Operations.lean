/-
# GuestDos.Proofs.Listing.Operations -- what can be done with a handle, and what each does

The operations on a handle under one roof, so that a sequence of them is a list.  Everything that
reads comes down to two steps: a listing begins (`Handle.begun`), and an entry is read
(`Handle.readNext`), for which `readNext_cases` says all that can happen.

* `Operation`, `Answer`, `Handle.perform` -- one operation on the host as it is at that moment.
* `Handle.performAll` -- a sequence of operations.
* `readEntries_cases`, `readNext_cases` -- one reading.
* `perform_invariant`, `performAll_invariant` -- what is kept by the steps is kept by a sequence.
-/
import GuestDos.Listing

namespace GuestDos.Listing

set_option autoImplicit false

open GuestDos.Host (View DirEntry)
open GuestDos.Naming (CodePage)

/-- What can be done with a handle. -/
inductive Operation where
  | readFirst
  | readNext
  | next
  | close
  | isOpen
  | withCodePage (page : CodePage)
  | withMode (mode : ShortNameMode)
deriving DecidableEq, Repr

/-- Whether an operation begins a listing. -/
def Operation.begins (started : Bool) : Operation → Bool
  | readFirst => true
  | next => !started
  | _ => false

/-- Whether an operation leaves the code page as it is. -/
def Operation.keepsPage : Operation → Bool
  | withCodePage _ => false
  | _ => true

/-- What an operation answers: an entry or that there is none, whether a listing is in progress, or
nothing. -/
inductive Answer (α : Type) where
  | read (entry : Option α)
  | inProgress (isOpen : Bool)
  | done
deriving DecidableEq, Repr

/-- The same answer about what is made of the entry. -/
def Answer.map {α β : Type} (f : α → β) : Answer α → Answer β
  | read entry => read (entry.map f)
  | inProgress isOpen => inProgress isOpen
  | done => done

namespace Handle

/-- One operation, and the handle after it. -/
def perform (h : Handle) (host : View) : Operation → Answer Entry × Handle
  | .readFirst => (.read (h.readFirst host).1, (h.readFirst host).2)
  | .readNext => (.read (h.readNext host).1, (h.readNext host).2)
  | .next => (.read (h.next host).1, (h.next host).2)
  | .close => (.done, h.close)
  | .isOpen => (.inProgress h.isOpen, h)
  | .withCodePage page => (.done, h.withCodePage page)
  | .withMode mode => (.done, h.withMode mode)

/-- Operations one after the other, each on the host as it is then: the answers, and the handle after
the last one. -/
def performAll : Handle → List (Operation × View) → List (Answer Entry) × Handle
  | h, [] => ([], h)
  | h, (op, host) :: rest =>
      let (answer, h) := h.perform host op
      let (answers, h) := h.performAll rest
      (answer :: answers, h)

/-! ## Reading -/

/-- The handle when a listing begins: nothing is read yet. -/
def begun (h : Handle) (host : View) : Handle :=
  { h with started := true, shortNames := h.reserveLegal host, cursor := h.firstCursor host }

theorem readFirst_eq (h : Handle) (host : View) : h.readFirst host = (h.begun host).readNext host :=
  rfl

theorem next_eq (h : Handle) (host : View) :
    h.next host = (if h.started then h else h.begun host).readNext host := by
  unfold next
  split <;> rfl

/-- A hidden entry is passed over. -/
theorem readEntries_of_hidden {h : Handle} (host : View) {entry : DirEntry} {rest : List DirEntry}
    (hidden : h.visible? entry.name = none) :
    h.readEntries host (entry :: rest) = h.readEntries host rest := by
  simp only [readEntries, hidden]

/-- What is read of some host entries: nothing when all of them are hidden, else the first one that
is not. -/
theorem readEntries_cases (h : Handle) (host : View) (entries : List DirEntry) :
    (∀ entry ∈ entries, h.visible? entry.name = none) ∧
        h.readEntries host entries = (none, { h with cursor := some ⟨[], .remaining []⟩ }) ∨
      ∃ hidden entry rest long, entries = hidden ++ entry :: rest ∧
        (∀ before ∈ hidden, h.visible? before.name = none) ∧
        h.visible? entry.name = some long ∧
        h.readEntries host entries =
          (some ⟨long, (h.shorten long).1, h.leadsToDirectory host entry long⟩,
            { h with shortNames := (h.shorten long).2, cursor := some ⟨[], .remaining rest⟩ }) := by
  induction entries with
  | nil => exact .inl ⟨fun _ member => (List.not_mem_nil member).elim, rfl⟩
  | cons first rest ih =>
      cases sight : h.visible? first.name with
      | some long =>
          refine .inr ⟨[], first, rest, long, rfl, fun _ member => (List.not_mem_nil member).elim,
            sight, ?_⟩
          simp only [readEntries, sight]
      | none =>
          rw [readEntries_of_hidden host sight]
          rcases ih with ⟨allHidden, ended⟩ | ⟨hidden, entry, later, long, rfl, before, seen, read⟩
          · exact .inl ⟨List.forall_mem_cons.2 ⟨sight, allHidden⟩, ended⟩
          · exact .inr ⟨first :: hidden, entry, later, long, rfl,
              List.forall_mem_cons.2 ⟨sight, before⟩, seen, read⟩

/-- **What one reading does**: nothing without a listing, a dot name that is still due, else the
first host entry that is visible, or the end. -/
theorem readNext_cases (h : Handle) (host : View) :
    h.cursor = none ∧ h.readNext host = (none, h) ∨
    (∃ dot dots stream, h.cursor = some ⟨dot :: dots, stream⟩ ∧
      h.readNext host = (some (h.dotEntry dot), { h with cursor := some ⟨dots, stream⟩ })) ∨
    ∃ stream, h.cursor = some ⟨[], stream⟩ ∧
      h.readNext host = h.readEntries host (stream.entries host) := by
  unfold readNext
  split
  · rename_i closed
    exact .inl ⟨closed, rfl⟩
  · rename_i dot dots stream due
    exact .inr (.inl ⟨dot, dots, stream, due, rfl⟩)
  · rename_i stream due
    exact .inr (.inr ⟨stream, due, rfl⟩)

/-- A reading changes neither where the handle reads nor how. -/
theorem readNext_keeps (h : Handle) (host : View) :
    (h.readNext host).2.basePath = h.basePath ∧ (h.readNext host).2.page = h.page ∧
      (h.readNext host).2.started = h.started ∧ (h.readNext host).2.mode = h.mode := by
  rcases h.readNext_cases host with ⟨-, read⟩ | ⟨dot, dots, stream, -, read⟩ | ⟨stream, -, read⟩
  · rw [read]
    exact ⟨rfl, rfl, rfl, rfl⟩
  · rw [read]
    exact ⟨rfl, rfl, rfl, rfl⟩
  · rw [read]
    rcases h.readEntries_cases host (stream.entries host) with
      ⟨-, ended⟩ | ⟨_, _, _, _, -, -, -, shown⟩
    · rw [ended]
      exact ⟨rfl, rfl, rfl, rfl⟩
    · rw [shown]
      exact ⟨rfl, rfl, rfl, rfl⟩

/-- Which directory a handle lists never changes; it was started once a listing began. -/
theorem perform_keeps (h : Handle) (host : View) (op : Operation) :
    (h.perform host op).2.basePath = h.basePath ∧
      (h.perform host op).2.started = (h.started || op.begins h.started) := by
  have onward := h.readNext_keeps host
  have restart := (h.begun host).readNext_keeps host
  cases op with
  | readFirst =>
      exact ⟨restart.1, restart.2.2.1.trans (Bool.or_true h.started).symm⟩
  | readNext => exact ⟨onward.1, onward.2.2.1.trans (Bool.or_false h.started).symm⟩
  | next =>
      simp only [perform, next_eq, Operation.begins]
      cases started : h.started with
      | true => exact ⟨onward.1, onward.2.2.1.trans started⟩
      | false => exact ⟨restart.1, restart.2.2.1⟩
  | close | isOpen | withCodePage page | withMode mode =>
      exact ⟨rfl, (Bool.or_false h.started).symm⟩

/-- **What one operation keeps**, if a beginning, a reading and the three changes do. -/
theorem perform_invariant (Kept : Handle → Prop) {h : Handle} (kept : Kept h) (host : View)
    (op : Operation) (begun : Kept (h.begun host))
    (readNext : ∀ now, Kept now → Kept (now.readNext host).2) (close : Kept h.close)
    (withCodePage : ∀ page, op = .withCodePage page → Kept (h.withCodePage page))
    (withMode : ∀ mode, op = .withMode mode → Kept (h.withMode mode)) :
    Kept (h.perform host op).2 := by
  cases op with
  | readFirst => exact readNext _ begun
  | readNext => exact readNext _ kept
  | next =>
      simp only [perform, next_eq]
      split
      · exact readNext _ kept
      · exact readNext _ begun
  | close => exact close
  | isOpen => exact kept
  | withCodePage page => exact withCodePage page rfl
  | withMode mode => exact withMode mode rfl

/-- What each operation of a sequence keeps, the whole sequence keeps. -/
theorem performAll_invariant (Kept : Handle → Prop) {moments : List (Operation × View)}
    (step : ∀ now moment, moment ∈ moments → Kept now → Kept (now.perform moment.2 moment.1).2)
    {h : Handle} (kept : Kept h) : Kept (h.performAll moments).2 := by
  induction moments generalizing h with
  | nil => exact kept
  | cons moment rest ih =>
      exact ih (fun now later member => step now later (List.mem_cons_of_mem moment member))
        (step h moment List.mem_cons_self kept)

end Handle

end GuestDos.Listing
