/-
# GuestDos.Proofs.Listing.LegalNames -- every short name that is made is legal

A short name that a handle has handed out is legal under the page in force: claims and requests
under one page keep that (`ShortNames.LegalUnder`).  Another page would break it, and with another
page the short names are forgotten.

* `Handle.Lawful` -- what every operation keeps.
* `Reached` -- the states of a handle, whatever the host does in between.
* `shortName_isLegal` -- every entry that is read in one of them.
-/
import GuestDos.Proofs.Listing.Operations
import GuestDos.Proofs.Listing.Keepers
import GuestDos.Proofs.Naming.OwnNames

namespace GuestDos

set_option autoImplicit false

/-! ## The states of a handle -/

namespace Listing

open GuestDos.Host (View DirEntry)
open GuestDos.Naming (CodePage ShortNames isLegal length_le_of_isLegal)

/-- What every state of a handle keeps: legal short names, and no other entries than the two dots
before those of the host. -/
structure Handle.Lawful (h : Handle) : Prop where
  names : h.shortNames.LegalUnder h.page
  dots : ∀ cursor, h.cursor = some cursor → ∀ dot ∈ cursor.dots, dot = ['.'] ∨ dot = ['.', '.']

namespace Handle.Lawful

variable {h : Handle} {host : View}

theorem begun (kept : h.Lawful) (host : View) : (h.begun host).Lawful where
  names := by
    show (h.reserveLegal host).LegalUnder h.page
    unfold reserveLegal
    split
    · rw [reserveAll_eq]
      generalize Handle.entryTexts _ = texts
      exact List.foldlRecOn texts _ kept.names fun names legal long _ => legal.reserve long
    · exact kept.names
  dots cursor started := by
    change h.firstCursor host = some cursor at started
    unfold firstCursor at started
    split at started <;> cases started
    simp

/-- What a reading makes of a lawful handle, and of the entry if it is none of the dots.  A short name
is made only when the dots have been read. -/
theorem readNext (kept : h.Lawful)
    (few : ∀ stream, h.cursor = some ⟨[], stream⟩ → h.shortNames.assigned.size < 9999999)
    (host : View) :
    (h.readNext host).2.Lawful ∧
      ∀ entry, (h.readNext host).1 = some entry → h.mode = .synthesize →
        entry.longName ≠ ['.'] → entry.longName ≠ ['.', '.'] →
        isLegal h.page entry.shortName = true := by
  rcases h.readNext_cases host with ⟨-, same⟩ | ⟨dot, dots, stream, due, read⟩ |
    ⟨stream, due, read⟩
  · rw [same]
    exact ⟨kept, fun entry none_ => by cases none_⟩
  · rw [read]
    have dotNames := kept.dots _ due
    refine ⟨⟨kept.names, ?_⟩, ?_⟩
    · rintro cursor ⟨⟩ other member
      exact dotNames other (List.mem_cons_of_mem dot member)
    · rintro entry ⟨⟩ mode notDot notDotDot
      have long : (h.dotEntry dot).longName = dot := by simp only [dotEntry, mode]
      rw [long] at notDot notDotDot
      exact absurd (dotNames dot List.mem_cons_self) (not_or.2 ⟨notDot, notDotDot⟩)
  · rw [read]
    rcases h.readEntries_cases host (stream.entries host) with
      ⟨-, ended⟩ | ⟨hidden, file, rest, long, -, -, -, shown⟩
    · rw [ended]
      refine ⟨⟨kept.names, ?_⟩, fun entry none_ => by cases none_⟩
      rintro cursor ⟨⟩ other member
      cases member
    · rw [shown]
      have assigned := kept.names.assign (few stream due) long
      refine ⟨⟨?_, ?_⟩, ?_⟩
      · show (h.shorten long).2.LegalUnder h.page
        unfold shorten
        split
        · exact kept.names
        · exact assigned.1
      · rintro cursor ⟨⟩ other member
        cases member
      · rintro entry ⟨⟩ mode - -
        show isLegal h.page (h.shorten long).1 = true
        simp only [shorten, mode]
        exact assigned.2

theorem readFirst (kept : h.Lawful) (host : View) :
    (h.readFirst host).2.Lawful ∧
      ∀ entry, (h.readFirst host).1 = some entry → h.mode = .synthesize →
        entry.longName ≠ ['.'] → entry.longName ≠ ['.', '.'] →
        isLegal h.page entry.shortName = true := by
  have dotsFirst : ∀ stream, (h.begun host).cursor ≠ some ⟨[], stream⟩ := by
    intro stream started
    change h.firstCursor host = _ at started
    unfold firstCursor at started
    split at started <;> cases started
  exact (kept.begun host).readNext (fun stream started => absurd started (dotsFirst stream)) host

/-- **What one operation keeps**, and what it answers. -/
theorem perform (kept : h.Lawful) (few : h.shortNames.assigned.size < 9999999) (host : View)
    (op : Operation) :
    (h.perform host op).2.Lawful ∧
      ∀ entry, (h.perform host op).1 = .read (some entry) → h.mode = .synthesize →
        entry.longName ≠ ['.'] → entry.longName ≠ ['.', '.'] →
        isLegal h.page entry.shortName = true := by
  have onward := kept.readNext (fun _ _ => few) host
  have restart := kept.readFirst host
  cases op with
  | readFirst => exact ⟨restart.1, fun entry read => restart.2 entry (Answer.read.inj read)⟩
  | readNext => exact ⟨onward.1, fun entry read => onward.2 entry (Answer.read.inj read)⟩
  | next =>
      simp only [Handle.perform, Handle.next]
      split
      · exact ⟨onward.1, fun entry read => onward.2 entry (Answer.read.inj read)⟩
      · exact ⟨restart.1, fun entry read => restart.2 entry (Answer.read.inj read)⟩
  | close => exact ⟨⟨kept.names, fun cursor none_ => by cases none_⟩, fun entry other => by cases other⟩
  | isOpen => exact ⟨kept, fun entry other => by cases other⟩
  | withCodePage page =>
      exact ⟨⟨ShortNames.legalUnder_empty page, kept.dots⟩, fun entry other => by cases other⟩
  | withMode mode => exact ⟨⟨kept.names, kept.dots⟩, fun entry other => by cases other⟩

end Handle.Lawful

/-! ## Runs -/

/-- The states of a handle that was opened: after any operations, each on the host as it is then, and
with other entries still to come when the host has others by then.  In all of them the short names
handed out are fewer than the numbers with seven digits. -/
inductive Reached (opened : Handle) : Handle → Prop where
  | opened : Reached opened opened
  | performed {h : Handle} (reached : Reached opened h) (host : View) (op : Operation)
      (few : (h.perform host op).2.shortNames.assigned.size < 9999999) :
      Reached opened (h.perform host op).2
  | changed {h : Handle} {dots : List Text} {entries : List DirEntry} (reached : Reached opened h)
      (listing : h.cursor = some ⟨dots, .remaining entries⟩) (others : List DirEntry) :
      Reached opened { h with cursor := some ⟨dots, .remaining others⟩ }

theorem lawful_reached {host : View} {path : Text} {opened h : Handle}
    (fresh : Handle.open? host path = .ok opened) (reached : Reached opened h) :
    h.Lawful ∧ h.shortNames.assigned.size < 9999999 := by
  induction reached with
  | opened =>
      rw [Handle.eq_of_open? fresh]
      refine ⟨⟨ShortNames.legalUnder_empty _, fun cursor none_ => by cases none_⟩, ?_⟩
      show ShortNames.empty.assigned.size < 9999999
      decide
  | performed reached host op few ih => exact ⟨(ih.1.perform ih.2 host op).1, few⟩
  | changed reached listing others ih =>
      have dots := ih.1.dots _ listing
      refine ⟨⟨ih.1.names, ?_⟩, ih.2⟩
      rintro cursor ⟨⟩
      exact dots

/-- **Every short name that is made is legal.**  A handle is opened and used in any way, while the
host changes in any way, under one page and another.  Whenever it then answers with an entry other
than the dots and synthesizes short names, the short name is legal under the page in force, and has
no more than twelve characters. -/
theorem shortName_isLegal {before now : View} {path : Text} {opened h after : Handle}
    {op : Operation} {entry : Entry} (fresh : Handle.open? before path = .ok opened)
    (reached : Reached opened h) (mode : h.mode = .synthesize)
    (answered : h.perform now op = (.read (some entry), after))
    (notDot : entry.longName ≠ ['.']) (notDotDot : entry.longName ≠ ['.', '.']) :
    isLegal h.page entry.shortName = true ∧ entry.shortName.length ≤ 12 := by
  obtain ⟨lawful, few⟩ := lawful_reached fresh reached
  have answer : (h.perform now op).1 = .read (some entry) := congrArg Prod.fst answered
  have legal := (lawful.perform few now op).2 entry answer mode notDot notDotDot
  exact ⟨legal, length_le_of_isLegal legal⟩

/-! ## Poles -/

/-- A directory with one file, in double byte characters. -/
def doubleByteView : View :=
  uniformView [⟨.text "日本語の名前.txt".toList, .file⟩]

/-- What it has when that file was read: a name that is no text, and one with leading dots, a space,
brackets and two dots more. -/
def lateEntries : List DirEntry :=
  [⟨.raw [0xff], .file⟩, ⟨.text ".. 日本語の名[x].v2.text".toList, .directory⟩]

/-- The handle after the first file under page 932. -/
def doubleByteHandle : Handle :=
  [.withCodePage ⟨932⟩, .readFirst, .next, .readNext].foldl
    (fun h op => (h.perform doubleByteView op).2) ⟨['.'], .western, .synthesize, .empty, none, false⟩

/-- The late name is read next, and becomes legal. -/
theorem late_isLegal :
    let opened : Handle := ⟨['.'], .western, .synthesize, .empty, none, false⟩
    let h : Handle := { doubleByteHandle with cursor := some ⟨[], .remaining lateEntries⟩ }
    let entry : Entry :=
      ⟨".. 日本語の名[x].v2.text".toList, "日本語~1.TEX".toList, true⟩
    Handle.open? doubleByteView ['.'] = .ok opened ∧ Reached opened h ∧ h.mode = .synthesize ∧
      (h.perform doubleByteView .next).1 = .read (some entry) ∧
      isLegal ⟨932⟩ entry.shortName = true ∧ entry.shortName.length ≤ 12 := by
  intro opened h entry
  have fresh : Handle.open? doubleByteView ['.'] = .ok opened := rfl
  have reached : Reached opened doubleByteHandle :=
    (((Reached.opened.performed doubleByteView (.withCodePage ⟨932⟩) (by decide +kernel)).performed
      doubleByteView .readFirst (by decide +kernel)).performed
      doubleByteView .next (by decide +kernel)).performed doubleByteView .readNext (by decide +kernel)
  have listing : doubleByteHandle.cursor = some ⟨[], .remaining []⟩ := by decide +kernel
  have reachedLate : Reached opened h := reached.changed listing lateEntries
  have mode : h.mode = .synthesize := rfl
  have answer : (h.perform doubleByteView .next).1 = .read (some entry) := by decide +kernel
  exact ⟨fresh, reachedLate, mode, answer, shortName_isLegal fresh reachedLate mode
    (Prod.ext answer rfl) (by decide) (by decide)⟩

end Listing

end GuestDos
