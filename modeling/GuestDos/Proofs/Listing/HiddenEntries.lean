/-
# GuestDos.Proofs.Listing.HiddenEntries -- entries that the guest cannot see leave no trace

A name that is no text, or that the code page cannot encode, is passed over when entries are read,
and it claims nothing when legal names do: it is not legal.  So two handles on two hosts that show a
directory alike, but for hidden entries anywhere in between, go on alike: they answer the same, and
differ in nothing but the hidden entries that are still to come.

* `isHidden`, `Interspersed` -- entries of one listing with hidden ones in between in the other.
* `Alike` -- two hosts at one moment.
* `Handle.Beside` -- two handles that differ in hidden entries to come; one step (`Beside.readNext`,
  `Beside.perform`) and a run (`Beside.performAll`) keep it.
* `hidden_no_trace` -- every use of a fresh handle has the same answers.
-/
import GuestDos.Proofs.Listing.Reading
import GuestDos.Proofs.Listing.Operations
import GuestDos.Proofs.Listing.Keepers

namespace GuestDos.Listing

set_option autoImplicit false

open GuestDos.Host (View Name DirEntry DirId childPath)
open GuestDos.Naming (CodePage ShortNames isLegal)

/-! ## Hidden entries -/

/-- Whether the guest cannot see an entry under a page: its name is no text, or not one that the page
can encode. -/
def isHidden (page : CodePage) (entry : DirEntry) : Bool :=
  match entry.name.text? with
  | none => true
  | some long => !page.encodes long

/-- The second list has the entries of the first in their order, and hidden ones anywhere in
between. -/
inductive Interspersed (page : CodePage) : (entries more : List DirEntry) → Prop where
  | nil : Interspersed page [] []
  | both (entry : DirEntry) {entries more : List DirEntry} (rest : Interspersed page entries more) :
      Interspersed page (entry :: entries) (entry :: more)
  | hidden (entry : DirEntry) {entries more : List DirEntry} (unseen : isHidden page entry = true)
      (rest : Interspersed page entries more) : Interspersed page entries (entry :: more)

theorem visible?_of_isHidden {h : Handle} {entry : DirEntry}
    (unseen : isHidden h.page entry = true) : h.visible? entry.name = none := by
  unfold isHidden at unseen
  unfold Handle.visible?
  split at unseen
  · rename_i noText
    rw [noText]
  · rename_i long text
    rw [text]
    simpa using unseen

/-- A name that cannot be encoded claims nothing. -/
theorem reserve_of_not_encodes {page : CodePage} {long : Text} (unseen : page.encodes long = false)
    (names : ShortNames) : (names.reserve page long).2 = names := by
  have illegal : isLegal page long = false := by
    rw [← Bool.not_eq_true]
    intro legal
    rw [encodes_of_isLegal legal] at unseen
    cases unseen
  cases known : names.assigned[long]? with
  | some short => rw [ShortNames.reserve_of_seen page known]
  | none =>
      rw [ShortNames.reserve_of_unseen page known, illegal]
      rfl

/-- Hidden entries change no claims. -/
theorem Interspersed.reserveAll_eq {page : CodePage} {entries more : List DirEntry}
    (between : Interspersed page entries more) (names : ShortNames) :
    Handle.reserveAll page names more = Handle.reserveAll page names entries := by
  induction between generalizing names with
  | nil => rfl
  | both entry rest ih => exact ih _
  | @hidden entry entries more unseen rest ih =>
      have unchanged : Handle.reserveAll page names (entry :: more) =
          Handle.reserveAll page names more := by
        unfold Handle.reserveAll
        rw [List.foldl_cons]
        congr 1
        unfold isHidden at unseen
        split at unseen
        · rename_i noText
          rw [noText]
        · rename_i long text
          rw [text]
          exact reserve_of_not_encodes (by simpa using unseen) names
      rw [unchanged, ih]

/-! ## Two hosts and two handles -/

/-- Two hosts at one moment.  Each lists a directory at the same path, the second one with hidden
entries in between, and they say the same of where the paths of common entries lead. -/
structure Alike (page : CodePage) (base : Text) (content : List DirEntry) (d dMore : DirId)
    (host more : View) : Prop where
  opens : host.openDirectory base = .ok d
  opensMore : more.openDirectory base = .ok dMore
  between : Interspersed page (host.entries d) (more.entries dMore)
  within : host.entries d ⊆ content
  stats : ∀ entry ∈ content, ∀ long ∈ entry.name.text?,
    more.stat (childPath base long) = host.stat (childPath base long)

section Beside

variable {page : CodePage} {base : Text} {content : List DirEntry} {d dMore : DirId}
  {host more : View} {h other : Handle}

/-- Host entries to come, and the same with hidden ones in between. -/
inductive Stream.Beside (page : CodePage) (content : List DirEntry) (d dMore : DirId) :
    Stream → Stream → Prop where
  | unread : Beside page content d dMore (.unread d) (.unread dMore)
  | remaining {entries more : List DirEntry} (within : entries ⊆ content)
      (between : Interspersed page entries more) :
      Beside page content d dMore (.remaining entries) (.remaining more)

/-- Two listings that are as far as each other. -/
inductive Cursor.Beside (page : CodePage) (content : List DirEntry) (d dMore : DirId) :
    Option Cursor → Option Cursor → Prop where
  | closed : Beside page content d dMore none none
  | listing (dots : List Text) {stream streamMore : Stream}
      (beside : stream.Beside page content d dMore streamMore) :
      Beside page content d dMore (some ⟨dots, stream⟩) (some ⟨dots, streamMore⟩)

/-- Two handles that differ in nothing but hidden entries to come. -/
structure Handle.Beside (page : CodePage) (base : Text) (content : List DirEntry)
    (d dMore : DirId) (h other : Handle) : Prop where
  page_eq : h.page = page
  base_eq : h.basePath = base
  same : other = { h with cursor := other.cursor }
  cursors : Cursor.Beside page content d dMore h.cursor other.cursor

theorem Stream.Beside.entries {stream streamMore : Stream}
    (beside : stream.Beside page content d dMore streamMore)
    (alike : Alike page base content d dMore host more) :
    Interspersed page (stream.entries host) (streamMore.entries more) ∧
      stream.entries host ⊆ content := by
  cases beside with
  | unread => exact ⟨alike.between, alike.within⟩
  | remaining within between => exact ⟨between, within⟩

theorem Cursor.Beside.isSome_eq {cursor cursorMore : Option Cursor}
    (beside : Cursor.Beside page content d dMore cursor cursorMore) :
    cursorMore.isSome = cursor.isSome := by
  cases beside <;> rfl

namespace Handle

theorem leadsToDirectory_congr (entry : DirEntry) {long : Text} (cursor : Option Cursor)
    (stat : more.stat (childPath h.basePath long) = host.stat (childPath h.basePath long)) :
    { h with cursor }.leadsToDirectory more entry long = h.leadsToDirectory host entry long := by
  unfold leadsToDirectory View.isDirectory
  rw [stat]

/-- **Reading host entries**: the hidden ones are passed over. -/
theorem readEntries_beside {entries moreEntries : List DirEntry} (cursor : Option Cursor)
    (between : Interspersed h.page entries moreEntries) (within : entries ⊆ content)
    (stats : ∀ entry ∈ content, ∀ long ∈ entry.name.text?,
      more.stat (childPath h.basePath long) = host.stat (childPath h.basePath long)) :
    ({ h with cursor }.readEntries more moreEntries).1 = (h.readEntries host entries).1 ∧
      (h.readEntries host entries).2.Beside h.page h.basePath content d dMore
        ({ h with cursor }.readEntries more moreEntries).2 := by
  induction between with
  | nil => exact ⟨rfl, rfl, rfl, rfl, .listing [] (.remaining within .nil)⟩
  | @hidden entry entries moreEntries unseen rest ih =>
      have passed : { h with cursor }.visible? entry.name = none := visible?_of_isHidden unseen
      rw [readEntries_of_hidden more passed]
      exact ih within
  | @both entry entries moreEntries rest ih =>
      obtain ⟨member, later⟩ := List.cons_subset.1 within
      cases sight : h.visible? entry.name with
      | none =>
          have passed : { h with cursor }.visible? entry.name = none := sight
          rw [readEntries_of_hidden host sight, readEntries_of_hidden more passed]
          exact ih later
      | some long =>
          have seen : { h with cursor }.visible? entry.name = some long := sight
          have text : long ∈ entry.name.text? := by
            rw [visible?_eq] at sight
            exact (Option.filter_eq_some_iff.1 sight).1
          have directory := leadsToDirectory_congr entry cursor (stats entry member long text)
          simp only [readEntries, sight, seen, directory]
          exact ⟨rfl, rfl, rfl, rfl, .listing [] (.remaining later rest)⟩

/-- **One reading.** -/
theorem Beside.readNext (beside : h.Beside page base content d dMore other)
    (alike : Alike page base content d dMore host more) :
    (other.readNext more).1 = (h.readNext host).1 ∧
      (h.readNext host).2.Beside page base content d dMore (other.readNext more).2 := by
  obtain ⟨rfl, rfl, same, cursors⟩ := beside
  generalize other.cursor = cursorMore at same cursors
  subst same
  generalize place : h.cursor = cursor at cursors
  cases cursors with
  | closed =>
      have unread : ∀ now, h.readNext now = (none, h) := by
        intro now
        simp only [Handle.readNext, place]
      have itself : { h with cursor := none } = h := by rw [← place]
      rw [itself, unread, unread]
      refine ⟨rfl, rfl, rfl, rfl, ?_⟩
      rw [place]
      exact .closed
  | @listing dots stream streamMore between =>
      cases dots with
      | cons dot dots =>
          have read : h.readNext host =
              (some (h.dotEntry dot), { h with cursor := some ⟨dots, stream⟩ }) := by
            simp only [Handle.readNext, place]
          rw [read]
          exact ⟨rfl, rfl, rfl, rfl, .listing dots between⟩
      | nil =>
          have read : h.readNext host = h.readEntries host (stream.entries host) := by
            simp only [Handle.readNext, place]
          obtain ⟨interspersed, within⟩ := between.entries alike
          rw [read]
          exact readEntries_beside _ interspersed within alike.stats

/-- The beginning of a listing: the same claims, and the same dots. -/
theorem Beside.begun (beside : h.Beside page base content d dMore other)
    (alike : Alike page base content d dMore host more) :
    (h.begun host).Beside page base content d dMore (other.begun more) := by
  obtain ⟨rfl, rfl, same, -⟩ := beside
  generalize other.cursor = cursorMore at same
  subst same
  have claims : { h with cursor := cursorMore }.reserveLegal more = h.reserveLegal host := by
    unfold reserveLegal
    simp only [alike.opens, alike.opensMore]
    cases h.mode with
    | hostOnly => rfl
    | synthesize => exact alike.between.reserveAll_eq h.shortNames
  have first : h.firstCursor host = some ⟨[['.'], ['.', '.']], .unread d⟩ := by
    simp only [firstCursor, alike.opens]
  have firstMore : { h with cursor := cursorMore }.firstCursor more =
      some ⟨[['.'], ['.', '.']], .unread dMore⟩ := by
    simp only [firstCursor, alike.opensMore]
  refine ⟨rfl, rfl, ?_, ?_⟩
  · unfold Handle.begun
    rw [claims]
  · show Cursor.Beside h.page content d dMore (h.firstCursor host)
      ({ h with cursor := cursorMore }.firstCursor more)
    rw [first, firstMore]
    exact .listing _ .unread

/-- **One operation** that leaves the page as it is. -/
theorem Beside.perform (beside : h.Beside page base content d dMore other)
    (alike : Alike page base content d dMore host more) {op : Operation}
    (samePage : op.keepsPage = true) :
    (other.perform more op).1 = (h.perform host op).1 ∧
      (h.perform host op).2.Beside page base content d dMore (other.perform more op).2 := by
  have onward := beside.readNext alike
  have restart := (beside.begun alike).readNext alike
  obtain ⟨pageEq, baseEq, same, cursors⟩ := beside
  have started : other.started = h.started := by rw [same]
  cases op with
  | readFirst => exact ⟨congrArg Answer.read restart.1, restart.2⟩
  | readNext => exact ⟨congrArg Answer.read onward.1, onward.2⟩
  | next =>
      simp only [Handle.perform, next_eq, started]
      split
      · exact ⟨congrArg Answer.read onward.1, onward.2⟩
      · exact ⟨congrArg Answer.read restart.1, restart.2⟩
  | close =>
      refine ⟨rfl, pageEq, baseEq, ?_, .closed⟩
      show { other with cursor := none } = _
      rw [same]
      rfl
  | isOpen =>
      refine ⟨?_, pageEq, baseEq, same, cursors⟩
      exact congrArg Answer.inProgress cursors.isSome_eq
  | withMode mode =>
      refine ⟨rfl, pageEq, baseEq, ?_, cursors⟩
      show { other with mode } = _
      rw [same]
      rfl
  | withCodePage page => cases samePage

/-- **A run**: the same answers all along. -/
theorem Beside.performAll (beside : h.Beside page base content d dMore other)
    {moments : List (Operation × View × View)}
    (samePage : ∀ moment ∈ moments, moment.1.keepsPage = true)
    (alike : ∀ moment ∈ moments, Alike page base content d dMore moment.2.1 moment.2.2) :
    (other.performAll (moments.map fun moment => (moment.1, moment.2.2))).1 =
      (h.performAll (moments.map fun moment => (moment.1, moment.2.1))).1 := by
  induction moments generalizing h other with
  | nil => rfl
  | cons moment rest ih =>
      obtain ⟨answer, after⟩ := beside.perform (alike moment List.mem_cons_self)
        (samePage moment List.mem_cons_self)
      have later := ih after (fun m member => samePage m (List.mem_cons_of_mem _ member))
        fun m member => alike m (List.mem_cons_of_mem _ member)
      simp only [List.map_cons, Handle.performAll, answer, later]

end Handle

end Beside

/-- **Hidden entries leave no trace.**  Two handles are opened, each on its host, with the same page
and the same source of short names, and used in the same way from then on.  At every moment both
hosts list the directory in the same order, but for hidden entries anywhere in between on one of
them, and say the same of where the other entries lead.  Then the answers are the same: the entries
that are read, with their short names, and where there are no more. -/
theorem hidden_no_trace {before beforeMore : View} {path : Text} {opened openedMore : Handle}
    (page : CodePage) (mode : ShortNameMode) {content : List DirEntry} {d dMore : DirId}
    {moments : List (Operation × View × View)}
    (fresh : Handle.open? before path = .ok opened)
    (freshMore : Handle.open? beforeMore path = .ok openedMore)
    (samePage : ∀ moment ∈ moments, moment.1.keepsPage = true)
    (alike : ∀ moment ∈ moments, Alike page path content d dMore moment.2.1 moment.2.2) :
    (((openedMore.withCodePage page).withMode mode).performAll
        (moments.map fun moment => (moment.1, moment.2.2))).1 =
      (((opened.withCodePage page).withMode mode).performAll
        (moments.map fun moment => (moment.1, moment.2.1))).1 := by
  obtain rfl := Handle.eq_of_open? fresh
  obtain rfl := Handle.eq_of_open? freshMore
  refine Handle.Beside.performAll ⟨rfl, rfl, rfl, ?_⟩ samePage alike
  exact .closed

/-! ## Poles -/

/-- A host that lists the same entries all the time, with an item between each two that cannot be
read; one link leads to a directory. -/
def linkView (d : DirId) (entries : List DirEntry) : View where
  stat path := if path = "./".toList ∨ path = "./a link".toList then .ok .directory else .ok .file
  openDirectory _ := .ok d
  items _ := (entries.map .ok).intersperse (.error .permissionDenied)

/-- Two long names that are numbered alike, a legal name that is their second candidate, and a
link. -/
def plainEntries : List DirEntry :=
  [⟨.text "long file name.txt".toList, .file⟩, ⟨.text "a link".toList, .link⟩,
    ⟨.text "LONGFI~2.TXT".toList, .directory⟩, ⟨.text "long file names.txt".toList, .file⟩]

/-- The same with names in between that cannot be seen: one would claim itself under another page,
one would be numbered with the long ones, and one is no text. -/
def decoyEntries : List DirEntry :=
  [⟨.text "日本.TXT".toList, .file⟩, ⟨.text "long file name.txt".toList, .file⟩,
    ⟨.text "long file 名.txt".toList, .file⟩, ⟨.raw [0xff], .link⟩, ⟨.text "a link".toList, .link⟩,
    ⟨.text "LONGFI~2.TXT".toList, .directory⟩, ⟨.text "long file names.txt".toList, .file⟩,
    ⟨.raw [0x41, 0xfe], .directory⟩]

theorem plainEntries_interspersed : Interspersed .western plainEntries decoyEntries :=
  .hidden _ rfl (.both _ (.hidden _ rfl (.hidden _ rfl (.both _ (.both _ (.both _
    (.hidden _ rfl .nil)))))))

/-- The whole listing, and that there is no more. -/
def decoyMoments : List (Operation × View × View) :=
  (.readFirst :: List.replicate 6 .readNext).map fun op =>
    (op, linkView 0 plainEntries, linkView 1 decoyEntries)

theorem decoys_no_trace :
    let opened : Handle := ⟨"./".toList, .western, .synthesize, .empty, none, false⟩
    let h := (opened.withCodePage .western).withMode .synthesize
    Handle.open? (linkView 0 plainEntries) "./".toList = .ok opened ∧
      Handle.open? (linkView 1 decoyEntries) "./".toList = .ok opened ∧
      (∀ moment ∈ decoyMoments, moment.1.keepsPage = true) ∧
      (∀ moment ∈ decoyMoments,
        Alike .western "./".toList plainEntries 0 1 moment.2.1 moment.2.2) ∧
      (h.performAll (decoyMoments.map fun moment => (moment.1, moment.2.2))).1 =
        (h.performAll (decoyMoments.map fun moment => (moment.1, moment.2.1))).1 ∧
      (h.performAll (decoyMoments.map fun moment => (moment.1, moment.2.1))).1 =
        [.read (some ⟨".".toList, ".".toList, true⟩),
          .read (some ⟨"..".toList, "..".toList, true⟩),
          .read (some ⟨"long file name.txt".toList, "LONGFI~1.TXT".toList, false⟩),
          .read (some ⟨"a link".toList, "ALINK".toList, true⟩),
          .read (some ⟨"LONGFI~2.TXT".toList, "LONGFI~2.TXT".toList, true⟩),
          .read (some ⟨"long file names.txt".toList, "LONGFI~3.TXT".toList, false⟩),
          .read none] := by
  intro opened h
  have fresh : Handle.open? (linkView 0 plainEntries) "./".toList = .ok opened := rfl
  have freshMore : Handle.open? (linkView 1 decoyEntries) "./".toList = .ok opened := rfl
  have samePage : ∀ moment ∈ decoyMoments, moment.1.keepsPage = true := by decide
  have alike : ∀ moment ∈ decoyMoments,
      Alike .western "./".toList plainEntries 0 1 moment.2.1 moment.2.2 := by
    intro moment member
    obtain ⟨op, -, rfl⟩ := List.mem_map.1 member
    exact ⟨rfl, rfl, plainEntries_interspersed, List.Subset.refl _, fun _ _ _ _ => rfl⟩
  exact ⟨fresh, freshMore, samePage, alike,
    hidden_no_trace .western .synthesize fresh freshMore samePage alike, by decide +kernel⟩

end GuestDos.Listing
