/-
# GuestDos.Proofs.Listing.Refinement -- a handle answers as the listing automaton does

The automaton chooses the order of the entries when a listing begins, the handle finds it out when the
first of them is due.  So the simulation runs backwards: from the phase of the automaton after an
operation to one before it (`Follows.exists_step`).

* `Tracks` -- when a handle and a phase belong together.
* `Follows.readNext`, `Follows.exists_step` -- one reading and one operation, backwards.
* `answers_of_automaton` -- every run of a handle is one of the automaton.
* `longPath_isDirectory` -- where the host cannot say what a path leads to.
-/
import GuestDos.Host.Tree
import GuestDos.Proofs.Listing.Automaton
import GuestDos.Proofs.Listing.Reading

namespace GuestDos.Listing

set_option autoImplicit false

open GuestDos.Host (View Name DirEntry DirId Tree Node childPath)
open GuestDos.Naming (CodePage)

/-! ## Popping and reading -/

section Reading

variable {page : CodePage}

theorem pop_hidden (host : View) (base : Text) {hidden : List DirEntry}
    (unseen : ∀ entry ∈ hidden, entry.name.text?.filter page.encodes = none)
    (rest : List DirEntry) :
    Automaton.pop page host base (hidden ++ rest) = Automaton.pop page host base rest := by
  induction hidden with
  | nil => rfl
  | cons first others ih =>
      obtain ⟨firstUnseen, othersUnseen⟩ := List.forall_mem_cons.1 unseen
      rw [List.cons_append, Automaton.pop, firstUnseen]
      exact ih othersUnseen

theorem pop_visible (host : View) (base : Text) {entry : DirEntry} {long : Text}
    (seen : entry.name.text?.filter page.encodes = some long) (rest : List DirEntry) :
    Automaton.pop page host base (entry :: rest) =
      (some ⟨long, Automaton.isDirectory host base entry long⟩, rest) := by
  rw [Automaton.pop, seen]

/-- The dots are visible under every page. -/
theorem visible_dot {dot : Text} (isDot : dot ∈ dotNames) :
    (dotAsEntry dot).name.text?.filter page.encodes = some dot := by
  have encoded : page.canEncode '.' = true := page.canEncode_of_le_ff (by decide)
  simp only [dotNames, List.mem_cons, List.not_mem_nil, or_false] at isDot
  rcases isDot with rfl | rfl <;>
    simp [dotAsEntry, Name.text?, CodePage.encodes, encoded]

/-- What the automaton says of an entry is what the handle says, when the host says what an entry is
that is no link. -/
theorem isDirectory_eq {h : Handle} {host : View} {entry : DirEntry} {long : Text}
    (kinds : entry.kind ≠ .link →
      ∀ kind ∈ (host.stat (childPath h.basePath long)).toOption, kind = entry.kind) :
    Automaton.isDirectory host h.basePath entry long = h.leadsToDirectory host entry long := by
  unfold Automaton.isDirectory Handle.leadsToDirectory View.isDirectory
  cases stat : host.stat (childPath h.basePath long) with
  | error e => cases entry.kind <;> rfl
  | ok kind =>
      have answer : kind ∈ (host.stat (childPath h.basePath long)).toOption := by rw [stat]; rfl
      cases shape : entry.kind with
      | link => cases kind <;> rfl
      | file =>
          rw [kinds (by simp [shape]) kind answer, shape]
          rfl
      | directory =>
          rw [kinds (by simp [shape]) kind answer, shape]
          rfl

/-- Reading host entries is popping them, when the host says what they are. -/
theorem pop_eq_readEntries (h : Handle) (host : View) {entries : List DirEntry}
    (kinds : ∀ entry ∈ entries, entry.kind ≠ .link → ∀ long ∈ entry.name.text?,
      ∀ kind ∈ (host.stat (childPath h.basePath long)).toOption, kind = entry.kind) :
    ∃ rest, rest ⊆ entries ∧
      Automaton.pop h.page host h.basePath entries =
        ((h.readEntries host entries).1.map Entry.seen, rest) ∧
      (h.readEntries host entries).2.cursor = some ⟨[], .remaining rest⟩ ∧
      (h.readEntries host entries).2.started = h.started := by
  rcases h.readEntries_cases host entries with
    ⟨hidden, ended⟩ | ⟨hidden, entry, rest, long, rfl, skipped, sight, shown⟩
  · simp only [Handle.visible?_eq] at hidden
    have nothing := pop_hidden host h.basePath hidden []
    rw [List.append_nil] at nothing
    rw [ended]
    exact ⟨[], List.nil_subset _, nothing, rfl, rfl⟩
  · simp only [Handle.visible?_eq] at skipped sight
    have member : entry ∈ hidden ++ entry :: rest := List.mem_append_right _ List.mem_cons_self
    have name : long ∈ entry.name.text? := (Option.filter_eq_some_iff.1 sight).1
    have directory := isDirectory_eq fun noLink => kinds entry member noLink long name
    rw [shown, pop_hidden host h.basePath skipped, pop_visible host h.basePath sight, directory]
    exact ⟨rest, fun other later => List.mem_append_right _ (List.mem_cons_of_mem _ later), rfl, rfl,
      rfl⟩

end Reading

/-! ## Handles and phases -/

open Automaton (Phase State Begins Step Run)

/-- The host entries still to come are those of the directory that is watched. -/
def Stream.Within (watched : Watched) : Stream → Prop
  | .unread d => d = watched.directory
  | .remaining entries => entries ⊆ watched.entries

/-- The orders in which the host entries may come: any of them as long as none was read. -/
def Stream.MayList (watched : Watched) (order : List DirEntry) : Stream → Prop
  | .unread _ => order.Perm watched.entries
  | .remaining entries => order = entries

/-- In a directory that stays the same, the entries that come are an order that was possible. -/
theorem Stream.mayList_entries {watched : Watched} {stream : Stream} {base : Text} {host : View}
    (within : stream.Within watched) (unchanged : Unchanged base host watched) :
    stream.MayList watched (stream.entries host) ∧ stream.entries host ⊆ watched.entries := by
  cases stream with
  | unread d =>
      obtain rfl : d = watched.directory := within
      exact ⟨unchanged.same, unchanged.same.subset⟩
  | remaining entries => exact ⟨rfl, within⟩

/-- A handle whose listing, if there is one, is that of the directory that is watched. -/
structure Handle.Follows (h : Handle) (listed : Option Watched) : Prop where
  started : h.cursor ≠ none → h.started = true
  listing : ∀ dots stream, h.cursor = some ⟨dots, stream⟩ →
    dots ⊆ dotNames ∧ ∃ watched ∈ listed, stream.Within watched

/-- The phases of the automaton that belong to a handle: more than one only while the host's order
is open. -/
inductive Handle.Tracks (h : Handle) (listed : Option Watched) : Phase → Prop where
  | neverStarted (cursor : h.cursor = none) (started : h.started = false) :
      Tracks h listed .neverStarted
  | closed (cursor : h.cursor = none) (started : h.started = true) : Tracks h listed .closed
  | listing {dots : List Text} {stream : Stream} {order : List DirEntry} {watched : Watched}
      (cursor : h.cursor = some ⟨dots, stream⟩) (member : watched ∈ listed)
      (possible : stream.MayList watched order) :
      Tracks h listed (.listing (dots.map dotAsEntry ++ order))

namespace Handle

variable {h : Handle} {listed : Option Watched} {host : View}

theorem follows_of_closed (closed : h.cursor = none) : h.Follows listed := by
  refine ⟨fun open_ => absurd closed open_, fun dots stream due => ?_⟩
  rw [closed] at due
  cases due

theorem follows_of_listing {dots : List Text} {stream : Stream} {watched : Watched}
    (cursor : h.cursor = some ⟨dots, stream⟩) (started : h.started = true)
    (known : dots ⊆ dotNames) (member : watched ∈ listed) (within : stream.Within watched) :
    h.Follows listed := by
  refine ⟨fun _ => started, fun others other due => ?_⟩
  rw [cursor] at due
  cases due
  exact ⟨known, watched, member, within⟩

theorem Follows.exists_tracks (follows : h.Follows listed) : ∃ phase, h.Tracks listed phase := by
  cases cursor : h.cursor with
  | none =>
      cases started : h.started with
      | false => exact ⟨_, .neverStarted cursor started⟩
      | true => exact ⟨_, .closed cursor started⟩
  | some place =>
      obtain ⟨dots, stream⟩ := place
      obtain ⟨-, watched, member, -⟩ := follows.listing dots stream cursor
      cases stream with
      | unread d => exact ⟨_, .listing cursor member (List.Perm.refl watched.entries)⟩
      | remaining entries => exact ⟨_, .listing cursor member rfl⟩

/-- The phase is a matter of where the listing is. -/
theorem Tracks.congr {other : Handle} {phase : Phase} (tracks : h.Tracks listed phase)
    (cursor : other.cursor = h.cursor) (started : other.started = h.started) :
    other.Tracks listed phase := by
  cases tracks with
  | neverStarted closed never => exact .neverStarted (cursor.trans closed) (started.trans never)
  | closed closed once => exact .closed (cursor.trans closed) (started.trans once)
  | listing due member possible => exact .listing (cursor.trans due) member possible

theorem Tracks.isOpen_eq {phase : Phase} (tracks : h.Tracks listed phase) :
    h.isOpen = phase.isListing := by
  unfold isOpen
  cases tracks with
  | neverStarted cursor => rw [cursor]; rfl
  | closed cursor => rw [cursor]; rfl
  | listing cursor => rw [cursor]; rfl

/-- Without a listing there is one phase only. -/
theorem Tracks.eq_of_closed {phase : Phase} (tracks : h.Tracks listed phase)
    (closed : h.cursor = none) : phase = if h.started then .closed else .neverStarted := by
  cases tracks with
  | neverStarted _ never => rw [never]; rfl
  | closed _ once => rw [once]; rfl
  | listing due =>
      rw [closed] at due
      cases due

/-- In a listing the phase has the dots still due and an order that is possible. -/
theorem Tracks.exists_order {phase : Phase} {dots : List Text} {stream : Stream}
    (tracks : h.Tracks listed phase) (cursor : h.cursor = some ⟨dots, stream⟩) :
    ∃ order, ∃ watched ∈ listed, stream.MayList watched order ∧
      phase = .listing (dots.map dotAsEntry ++ order) := by
  cases tracks with
  | neverStarted closed =>
      rw [cursor] at closed
      cases closed
  | closed closed =>
      rw [cursor] at closed
      cases closed
  | listing due member possible =>
      rw [cursor] at due
      cases due
      exact ⟨_, _, member, possible, rfl⟩

theorem Follows.close_eq {before after : Phase} (follows : h.Follows listed)
    (tracks : h.Tracks listed before) {none_ : Option Watched}
    (ended : h.close.Tracks none_ after) : before.close = after := by
  rw [ended.eq_of_closed rfl]
  show _ = if h.started then Phase.closed else .neverStarted
  cases tracks with
  | neverStarted _ never => rw [never]; rfl
  | closed _ once => rw [once]; rfl
  | listing due =>
      rw [follows.started (by simp [due])]
      rfl

/-- What reading gives, matched by the automaton backwards: a phase that belongs to the handle after it
was read from one that belonged to the handle before it, with the same answer. -/
structure ReadsBack (h : Handle) (listed : Option Watched) (host : View)
    (read : Option Entry × Handle) : Prop where
  follows : read.2.Follows listed
  backwards : ∀ phase, read.2.Tracks listed phase → ∃ before, h.Tracks listed before ∧
    before.read h.page host h.basePath = (read.1.map Entry.seen, phase)

theorem Follows.read_closed (follows : h.Follows listed) (closed : h.cursor = none) :
    h.ReadsBack listed host (none, h) := by
  refine ⟨follows, fun phase tracks => ⟨phase, tracks, ?_⟩⟩
  cases tracks with
  | neverStarted => rfl
  | closed => rfl
  | listing cursor =>
      rw [closed] at cursor
      cases cursor

theorem Follows.read_dot {dot : Text} {dots : List Text} {stream : Stream}
    (follows : h.Follows listed) (due : h.cursor = some ⟨dot :: dots, stream⟩)
    (unchanged : ∀ watched ∈ listed, Unchanged h.basePath host watched) :
    h.ReadsBack listed host
      (some (h.dotEntry dot), { h with cursor := some ⟨dots, stream⟩ }) := by
  obtain ⟨known, watched, member, within⟩ := follows.listing _ _ due
  have isDot : dot ∈ dotNames := known List.mem_cons_self
  have started : h.started = true := follows.started (by simp [due])
  refine ⟨follows_of_listing rfl started (fun _ here => known (List.mem_cons_of_mem dot here)) member
    within, fun phase tracks => ?_⟩
  obtain ⟨order, _, here, possible, rfl⟩ := tracks.exists_order rfl
  refine ⟨_, .listing due here possible, ?_⟩
  have directory : Automaton.isDirectory host h.basePath (dotAsEntry dot) dot = true := by
    rw [isDirectory_eq]
    · rfl
    · intro noLink
      exact (unchanged watched member).kinds (dotAsEntry dot)
        (List.mem_append_left _ (List.mem_map_of_mem isDot)) noLink dot rfl
  have seen : (h.dotEntry dot).seen = ⟨dot, true⟩ := by
    unfold dotEntry
    split <;> rfl
  simp only [List.map_cons, List.cons_append, Phase.read,
    pop_visible host h.basePath (visible_dot isDot), directory, Option.map_some, seen]

theorem Follows.readEntries {stream : Stream} (follows : h.Follows listed)
    (due : h.cursor = some ⟨[], stream⟩)
    (unchanged : ∀ watched ∈ listed, Unchanged h.basePath host watched) :
    h.ReadsBack listed host (h.readEntries host (stream.entries host)) := by
  obtain ⟨-, watched, member, within⟩ := follows.listing _ _ due
  obtain ⟨possible, inside⟩ := Stream.mayList_entries within (unchanged watched member)
  obtain ⟨rest, later, popped, cursor, kept⟩ := pop_eq_readEntries h host
    fun entry here => (unchanged watched member).kinds entry (List.mem_append_right _ (inside here))
  have started := kept.trans (follows.started (by simp [due]))
  refine ⟨follows_of_listing cursor started (List.nil_subset _) member
    (List.Subset.trans later inside), fun phase tracks => ⟨_, .listing due member possible, ?_⟩⟩
  obtain ⟨_, _, -, rfl, rfl⟩ := tracks.exists_order cursor
  simp only [List.map_nil, List.nil_append, Phase.read, popped]

/-- **One reading, backwards.** -/
theorem Follows.readNext (follows : h.Follows listed)
    (unchanged : ∀ watched ∈ listed, Unchanged h.basePath host watched) :
    h.ReadsBack listed host (h.readNext host) := by
  rcases h.readNext_cases host with ⟨closed, read⟩ | ⟨dot, dots, stream, due, read⟩ |
    ⟨stream, due, read⟩
  · rw [read]
    exact follows.read_closed closed
  · rw [read]
    exact follows.read_dot due unchanged
  · rw [read]
    exact follows.readEntries due unchanged

/-! ## Operations and runs -/

theorem cursor_begun_of_ok {d : DirId} (directory : host.openDirectory h.basePath = .ok d) :
    (h.begun host).cursor = some ⟨dotNames, .unread d⟩ := by
  simp only [begun, firstCursor, directory]
  rfl

theorem cursor_begun_of_error {e : Host.HostError}
    (directory : host.openDirectory h.basePath = .error e) : (h.begun host).cursor = none := by
  simp only [begun, firstCursor, directory]

theorem follows_begun (h : Handle) (host : View) :
    (h.begun host).Follows (watch? host h.basePath) := by
  cases directory : host.openDirectory h.basePath with
  | error e => exact follows_of_closed (cursor_begun_of_error directory)
  | ok d =>
      have watched : ⟨d, host.entries d⟩ ∈ watch? host h.basePath := by simp [watch?, directory]
      exact follows_of_listing (cursor_begun_of_ok directory) rfl (List.Subset.refl _) watched rfl

/-- The phases of a handle whose listing begins are the ones that the automaton begins with. -/
theorem begins_of_tracks {phase : Phase}
    (tracks : (h.begun host).Tracks (watch? host h.basePath) phase) :
    Begins host h.basePath phase := by
  cases directory : host.openDirectory h.basePath with
  | error e =>
      rw [tracks.eq_of_closed (cursor_begun_of_error directory)]
      exact .fails directory
  | ok d =>
      obtain ⟨order, watched, member, possible, rfl⟩ :=
        tracks.exists_order (cursor_begun_of_ok directory)
      simp only [watch?, directory, Option.mem_def, Option.some.injEq] at member
      subst member
      exact .lists directory possible

/-- The first reading of a listing, backwards. -/
theorem readFirst_begins
    (unchanged : ∀ watched ∈ watch? host h.basePath, Unchanged h.basePath host watched) :
    (h.readFirst host).2.Follows (watch? host h.basePath) ∧
      ∀ phase, (h.readFirst host).2.Tracks (watch? host h.basePath) phase →
        ∃ begun, Begins host h.basePath begun ∧
          begun.read h.page host h.basePath = ((h.readFirst host).1.map Entry.seen, phase) := by
  rw [readFirst_eq]
  obtain ⟨follows, backwards⟩ := (h.follows_begun host).readNext unchanged
  refine ⟨follows, fun phase tracks => ?_⟩
  obtain ⟨begun, before, read⟩ := backwards phase tracks
  exact ⟨begun, begins_of_tracks before, read⟩

/-- **One operation, backwards**: a phase that belongs to the handle after it comes by a step of the
automaton from one that belonged to the handle before it. -/
theorem Follows.exists_step (follows : h.Follows listed) (op : Operation)
    (unchanged : ∀ watched ∈ op.watched host h.basePath listed h.started,
      Unchanged h.basePath host watched) :
    (h.perform host op).2.Follows (op.watched host h.basePath listed h.started) ∧
      ∀ phase, (h.perform host op).2.Tracks (op.watched host h.basePath listed h.started) phase →
        ∃ before, h.Tracks listed before ∧
          Step host h.basePath ⟨h.page, before⟩ op ((h.perform host op).1.map Entry.seen)
            ⟨(h.perform host op).2.page, phase⟩ := by
  obtain ⟨somePhase, trackedNow⟩ := follows.exists_tracks
  have pageOnward : (h.readNext host).2.page = h.page := (h.readNext_keeps host).2.1
  have pageRestart : (h.readFirst host).2.page = h.page := by
    rw [readFirst_eq]
    exact ((h.begun host).readNext_keeps host).2.1
  cases op with
  | readFirst =>
      obtain ⟨after, backwards⟩ := readFirst_begins unchanged
      refine ⟨after, fun phase tracks => ?_⟩
      obtain ⟨begun, begins, read⟩ := backwards phase tracks
      have step := Step.readFirst (s := ⟨h.page, somePhase⟩) begins
      rw [read] at step
      exact ⟨somePhase, trackedNow, pageRestart ▸ step⟩
  | readNext =>
      obtain ⟨after, backwards⟩ := follows.readNext unchanged
      refine ⟨after, fun phase tracks => ?_⟩
      obtain ⟨before, tracked, read⟩ := backwards phase tracks
      have step : Step host h.basePath ⟨h.page, before⟩ .readNext
          (.read (before.read h.page host h.basePath).1)
          ⟨h.page, (before.read h.page host h.basePath).2⟩ := .readNext
      rw [read] at step
      exact ⟨before, tracked, pageOnward ▸ step⟩
  | next =>
      cases started : h.started with
      | true =>
          have same : h.next host = h.readNext host := by simp [next, started]
          simp only [perform, same]
          rw [started] at unchanged
          obtain ⟨after, backwards⟩ := follows.readNext unchanged
          refine ⟨after, fun phase tracks => ?_⟩
          obtain ⟨before, tracked, read⟩ := backwards phase tracks
          have going : before ≠ .neverStarted := by
            rintro rfl
            cases tracked with
            | neverStarted _ never =>
                rw [started] at never
                cases never
          have step : Step host h.basePath ⟨h.page, before⟩ .next
              (.read (before.read h.page host h.basePath).1)
              ⟨h.page, (before.read h.page host h.basePath).2⟩ := .nextOn going
          rw [read] at step
          exact ⟨before, tracked, pageOnward ▸ step⟩
      | false =>
          have same : h.next host = h.readFirst host := by simp [next, started]
          have closed : h.cursor = none := by
            apply Classical.byContradiction
            intro open_
            rw [follows.started open_] at started
            cases started
          simp only [perform, same]
          rw [started] at unchanged
          obtain ⟨after, backwards⟩ := readFirst_begins unchanged
          refine ⟨after, fun phase tracks => ?_⟩
          obtain ⟨begun, begins, read⟩ := backwards phase tracks
          have step := Step.nextFirst (s := ⟨h.page, .neverStarted⟩) rfl begins
          rw [read] at step
          exact ⟨.neverStarted, .neverStarted closed started, pageRestart ▸ step⟩
  | close =>
      exact ⟨follows_of_closed rfl, fun phase tracks =>
        ⟨somePhase, trackedNow, follows.close_eq trackedNow tracks ▸ .close⟩⟩
  | isOpen =>
      refine ⟨follows, fun phase tracks => ⟨phase, tracks, ?_⟩⟩
      show Step host h.basePath _ _ (.inProgress h.isOpen) _
      exact (Tracks.isOpen_eq tracks : h.isOpen = _) ▸ .isOpen
  | withCodePage page =>
      exact ⟨⟨follows.started, follows.listing⟩, fun phase tracks =>
        ⟨phase, tracks.congr rfl rfl, .withCodePage page⟩⟩
  | withMode mode =>
      exact ⟨⟨follows.started, follows.listing⟩, fun phase tracks =>
        ⟨phase, tracks.congr rfl rfl, .withMode mode⟩⟩

/-- Operations on a handle while directories stay the same are a run of the automaton from a phase
that belongs to the handle. -/
theorem Follows.exists_run {moments : List (Operation × View)} (follows : h.Follows listed)
    (steady : Steady h.basePath listed h.started moments) :
    ∃ phase last, h.Tracks listed phase ∧
      Run h.basePath ⟨h.page, phase⟩ moments
        ((h.performAll moments).1.map (Answer.map Entry.seen)) last ∧
      last.page = (h.performAll moments).2.page ∧
      last.phase.isListing = (h.performAll moments).2.isOpen := by
  induction moments generalizing h listed with
  | nil =>
      obtain ⟨phase, tracks⟩ := follows.exists_tracks
      exact ⟨phase, _, tracks, .nil _, rfl, tracks.isOpen_eq.symm⟩
  | cons moment rest ih =>
      obtain ⟨op, host⟩ := moment
      obtain ⟨unchanged, later⟩ := steady
      obtain ⟨base, started⟩ := h.perform_keeps host op
      obtain ⟨after, backwards⟩ := follows.exists_step op unchanged
      have steadyLater : Steady (h.perform host op).2.basePath
          (op.watched host h.basePath listed h.started) (h.perform host op).2.started rest := by
        rw [base, started]
        exact later
      obtain ⟨phase, last, tracks, run, page, listing⟩ := ih after steadyLater
      obtain ⟨before, tracked, step⟩ := backwards phase tracks
      rw [base] at run
      exact ⟨before, last, tracked, .cons step run, page, listing⟩

end Handle

/-- **A handle is a listing automaton.**  A handle is opened and used in any way, while no directory
changes as long as it is listed.  Its answers, but for the short names, are those of the automaton,
which has never started at first; at the end the same code page is in force, and a listing is in
progress or not.  Where there is none, reading on answers that there is nothing and changes nothing,
and so does closing. -/
theorem answers_of_automaton {before : View} {path : Text} {opened : Handle}
    {moments : List (Operation × View)} (fresh : Handle.open? before path = .ok opened)
    (steady : Steady path none false moments) :
    let answers := (opened.performAll moments).1
    let h := (opened.performAll moments).2
    (∃ last, Run path ⟨.western, .neverStarted⟩ moments (answers.map (Answer.map Entry.seen)) last ∧
      last.page = h.page ∧ last.phase.isListing = h.isOpen) ∧
    (h.isOpen = false → ∀ host,
      h.perform host .readNext = (.read none, h) ∧ h.perform host .close = (.done, h)) := by
  obtain rfl := Handle.eq_of_open? fresh
  intro answers h
  have follows : Handle.Follows ⟨path, .western, .synthesize, .empty, none, false⟩ none :=
    Handle.follows_of_closed rfl
  obtain ⟨phase, last, tracks, run, page, listing⟩ := follows.exists_run steady
  obtain rfl : phase = .neverStarted := tracks.eq_of_closed rfl
  refine ⟨⟨last, run, page, listing⟩, fun notOpen host => ?_⟩
  have closed : h.cursor = none := by simpa [Handle.isOpen] using notOpen
  have unread : h.readNext host = (none, h) := by simp only [Handle.readNext, closed]
  have unclosed : h.close = h := by
    show { h with cursor := none } = h
    rw [← closed]
  exact ⟨by simp only [Handle.perform, unread], by simp only [Handle.perform, unclosed]⟩

/-! ## Poles -/

/-- A directory with a directory, links that lead to it and to nothing, and names that are hidden. -/
def shelfTree (entries : List (Name × Nat)) : Tree :=
  ⟨#[.directory 0o755 0 [(.text "work".toList, 1)], .directory 0o755 0 entries,
    .directory 0o755 1 [], .link "sub".toList, .link "gone".toList, .file 0o644], 0, 1⟩

def shelfEntries : List (Name × Nat) :=
  [(.text "sub".toList, 2), (.text "to sub".toList, 3), (.raw [0xff], 5), (.text "日本".toList, 5),
    (.text "dangling".toList, 4)]

/-- The order changes when the first host entry is due, the page in the middle of the listing, and
the listing is restarted, closed, and not begun again. -/
def shelfMoments : List (Operation × View) :=
  let host := (shelfTree shelfEntries).view
  let back := (shelfTree shelfEntries.reverse).view
  [(.readNext, host), (.next, host), (.next, host), (.readNext, back), (.isOpen, host),
    (.withCodePage ⟨932⟩, host), (.next, host), (.withMode .hostOnly, host), (.next, host),
    (.readFirst, back), (.close, back), (.next, host)]

theorem shelf_answers :
    let host := (shelfTree shelfEntries).view
    let opened : Handle := ⟨['.'], .western, .synthesize, .empty, none, false⟩
    let answers := (opened.performAll shelfMoments).1
    let h := (opened.performAll shelfMoments).2
    Handle.open? host ['.'] = .ok opened ∧ Steady ['.'] none false shelfMoments ∧
      ((∃ last, Run ['.'] ⟨.western, .neverStarted⟩ shelfMoments
          (answers.map (Answer.map Entry.seen)) last ∧
          last.page = h.page ∧ last.phase.isListing = h.isOpen) ∧
        (h.isOpen = false → ∀ host,
          h.perform host .readNext = (.read none, h) ∧ h.perform host .close = (.done, h))) ∧
      answers.map (Answer.map Entry.seen) =
        [.read none, .read (some ⟨".".toList, true⟩), .read (some ⟨"..".toList, true⟩),
          .read (some ⟨"dangling".toList, false⟩), .inProgress true, .done,
          .read (some ⟨"日本".toList, false⟩), .done, .read (some ⟨"to sub".toList, true⟩),
          .read (some ⟨".".toList, true⟩), .done, .read none] := by
  intro host opened answers h
  have fresh : Handle.open? host ['.'] = .ok opened := rfl
  have steady : Steady ['.'] none false shelfMoments := by decide +kernel
  exact ⟨fresh, steady, answers_of_automaton fresh steady, by decide +kernel⟩

/-- A directory `dd` with a directory in it. -/
def nestedTree : Tree :=
  ⟨#[.directory 0o755 0 [(.text "work".toList, 1)],
    .directory 0o755 0 [(.text "dd".toList, 2)], .directory 0o755 1 [(.text "subdir".toList, 3)],
    .directory 0o755 2 []], 0, 1⟩

/-- A path to `dd` with so many components that it only just leaves room for a dot. -/
def longPath : Text :=
  "dd".toList ++ (List.replicate 2045 "/.".toList).flatten

/-- Where the path of an entry is too long for the host, following it does not show a directory; the
entry is listed as what it is. -/
theorem longPath_isDirectory :
    let host := nestedTree.view
    let opened : Handle := ⟨longPath, .western, .synthesize, .empty, none, false⟩
    Handle.open? host longPath = .ok opened ∧
      (opened.performAll [(.readFirst, host), (.readNext, host), (.readNext, host)]).1 =
        [.read (some ⟨".".toList, ".".toList, true⟩), .read (some ⟨"..".toList, "..".toList, true⟩),
          .read (some ⟨"subdir".toList, "subdir".toList, true⟩)] ∧
      host.isDirectory (childPath longPath "subdir".toList) = false := by
  intro host opened
  have ok_of_toOption : ∀ {α : Type} {result : Except Host.HostError α} {a : α},
      result.toOption = some a → result = .ok a := by
    intro α result a found
    cases result <;> cases found
    rfl
  have directory : host.stat longPath = .ok .directory := ok_of_toOption (by decide +kernel)
  have listed : host.openDirectory longPath = .ok 2 := ok_of_toOption (by decide +kernel)
  have nonempty : longPath.isEmpty = false := by decide +kernel
  refine ⟨?_, by decide +kernel, by decide +kernel⟩
  simp only [Handle.open?, nonempty, directory, listed]
  rfl

end GuestDos.Listing
