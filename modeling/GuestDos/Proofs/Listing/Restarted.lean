/-
# GuestDos.Proofs.Listing.Restarted -- what a restarted listing makes of legal names

A handle keeps the short names that it has handed out when its listing is started again, while the
directory may have changed in between.  An alias from an earlier listing then may read like a legal
name that the directory has now, and that name cannot claim itself.  Nothing else gets in the way: a
legal name that no other legal name of the directory equals is listed under itself just when no other
host name holds it.

* `ShortNames.Held` -- another host name holds a name; that stays (`Held.run`).
* `ShortNames.Settled` -- a legal name that has another short name than itself is held.  A call under
  the page in force keeps it (`Settled.call`), and so does every use of a handle
  (`settled_performAll`).
* `restarted_keepsOwn` -- which legal names a restarted listing shows under themselves.
* `not_held_of_steady` -- a legal name that the directory has all the time is one of them.
* `stale_alias_renames` -- a legal name that a fresh handle keeps and a restarted one does not.
-/
import GuestDos.Proofs.Listing.Operations
import GuestDos.Proofs.Listing.Keepers

namespace GuestDos

set_option autoImplicit false

/-! ## Names that are held -/

namespace Naming.ShortNames

/-- Another host name has a short name that a host name equals without regard to ASCII case. -/
def Held (names : ShortNames) (host : Text) : Prop :=
  ∃ other short : Text, names.assigned[other]? = some short ∧ other ≠ host ∧
    Text.upper short = Text.upper host

section Held

variable {names : ShortNames} {page : CodePage} {host short : Text}

theorem not_held_empty (host : Text) : ¬ empty.Held host := by
  rintro ⟨other, short, seen, -, -⟩
  simp at seen

/-- A name stays held. -/
theorem Held.run (held : names.Held host) (calls : List Call) : (names.run calls).Held host := by
  obtain ⟨other, short, seen, different, same⟩ := held
  exact ⟨other, short, assigned_run seen calls, different, same⟩

/-- A host name whose name is held has a short name that differs from it in more than ASCII case. -/
theorem Held.upper_ne (held : names.Held host) (consistent : names.Consistent)
    (seen : names.assigned[host]? = some short) : Text.upper short ≠ Text.upper host := by
  obtain ⟨other, otherShort, otherSeen, different, same⟩ := held
  exact fun own => different
    (consistent.injective other host otherShort short otherSeen seen (same.trans own.symm))

/-- A name in use that its host name does not have is held. -/
theorem Consistent.held (consistent : names.Consistent) (unseen : names.assigned[host]? = none)
    (used : names.isUsed host = true) : names.Held host := by
  obtain ⟨other, short, seen, same⟩ := (consistent.mem_used_iff _).1 ((names.isUsed_iff host).1 used)
  refine ⟨other, short, seen, ?_, same⟩
  rintro rfl
  rw [unseen] at seen
  cases seen

/-- A legal name that is not in use gets itself, whether it claims or asks. -/
theorem assigned_call_of_unused {c : Call} (unseen : names.assigned[c.host]? = none)
    (legal : isLegal c.page c.host = true) (unused : names.isUsed c.host = false) :
    (names.call c).assigned[c.host]? = some c.host := by
  cases c with
  | reserve page host =>
      simp only [Call.host, Call.page] at unseen legal unused
      simp [Call.host, call, reserve_of_unseen page unseen, legal, unused, getElem?_record]
  | assign page host =>
      simp only [Call.host, Call.page] at unseen legal unused
      simp [Call.host, call, assign_of_unseen page unseen, newShort, legal, unused, getElem?_record]

end Held

/-! ## What is settled -/

/-- A legal name that was given another short name than itself is held. -/
structure Settled (page : CodePage) (names : ShortNames) : Prop where
  consistent : names.Consistent
  own_or_held : ∀ host short : Text, names.assigned[host]? = some short →
    isLegal page host = true → short = host ∨ names.Held host

theorem settled_empty (page : CodePage) : empty.Settled page where
  consistent := consistent_empty
  own_or_held host short seen := by simp at seen

section Settled

variable {names : ShortNames} {page : CodePage} {host : Text}

/-- A call under the page that is in force keeps what is settled. -/
theorem Settled.call (settled : names.Settled page) {c : Call} (inForce : c.page = page) :
    (names.call c).Settled page where
  consistent := settled.consistent.call c
  own_or_held host short seen legal := by
    cases before : names.assigned[host]? with
    | some known =>
        rw [assigned_call before] at seen
        obtain rfl := Option.some.inj seen
        exact (settled.own_or_held host known before legal).imp_right fun held => held.run [c]
    | none =>
        -- only a call about the name itself hands out its short name
        by_cases about : host = c.host
        · subst about
          subst inForce
          cases used : names.isUsed c.host with
          | true => exact .inr ((settled.consistent.held before used).run [c])
          | false =>
              rw [assigned_call_of_unused before legal used] at seen
              exact .inl (Option.some.inj seen).symm
        · rw [assigned_call_of_ne _ c about, before] at seen
          cases seen

theorem Settled.run (settled : names.Settled page) {calls : List Call}
    (inForce : ∀ c ∈ calls, c.page = page) : (names.run calls).Settled page := by
  induction calls generalizing names with
  | nil => exact settled
  | cons c rest ih =>
      obtain ⟨now, later⟩ := List.forall_mem_cons.1 inForce
      exact ih (settled.call now) later

/-- A legal name that no other host name holds has itself after its claim. -/
theorem Settled.assigned_reserve (settled : names.Settled page) (legal : isLegal page host = true)
    (free : ¬ names.Held host) : (names.call (.reserve page host)).assigned[host]? = some host := by
  cases before : names.assigned[host]? with
  | some short =>
      obtain rfl := (settled.own_or_held host short before legal).resolve_right free
      exact assigned_call before _
  | none =>
      refine assigned_call_of_unused (c := .reserve page host) before legal ?_
      rw [← Bool.not_eq_true]
      exact fun used => free (settled.consistent.held before used)

/-- A claim of its own, or of no twin of it, does not make a name held. -/
theorem not_held_reserve {claim : Text} (free : ¬ names.Held host)
    (alone : isLegal page claim = true → Text.upper claim = Text.upper host → claim = host) :
    ¬ (names.call (.reserve page claim)).Held host := by
  rintro ⟨other, short, seen, different, same⟩
  have unheld : names.assigned[other]? ≠ some short :=
    fun before => free ⟨other, short, before, different, same⟩
  change (names.reserve page claim).2.assigned[other]? = some short at seen
  cases before : names.assigned[claim]? with
  | some known =>
      rw [reserve_of_seen page before] at seen
      exact unheld seen
  | none =>
      rw [reserve_of_unseen page before] at seen
      split at seen
      · rename_i itself
        rw [getElem?_record] at seen
        split at seen
        · rename_i about
          obtain rfl := Option.some.inj seen
          exact different (about ▸ alone (Bool.and_eq_true_iff.1 itself).1 same)
        · exact unheld seen
      · exact unheld seen

/-- **Claims**: after those of a directory, a legal name in it that no other legal name there equals
has itself, unless another host name held it before. -/
theorem Settled.assigned_claims (settled : names.Settled page) {texts : List Text}
    (member : host ∈ texts) (legal : isLegal page host = true) (free : ¬ names.Held host)
    (alone : ∀ other ∈ legalNames page texts, Text.upper other = Text.upper host → other = host) :
    (names.run (texts.map (Call.reserve page))).assigned[host]? = some host := by
  induction texts generalizing names with
  | nil => cases member
  | cons claim rest ih =>
      have aloneFirst : isLegal page claim = true → Text.upper claim = Text.upper host →
          claim = host :=
        fun known => alone claim (mem_legalNames.2 ⟨List.mem_cons_self, known⟩)
      rcases List.mem_cons.1 member with rfl | later
      · exact assigned_run (settled.assigned_reserve legal free) _
      · refine ih (settled.call rfl) later (not_held_reserve free aloneFirst) ?_
        intro other known
        obtain ⟨here, known⟩ := mem_legalNames.1 known
        exact alone other (mem_legalNames.2 ⟨List.mem_cons_of_mem claim here, known⟩)

end Settled

end Naming.ShortNames

/-! ## The short names of a handle -/

namespace Listing

open GuestDos.Host (View DirEntry DirId)
open GuestDos.Naming (CodePage ShortNames isLegal legalNames mem_legalNames)
open GuestDos.Naming.ShortNames (Call Settled settled_empty)
open Handle (entryTexts visibleNames)

namespace Handle

/-- A beginning makes calls under the page in force, if any: the claims. -/
theorem exists_claims (h : Handle) (host : View) : ∃ texts : List Text,
    (h.begun host).shortNames = h.shortNames.run (texts.map (Call.reserve h.page)) := by
  show ∃ texts : List Text, h.reserveLegal host = _
  cases mode : h.mode with
  | hostOnly => exact ⟨[], by simp only [reserveLegal, mode]; rfl⟩
  | synthesize =>
      cases directory : host.openDirectory h.basePath with
      | error e => exact ⟨[], by simp only [reserveLegal, mode, directory]; rfl⟩
      | ok d => exact ⟨_, reserveLegal_eq_run mode directory⟩

/-- A reading makes at most one call, under the page in force. -/
theorem exists_request (h : Handle) (host : View) : ∃ texts : List Text,
    (h.readNext host).2.shortNames = h.shortNames.run (texts.map (Call.assign h.page)) := by
  rcases h.readNext_cases host with ⟨-, same⟩ | ⟨dot, dots, stream, -, read⟩ | ⟨stream, -, read⟩
  · exact ⟨[], by rw [same]; rfl⟩
  · exact ⟨[], by rw [read]; rfl⟩
  · rw [read]
    rcases h.readEntries_cases host (stream.entries host) with
      ⟨-, ended⟩ | ⟨hidden, entry, rest, long, -, -, -, shown⟩
    · exact ⟨[], by rw [ended]; rfl⟩
    · rw [shown]
      show ∃ texts : List Text, (h.shorten long).2 = _
      cases mode : h.mode with
      | hostOnly => exact ⟨[], by simp only [shorten, mode]; rfl⟩
      | synthesize => exact ⟨[long], by simp only [shorten, mode]; rfl⟩

theorem settled_begun {h : Handle} (settled : h.shortNames.Settled h.page) (host : View) :
    (h.begun host).shortNames.Settled (h.begun host).page := by
  obtain ⟨texts, claims⟩ := h.exists_claims host
  rw [claims]
  exact settled.run (by simp [Call.page])

theorem settled_readNext {h : Handle} (settled : h.shortNames.Settled h.page) (host : View) :
    (h.readNext host).2.shortNames.Settled (h.readNext host).2.page := by
  obtain ⟨texts, request⟩ := h.exists_request host
  rw [request, (h.readNext_keeps host).2.1]
  exact settled.run (by simp [Call.page])

/-- **What is settled stays**, whatever is done with a handle: calls are made under the page in
force, and with another page the short names are forgotten. -/
theorem settled_performAll {h : Handle} (settled : h.shortNames.Settled h.page)
    (moments : List (Operation × View)) :
    (h.performAll moments).2.shortNames.Settled (h.performAll moments).2.page := by
  refine performAll_invariant (fun now => now.shortNames.Settled now.page) ?_ settled
  intro now moment _ kept
  refine perform_invariant (fun now => now.shortNames.Settled now.page) kept moment.2 moment.1
    (settled_begun kept _) (fun _ settled => settled_readNext settled _) kept ?_ ?_
  · exact fun page _ => settled_empty page
  · exact fun mode _ => kept

/-- A handle lists the same directory all the time. -/
theorem basePath_performAll (h : Handle) (moments : List (Operation × View)) :
    (h.performAll moments).2.basePath = h.basePath :=
  performAll_invariant (fun now => now.basePath = h.basePath)
    (fun now moment _ kept => (now.perform_keeps moment.2 moment.1).1.trans kept) rfl

/-- What is read has the short names that some calls after the claims have given it. -/
theorem assigned_readThrough {h : Handle} (mode : h.mode = .synthesize) (host : View)
    (claims : ShortNames) (entries : List DirEntry) :
    ∀ file ∈ (h.readThrough host claims entries).1, ∃ calls : List Call,
      (claims.run calls).assigned[file.longName]? = some file.shortName := by
  intro file member
  have more : ∀ (calls : List Call) (long : Text), ((claims.run calls).assign h.page long).2 =
      claims.run (calls ++ [.assign h.page long]) := fun calls long =>
    (claims.run_concat calls (.assign h.page long)).symm
  obtain ⟨before, ⟨calls, rfl⟩, short⟩ := readThrough_keeps mode host
    (fun names => ∃ calls : List Call, names = claims.run calls) ⟨[], rfl⟩
    (fun names long _ ⟨calls, made⟩ => ⟨calls ++ [.assign h.page long], made ▸ more calls long⟩)
    file member
  refine ⟨calls ++ [.assign h.page file.longName], ?_⟩
  rw [← more, short]
  exact ShortNames.assigned_assign _ _ _

end Handle

/-! ## A listing that is started again -/

/-- **Which legal names a restarted listing keeps.**  A handle is opened and used in any way, while
the host changes in any way, and then its listing is started, with short names synthesized.  The host
lists the directory in one order when the legal names claim themselves and in any other when the
entries are read.  The listing has the dots and then every visible name.  A legal name that no other
legal name of the directory equals without regard to ASCII case has itself for a short name if no
other host name that the handle has met holds it; and one that differs in more than ASCII case if
some other does. -/
theorem restarted_keepsOwn {before reserving reading : View} {path : Text} {opened : Handle}
    {d : DirId} {moments : List (Operation × View)}
    (fresh : Handle.open? before path = .ok opened)
    (mode : (opened.performAll moments).2.mode = .synthesize)
    (directory : reserving.openDirectory path = .ok d)
    (unchanged : ((reading.entries d).map (·.name)).Perm ((reserving.entries d).map (·.name))) :
    let h := (opened.performAll moments).2
    let legal := legalNames h.page (entryTexts (reserving.entries d))
    ∃ files ended, Handle.readOn reading (h.readFirst reserving) =
        (h.dotEntry ['.'] :: h.dotEntry ['.', '.'] :: files, ended) ∧
      (ended.readNext reading).1 = none ∧
      files.map (·.longName) = visibleNames h.page (reading.entries d) ∧
      (∀ name ∈ legal, ∃ file ∈ files, file.longName = name) ∧
      ∀ file ∈ files, file.longName ∈ legal →
        (∀ other ∈ legal, Text.upper other = Text.upper file.longName → other = file.longName) →
        (¬ h.shortNames.Held file.longName → file.shortName = file.longName) ∧
          (h.shortNames.Held file.longName →
            Text.upper file.shortName ≠ Text.upper file.longName) := by
  intro h legal
  have settled : h.shortNames.Settled h.page := by
    refine Handle.settled_performAll ?_ moments
    rw [Handle.eq_of_open? fresh]
    exact settled_empty _
  have base : h.basePath = path := by
    rw [Handle.basePath_performAll, Handle.eq_of_open? fresh]
  rw [← base] at directory
  have listed := Handle.readOn_readFirst reading directory
  rw [reserveLegal_eq_run mode directory] at listed
  refine ⟨_, _, listed, Handle.readNext_end _ _ reading ▸ rfl,
    Handle.longName_readThrough _ reading _ _, ?_, ?_⟩
  · exact legal_readThrough { h with started := true } reading _ unchanged
  intro file member known alone
  -- the short name was given by the calls that follow the claims, and no call takes one back
  obtain ⟨calls, given⟩ :=
    Handle.assigned_readThrough (h := { h with started := true }) mode reading _ _ file member
  constructor
  · intro free
    obtain ⟨text, lawful⟩ := mem_legalNames.1 known
    have claimed := settled.assigned_claims text lawful free alone
    rw [ShortNames.assigned_run claimed calls] at given
    exact (Option.some.inj given).symm
  · intro held
    exact ((held.run _).run calls).upper_ne ((settled.consistent.run _).run calls) given

/-! ## Names that stay -/

/-- The directory has a legal name that no other legal name in it equals without regard to ASCII
case. -/
structure HasAlone (page : CodePage) (path name : Text) (d : DirId) (host : View) : Prop where
  opens : host.openDirectory path = .ok d
  legal : name ∈ legalNames page (entryTexts (host.entries d))
  alone : ∀ other ∈ legalNames page (entryTexts (host.entries d)),
    Text.upper other = Text.upper name → other = name

/-- A name is its own short name, or the handle has handed out none and is not listing. -/
structure Handle.Keeps (page : CodePage) (path name : Text) (h : Handle) : Prop where
  page_eq : h.page = page
  base_eq : h.basePath = path
  mode : h.mode = .synthesize
  settled : h.shortNames.Settled h.page
  own : h.cursor = none ∧ h.shortNames = .empty ∨ h.shortNames.assigned[name]? = some name

namespace Handle.Keeps

variable {page : CodePage} {path name : Text} {h : Handle} {host : View}

theorem not_held (keeps : h.Keeps page path name) : ¬ h.shortNames.Held name := by
  rcases keeps.own with ⟨-, unused⟩ | own
  · rw [unused]
    exact ShortNames.not_held_empty name
  · exact fun held => held.upper_ne keeps.settled.consistent own rfl

theorem readNext (keeps : h.Keeps page path name) (host : View) :
    (h.readNext host).2.Keeps page path name := by
  obtain ⟨base, samePage, -, sameMode⟩ := h.readNext_keeps host
  refine ⟨samePage.trans keeps.page_eq, base.trans keeps.base_eq, sameMode.trans keeps.mode,
    settled_readNext keeps.settled host, ?_⟩
  rcases keeps.own with ⟨closed, unused⟩ | own
  · have unread : h.readNext host = (none, h) := by simp only [Handle.readNext, closed]
    rw [unread]
    exact .inl ⟨closed, unused⟩
  · obtain ⟨texts, request⟩ := h.exists_request host
    rw [request]
    exact .inr (ShortNames.assigned_run own _)

/-- A name that is there and alone when a listing begins gets itself then. -/
theorem begun {d : DirId} (keeps : h.Keeps page path name) (there : HasAlone page path name d host) :
    (h.begun host).Keeps page path name where
  page_eq := keeps.page_eq
  base_eq := keeps.base_eq
  mode := keeps.mode
  settled := settled_begun keeps.settled host
  own := by
    obtain ⟨rfl, rfl, mode, settled, -⟩ := id keeps
    obtain ⟨text, legal⟩ := mem_legalNames.1 there.legal
    refine .inr ?_
    show (h.reserveLegal host).assigned[name]? = some name
    rw [reserveLegal_eq_run mode there.opens]
    exact settled.assigned_claims text legal keeps.not_held there.alone

theorem performAll {d : DirId} {moments : List (Operation × View)} (keeps : h.Keeps page path name)
    (steady : ∀ moment ∈ moments, moment.1.keepsPage = true ∧ moment.1 ≠ .withMode .hostOnly ∧
      HasAlone page path name d moment.2) : (h.performAll moments).2.Keeps page path name := by
  refine performAll_invariant _ (fun now moment member keeps => ?_) keeps
  obtain ⟨samePage, sameMode, there⟩ := steady moment member
  refine perform_invariant _ keeps moment.2 moment.1 (keeps.begun there)
    (fun _ keeps => keeps.readNext _) ?_ ?_ ?_
  · exact ⟨keeps.page_eq, keeps.base_eq, keeps.mode, keeps.settled,
      keeps.own.imp_left fun unused => ⟨rfl, unused.2⟩⟩
  · intro other changes
    rw [changes] at samePage
    cases samePage
  · intro mode changes
    cases mode with
    | hostOnly => exact absurd changes sameMode
    | synthesize => exact ⟨keeps.page_eq, keeps.base_eq, rfl, keeps.settled, keeps.own⟩

end Handle.Keeps

/-- **A legal name that stays is never held.**  A handle is opened and synthesizes short names under
one page, and at every moment of its use the directory has the name and no other legal one that
equals it without regard to ASCII case; other names come and go.  Then no other host name holds it,
so that a restarted listing shows it under itself. -/
theorem not_held_of_steady {before : View} {path name : Text} {opened : Handle} (page : CodePage)
    {d : DirId} {moments : List (Operation × View)}
    (fresh : Handle.open? before path = .ok opened)
    (steady : ∀ moment ∈ moments, moment.1.keepsPage = true ∧ moment.1 ≠ .withMode .hostOnly ∧
      HasAlone page path name d moment.2) :
    ¬ ((opened.withCodePage page).performAll moments).2.shortNames.Held name := by
  obtain rfl := Handle.eq_of_open? fresh
  exact (Handle.Keeps.performAll ⟨rfl, rfl, rfl, settled_empty page, .inl ⟨rfl, rfl⟩⟩
    steady).not_held

/-! ## Poles -/

/-- A directory with a long name and a legal one, and what becomes of it: the long name is gone, and
a legal name that reads like its alias is there. -/
def longFiles : List DirEntry :=
  [⟨.text "readme.txt".toList, .file⟩, ⟨.text "longfilename.txt".toList, .file⟩]

def legalFiles : List DirEntry :=
  [⟨.text "readme.txt".toList, .file⟩, ⟨.text "LONGFI~1.TXT".toList, .file⟩]

/-- A whole listing of the directory as it was first. -/
def longMoments : List (Operation × View) :=
  [.readFirst, .readNext, .next, .readNext, .next].map fun op => (op, uniformView longFiles)

/-- The name that reads like the alias is held, and the one that was there all the time is not. -/
theorem longMoments_keepsOwn :
    let opened : Handle := ⟨['.'], .western, .synthesize, .empty, none, false⟩
    let h := (opened.performAll longMoments).2
    let host := uniformView legalFiles
    let legal := legalNames h.page (entryTexts (host.entries 0))
    Handle.open? (uniformView longFiles) ['.'] = .ok opened ∧ h.mode = .synthesize ∧
      host.openDirectory ['.'] = .ok 0 ∧
      ((host.entries 0).map (·.name)).Perm ((host.entries 0).map (·.name)) ∧
      (∃ files ended, Handle.readOn host (h.readFirst host) =
          (h.dotEntry ['.'] :: h.dotEntry ['.', '.'] :: files, ended) ∧
        (ended.readNext host).1 = none ∧
        files.map (·.longName) = visibleNames h.page (host.entries 0) ∧
        (∀ name ∈ legal, ∃ file ∈ files, file.longName = name) ∧
        ∀ file ∈ files, file.longName ∈ legal →
          (∀ other ∈ legal, Text.upper other = Text.upper file.longName →
            other = file.longName) →
          (¬ h.shortNames.Held file.longName → file.shortName = file.longName) ∧
            (h.shortNames.Held file.longName →
              Text.upper file.shortName ≠ Text.upper file.longName)) ∧
      h.shortNames.Held "LONGFI~1.TXT".toList ∧ ¬ h.shortNames.Held "readme.txt".toList := by
  intro opened h host legal
  have fresh : Handle.open? (uniformView longFiles) ['.'] = .ok opened := rfl
  have mode : h.mode = .synthesize := by decide +kernel
  have alias_ : h.shortNames.assigned["longfilename.txt".toList]? = some "LONGFI~1.TXT".toList := by
    decide +kernel
  have there : HasAlone .western ['.'] "readme.txt".toList 0 (uniformView longFiles) :=
    ⟨rfl, by decide +kernel, by decide +kernel⟩
  have steady : ∀ moment ∈ longMoments, moment.1.keepsPage = true ∧
      moment.1 ≠ .withMode .hostOnly ∧
      HasAlone .western ['.'] "readme.txt".toList 0 moment.2 := by
    intro moment member
    obtain ⟨op, listing, rfl⟩ := List.mem_map.1 member
    have settings : op.keepsPage = true ∧ op ≠ .withMode .hostOnly := by
      clear member
      revert op
      decide
    exact ⟨settings.1, settings.2, there⟩
  have same : opened.withCodePage .western = opened := rfl
  have stays := not_held_of_steady .western fresh steady
  rw [same] at stays
  exact ⟨fresh, mode, rfl, List.Perm.refl _, restarted_keepsOwn fresh mode rfl (List.Perm.refl _),
    ⟨"longfilename.txt".toList, "LONGFI~1.TXT".toList, alias_, by decide, rfl⟩, stays⟩

/-- The long name is listed and removed, the legal name is made, and the listing is started again.
The alias still stands for the long name, so the legal name is listed under another; a fresh handle
lists it under itself. -/
theorem stale_alias_renames :
    let opened : Handle := ⟨['.'], .western, .synthesize, .empty, none, false⟩
    let host := uniformView legalFiles
    let lines := fun h : Handle => (h.readAll host).1.map fun file => (file.longName, file.shortName)
    lines opened =
        [(".".toList, ".".toList), ("..".toList, "..".toList),
          ("readme.txt".toList, "readme.txt".toList),
          ("LONGFI~1.TXT".toList, "LONGFI~1.TXT".toList)] ∧
      lines (opened.performAll longMoments).2 =
        [(".".toList, ".".toList), ("..".toList, "..".toList),
          ("readme.txt".toList, "readme.txt".toList),
          ("LONGFI~1.TXT".toList, "LONGFI~2.TXT".toList)] := by
  decide +kernel

end Listing

end GuestDos
