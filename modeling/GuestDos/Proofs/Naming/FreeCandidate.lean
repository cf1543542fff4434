/-
# GuestDos.Proofs.Naming.FreeCandidate -- the search ends at the first candidate that is free

A host name that cannot have itself gets its plain conversion, or the first of its numbered
candidates that is not in use.  `Search` is that search with no bound on its steps.  It ends, because
the candidates differ and only so many names are in use; so the bound of `firstFree` is never what
stops it (`Search.firstFree_eq`).

A conversion that was cut gets a number even where the plain name is free, so that it does not take
that name from a host file that really is called that.  It takes it all the same where the numbered
candidate reads like the plain name.  That is so exactly if the plain title fills all its places and
ends with that very tail: squeezing the tail in then only puts back what it has cut off
(`numbered_eq_plain_iff`).

* `Search` -- on from a number that is taken, done at the first that is free.
* `ShortNames.EndsAt` -- what the search for a host name comes to.
* `assign_first_free` -- which candidate a host name gets.
* `tailed_takes_plain` -- a cut name that gets its plain name.
-/
import GuestDos.Proofs.Naming.AnyOrder

namespace GuestDos.Naming

set_option autoImplicit false

/-! ## A search without a bound -/

/-- The search for a free number as it is made: done at a number that is free, on to the next from
one that is not. -/
inductive Search (isFree : Nat → Bool) : (start found : Nat) → Prop where
  | done {n : Nat} (free : isFree n = true) : Search isFree n n
  | on {n found : Nat} (taken : isFree n = false) (rest : Search isFree (n + 1) found) :
      Search isFree n found

namespace Search

variable {isFree : Nat → Bool} {n found other : Nat}

theorem le (search : Search isFree n found) : n ≤ found := by
  induction search with
  | done free => exact Nat.le_refl _
  | on taken rest ih => exact Nat.le_of_succ_le ih

theorem free (search : Search isFree n found) : isFree found = true := by
  induction search with
  | done free => exact free
  | on taken rest ih => exact ih

/-- Nothing that the search passed is free. -/
theorem taken (search : Search isFree n found) {k : Nat} (from_ : n ≤ k) (before : k < found) :
    isFree k = false := by
  induction search with
  | done free => exact absurd before (Nat.not_lt.2 from_)
  | on taken rest ih =>
      rcases Nat.eq_or_lt_of_le from_ with rfl | later
      · exact taken
      · exact ih later before

/-- A search has one outcome. -/
theorem unique (search : Search isFree n found) (again : Search isFree n other) :
    found = other := by
  rcases Nat.lt_trichotomy found other with less | same | more
  · exact absurd search.free (by simp [again.taken search.le less])
  · exact same
  · exact absurd again.free (by simp [search.taken again.le more])

/-- A search that gets as far as some free number ends. -/
theorem exists_of_free {k : Nat} (from_ : n ≤ k) (free : isFree k = true) :
    ∃ found, found ≤ k ∧ Search isFree n found := by
  obtain ⟨steps, rfl⟩ := Nat.exists_eq_add_of_le from_
  induction steps generalizing n with
  | zero => exact ⟨n, Nat.le_refl n, .done free⟩
  | succ steps ih =>
      cases here : isFree n with
      | true => exact ⟨n, Nat.le_add_right n _, .done here⟩
      | false =>
          have further : n + 1 + steps = n + (steps + 1) := by omega
          obtain ⟨found, within, search⟩ := ih (Nat.le_add_right _ _) (further ▸ free)
          exact ⟨found, further ▸ within, .on here search⟩

/-- Any bound that reaches the outcome leaves it as it is. -/
theorem firstFree_eq (search : Search isFree n found) {steps : Nat} (reach : found ≤ n + steps) :
    firstFree isFree n steps = found := by
  induction search generalizing steps with
  | @done n free =>
      cases steps with
      | zero => rfl
      | succ steps => rw [firstFree, if_pos free]
  | @on n found taken rest ih =>
      have later := rest.le
      obtain ⟨steps, rfl⟩ : ∃ k, steps = k + 1 := ⟨steps - 1, by omega⟩
      rw [firstFree, if_neg (by simp [taken])]
      exact ih (by omega)

end Search

/-! ## The candidates of a host name -/

namespace ShortNames

/-- The search among the numbered candidates of a host name ends at `n`, and nowhere else: the first
of them that is not in use, and at most one more than there are names in use. -/
structure EndsAt (names : ShortNames) (page : CodePage) (host : Text) (n : Nat) : Prop where
  search : Search (names.isFreeNumber page host) 1 n
  only : ∀ m, Search (names.isFreeNumber page host) 1 m → m = n
  positive : 1 ≤ n
  free : names.isUsed (numbered page host n) = false
  least : ∀ k, 1 ≤ k → k < n → names.isUsed (numbered page host k) = true
  bound : n ≤ names.used.size + 1

variable {names : ShortNames} {page : CodePage} {host : Text}

/-- **The search ends**, at the number that the bounded search finds. -/
theorem endsAt_aliasNumber (names : ShortNames) (page : CodePage) (host : Text) :
    names.EndsAt page host (names.aliasNumber page host) := by
  obtain ⟨k, positive, reach, free⟩ := names.exists_free_number page host
  obtain ⟨n, before, search⟩ := Search.exists_of_free positive free
  have found : names.aliasNumber page host = n := search.firstFree_eq (Nat.le_trans before reach)
  rw [found]
  constructor
  case search => exact search
  case only => exact fun m again => again.unique search
  case positive => exact search.le
  case free => simpa [isFreeNumber] using search.free
  case least => exact fun k from_ below => by simpa [isFreeNumber] using search.taken from_ below
  case bound => exact Nat.add_comm 1 _ ▸ Nat.le_trans before reach

/-- What a host name gets that has no short name and cannot have itself. -/
theorem assign_of_refused (unseen : names.assigned[host]? = none)
    (refused : (names.reserve page host).1 = false) :
    (names.assign page host).1 = names.freshAlias page host := by
  rw [reserve_of_unseen page unseen] at refused
  have notItself : (isLegal page host && !names.isUsed host) = false := by
    rw [← Bool.not_eq_true]
    intro itself
    rw [if_pos itself] at refused
    cases refused
  rw [assign_of_unseen page unseen, newShort, notItself]
  rfl

/-- Squeezing a tail into a title puts back what it cuts off exactly if the title ends with that tail
and fills its places. -/
theorem squeeze_eq_self_iff {title : Text} (fits : page.textWidth title ≤ titleWidth) (n : Nat) :
    truncate page (titleWidth - (tailText (some n)).length) title ++ tailText (some n) = title ↔
      tailText (some n) <:+ title ∧ page.textWidth title = titleWidth := by
  have tilde : page.width '~' = 1 := page.width_of_le_ff (by decide)
  have width := textWidth_tailText page (some n)
  constructor
  · intro same
    generalize kept_eq : truncate page (titleWidth - (tailText (some n)).length) title = kept at same
    subst same
    rw [CodePage.textWidth_append, width] at fits ⊢
    -- The place after what was kept was needed for the tail, which starts with a single byte.
    have cut := (truncate_append_eq_iff.1 kept_eq).2
    exact ⟨List.suffix_append _ _, by omega⟩
  · rintro ⟨⟨kept, rfl⟩, full⟩
    rw [CodePage.textWidth_append, width] at full
    have cut : truncate page (titleWidth - (tailText (some n)).length)
        (kept ++ tailText (some n)) = kept :=
      truncate_append_eq_iff.2 ⟨by omega, by omega⟩
    rw [cut]

/-- **When a numbered candidate reads like the plain name.** -/
theorem numbered_eq_plain_iff {n : Nat} :
    numbered page host n = (ShortName.convert page none host).text ↔
      tailText (some n) <:+ (ShortName.convert page none host).title ∧
        page.textWidth (ShortName.convert page none host).title = titleWidth := by
  have plain : (ShortName.convert page none host).title =
      truncate page titleWidth (fullParts (convertText page host)).title := List.append_nil _
  have fits : page.textWidth (ShortName.convert page none host).title ≤ titleWidth := by
    rw [plain]
    exact textWidth_truncate_le page titleWidth _
  have squeezed : (ShortName.convert page (some n) host).title =
      truncate page (titleWidth - (tailText (some n)).length)
        (ShortName.convert page none host).title ++ tailText (some n) := by
    rw [plain, truncate_truncate page (Nat.sub_le _ _)]
    rfl
  rw [← squeeze_eq_self_iff fits n, ← squeezed]
  constructor
  · intro same
    rw [text_injective (presentable_convert page (some n) host).title_dotless
      (presentable_convert page none host).title_dotless same]
  · intro same
    have names : ShortName.convert page (some n) host = ShortName.convert page none host :=
      ShortName.ext same rfl
    exact congrArg ShortName.text names

/-- **Which candidate a host name gets.**  After any calls, under any page, let a host name have no
short name, and not be able to have itself.  Its numbered candidates differ in more than ASCII case,
so the search among them ends: at the first that is not in use, and that is among one more of them
than there are names in use.  The host name gets its plain conversion if nothing of it was cut and it
is not in use, and the candidate at which the search ends otherwise; where the conversion was cut,
that reads like the plain conversion exactly if the plain title fills its places and ends with the
tail of that very candidate. -/
theorem assign_first_free {page : CodePage} {history : List Call} {host : Text}
    (unseen : (empty.run history).assigned[host]? = none)
    (refused : ((empty.run history).reserve page host).1 = false) :
    let names := empty.run history
    let plain := ShortName.convert page none host
    (∀ n k, Text.upper (numbered page host n) = Text.upper (numbered page host k) → n = k) ∧
      ∃ n, names.EndsAt page host n ∧
        (names.assign page host).1 =
          (if isTruncated page host = false ∧ names.isUsed plain.text = false then plain.text
            else numbered page host n) ∧
        (isTruncated page host = true → ((names.assign page host).1 = plain.text ↔
          tailText (some n) <:+ plain.title ∧ page.textWidth plain.title = titleWidth)) := by
  intro names plain
  have given : (names.assign page host).1 = names.freshAlias page host :=
    assign_of_refused unseen refused
  rw [freshAlias_eq] at given
  refine ⟨fun n k => numbered_injective page host, names.aliasNumber page host,
    names.endsAt_aliasNumber page host, ?_, ?_⟩
  · rw [given]
    cases isTruncated page host <;> cases names.isUsed plain.text <;> rfl
  · intro cut
    rw [given, cut]
    exact numbered_eq_plain_iff

/-! ## Poles -/

/-- Legal names in the way: the candidates of a long name with one digit, in either case. -/
def crowded : List Call :=
  (List.range 9).map fun n =>
    .reserve .western ((numbered .western "longfilename.txt".toList (n + 1)).map
      fun c => if n % 2 = 0 then c.toLower else c)

/-- The title gives up one more character for the tenth number. -/
theorem crowded_first_free :
    let names := empty.run crowded
    let host := "longfilename.txt".toList
    let plain := ShortName.convert .western none host
    names.assigned[host]? = none ∧ (names.reserve .western host).1 = false ∧
      ((∀ n k, Text.upper (numbered .western host n) = Text.upper (numbered .western host k) →
          n = k) ∧
        ∃ n, names.EndsAt .western host n ∧
          (names.assign .western host).1 =
            (if isTruncated .western host = false ∧ names.isUsed plain.text = false then plain.text
              else numbered .western host n) ∧
          (isTruncated .western host = true → ((names.assign .western host).1 = plain.text ↔
            tailText (some n) <:+ plain.title ∧
              CodePage.western.textWidth plain.title = titleWidth))) ∧
      (names.assign .western host).1 = "LONGF~10.TXT".toList := by
  intro names host plain
  have unseen : names.assigned[host]? = none := by decide +kernel
  have refused : (names.reserve .western host).1 = false := by decide +kernel
  exact ⟨unseen, refused, assign_first_free unseen refused, by decide +kernel⟩

/-- A cut name whose first candidate reads like its plain name gets that, although it lost a
character; the legal name that really reads so then gets another. -/
theorem tailed_takes_plain :
    let host := "longfi~1x.txt".toList
    let plain := (ShortName.convert .western none host).text
    (empty.run []).assigned[host]? = none ∧ ((empty.run []).reserve .western host).1 = false ∧
      isTruncated .western host = true ∧ (empty.run []).isUsed plain = false ∧
      ((empty.run []).assign .western host).1 = plain ∧ plain = "LONGFI~1.TXT".toList ∧
      ((empty.run [.assign .western host]).assign .western plain).1 = "LONGFI~2.TXT".toList := by
  decide +kernel

end ShortNames

end GuestDos.Naming
