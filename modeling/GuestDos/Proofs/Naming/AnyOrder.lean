/-
# GuestDos.Proofs.Naming.AnyOrder -- the aliases do not depend on the order of the host names

Who gets which alias depends on who asks first; which aliases are handed out does not.  Every host
name walks along its numbered candidates to the first one that is free, and where two host names have
a candidate in common they have all later ones in common (`numbered_chain`): the next candidate is
known from the current one.  So if the second of two host names finds its place taken by the first,
it goes on as the first would have gone on in its place, and the two together take the same aliases
either way (`withAlias_comm`).

* `FirstFree`, `withAlias` -- the choice of an alias on a set of names in use.
* `foldl_withAlias_perm` -- host names that ask one after the other, in any order.
* `Requests` -- calls that ask for the short names of some host names.
* `aliases_any_order` -- two runs of such calls end with the same names in use.
-/
import Mathlib.Data.List.Perm.Basic
import Mathlib.Data.Set.Basic
import GuestDos.Proofs.Naming.Calls
import GuestDos.Proofs.Naming.Legality

namespace GuestDos.Naming

set_option autoImplicit false

/-! ## Chains of candidates -/

theorem upper_numbered (page : CodePage) (host : Text) (n : Nat) :
    Text.upper (numbered page host n) = numbered page host n :=
  (presentable_convert page (some n) host).upper_text

theorem length_tailText_le {n m : Nat} (le : n ≤ m) :
    (tailText (some n)).length ≤ (tailText (some m)).length := by
  have positive : 0 < (Nat.toDigits 10 m).length := Nat.length_toDigits_pos
  have digits : (Nat.toDigits 10 n).length ≤ (Nat.toDigits 10 m).length := by
    rw [Nat.length_toDigits_le_iff (by decide) positive]
    exact Nat.lt_of_le_of_lt le ((Nat.length_toDigits_le_iff (by decide) positive).1 le_rfl)
  simpa [tailText] using digits

/-- **The next candidate is known from the current one**: host names with a candidate in common have
it under the same number, and have all later ones in common. -/
theorem numbered_chain {page : CodePage} {first second : Text} {n k : Nat}
    (same : numbered page first n = numbered page second k) :
    n = k ∧ ∀ m, n ≤ m → numbered page first m = numbered page second m := by
  have names := text_injective (presentable_convert page (some n) first).title_dotless
    (presentable_convert page (some k) second).title_dotless same
  have titles := congrArg ShortName.title names
  have extensions := congrArg ShortName.extension names
  simp only [ShortName.convert] at titles extensions
  obtain rfl := tailText_injective titles
  refine ⟨rfl, fun m later => ?_⟩
  -- what is left of the titles is the same, and cutting it further needs no more than that
  have kept := List.append_cancel_right titles
  have shorter : titleWidth - (tailText (some m)).length ≤
      titleWidth - (tailText (some n)).length :=
    Nat.sub_le_sub_left (length_tailText_le later) titleWidth
  unfold numbered ShortName.convert
  simp only
  rw [extensions, ← truncate_truncate page shorter, kept, truncate_truncate page shorter]

/-! ## Choices -/

section Choices

variable {page : CodePage} {used : Set Text} {host first second : Text} {n k : Nat}

/-- The number of the first candidate of a host name that is not in use. -/
structure FirstFree (page : CodePage) (used : Set Text) (host : Text) (n : Nat) : Prop where
  positive : 1 ≤ n
  free : numbered page host n ∉ used
  before : ∀ k, 1 ≤ k → k < n → numbered page host k ∈ used

theorem FirstFree.unique (here : FirstFree page used host n) (there : FirstFree page used host k) :
    n = k := by
  rcases Nat.lt_trichotomy n k with less | same | more
  · exact absurd (there.before n here.positive less) here.free
  · exact same
  · exact absurd (here.before k there.positive more) there.free

/-- The names in use after a host name has got its alias. -/
def withAlias (page : CodePage) (used : Set Text) (host : Text) : Set Text :=
  {short | short ∈ used ∨ ∃ n, FirstFree page used host n ∧ short = numbered page host n}

/-- A candidate is in use afterwards if it was before, or is the one that was chosen. -/
theorem mem_withAlias_of_firstFree (chosen : FirstFree page used first n) :
    numbered page second k ∈ withAlias page used first ↔
      numbered page second k ∈ used ∨ k = n ∧ numbered page second n = numbered page first n := by
  constructor
  · rintro (before | ⟨m, free, same⟩)
    · exact .inl before
    · obtain rfl := free.unique chosen
      obtain ⟨rfl, -⟩ := numbered_chain same
      exact .inr ⟨rfl, same⟩
  · rintro (before | ⟨rfl, same⟩)
    · exact .inl before
    · exact .inr ⟨k, chosen, same⟩

/-- The second of two host names finds its place taken by the first: then the first one, coming
second, would have taken the place that the second one takes now. -/
theorem FirstFree.exchange (chosen : FirstFree page used first n)
    (taken : numbered page second n = numbered page first n) (place : n < k)
    (next : FirstFree page (withAlias page used first) second k) :
    FirstFree page used second n ∧ FirstFree page (withAlias page used second) first k := by
  have later : ∀ m, n ≤ m → numbered page second m = numbered page first m :=
    (numbered_chain taken).2
  have chosenSecond : FirstFree page used second n := by
    refine ⟨chosen.positive, taken ▸ chosen.free, fun j positive below => ?_⟩
    rcases (mem_withAlias_of_firstFree chosen).1 (next.before j positive (by omega)) with
      before | ⟨rfl, -⟩
    · exact before
    · exact absurd below (Nat.lt_irrefl j)
  refine ⟨chosenSecond, next.positive, ?_, fun j positive below => ?_⟩
  · rw [mem_withAlias_of_firstFree chosenSecond, ← later k (Nat.le_of_lt place)]
    rintro (before | ⟨rfl, -⟩)
    · exact next.free (.inl before)
    · exact absurd place (Nat.lt_irrefl k)
  · rw [mem_withAlias_of_firstFree chosenSecond]
    rcases Nat.lt_trichotomy j n with less | rfl | more
    · exact .inl (chosen.before j positive less)
    · exact .inr ⟨rfl, taken.symm⟩
    · rcases (mem_withAlias_of_firstFree chosen).1 (next.before j positive below) with
        before | ⟨rfl, -⟩
      · exact .inl (later j (Nat.le_of_lt more) ▸ before)
      · exact absurd more (Nat.lt_irrefl j)

/-- Two host names take no alias in one order that they do not take in the other. -/
theorem withAlias_subset (used : Set Text) (first second : Text) :
    withAlias page (withAlias page used first) second ⊆
      withAlias page (withAlias page used second) first := by
  rintro short ((before | ⟨n, chosen, rfl⟩) | ⟨k, next, rfl⟩)
  · exact .inl (.inl before)
  · -- the first one's alias: the second one takes it, or leaves it to the first
    by_cases gone : numbered page first n ∈ withAlias page used second
    · exact .inl gone
    · exact .inr ⟨n, ⟨chosen.positive, gone, fun j positive below =>
        .inl (chosen.before j positive below)⟩, rfl⟩
  · -- the second one's alias: it was free from the start, or the first one stood in the way
    by_cases clear : ∀ j, 1 ≤ j → j < k → numbered page second j ∈ used
    · exact .inl (.inr ⟨k, ⟨next.positive, fun before => next.free (.inl before), clear⟩, rfl⟩)
    · simp only [not_forall] at clear
      obtain ⟨j, positive, below, open_⟩ := clear
      rcases next.before j positive below with before | ⟨n, chosen, taken⟩
      · exact absurd before open_
      · obtain ⟨rfl, later⟩ := numbered_chain taken
        obtain ⟨-, moved⟩ := chosen.exchange taken below next
        exact .inr ⟨k, moved, later k (Nat.le_of_lt below)⟩

/-- **Choices commute.** -/
theorem withAlias_comm (page : CodePage) (used : Set Text) (first second : Text) :
    withAlias page (withAlias page used first) second =
      withAlias page (withAlias page used second) first :=
  Set.Subset.antisymm (withAlias_subset used first second) (withAlias_subset used second first)

/-- Host names that ask one after the other take the same aliases in every order. -/
theorem foldl_withAlias_perm (page : CodePage) (used : Set Text) {hosts others : List Text}
    (same : hosts.Perm others) :
    hosts.foldl (withAlias page) used = others.foldl (withAlias page) used :=
  have : RightCommutative (withAlias page) := ⟨withAlias_comm page⟩
  same.foldl_eq used

end Choices

namespace ShortNames

/-! ## Calls that ask for short names -/

/-- The names in use, as a set. -/
def usedSet (names : ShortNames) : Set Text :=
  {upper | upper ∈ names.used}

theorem firstFree_aliasNumber (names : ShortNames) (page : CodePage) (host : Text) :
    FirstFree page names.usedSet host (names.aliasNumber page host) := by
  have free_iff : ∀ n, names.isFreeNumber page host n = true ↔ numbered page host n ∉ names.usedSet := by
    intro n
    rw [isFreeNumber, Bool.not_eq_true', ← Bool.not_eq_true, isUsed_iff, upper_numbered]
    rfl
  refine ⟨le_firstFree _ _ _, (free_iff _).1 (names.isFreeNumber_aliasNumber page host), ?_⟩
  intro k positive below
  have taken := not_free_of_lt_firstFree positive below
  exact Classical.not_not.1 fun free => by simp [(free_iff k).2 free] at taken

/-- A host name whose conversion is cut gets the first numbered alias that is free. -/
theorem newShort_of_isTruncated (names : ShortNames) {page : CodePage} {host : Text}
    (truncated : isTruncated page host = true) :
    names.newShort page host = numbered page host (names.aliasNumber page host) := by
  have illegal : isLegal page host = false := by
    rw [← Bool.not_eq_true]
    intro legal
    rw [isTruncated_of_isLegal legal] at truncated
    cases truncated
  rw [newShort, illegal, freshAlias_eq, truncated]
  rfl

theorem usedSet_assign {names : ShortNames} {page : CodePage} {host : Text}
    (unseen : names.assigned[host]? = none) (truncated : isTruncated page host = true) :
    (names.assign page host).2.usedSet = withAlias page names.usedSet host := by
  have chosen := names.firstFree_aliasNumber page host
  rw [assign_of_unseen page unseen, names.newShort_of_isTruncated truncated]
  ext upper
  show upper ∈ (names.record host _).used ↔ _
  rw [mem_used_record, upper_numbered]
  constructor
  · rintro (rfl | before)
    · exact .inr ⟨_, chosen, rfl⟩
    · exact .inl before
  · rintro (before | ⟨n, first, rfl⟩)
    · exact .inr before
    · rw [first.unique chosen]
      exact .inl rfl

/-- Calls that ask for short names: each for a host name that has one by then, under any page, or for
one of some host names under a page. -/
def Requests (page : CodePage) (hosts : List Text) : ShortNames → List Call → Prop
  | _, [] => True
  | names, c :: rest =>
      (∃ asked, c = .assign asked c.host ∧
        (names.assigned[c.host]? ≠ none ∨ c.host ∈ hosts ∧ asked = page)) ∧
      Requests page hosts (names.call c) rest

/-- What one request does: nothing for a host name that has a short name, else an alias. -/
theorem request_cases {page : CodePage} {hosts : List Text} {names : ShortNames} {c : Call}
    (truncated : ∀ host ∈ hosts, isTruncated page host = true)
    (request : ∃ asked, c = .assign asked c.host ∧
      (names.assigned[c.host]? ≠ none ∨ c.host ∈ hosts ∧ asked = page)) :
    names.assigned[c.host]? ≠ none ∧ names.call c = names ∨
      names.assigned[c.host]? = none ∧ c.host ∈ hosts ∧
        (names.call c).usedSet = withAlias page names.usedSet c.host ∧
        ∃ n, (names.call c).assigned[c.host]? = some (numbered page c.host n) := by
  obtain ⟨asked, shape, known⟩ := request
  have called : names.call c = (names.assign asked c.host).2 := by rw [shape]; rfl
  cases seen : names.assigned[c.host]? with
  | some short =>
      rw [called, assign_of_seen asked seen]
      exact .inl ⟨Option.some_ne_none _, rfl⟩
  | none =>
      obtain ⟨member, rfl⟩ := known.resolve_left fun has => has seen
      have cut := truncated c.host member
      rw [called]
      refine .inr ⟨rfl, member, usedSet_assign seen cut, names.aliasNumber asked c.host, ?_⟩
      rw [assigned_assign, assign_of_unseen asked seen, names.newShort_of_isTruncated cut]

/-- A run of requests lets the host names without a short name choose one after the other, each when
it is first asked for. -/
theorem usedSet_run {page : CodePage} {hosts : List Text} {names : ShortNames} {calls : List Call}
    (truncated : ∀ host ∈ hosts, isTruncated page host = true)
    (requests : Requests page hosts names calls) :
    ∃ asked : List Text, asked.Nodup ∧ asked ⊆ hosts ∧
      (∀ host, host ∈ asked ↔ names.assigned[host]? = none ∧ ∃ c ∈ calls, c.host = host) ∧
      (names.run calls).usedSet = asked.foldl (withAlias page) names.usedSet := by
  induction calls generalizing names with
  | nil => exact ⟨[], List.nodup_nil, List.nil_subset _, by simp, rfl⟩
  | cons c rest ih =>
      obtain ⟨request, later⟩ := requests
      obtain ⟨asked, distinct, within, mem_asked, used⟩ := ih later
      rcases request_cases truncated request with ⟨seen, same⟩ | ⟨unseen, member, chosen, n, has⟩
      · refine ⟨asked, distinct, within, fun host => ?_, ?_⟩
        · rw [mem_asked, same]
          have other : names.assigned[host]? = none → c.host ≠ host := by
            rintro none_ rfl
            exact seen none_
          constructor
          · rintro ⟨none_, d, member, rfl⟩
            exact ⟨none_, d, List.mem_cons_of_mem _ member, rfl⟩
          · rintro ⟨none_, d, member, rfl⟩
            rcases List.mem_cons.1 member with rfl | member
            · exact absurd rfl (other none_)
            · exact ⟨none_, d, member, rfl⟩
        · show ((names.call c).run rest).usedSet = _
          rw [used, same]
      · have notAgain : c.host ∉ asked := by
          rw [mem_asked, has]
          rintro ⟨none_, -⟩
          cases none_
        refine ⟨c.host :: asked, List.nodup_cons.2 ⟨notAgain, distinct⟩,
          List.cons_subset.2 ⟨member, within⟩, fun host => ?_, ?_⟩
        · by_cases itself : host = c.host
          · subst itself
            simp [unseen]
          · rw [List.mem_cons, mem_asked, names.assigned_call_of_ne c itself]
            simp [itself, Ne.symm itself]
        · rw [List.foldl_cons, ← chosen]
          exact used

/-- What host names have after a run of requests: what they had, or a numbered alias. -/
theorem assigned_requests {page : CodePage} {hosts : List Text} {names : ShortNames}
    {calls : List Call} (truncated : ∀ host ∈ hosts, isTruncated page host = true)
    (requests : Requests page hosts names calls) {host short : Text}
    (seen : (names.run calls).assigned[host]? = some short) :
    names.assigned[host]? = some short ∨ host ∈ hosts ∧ ∃ n, short = numbered page host n := by
  induction calls generalizing names with
  | nil => exact .inl seen
  | cons c rest ih =>
      obtain ⟨request, later⟩ := requests
      rcases ih later seen with before | made
      · rcases request_cases truncated request with ⟨-, same⟩ | ⟨-, member, -, n, has⟩
        · exact .inl (same ▸ before)
        · by_cases itself : host = c.host
          · subst itself
            rw [has] at before
            exact .inr ⟨member, n, (Option.some.inj before).symm⟩
          · rw [names.assigned_call_of_ne c itself] at before
            exact .inl before
      · exact .inr made

/-! ## Any order -/

/-- Requests that ask for every one of the host names, in whatever order, as often as they like and
in between for host names that have a short name. -/
structure AskForAll (page : CodePage) (hosts : List Text) (names : ShortNames)
    (calls : List Call) : Prop where
  requests : Requests page hosts names calls
  all : ∀ host ∈ hosts, ∃ c ∈ calls, c.host = host

section AnyOrder

variable {page : CodePage} {names : ShortNames} {hosts : List Text} {first second : List Call}

theorem usedSet_askForAll (truncated : ∀ host ∈ hosts, isTruncated page host = true)
    (one : AskForAll page hosts names first) (other : AskForAll page hosts names second) :
    (names.run first).usedSet = (names.run second).usedSet := by
  obtain ⟨asked, distinct, within, mem_asked, used⟩ := usedSet_run truncated one.requests
  obtain ⟨asked', distinct', within', mem_asked', used'⟩ := usedSet_run truncated other.requests
  -- both runs let the same host names choose: those that had no short name before
  have same : asked.Perm asked' := by
    rw [List.perm_ext_iff_of_nodup distinct distinct']
    intro host
    constructor
    · intro member
      exact (mem_asked' host).2 ⟨((mem_asked host).1 member).1, other.all host (within member)⟩
    · intro member
      exact (mem_asked host).2 ⟨((mem_asked' host).1 member).1, one.all host (within' member)⟩
  rw [used, used', foldl_withAlias_perm page _ same]

/-- A short name that is handed out in one order is handed out in another one with the same names in
use. -/
theorem exists_assigned_of_usedSet_eq (consistent : names.Consistent)
    (unseen : ∀ host ∈ hosts, names.assigned[host]? = none)
    (truncated : ∀ host ∈ hosts, isTruncated page host = true)
    (one : Requests page hosts names first) (other : Requests page hosts names second)
    (same : (names.run first).usedSet = (names.run second).usedSet) {host short : Text}
    (member : host ∈ hosts) (seen : (names.run first).assigned[host]? = some short) :
    ∃ host ∈ hosts, (names.run second).assigned[host]? = some short := by
  -- a numbered alias is in upper case, so it is in use as it stands
  have upper_of_made : ∀ {calls : List Call} {host short : Text}, Requests page hosts names calls →
      (names.run calls).assigned[host]? = some short → names.assigned[host]? = some short ∨
        host ∈ hosts ∧ Text.upper short = short := by
    intro calls host short requests seen
    rcases assigned_requests truncated requests seen with before | ⟨member, n, rfl⟩
    · exact .inl before
    · exact .inr ⟨member, upper_numbered page host n⟩
  have plain : Text.upper short = short := by
    rcases upper_of_made one seen with before | ⟨-, plain⟩
    · rw [unseen host member] at before
      cases before
    · exact plain
  have used : Text.upper short ∈ (names.run second).usedSet :=
    same ▸ ((consistent.run first).mem_used_iff _).2 ⟨host, short, seen, rfl⟩
  obtain ⟨owner, own, seenSecond, alike⟩ := ((consistent.run second).mem_used_iff _).1 used
  rcases upper_of_made other seenSecond with before | ⟨ownerMember, ownPlain⟩
  · -- a short name from before would stand beside the one that is its twin
    obtain rfl := (consistent.run first).injective _ _ _ _ (assigned_run before first) seen alike
    rw [unseen owner member] at before
    cases before
  · rw [ownPlain, plain] at alike
    exact ⟨owner, ownerMember, alike ▸ seenSecond⟩

end AnyOrder

/-- **The aliases do not depend on the order.**  After any calls on the short names of a directory,
let some host names without a short name ask for one, each of them cut by its conversion, in two
orders, among requests for host names that have one.  Both end with the same names in use, and the
short names that these host names got are the same ones, though not the same for each. -/
theorem aliases_any_order {page : CodePage} {history first second : List Call} {hosts : List Text}
    (unseen : ∀ host ∈ hosts, (empty.run history).assigned[host]? = none)
    (truncated : ∀ host ∈ hosts, isTruncated page host = true)
    (one : AskForAll page hosts (empty.run history) first)
    (other : AskForAll page hosts (empty.run history) second) :
    let names := empty.run history
    (∀ upper, upper ∈ (names.run first).used ↔ upper ∈ (names.run second).used) ∧
      ∀ short, (∃ host ∈ hosts, (names.run first).assigned[host]? = some short) ↔
        ∃ host ∈ hosts, (names.run second).assigned[host]? = some short := by
  intro names
  have same := usedSet_askForAll truncated one other
  have consistent : names.Consistent := consistent_run history
  refine ⟨Set.ext_iff.1 same, fun short => ⟨?_, ?_⟩⟩
  · rintro ⟨host, member, seen⟩
    exact exists_assigned_of_usedSet_eq consistent unseen truncated one.requests other.requests same
      member seen
  · rintro ⟨host, member, seen⟩
    exact exists_assigned_of_usedSet_eq consistent unseen truncated other.requests one.requests
      same.symm member seen

/-! ## Poles -/

/-- Two titles that part at the sixth character: their candidates meet when the number has two
digits. -/
def partingHosts : List Text :=
  ["abcdexyz-long.txt".toList, "abcdeyxz-long.txt".toList]

/-- Legal names that look like the candidates with one digit. -/
def partingHistory : List Call :=
  partingHosts.flatMap fun host =>
    (List.range 9).map fun n => .reserve .western (numbered .western host (n + 1))

/-- In one order, with a legal name under another page in between. -/
def partingCalls : List Call :=
  [.assign .western "abcdexyz-long.txt".toList, .assign ⟨932⟩ "ABCDEX~1.TXT".toList,
    .assign .western "abcdeyxz-long.txt".toList]

/-- In the other order, and one of them twice. -/
def partingCallsBack : List Call :=
  [.assign .western "abcdeyxz-long.txt".toList, .assign .western "abcdexyz-long.txt".toList,
    .assign .western "abcdeyxz-long.txt".toList]

/-- The same two aliases in both orders, and not for the same host names. -/
theorem parting_any_order :
    let names := empty.run partingHistory
    (∀ host ∈ partingHosts, names.assigned[host]? = none) ∧
      (∀ host ∈ partingHosts, isTruncated .western host = true) ∧
      AskForAll .western partingHosts names partingCalls ∧
      AskForAll .western partingHosts names partingCallsBack ∧
      ((∀ upper, upper ∈ (names.run partingCalls).used ↔
          upper ∈ (names.run partingCallsBack).used) ∧
        ∀ short, (∃ host ∈ partingHosts, (names.run partingCalls).assigned[host]? = some short) ↔
          ∃ host ∈ partingHosts, (names.run partingCallsBack).assigned[host]? = some short) ∧
      (names.run partingCalls).assigned["abcdexyz-long.txt".toList]? =
        some "ABCDE~10.TXT".toList ∧
      (names.run partingCallsBack).assigned["abcdexyz-long.txt".toList]? =
        some "ABCDE~11.TXT".toList := by
  intro names
  have unseen : ∀ host ∈ partingHosts, names.assigned[host]? = none := by decide +kernel
  have truncated : ∀ host ∈ partingHosts, isTruncated .western host = true := by decide +kernel
  have known : names.assigned["ABCDEX~1.TXT".toList]? = some "ABCDEX~1.TXT".toList := by
    decide +kernel
  have stillKnown : ∀ c : Call, (names.call c).assigned["ABCDEX~1.TXT".toList]? ≠ none := by
    intro c
    rw [assigned_call known]
    exact Option.some_ne_none _
  have one : AskForAll .western partingHosts names partingCalls :=
    ⟨⟨⟨_, rfl, .inr ⟨by decide, rfl⟩⟩, ⟨_, rfl, .inl (stillKnown _)⟩,
      ⟨_, rfl, .inr ⟨by decide, rfl⟩⟩, trivial⟩, by decide⟩
  have other : AskForAll .western partingHosts names partingCallsBack :=
    ⟨⟨⟨_, rfl, .inr ⟨by decide, rfl⟩⟩, ⟨_, rfl, .inr ⟨by decide, rfl⟩⟩,
      ⟨_, rfl, .inr ⟨by decide, rfl⟩⟩, trivial⟩, by decide⟩
  exact ⟨unseen, truncated, one, other, aliases_any_order unseen truncated one other,
    by decide +kernel, by decide +kernel⟩

end ShortNames

end GuestDos.Naming
