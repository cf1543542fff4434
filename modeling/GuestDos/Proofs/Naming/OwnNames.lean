/-
# GuestDos.Proofs.Naming.OwnNames -- which host names keep their own name

A claim and a request decide the same question by different ways: a host name that was seen has the
short name that it was given, and one that was not is looked at by its characters and by the names
in use.  They agree, because a name that is made up never happens to be the name that was refused:
under one page every short name that is made is legal (`isLegal_newShort`) and unused
(`newShort_unused`), and a legal unused name would not have been refused.

* `ShortNames.LegalUnder` -- what claims and requests keep under one page; `legalUnder_run`.
* `LegalAmong` -- the same when only some host names occur: `LegalAmong.size_le`, `LegalAmong.run`.
* `assign_of_reserve`, `assign_ne_of_refused` -- the request after a claim that is granted, and
  after one that is refused.
* `assign_agrees_with_reserve` -- both for every history, with what the two calls leave behind.
-/
import Mathlib.Data.List.Induction
import Mathlib.Data.List.Perm.Subperm
import GuestDos.Proofs.Naming.Calls
import GuestDos.Proofs.Naming.Legality

namespace GuestDos.Naming

set_option autoImplicit false

/-- A tail fits the title up to seven digits. -/
theorem length_tailText_le_titleWidth {n : Nat} (few : n ≤ 9999999) :
    (tailText (some n)).length ≤ titleWidth := by
  have digits : (Nat.toDigits 10 n).length ≤ 7 :=
    (Nat.length_toDigits_le_iff (by decide) (by decide)).2 (by omega)
  show (Nat.toDigits 10 n).length + 1 ≤ 8
  omega

namespace ShortNames

/-! ## Short names made under one page -/

/-- Every short name that is handed out is legal, and no more are in use than are handed out. -/
structure LegalUnder (page : CodePage) (names : ShortNames) : Prop where
  legal : ∀ host short : Text, names.assigned[host]? = some short → isLegal page short = true
  used_le : names.used.size ≤ names.assigned.size

theorem legalUnder_empty (page : CodePage) : empty.LegalUnder page where
  legal host short seen := by simp at seen
  used_le := Nat.le_refl 0

variable {page : CodePage} {names : ShortNames} {host short : Text}

theorem LegalUnder.record (kept : names.LegalUnder page) (unseen : names.assigned[host]? = none)
    (legal : isLegal page short = true) : (names.record host short).LegalUnder page where
  legal other otherShort seen := by
    rw [getElem?_record] at seen
    split at seen
    · cases seen
      exact legal
    · exact kept.legal other otherShort seen
  used_le := by
    have more : (names.record host short).used.size ≤ names.used.size + 1 :=
      Std.TreeSet.size_insert_le
    have before := kept.used_le
    rw [names.size_record short unseen]
    omega

/-- A short name that is made is legal: the name itself, or its conversion with a number that the
search cannot have driven past seven digits. -/
theorem isLegal_newShort (few : names.used.size < 9999999) :
    isLegal page (names.newShort page host) = true := by
  unfold newShort
  split
  · rename_i itself
    exact (Bool.and_eq_true_iff.1 itself).1
  · rw [freshAlias_eq]
    split
    · have found : names.aliasNumber page host ≤ 1 + names.used.size := firstFree_le _ _ _
      exact isLegal_convert page host (length_tailText_le_titleWidth (by omega))
    · exact isLegal_convert page host (Nat.zero_le _)

theorem LegalUnder.reserve (kept : names.LegalUnder page) (host : Text) :
    (names.reserve page host).2.LegalUnder page := by
  cases known : names.assigned[host]? with
  | some short => rw [reserve_of_seen page known]; exact kept
  | none =>
      rw [reserve_of_unseen page known]
      split
      · rename_i itself
        exact kept.record known (Bool.and_eq_true_iff.1 itself).1
      · exact kept

theorem LegalUnder.assign (kept : names.LegalUnder page) (few : names.assigned.size < 9999999)
    (host : Text) :
    (names.assign page host).2.LegalUnder page ∧ isLegal page (names.assign page host).1 = true := by
  cases known : names.assigned[host]? with
  | some short => rw [assign_of_seen page known]; exact ⟨kept, kept.legal host short known⟩
  | none =>
      have legal : isLegal page (names.newShort page host) = true :=
        isLegal_newShort (Nat.lt_of_le_of_lt kept.used_le few)
      rw [assign_of_unseen page known]
      exact ⟨kept.record known legal, legal⟩

theorem LegalUnder.call (kept : names.LegalUnder page) (few : names.assigned.size < 9999999)
    {c : Call} (samePage : c.page = page) : (names.call c).LegalUnder page := by
  subst samePage
  cases c with
  | reserve page host => exact kept.reserve host
  | assign page host => exact (kept.assign few host).1

/-- The short names of a directory that was read under one page are legal, as long as they are few:
there were never more of them before. -/
theorem legalUnder_run {calls : List Call} (onePage : ∀ c ∈ calls, c.page = page)
    (few : (empty.run calls).assigned.size < 9999999) : (empty.run calls).LegalUnder page := by
  induction calls using List.reverseRecOn with
  | nil => exact legalUnder_empty page
  | append_singleton calls c ih =>
      rw [run_concat] at few ⊢
      have before : (empty.run calls).assigned.size < 9999999 :=
        Nat.lt_of_le_of_lt (size_le_call _ c) few
      simp only [List.mem_append, List.mem_singleton] at onePage
      exact (ih (fun earlier member => onePage earlier (.inl member)) before).call before
        (onePage c (.inr rfl))

/-! ## Short names of few host names -/

/-- Every short name is legal, and it was handed out to one of these host names. -/
structure LegalAmong (hosts : List Text) (page : CodePage) (names : ShortNames) : Prop where
  legal : names.LegalUnder page
  known : ∀ host short : Text, names.assigned[host]? = some short → host ∈ hosts

variable {hosts : List Text}

theorem legalAmong_empty (hosts : List Text) (page : CodePage) : empty.LegalAmong hosts page where
  legal := legalUnder_empty page
  known host short seen := by simp at seen

/-- No more short names are handed out than there are host names. -/
theorem LegalAmong.size_le (kept : names.LegalAmong hosts page) :
    names.assigned.size ≤ hosts.length := by
  rw [← Std.TreeMap.length_keys]
  apply (List.subperm_of_subset Std.TreeMap.nodup_keys ?_).length_le
  intro host key
  have assigned := Std.TreeMap.mem_iff_isSome_getElem?.1 (Std.TreeMap.mem_keys.1 key)
  obtain ⟨short, seen⟩ := Option.isSome_iff_exists.1 assigned
  exact kept.known host short seen

theorem LegalAmong.call (kept : names.LegalAmong hosts page) (few : hosts.length < 9999999)
    {c : Call} (samePage : c.page = page) (about : c.host ∈ hosts) :
    (names.call c).LegalAmong hosts page where
  legal := kept.legal.call (Nat.lt_of_le_of_lt kept.size_le few) samePage
  known host short seen := by
    by_cases same : host = c.host
    · exact same ▸ about
    · rw [names.assigned_call_of_ne c same] at seen
      exact kept.known host short seen

theorem LegalAmong.run (kept : names.LegalAmong hosts page) (few : hosts.length < 9999999)
    {calls : List Call} (about : ∀ c ∈ calls, c.page = page ∧ c.host ∈ hosts) :
    (names.run calls).LegalAmong hosts page := by
  induction calls generalizing names with
  | nil => exact kept
  | cons c rest ih =>
      obtain ⟨samePage, first⟩ := about c List.mem_cons_self
      exact ih (kept.call few samePage first) fun later member =>
        about later (List.mem_cons_of_mem c member)

/-! ## A claim and a request for the same host name -/

/-- Who may claim itself is answered with itself, and the request leaves what the claim leaves. -/
theorem assign_of_reserve (granted : (names.reserve page host).1 = true) :
    names.assign page host = (host, (names.reserve page host).2) := by
  cases known : names.assigned[host]? with
  | some short =>
      rw [reserve_of_seen page known] at granted ⊢
      rw [assign_of_seen page known, beq_iff_eq.1 granted]
  | none =>
      rw [reserve_of_unseen page known] at granted ⊢
      split at granted
      · rename_i itself
        rw [assign_of_unseen page known, newShort, if_pos itself, if_pos itself]
      · cases granted

/-- Who may not claim itself gets another name: what is made up is legal and unused, and a legal
unused name may claim itself. -/
theorem assign_ne_of_refused (few : names.used.size < 9999999)
    (refused : (names.reserve page host).1 = false) : (names.assign page host).1 ≠ host := by
  intro same
  cases known : names.assigned[host]? with
  | some short =>
      rw [assign_of_seen page known] at same
      rw [reserve_of_seen page known] at refused
      exact beq_eq_false_iff_ne.1 refused same
  | none =>
      rw [assign_of_unseen page known] at same
      have legal : isLegal page host = true := by
        rw [← same]
        exact isLegal_newShort few
      have unused : names.isUsed host = false := by
        rw [← same]
        exact names.newShort_unused page host
      simp [reserve_of_unseen page known, legal, unused] at refused

/-- **A claim and a request agree on who keeps its name.**  Take the short names that any calls under
one page have left in a directory, fewer than 9999999 of them, and any host name.  The request under
this page answers with the host name itself exactly when the claim is granted, and then both leave
the same short names.  When the claim is refused it changes nothing, and the request answers with a
legal name other than the host name. -/
theorem assign_agrees_with_reserve {page : CodePage} {history : List Call}
    (onePage : ∀ c ∈ history, c.page = page)
    (few : (empty.run history).assigned.size < 9999999) (host : Text) :
    let names := empty.run history
    ((names.assign page host).1 = host ↔ (names.reserve page host).1 = true) ∧
      ((names.reserve page host).1 = true →
        (names.assign page host).2 = (names.reserve page host).2) ∧
      ((names.reserve page host).1 = false →
        (names.reserve page host).2 = names ∧
          isLegal page (names.assign page host).1 = true ∧
          (names.assign page host).1 ≠ host) := by
  intro names
  have kept : names.LegalUnder page := legalUnder_run onePage few
  have fewUsed : names.used.size < 9999999 := Nat.lt_of_le_of_lt kept.used_le few
  refine ⟨⟨?_, ?_⟩, ?_, ?_⟩
  · intro itself
    by_contra refused
    exact assign_ne_of_refused fewUsed (Bool.eq_false_iff.2 refused) itself
  · intro granted
    rw [assign_of_reserve granted]
  · intro granted
    rw [assign_of_reserve granted]
  · intro refused
    exact ⟨reserve_refused refused, (kept.assign few host).2, assign_ne_of_refused fewUsed refused⟩

/-- A directory in which `a.b` claimed itself and a host name that is too long was given an
alias.  The twin of `a.b` in capitals is legal, and refused: it gets an alias of its own. -/
theorem twin_agrees :
    let page : CodePage := ⟨932⟩
    let history : List Call :=
      [.reserve page "a.b".toList, .assign page "日本語の長い名前.txt".toList]
    let names := empty.run history
    (∀ c ∈ history, c.page = page) ∧ names.assigned.size < 9999999 ∧
      isLegal page "A.B".toList = true ∧ (names.reserve page "A.B".toList).1 = false ∧
      (names.assign page "A.B".toList).1 = "A~1.B".toList ∧
      ((names.assign page "A.B".toList).1 = "A.B".toList ↔
        (names.reserve page "A.B".toList).1 = true) ∧
      ((names.reserve page "A.B".toList).1 = true →
        (names.assign page "A.B".toList).2 = (names.reserve page "A.B".toList).2) ∧
      ((names.reserve page "A.B".toList).1 = false →
        (names.reserve page "A.B".toList).2 = names ∧
          isLegal page (names.assign page "A.B".toList).1 = true ∧
          (names.assign page "A.B".toList).1 ≠ "A.B".toList) := by
  intro page history names
  have onePage : ∀ c ∈ history, c.page = page := by decide
  have few : names.assigned.size < 9999999 := by decide +kernel
  exact ⟨onePage, few, by decide +kernel, by decide +kernel, by decide +kernel,
    assign_agrees_with_reserve onePage few "A.B".toList⟩

end ShortNames

end GuestDos.Naming
