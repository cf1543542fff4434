/-
# GuestDos.Proofs.Naming.Calls -- what every sequence of calls keeps

A directory's short names change by calls alone: `reserve` and `assign`, each under a code page of
its own.  `call_cases` says everything that one call can do: nothing, or hand an unused short name
to a host name that had none.  The rest follows from it.

* `Consistent` -- the names in use are the upper case of those handed out, and no two host names
  share one; `consistent_run` for every sequence of calls.
* `assigned_run` -- a short name that was handed out stays.
* `run_keeps_short_names_apart` -- both together, with what a single call adds.
-/
import GuestDos.Proofs.Naming.AliasSearch

namespace GuestDos.Naming.ShortNames

set_option autoImplicit false

/-! ## One call -/

/-- The short name that a host name gets when it has none. -/
def newShort (names : ShortNames) (page : CodePage) (host : Text) : Text :=
  if isLegal page host && !names.isUsed host then host else names.freshAlias page host

theorem newShort_unused (names : ShortNames) (page : CodePage) (host : Text) :
    names.isUsed (names.newShort page host) = false := by
  unfold newShort
  split
  · rename_i free
    simp only [Bool.and_eq_true, Bool.not_eq_true'] at free
    exact free.2
  · exact names.freshAlias_unused page host

theorem reserve_of_seen {names : ShortNames} {host short : Text} (page : CodePage)
    (seen : names.assigned[host]? = some short) :
    names.reserve page host = (short == host, names) := by
  simp [reserve, seen]

theorem reserve_of_unseen {names : ShortNames} {host : Text} (page : CodePage)
    (unseen : names.assigned[host]? = none) :
    names.reserve page host =
      if isLegal page host && !names.isUsed host then (true, names.record host host)
      else (false, names) := by
  simp [reserve, unseen]

theorem assign_of_seen {names : ShortNames} {host short : Text} (page : CodePage)
    (seen : names.assigned[host]? = some short) :
    names.assign page host = (short, names) := by
  simp [assign, seen]

theorem assign_of_unseen {names : ShortNames} {host : Text} (page : CodePage)
    (unseen : names.assigned[host]? = none) :
    names.assign page host =
      (names.newShort page host, names.record host (names.newShort page host)) := by
  simp only [assign, unseen, reserve_of_unseen page unseen, newShort]
  split <;> rename_i outcome <;> split at outcome
  · rename_i free
    simp only [Prod.mk.injEq, true_and] at outcome
    rw [if_pos free, outcome]
  · simp at outcome
  · simp at outcome
  · rename_i taken
    rw [if_neg taken]

/-- The host name has a short name afterwards, which is the answer. -/
theorem assigned_assign (names : ShortNames) (page : CodePage) (host : Text) :
    (names.assign page host).2.assigned[host]? = some (names.assign page host).1 := by
  cases known : names.assigned[host]? with
  | some short => rw [assign_of_seen page known]; exact known
  | none =>
      rw [assign_of_unseen page known]
      simp [getElem?_record]

/-- A refusal changes nothing. -/
theorem reserve_refused {names : ShortNames} {page : CodePage} {host : Text}
    (refused : (names.reserve page host).1 = false) : (names.reserve page host).2 = names := by
  cases known : names.assigned[host]? with
  | some short => rw [reserve_of_seen page known]
  | none =>
      rw [reserve_of_unseen page known] at refused ⊢
      split
      · rename_i free
        rw [if_pos free] at refused
        exact absurd refused (by simp)
      · rfl

/-- A call on the short names of a directory. -/
inductive Call where
  | reserve (page : CodePage) (host : Text)
  | assign (page : CodePage) (host : Text)
deriving DecidableEq, Repr

/-- The host name that a call is about. -/
def Call.host : Call → Text
  | .reserve _ host => host
  | .assign _ host => host

/-- The code page under which a call is made. -/
def Call.page : Call → CodePage
  | .reserve page _ => page
  | .assign page _ => page

/-- The short names after a call. -/
def call (names : ShortNames) : Call → ShortNames
  | .reserve page host => (names.reserve page host).2
  | .assign page host => (names.assign page host).2

/-- **What one call does**: nothing, or it hands an unused short name to a host name without one. -/
theorem call_cases (names : ShortNames) (c : Call) :
    names.call c = names ∨
      ∃ short, names.assigned[c.host]? = none ∧ names.isUsed short = false ∧
        names.call c = names.record c.host short := by
  cases c with
  | reserve page host =>
      cases known : names.assigned[host]? with
      | some short => exact .inl (by rw [call, reserve_of_seen page known])
      | none =>
          rw [call, reserve_of_unseen page known]
          split
          · rename_i free
            simp only [Bool.and_eq_true, Bool.not_eq_true'] at free
            exact .inr ⟨host, known, free.2, rfl⟩
          · exact .inl rfl
  | assign page host =>
      cases known : names.assigned[host]? with
      | some short => exact .inl (by rw [call, assign_of_seen page known])
      | none =>
          refine .inr ⟨names.newShort page host, known, names.newShort_unused page host, ?_⟩
          rw [call, assign_of_unseen page known]
          rfl

/-! ## What a call keeps -/

/-- The names in use are the upper case of those handed out, and no two host names have short names
that are equal without regard to ASCII case. -/
structure Consistent (names : ShortNames) : Prop where
  mem_used_iff : ∀ upper, upper ∈ names.used ↔
    ∃ host short : Text, names.assigned[host]? = some short ∧ Text.upper short = upper
  injective : ∀ host other short otherShort : Text, names.assigned[host]? = some short →
    names.assigned[other]? = some otherShort → Text.upper short = Text.upper otherShort →
    host = other

theorem consistent_empty : empty.Consistent where
  mem_used_iff upper := by simp
  injective host other short otherShort seen := by simp at seen

/-- A short name that is handed out is in use. -/
theorem Consistent.isUsed_assigned {names : ShortNames} (consistent : names.Consistent)
    {host short : Text} (seen : names.assigned[host]? = some short) : names.isUsed short = true :=
  (names.isUsed_iff short).2 ((consistent.mem_used_iff _).2 ⟨host, short, seen, rfl⟩)

theorem Consistent.record {names : ShortNames} (consistent : names.Consistent) {host short : Text}
    (unseen : names.assigned[host]? = none) (unused : names.isUsed short = false) :
    (names.record host short).Consistent := by
  -- nobody who has a short name already has one like the new one
  have alone : ∀ other otherShort : Text, names.assigned[other]? = some otherShort →
      Text.upper otherShort ≠ Text.upper short := by
    intro other otherShort seen same
    have used := consistent.isUsed_assigned seen
    rw [isUsed, same] at used
    exact absurd used (by rw [← isUsed, unused]; exact Bool.false_ne_true)
  constructor
  · intro upper
    rw [mem_used_record, consistent.mem_used_iff]
    constructor
    · rintro (rfl | ⟨other, otherShort, seen, rfl⟩)
      · exact ⟨host, short, by simp [getElem?_record], rfl⟩
      · have different : host ≠ other := by
          rintro rfl
          rw [unseen] at seen
          cases seen
        exact ⟨other, otherShort, by simpa [getElem?_record, different] using seen, rfl⟩
    · rintro ⟨other, otherShort, seen, rfl⟩
      rw [getElem?_record] at seen
      split at seen
      · cases seen
        exact .inl rfl
      · exact .inr ⟨other, otherShort, seen, rfl⟩
  · intro first second firstShort secondShort firstSeen secondSeen same
    rw [getElem?_record] at firstSeen secondSeen
    split at firstSeen <;> split at secondSeen
    · simp_all
    · cases firstSeen
      exact absurd same.symm (alone second secondShort secondSeen)
    · cases secondSeen
      exact absurd same (alone first firstShort firstSeen)
    · exact consistent.injective _ _ _ _ firstSeen secondSeen same

theorem Consistent.call {names : ShortNames} (consistent : names.Consistent) (c : Call) :
    (names.call c).Consistent := by
  obtain same | ⟨short, unseen, unused, recorded⟩ := names.call_cases c
  · rw [same]; exact consistent
  · rw [recorded]; exact consistent.record unseen unused

/-- A call keeps every short name that was handed out. -/
theorem assigned_call {names : ShortNames} {host short : Text}
    (seen : names.assigned[host]? = some short) (c : Call) :
    (names.call c).assigned[host]? = some short := by
  obtain same | ⟨other, unseen, -, recorded⟩ := names.call_cases c
  · rw [same]; exact seen
  · have different : c.host ≠ host := by
      rintro rfl
      rw [unseen] at seen
      cases seen
    rw [recorded, getElem?_record, if_neg different]
    exact seen

/-- A call changes nothing for a host name that it is not about. -/
theorem assigned_call_of_ne (names : ShortNames) (c : Call) {other : Text}
    (different : other ≠ c.host) : (names.call c).assigned[other]? = names.assigned[other]? := by
  obtain same | ⟨short, -, -, recorded⟩ := names.call_cases c
  · rw [same]
  · rw [recorded, getElem?_record, if_neg (Ne.symm different)]

/-- A call takes no short name back. -/
theorem size_le_call (names : ShortNames) (c : Call) :
    names.assigned.size ≤ (names.call c).assigned.size := by
  obtain same | ⟨short, unseen, -, recorded⟩ := names.call_cases c
  · exact Nat.le_of_eq (by rw [same])
  · rw [recorded, names.size_record short unseen]
    exact Nat.le_succ _

theorem size_call_le (names : ShortNames) (c : Call) :
    (names.call c).assigned.size ≤ names.assigned.size + 1 := by
  obtain same | ⟨short, unseen, -, recorded⟩ := names.call_cases c
  · rw [same]
    exact Nat.le_succ _
  · rw [recorded]
    exact Nat.le_of_eq (names.size_record short unseen)

/-! ## Runs -/

/-- The short names after a sequence of calls. -/
def run (names : ShortNames) (calls : List Call) : ShortNames :=
  calls.foldl call names

theorem run_concat (names : ShortNames) (calls : List Call) (c : Call) :
    names.run (calls ++ [c]) = (names.run calls).call c := by
  simp [run]

theorem Consistent.run {names : ShortNames} (consistent : names.Consistent) (calls : List Call) :
    (names.run calls).Consistent := by
  induction calls generalizing names with
  | nil => exact consistent
  | cons c rest ih => exact ih (consistent.call c)

theorem consistent_run (calls : List Call) : (empty.run calls).Consistent :=
  consistent_empty.run calls

/-- A short name that was handed out stays through every sequence of calls. -/
theorem assigned_run {names : ShortNames} {host short : Text}
    (seen : names.assigned[host]? = some short) (calls : List Call) :
    (names.run calls).assigned[host]? = some short := by
  induction calls generalizing names with
  | nil => exact seen
  | cons c rest ih => exact ih (assigned_call seen c)

/-- **Short names stay apart.**  After every sequence of calls on the short names of a directory that
starts with none: the names in use are exactly the upper case of those handed out, and different host
names have short names that differ in more than ASCII case; a host name keeps its short name through
all later calls, so that asking for it again under any code page gives the same text and changes
nothing; a call hands out at most one short name, to the host name that it is about; asking for a
short name leaves the host name with the answer; and a reservation that is refused changes nothing. -/
theorem run_keeps_short_names_apart (calls : List Call) :
    let names := empty.run calls
    names.Consistent ∧
      (∀ host short : Text, names.assigned[host]? = some short → ∀ later : List Call,
        (names.run later).assigned[host]? = some short ∧
          ∀ page, (names.run later).assign page host = (short, names.run later)) ∧
      (∀ c : Call, (names.call c).assigned.size ≤ names.assigned.size + 1 ∧
        ∀ other : Text, other ≠ c.host → (names.call c).assigned[other]? = names.assigned[other]?) ∧
      (∀ page host, (names.assign page host).2.assigned[host]? =
        some (names.assign page host).1) ∧
      ∀ page host, (names.reserve page host).1 = false → (names.reserve page host).2 = names := by
  intro names
  refine ⟨consistent_run calls, ?_, ?_, names.assigned_assign, fun page host => reserve_refused⟩
  · intro host short seen later
    have stays := assigned_run seen later
    exact ⟨stays, fun page => assign_of_seen page stays⟩
  · intro c
    exact ⟨names.size_call_le c, fun other => names.assigned_call_of_ne c⟩

end GuestDos.Naming.ShortNames
