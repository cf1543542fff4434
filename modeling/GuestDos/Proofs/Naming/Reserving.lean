/-
# GuestDos.Proofs.Naming.Reserving -- legal names that claim themselves first

Before a directory is listed its legal names claim themselves one after the other.  Of the names
that are equal without regard to ASCII case the first one gets its claim, and nothing that is handed
out later comes near a claim: a name without one gets an alias that differs from every legal name.

* `mem_used_reserved`, `assigned_reserved` -- the short names after any sequence of claims.
* `AfterReserving` -- what every later name keeps, if the legal ones among them have been there.
-/
import Mathlib.Data.List.Induction
import GuestDos.Proofs.Naming.Calls

namespace GuestDos.Naming

set_option autoImplicit false

/-- The legal names among some texts. -/
def legalNames (page : CodePage) (texts : List Text) : List Text :=
  texts.filter (isLegal page)

/-- The first of some names that a name equals without regard to ASCII case. -/
def firstTwin? (names : List Text) (name : Text) : Option Text :=
  names.find? fun other => Text.upper other == Text.upper name

theorem mem_legalNames {page : CodePage} {texts : List Text} {name : Text} :
    name ∈ legalNames page texts ↔ name ∈ texts ∧ isLegal page name = true :=
  List.mem_filter

theorem firstTwin?_eq_none {names : List Text} {name : Text} :
    firstTwin? names name = none ↔ ∀ other ∈ names, Text.upper other ≠ Text.upper name := by
  simp [firstTwin?]

theorem firstTwin?_eq_some {names : List Text} {name first : Text}
    (found : firstTwin? names name = some first) :
    first ∈ names ∧ Text.upper first = Text.upper name :=
  ⟨List.mem_of_find?_eq_some found, by simpa using List.find?_some found⟩

/-- Which twin is the first depends on the class alone. -/
theorem firstTwin?_congr {first second : Text} (same : Text.upper first = Text.upper second)
    (names : List Text) : firstTwin? names first = firstTwin? names second := by
  unfold firstTwin?
  rw [same]

theorem firstTwin?_concat (names : List Text) (last name : Text) :
    firstTwin? (names ++ [last]) name =
      (firstTwin? names name).or
        (if Text.upper last = Text.upper name then some last else none) := by
  unfold firstTwin?
  rw [List.find?_append, List.find?_cons]
  by_cases same : Text.upper last = Text.upper name
  · simp [same]
  · have differ : (Text.upper last == Text.upper name) = false := beq_eq_false_iff_ne.2 same
    simp [differ, same]

/-- A later twin changes nobody's first twin. -/
theorem firstTwin?_concat_of_twin {names : List Text} {last other : Text} (member : other ∈ names)
    (twin : Text.upper other = Text.upper last) (name : Text) :
    firstTwin? (names ++ [last]) name = firstTwin? names name := by
  rw [firstTwin?_concat]
  cases first : firstTwin? names name with
  | some keeper => rfl
  | none =>
      have apart := firstTwin?_eq_none.1 first other member
      rw [twin] at apart
      simp [apart]

namespace ShortNames

/-! ## Claims -/

/-- The short names after some texts have claimed themselves, in order. -/
def reserved (page : CodePage) (texts : List Text) : ShortNames :=
  empty.run (texts.map (Call.reserve page))

theorem reserved_concat (page : CodePage) (texts : List Text) (host : Text) :
    reserved page (texts ++ [host]) = ((reserved page texts).reserve page host).2 := by
  simp [reserved, run_concat, call]

/-- The claims say exactly who keeps its name: the first of each class of legal names. -/
structure Claimed (names : ShortNames) (legal : List Text) : Prop where
  mem_used_iff : ∀ upper, upper ∈ names.used ↔ ∃ other ∈ legal, Text.upper other = upper
  assigned : ∀ host : Text, names.assigned[host]? =
    if firstTwin? legal host = some host then some host else none

/-- A claim comes too late when a legal name with a twin of it was there before. -/
theorem Claimed.late {names : ShortNames} {legal : List Text} {host other : Text}
    (claimed : names.Claimed legal) (member : other ∈ legal)
    (twin : Text.upper other = Text.upper host) : names.Claimed (legal ++ [host]) where
  mem_used_iff upper := by
    rw [claimed.mem_used_iff]
    constructor
    · rintro ⟨name, known, same⟩
      exact ⟨name, List.mem_append_left _ known, same⟩
    · rintro ⟨name, known, same⟩
      rcases List.mem_append.1 known with before | last
      · exact ⟨name, before, same⟩
      · rw [List.mem_singleton.1 last] at same
        exact ⟨other, member, twin.trans same⟩
  assigned name := by
    rw [claimed.assigned, firstTwin?_concat_of_twin member twin]

/-- A claim is granted to a legal name without a twin before it. -/
theorem Claimed.record {names : ShortNames} {legal : List Text} {host : Text}
    (claimed : names.Claimed legal) (unused : names.isUsed host = false) :
    (names.record host host).Claimed (legal ++ [host]) where
  mem_used_iff upper := by
    rw [mem_used_record, claimed.mem_used_iff]
    simp only [List.mem_append, List.mem_singleton]
    constructor
    · rintro (same | ⟨name, known, same⟩)
      · exact ⟨host, .inr rfl, same⟩
      · exact ⟨name, .inl known, same⟩
    · rintro ⟨name, known | rfl, same⟩
      · exact .inr ⟨name, known, same⟩
      · exact .inl same
  assigned name := by
    have alone : firstTwin? legal host = none := by
      rw [firstTwin?_eq_none]
      intro other member same
      have used := (claimed.mem_used_iff _).2 ⟨other, member, same⟩
      rw [← isUsed_iff, unused] at used
      cases used
    rw [getElem?_record, claimed.assigned, firstTwin?_concat]
    by_cases itself : host = name
    · subst itself
      simp [alone]
    · cases firstTwin? legal name with
      | some keeper => simp [itself]
      | none => simp [itself]

theorem claimed_reserved (page : CodePage) (texts : List Text) :
    (reserved page texts).Claimed (legalNames page texts) := by
  induction texts using List.reverseRecOn with
  | nil => exact ⟨fun upper => by simp [reserved, run, legalNames],
      fun host => by simp [reserved, run, legalNames, firstTwin?]⟩
  | append_singleton texts host ih =>
      rw [reserved_concat]
      have legalNow : legalNames page (texts ++ [host]) =
          legalNames page texts ++ if isLegal page host then [host] else [] := by
        simp [legalNames, List.filter_cons]
      rw [legalNow]
      cases known : (reserved page texts).assigned[host]? with
      | some short =>
          -- it was there before: it is its own twin
          rw [reserve_of_seen page known]
          have keeper : firstTwin? (legalNames page texts) host = some host := by
            have kept := ih.assigned host
            rw [known] at kept
            split at kept
            · assumption
            · cases kept
          have member := (firstTwin?_eq_some keeper).1
          rw [if_pos (mem_legalNames.1 member).2]
          exact ih.late member rfl
      | none =>
          rw [reserve_of_unseen page known]
          cases legal : isLegal page host with
          | false => simpa using ih
          | true =>
              cases used : (reserved page texts).isUsed host with
              | false => simpa using ih.record used
              | true =>
                  obtain ⟨other, member, twin⟩ :=
                    (ih.mem_used_iff _).1 (((reserved page texts).isUsed_iff host).1 used)
                  simpa using ih.late member twin

/-! ## Names after the claims -/

/-- What the names handed out after the claims keep: every claim, and a distance from all of them. -/
structure AfterReserving (before names : ShortNames) : Prop where
  kept : ∀ host short : Text, before.assigned[host]? = some short →
    names.assigned[host]? = some short
  used : ∀ upper ∈ before.used, upper ∈ names.used
  apart : ∀ host short : Text, names.assigned[host]? = some short →
    before.assigned[host]? = some short ∨
      before.assigned[host]? = none ∧ Text.upper short ∉ before.used

theorem AfterReserving.refl (before : ShortNames) : before.AfterReserving before where
  kept _ _ seen := seen
  used _ member := member
  apart _ _ seen := .inl seen

theorem AfterReserving.assign {before names : ShortNames} (after : before.AfterReserving names)
    (page : CodePage) (host : Text) : before.AfterReserving (names.assign page host).2 := by
  cases known : names.assigned[host]? with
  | some short => rw [assign_of_seen page known]; exact after
  | none =>
      rw [assign_of_unseen page known]
      have unclaimed : before.assigned[host]? = none := by
        cases claim : before.assigned[host]? with
        | none => rfl
        | some short => rw [after.kept host short claim] at known; cases known
      have unused : Text.upper (names.newShort page host) ∉ before.used := by
        intro member
        have used := (names.isUsed_iff _).2 (after.used _ member)
        rw [names.newShort_unused page host] at used
        cases used
      constructor
      · intro other short claim
        have different : host ≠ other := by
          rintro rfl
          rw [unclaimed] at claim
          cases claim
        rw [getElem?_record, if_neg different]
        exact after.kept other short claim
      · intro upper member
        exact (mem_used_record _ _ _ _).2 (.inr (after.used upper member))
      · intro other short seen
        rw [getElem?_record] at seen
        split at seen
        · rename_i same
          cases seen
          exact same ▸ .inr ⟨unclaimed, unused⟩
        · exact after.apart other short seen

/-- A short name made after the claims is the claim of its host name, or far from every claim. -/
theorem AfterReserving.short {before names : ShortNames} (after : before.AfterReserving names)
    (page : CodePage) (host : Text) :
    before.assigned[host]? = some (names.assign page host).1 ∨
      before.assigned[host]? = none ∧ Text.upper (names.assign page host).1 ∉ before.used :=
  (after.assign page host).apart host _ (names.assigned_assign page host)

end ShortNames

end GuestDos.Naming
