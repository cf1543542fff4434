/-
# GuestDos.Naming.ShortNames -- the short names handed out for one directory

Every host name gets a short name that differs from all others without regard to ASCII case, and
keeps it each time it is seen.

* `reserve` -- a legal name claims itself, so that no alias can take it.
* `assign` -- the short name of a host name: the one it has, else itself if it can claim itself,
  else its plain conversion if that lost nothing and is free, else the first free numbered alias.
* `firstFree` -- the search for that number: among one more candidates than there are names in use
  one is free, so it looks at no more than that.

Init and `Std.Data.TreeMap`.
-/
import Std.Data.TreeMap
import Std.Data.TreeSet
import GuestDos.Naming.Alias

namespace GuestDos.Naming

set_option autoImplicit false

/-- The short name of each host name seen, and the names in use in upper case. -/
structure ShortNames where
  assigned : Std.TreeMap Text Text
  used : Std.TreeSet Text

/-- The first number from `n` on that is free, or the one after `steps` that are not. -/
def firstFree (isFree : Nat → Bool) (n : Nat) : Nat → Nat
  | 0 => n
  | steps + 1 => if isFree n then n else firstFree isFree (n + 1) steps

namespace ShortNames

/-- No name handed out. -/
def empty : ShortNames :=
  ⟨∅, ∅⟩

/-- Whether a name is in use in any ASCII case. -/
def isUsed (names : ShortNames) (short : Text) : Bool :=
  names.used.contains (Text.upper short)

/-- Hands a short name out. -/
def record (names : ShortNames) (host short : Text) : ShortNames :=
  ⟨names.assigned.insert host short, names.used.insert (Text.upper short)⟩

/-- A legal name claims itself; says whether the name has itself for a short name afterwards. -/
def reserve (names : ShortNames) (page : CodePage) (host : Text) : Bool × ShortNames :=
  match names.assigned[host]? with
  | some short => (short == host, names)
  | none =>
      if isLegal page host && !names.isUsed host then (true, names.record host host)
      else (false, names)

/-- The short name that is made up for a host name that cannot have itself. -/
def freshAlias (names : ShortNames) (page : CodePage) (host : Text) : Text :=
  let plain := (ShortName.convert page none host).text
  if isTruncated page host || names.isUsed plain then
    let numbered (n : Nat) : Text := (ShortName.convert page (some n) host).text
    numbered (firstFree (fun n => !names.isUsed (numbered n)) 1 names.used.size)
  else
    plain

/-- The short name of a host name. -/
def assign (names : ShortNames) (page : CodePage) (host : Text) : Text × ShortNames :=
  match names.assigned[host]? with
  | some short => (short, names)
  | none =>
      match names.reserve page host with
      | (true, reserved) => (host, reserved)
      | (false, _) =>
          let short := names.freshAlias page host
          (short, names.record host short)

/-! ## What is handed out and in use -/

@[simp] theorem assigned_empty (host : Text) : empty.assigned[host]? = none := by
  simp [empty]

@[simp] theorem not_mem_used_empty (upper : Text) : upper ∉ empty.used := by
  simp [empty]

theorem isUsed_iff (names : ShortNames) (short : Text) :
    names.isUsed short = true ↔ Text.upper short ∈ names.used :=
  Std.TreeSet.contains_iff_mem

theorem getElem?_record (names : ShortNames) (host short other : Text) :
    (names.record host short).assigned[other]? =
      if host = other then some short else names.assigned[other]? := by
  simp [record, Std.TreeMap.getElem?_insert]

theorem mem_used_record (names : ShortNames) (host short upper : Text) :
    upper ∈ (names.record host short).used ↔ Text.upper short = upper ∨ upper ∈ names.used := by
  simp [record, Std.TreeSet.mem_insert]

/-- A name that was not handed out before adds one entry. -/
theorem size_record (names : ShortNames) {host : Text} (short : Text)
    (unseen : names.assigned[host]? = none) :
    (names.record host short).assigned.size = names.assigned.size + 1 := by
  have absent : names.assigned.contains host = false := by
    rw [Std.TreeMap.contains_eq_isSome_getElem?, unseen]
    rfl
  simp [record, Std.TreeMap.size_insert, absent]

end ShortNames

end GuestDos.Naming
