/-
# GuestDos.Proofs.Machine.Differences -- the runs of bytes that changed

The runs that are listed between two memories show every byte that differs, and no other, as it is
now.  No run is empty, they come in order of address, and two of them never touch, so each is as long
as it can be.  Storing them in the earlier memory gives the later one.

* `Run.byteAt?`, `shown?` -- the byte that a run, or the first of several, has at an index.
* `Changes` -- runs that are exactly the differing bytes from an index on.
* `changes_changesSince` -- what is listed; `patch_changesSince` -- that it is enough.
-/
import GuestDos.Machine.Difference

namespace GuestDos.Machine

set_option autoImplicit false

/-- The byte that a run has at an index. -/
def Run.byteAt? (run : Run) (i : Nat) : Option UInt8 :=
  if run.start ≤ i then run.bytes[i - run.start]? else none

/-- One past the last index of a run. -/
def Run.finish (run : Run) : Nat :=
  run.start + run.bytes.length

/-- The byte that the first of some runs to reach an index has there. -/
def shown? (runs : List Run) (i : Nat) : Option UInt8 :=
  runs.findSome? (·.byteAt? i)

/-- Runs from an index on, none of them empty, in order and with an index between each two. -/
inductive Spaced : (first : Nat) → List Run → Prop where
  | nil {first : Nat} : Spaced first []
  | run {first : Nat} {run : Run} {rest : List Run} (from_ : first ≤ run.start)
      (nonempty : run.bytes ≠ []) (inside : run.finish ≤ memorySize)
      (later : Spaced (run.finish + 1) rest) : Spaced first (run :: rest)

/-- The runs are the bytes from `first` on in which `m` differs from `earlier`, and no others. -/
structure Changes (m earlier : Memory) (first : Nat) (runs : List Run) : Prop where
  spaced : Spaced first runs
  shows : ∀ i : Fin memorySize, first ≤ i →
    shown? runs i = if m.byteAt i = earlier.byteAt i then none else some (m.byteAt i)

/-! ## One byte in front of the runs -/

section Extend

variable {run : Run} {runs : List Run} {first index i : Nat} {byte : UInt8}

theorem Run.byteAt?_of_lt (before : i < run.start) : run.byteAt? i = none :=
  if_neg (Nat.not_le_of_lt before)

/-- A run that gets a byte in front has that byte, and the others as before. -/
theorem Run.byteAt?_cons (run : Run) (next : run.start = index + 1) (i : Nat) :
    (Run.mk index (byte :: run.bytes)).byteAt? i =
      if i = index then some byte else run.byteAt? i := by
  unfold Run.byteAt?
  rcases Nat.lt_trichotomy i index with before | rfl | after
  · rw [if_neg (Nat.not_le_of_lt before), if_neg (Nat.ne_of_lt before), if_neg (by omega)]
  · rw [if_pos (Nat.le_refl _), if_pos rfl, Nat.sub_self]
    rfl
  · have shift : i - index = i - run.start + 1 := by omega
    rw [if_pos (Nat.le_of_lt after), if_neg (Nat.ne_of_gt after), if_pos (by omega), shift,
      List.getElem?_cons_succ]

theorem Run.byteAt?_single (i : Nat) :
    (Run.mk index [byte]).byteAt? i = if i = index then some byte else none := by
  have empty : (Run.mk (index + 1) []).byteAt? i = none := by
    unfold Run.byteAt?
    split <;> rfl
  rw [← empty]
  exact Run.byteAt?_cons ⟨index + 1, []⟩ rfl i

theorem shown?_cons (run : Run) (rest : List Run) (i : Nat) :
    shown? (run :: rest) i = (run.byteAt? i).or (shown? rest i) := by
  rw [shown?, List.findSome?_cons]
  cases run.byteAt? i <;> rfl

/-- The new byte shows at its index, and everything else as before. -/
theorem shown?_extend (runs : List Run) (i : Nat) :
    shown? (Run.extend index byte runs) i = if i = index then some byte else shown? runs i := by
  have front : ∀ rest : Option UInt8, (if i = index then some byte else none).or rest =
      if i = index then some byte else rest := by
    intro rest
    split <;> rfl
  cases runs with
  | nil => rw [Run.extend, shown?_cons, Run.byteAt?_single, front]
  | cons run rest =>
      rw [Run.extend]
      split
      · rename_i next
        rw [shown?_cons, shown?_cons, Run.byteAt?_cons run next]
        split <;> rfl
      · rw [shown?_cons, Run.byteAt?_single, front]

namespace Spaced

/-- No run reaches an index before the first. -/
theorem shown?_of_lt (spaced : Spaced first runs) (before : i < first) : shown? runs i = none := by
  induction spaced with
  | nil => rfl
  | @run first run rest from_ nonempty inside later ih =>
      have reach : run.start ≤ run.finish := Nat.le_add_right _ _
      rw [shown?_cons, Run.byteAt?_of_lt (by omega)]
      exact ih (by omega)

theorem of_le {start : Nat} (spaced : Spaced first runs) (earlier : start ≤ first) :
    Spaced start runs := by
  cases spaced with
  | nil => exact .nil
  | run from_ nonempty inside later => exact .run (Nat.le_trans earlier from_) nonempty inside later

/-- The byte joins the first run, or becomes one that does not touch it. -/
theorem extend (spaced : Spaced (index + 1) runs) (bound : index < memorySize) :
    Spaced index (Run.extend index byte runs) := by
  have single : (Run.mk index [byte]).finish = index + 1 := rfl
  cases spaced with
  | nil => exact .run (Nat.le_refl _) (List.cons_ne_nil _ _) (single ▸ bound) .nil
  | @run _ run rest from_ nonempty inside later =>
      rw [Run.extend]
      split
      · rename_i next
        have finish : (Run.mk index (byte :: run.bytes)).finish = run.finish := by
          unfold Run.finish
          rw [next, List.length_cons, Nat.add_right_comm, Nat.add_assoc]
        exact .run (Nat.le_refl _) (List.cons_ne_nil _ _) (finish ▸ inside) (finish ▸ later)
      · rename_i gap
        refine .run (Nat.le_refl _) (List.cons_ne_nil _ _) (single ▸ bound) ?_
        rw [single]
        exact .run (Nat.lt_of_le_of_ne from_ (Ne.symm gap)) nonempty inside later

end Spaced

end Extend

/-! ## The runs that are listed -/

section Listed

variable {m earlier : Memory} {i : Nat} {bound : i < memorySize} {found : List Run}

/-- **One byte further down**: it is passed over if it is the same, and put in front if not. -/
theorem Changes.step (changes : Changes m earlier (i + 1) found) :
    Changes m earlier i
      (if m.byteAt ⟨i, bound⟩ = earlier.byteAt ⟨i, bound⟩ then found
        else Run.extend i (m.byteAt ⟨i, bound⟩) found) := by
  by_cases same : m.byteAt ⟨i, bound⟩ = earlier.byteAt ⟨i, bound⟩
  · rw [if_pos same]
    refine ⟨changes.spaced.of_le (Nat.le_succ i), fun j from_ => ?_⟩
    by_cases here : j = ⟨i, bound⟩
    · rw [here, if_pos same]
      exact changes.spaced.shown?_of_lt (Nat.lt_succ_self i)
    · exact changes.shows j (Nat.lt_of_le_of_ne from_ fun e => here (Fin.ext e.symm))
  · rw [if_neg same]
    refine ⟨changes.spaced.extend bound, fun j from_ => ?_⟩
    rw [shown?_extend]
    by_cases here : j = ⟨i, bound⟩
    · rw [here, if_pos rfl, if_neg same]
    · have other : (j : Nat) ≠ i := fun e => here (Fin.ext e)
      rw [if_neg other]
      exact changes.shows j (Nat.lt_of_le_of_ne from_ (Ne.symm other))

theorem changes_changesBelow (count : Nat) (within : count ≤ memorySize)
    (changes : Changes m earlier count found) :
    Changes m earlier 0 (m.changesBelow earlier count within found) := by
  induction count generalizing found with
  | zero => exact changes
  | succ i ih => exact ih _ changes.step

/-- **What is listed** are exactly the bytes that differ, in runs that are as long as they can be. -/
theorem changes_changesSince (m earlier : Memory) :
    Changes m earlier 0 (m.changesSince earlier) :=
  changes_changesBelow memorySize (Nat.le_refl _)
    ⟨.nil, fun i past => absurd i.isLt (Nat.not_lt_of_le past)⟩

end Listed

/-! ## Storing the runs -/

/-- Stores runs in a memory, the first one last. -/
def Memory.patch (m : Memory) (runs : List Run) : Memory :=
  runs.foldr (fun run m => m.writeBlock (UInt32.ofNat run.start) run.bytes) m

theorem byteAt_patch {m : Memory} {first : Nat} {runs : List Run} (spaced : Spaced first runs)
    (i : Fin memorySize) : (m.patch runs).byteAt i = (shown? runs i).getD (m.byteAt i) := by
  induction spaced with
  | nil => rfl
  | @run first run rest from_ nonempty inside later ih =>
      have address : (UInt32.ofNat run.start).toNat = run.start := by
        unfold Run.finish memorySize at inside
        exact UInt32.toNat_ofNat_of_lt' (by simp only [UInt32.size]; omega)
      have stored : (m.patch (run :: rest)).byteAt i =
          (run.byteAt? i).getD ((m.patch rest).byteAt i) := by
        rw [Memory.patch, List.foldr_cons,
          Memory.byteAt_writeBlock _ _ _ (by rw [address]; exact inside), address]
        rfl
      rw [stored, ih, shown?_cons]
      cases run.byteAt? i <;> rfl

/-- **The runs are enough**: stored in the earlier memory, they give the later one. -/
theorem patch_changesSince (m earlier : Memory) :
    earlier.patch (m.changesSince earlier) = m := by
  have changes := changes_changesSince m earlier
  apply Memory.ext_byteAt
  intro i
  rw [byteAt_patch changes.spaced, changes.shows i (Nat.zero_le _)]
  split
  · rename_i same
    exact same.symm
  · rfl

end GuestDos.Machine
