/-
# GuestDos.Proofs.Kernel.Callbacks -- callbacks over whole histories

Numbers are handed out, routines are installed under them and their stubs are stored in guest
memory, in any order and with any numbers.  As long as nothing else stores where the stubs are, the
flags, the routines and the memory agree with what happened: the numbers handed out are 1, 2, and so
on up to 127, their flags are the ones that are set, a number answers exactly if a routine was
installed under it, with the latest one, and its stub carries it back.

* `Guest`, `Call`, `Guest.perform` -- the table with its memory, and what is asked of them.
* `History` -- calls with their answers, from a new table on.
* `allocations`, `handedOut`, `latest?` -- what a history says about numbers and routines.
* `TakenUpTo` -- flags that are set up to a number; every allocation moves that number on by one.
* `Agrees` -- the table and the memory agree with the history; `Agrees.step`, `agrees_of_history`.
* `Faithful` -- how every next call is answered; `faithful_of_history`.
-/
import GuestDos.Kernel.Callback
import GuestDos.Proofs.Machine.Blocks
import GuestDos.Proofs.Machine.Holding

namespace GuestDos.Kernel.Callbacks

set_option autoImplicit false

open GuestDos.Machine (FarPointer Memory memorySize)
open CallbackTable (entry stub length_stub stub_inside)

/-! ## Calls and histories -/

/-- The callbacks of a machine, and the memory that their stubs are in. -/
structure Guest where
  table : CallbackTable
  memory : Memory

/-- What is asked of the callbacks, or happens to the memory meanwhile. -/
inductive Call where
  | allocate
  | install (number : UInt16) (routine : Routine)
  | name (number : UInt16)
  | dispatch (number : UInt16)
  /-- Anything else that stores in memory. -/
  | elsewhere (change : Memory → Memory)

/-- What a call is answered. -/
inductive Answer where
  | number (result : Except KernelError UInt16)
  | entry (result : Except KernelError FarPointer)
  | name (result : Option String)
  | signal (result : Except KernelError Signal)
  | done

/-- The answer to a call, and what it leaves; a call that fails leaves everything. -/
def Guest.perform (g : Guest) : Call → Answer × Guest
  | .allocate =>
      match g.table.allocate with
      | .ok (number, table) => (.number (.ok number), { g with table })
      | .error failure => (.number (.error failure), g)
  | .install number routine =>
      match g.table.install number routine g.memory with
      | .ok (entry, table, memory) => (.entry (.ok entry), ⟨table, memory⟩)
      | .error failure => (.entry (.error failure), g)
  | .name number => (.name (g.table.name? number), g)
  | .dispatch number =>
      match g.table.dispatch number g.memory with
      | .ok (signal, memory) => (.signal (.ok signal), { g with memory })
      | .error failure => (.signal (.error failure), g)
  | .elsewhere change => (.done, { g with memory := change g.memory })

/-- The addresses of the BIOS segment that are kept for stubs. -/
def InStubArea (i : Nat) : Prop :=
  0xf1000 ≤ i ∧ i < 0xf2000

/-- A call stores nothing where the stubs are, unless it installs one. -/
def Guest.Spared (g : Guest) : Call → Prop
  | .install _ _ => True
  | call => ∀ i : Fin memorySize, InStubArea i →
      (g.perform call).2.memory.byteAt i = g.memory.byteAt i

/-- A call and its answer. -/
structure Event where
  call : Call
  answer : Answer

/-- The calls so far with their answers, from a new table and some memory on, and the guest that they
leave. -/
inductive History (m : Memory) : List Event → Guest → Prop where
  | start : History m [] ⟨.empty, m⟩
  | next {events : List Event} {g : Guest} (before : History m events g) (call : Call)
      (spared : g.Spared call) :
      History m (events ++ [⟨call, (g.perform call).1⟩]) (g.perform call).2

/-! ## What a history says -/

namespace Event

/-- The answer to an allocation. -/
def allocation? : Event → Option (Except KernelError UInt16)
  | ⟨.allocate, .number result⟩ => some result
  | _ => none

/-- The routine that was installed under a number. -/
def installed? (number : UInt16) : Event → Option Routine
  | ⟨.install other routine, .entry (.ok _)⟩ => if other = number then some routine else none
  | _ => none

end Event

/-- The answers to all allocations. -/
def allocations (events : List Event) : List (Except KernelError UInt16) :=
  events.filterMap Event.allocation?

/-- The numbers that were handed out. -/
def handedOut (events : List Event) : List UInt16 :=
  (allocations events).filterMap Except.toOption

/-- What an allocation after `k` others is answered. -/
def numbering (k : Nat) : Except KernelError UInt16 :=
  if k + 1 < callbackSlots then .ok (UInt16.ofNat (k + 1)) else .error .noFreeCallbacks

/-- The routine that was installed last under a number. -/
def latest? (events : List Event) (number : UInt16) : Option Routine :=
  (events.filterMap (Event.installed? number)).getLast?

theorem allocations_concat (events : List Event) (event : Event) :
    allocations (events ++ [event]) = allocations events ++ event.allocation?.toList := by
  simp only [allocations, List.filterMap_append, List.filterMap_cons, List.filterMap_nil]
  cases event.allocation? <;> rfl

theorem latest?_concat (events : List Event) (event : Event) (number : UInt16) :
    latest? (events ++ [event]) number = (event.installed? number).or (latest? events number) := by
  simp only [latest?, List.filterMap_append, List.filterMap_cons, List.filterMap_nil]
  cases event.installed? number <;> simp

theorem Event.installed?_eq_some_iff {event : Event} {number : UInt16} {routine : Routine} :
    event.installed? number = some routine ↔
      ∃ p, event = ⟨.install number routine, .entry (.ok p)⟩ := by
  constructor
  · intro installed
    unfold installed? at installed
    split at installed
    · rename_i other found p
      split at installed
      · rename_i same
        cases installed
        exact ⟨p, by rw [same]⟩
      · cases installed
    · cases installed
  · rintro ⟨p, rfl⟩
    exact if_pos rfl

/-- No routine is the latest exactly if none was installed. -/
theorem latest?_eq_none_iff {events : List Event} {number : UInt16} :
    latest? events number = none ↔
      ∀ routine p, Event.mk (.install number routine) (.entry (.ok p)) ∉ events := by
  rw [latest?, List.getLast?_eq_none_iff, List.filterMap_eq_nil_iff]
  constructor
  · intro never routine p member
    have installed : (Event.mk (.install number routine) (.entry (.ok p))).installed? number =
        some routine := Event.installed?_eq_some_iff.2 ⟨p, rfl⟩
    rw [never _ member] at installed
    cases installed
  · intro never event member
    cases installed : event.installed? number with
    | none => rfl
    | some routine =>
        obtain ⟨p, rfl⟩ := Event.installed?_eq_some_iff.1 installed
        exact absurd member (never routine p)

/-! ## One call -/

section Calls

variable {t : CallbackTable} {number : UInt16} {routine : Routine} {m : Memory} {g : Guest}

/-- Where the stub of a number of the table is. -/
theorem toNat_physical_entry (small : number.toNat < callbackSlots) :
    (entry number).physical.toNat = 0xf1000 + 32 * number.toNat := by
  unfold callbackSlots at small
  rw [FarPointer.toNat_physical]
  simp only [entry, UInt16.toNat_add, UInt16.toNat_mul, UInt16.reduceToNat]
  omega

theorem ne_zero_iff : number ≠ 0 ↔ 1 ≤ number.toNat := by
  rw [Nat.one_le_iff_ne_zero, Ne, Ne, ← UInt16.toNat_inj, UInt16.toNat_zero]

/-- A routine can be installed under a number that was handed out, and the flags stay. -/
theorem install_of_taken (routine : Routine) (m : Memory)
    (usable : number ≠ 0 ∧ t.Taken number.toNat) :
    ∃ table, t.install number routine m =
        .ok (entry number, table, m.writeBlock (entry number).physical (stub number)) ∧
      table.allocated = t.allocated ∧
      ∀ other, table.routine? other = if number = other then some routine else t.routine? other := by
  refine ⟨_, dif_pos usable, rfl, fun other => ?_⟩
  unfold CallbackTable.routine?
  by_cases small : other.toNat < callbackSlots
  · rw [dif_pos small, dif_pos small, Vector.getElem_set]
    by_cases same : number = other
    · rw [if_pos same, if_pos (by rw [same])]
    · rw [if_neg same, if_neg fun e => same (UInt16.toNat_inj.1 e)]
  · rw [dif_neg small, dif_neg small, if_neg]
    rintro rfl
    exact small usable.2.1

theorem perform_dispatch_of_some (known : g.table.routine? number = some routine) :
    g.perform (.dispatch number) =
      (.signal (.ok (routine.handler g.memory).1), ⟨g.table, (routine.handler g.memory).2⟩) := by
  simp only [Guest.perform, CallbackTable.dispatch, known]

theorem perform_dispatch_of_none (unknown : g.table.routine? number = none) :
    g.perform (.dispatch number) = (.signal (.error (.unknownCallback number)), g) := by
  simp only [Guest.perform, CallbackTable.dispatch, unknown]

theorem install_of_not_taken (unusable : ¬ (number ≠ 0 ∧ t.Taken number.toNat)) :
    t.install number routine m = .error (.invalidCallback number) :=
  dif_neg unusable

/-! ## The flags -/

/-- The flags of `t` are set up to `last`, and no others. -/
def TakenUpTo (t : CallbackTable) (last : Nat) : Prop :=
  ∀ number, t.Taken number ↔ number ≤ last

namespace TakenUpTo

variable {last : Nat}

theorem empty : TakenUpTo .empty 0 := by
  intro number
  constructor
  · rintro ⟨small, used⟩
    by_cases zero : number = 0
    · exact Nat.le_of_eq zero
    · have unused : CallbackTable.empty.allocated[number] = false := by
        unfold CallbackTable.empty
        simp only
        rw [Vector.getElem_set_ne _ _ (Ne.symm zero), Vector.getElem_replicate]
      rw [unused] at used
      cases used
  · intro low
    rw [Nat.le_zero.1 low]
    exact CallbackTable.taken_zero .empty

/-- The search for a free number ends right after the last one that was handed out. -/
theorem nextFree (flags : TakenUpTo t last) : t.nextFree = last + 1 := by
  apply CallbackTable.nextFree_eq
  · exact fun other before => (flags other).2 (Nat.le_of_lt_succ before)
  · exact fun taken => Nat.not_succ_le_self last ((flags _).1 taken)

/-- **One allocation**: the flags are set up to the number that was handed out. -/
theorem handOut (flags : TakenUpTo t last) (free : t.nextFree < callbackSlots) :
    TakenUpTo (t.handOut t.nextFree free) (last + 1) := by
  intro number
  rw [CallbackTable.taken_handOut, flags number, flags.nextFree]
  omega

end TakenUpTo

/-! ## The stubs in memory -/

theorem byteAt_writeBlock_stub (number : UInt16) (m : Memory) (i : Fin memorySize)
    (outside : i < (entry number).physical.toNat ∨ (entry number).physical.toNat + 5 ≤ i) :
    (m.writeBlock (entry number).physical (stub number)).byteAt i = m.byteAt i := by
  have length := length_stub number
  rw [Memory.byteAt_writeBlock _ _ _ (stub_inside number)]
  obtain before | after := outside
  · rw [if_neg (Nat.not_le_of_lt before)]
    rfl
  · rw [if_pos (by omega), List.getElem?_eq_none (by omega)]
    rfl

theorem holds_writeBlock_stub (number : UInt16) (m : Memory) :
    (m.writeBlock (entry number).physical (stub number)).Holds (entry number) (stub number) := by
  apply Memory.readBlock_writeBlock
  have inside := stub_inside number
  have short : (stub number).length ≤ memorySize := by
    show 5 ≤ memorySize
    decide
  unfold memorySize at inside
  exact (Memory.apart_iff _ _).2 (.inl ⟨by omega, short⟩)

/-- A stub stays as long as its bytes do. -/
theorem holds_stub_of_kept {m n : Memory} (holds : m.Holds (entry number) (stub number))
    (kept : ∀ i : Fin memorySize, (entry number).physical.toNat ≤ i →
      i < (entry number).physical.toNat + 5 → n.byteAt i = m.byteAt i) :
    n.Holds (entry number) (stub number) := by
  have length := length_stub number
  refine holds.congr (stub_inside number) fun k bound => kept _ ?_ ?_
  · exact Nat.le_add_right _ k
  · show (entry number).physical.toNat + k < _
    omega

/-- The word of a stub is its number. -/
theorem readWord_of_holds_stub (holds : m.Holds (entry number) (stub number))
    (small : number.toNat < callbackSlots) :
    m.readWord ((entry number).advance 2) = number := by
  apply Memory.readWord_of_holds
  apply holds.middle (stub_inside number)
  rw [toNat_physical_entry small, FarPointer.toNat_physical]
  unfold callbackSlots at small
  simp only [entry, FarPointer.advance, UInt16.toNat_add, UInt16.toNat_mul, UInt16.reduceToNat,
    List.length_cons, List.length_nil]
  omega

end Calls

/-! ## The table and the memory agree with the history -/

/-- The table and the memory are what the history says. -/
structure Agrees (events : List Event) (g : Guest) : Prop where
  numbered : allocations events = (List.range (allocations events).length).map numbering
  flags : TakenUpTo g.table (min 127 (allocations events).length)
  routines : ∀ number, g.table.routine? number = latest? events number
  named : ∀ number routine, latest? events number = some routine →
    number ≠ 0 ∧ g.table.Taken number.toNat
  stubs : ∀ number routine, latest? events number = some routine →
    g.memory.Holds (entry number) (stub number)

theorem agrees_start (m : Memory) : Agrees [] ⟨.empty, m⟩ where
  numbered := rfl
  flags := .empty
  routines := fun number => by
    unfold CallbackTable.routine?
    split
    · simp [CallbackTable.empty, latest?]
    · rfl
  named := fun _ _ latest => nomatch latest
  stubs := fun _ _ latest => nomatch latest

namespace Agrees

variable {events : List Event} {g : Guest}

theorem small (agrees : Agrees events g) {number : UInt16} {routine : Routine}
    (latest : latest? events number = some routine) : number.toNat < callbackSlots :=
  (agrees.named number routine latest).2.1

/-- Nothing that was installed is lost when the stubs are spared. -/
theorem stubs_of_spared (agrees : Agrees events g) {memory : Memory}
    (spared : ∀ i : Fin memorySize, InStubArea i → memory.byteAt i = g.memory.byteAt i)
    {number : UInt16} {routine : Routine} (latest : latest? events number = some routine) :
    memory.Holds (entry number) (stub number) := by
  have small := agrees.small latest
  have place := toNat_physical_entry small
  refine holds_stub_of_kept (agrees.stubs number routine latest) fun i low high => ?_
  unfold callbackSlots at small
  exact spared i ⟨by omega, by omega⟩

/-- A call that is no allocation and installs nothing. -/
theorem quiet (agrees : Agrees events g) {event : Event} {memory : Memory}
    (noAllocation : event.allocation? = none) (noInstall : ∀ number, event.installed? number = none)
    (spared : ∀ i : Fin memorySize, InStubArea i → memory.byteAt i = g.memory.byteAt i) :
    Agrees (events ++ [event]) ⟨g.table, memory⟩ := by
  have same : allocations (events ++ [event]) = allocations events := by
    rw [allocations_concat, noAllocation]
    exact List.append_nil _
  have latest : ∀ number, latest? (events ++ [event]) number = latest? events number := by
    intro number
    rw [latest?_concat, noInstall]
    rfl
  constructor
  case numbered => rw [same]; exact agrees.numbered
  case flags => rw [same]; exact agrees.flags
  case routines => intro number; rw [latest]; exact agrees.routines number
  case named => intro number; rw [latest]; exact agrees.named number
  case stubs => intro number routine; rw [latest]; exact agrees.stubs_of_spared spared

/-- What the next allocation is answered, and that it sets one flag. -/
theorem allocate (agrees : Agrees events g) :
    ∃ table, g.perform .allocate =
        (.number (numbering (allocations events).length), ⟨table, g.memory⟩) ∧
      TakenUpTo table (min 127 ((allocations events).length + 1)) ∧
      table.routines = g.table.routines := by
  have flags := agrees.flags
  have next := flags.nextFree
  by_cases free : g.table.nextFree < callbackSlots
  · have few : (allocations events).length < 127 := by
      unfold callbackSlots at free
      omega
    have count : min 127 (allocations events).length = (allocations events).length :=
      Nat.min_eq_right (Nat.le_of_lt few)
    have number : numbering (allocations events).length =
        .ok (UInt16.ofNat g.table.nextFree) := by
      rw [next, count]
      exact if_pos (Nat.succ_lt_succ few)
    refine ⟨g.table.handOut g.table.nextFree free, ?_, ?_, rfl⟩
    · simp only [Guest.perform, CallbackTable.allocate_of_free free, number]
    · have handed := flags.handOut free
      rw [count] at handed
      rw [Nat.min_eq_right few]
      exact handed
  · have many : 127 ≤ (allocations events).length := by
      unfold callbackSlots at free
      omega
    have number : numbering (allocations events).length = .error .noFreeCallbacks :=
      if_neg (Nat.not_lt_of_le (Nat.succ_le_succ many))
    refine ⟨g.table, ?_, ?_, rfl⟩
    · simp only [Guest.perform, CallbackTable.allocate_of_full free, number]
    · rw [Nat.min_eq_left many] at flags
      rw [Nat.min_eq_left (Nat.le_succ_of_le many)]
      exact flags

/-- Installing stores one stub, and names it. -/
theorem install (agrees : Agrees events g) (number : UInt16) (routine : Routine)
    (usable : number ≠ 0 ∧ g.table.Taken number.toNat) :
    ∃ table, g.perform (.install number routine) =
        (.entry (.ok (entry number)),
          ⟨table, g.memory.writeBlock (entry number).physical (stub number)⟩) ∧
      Agrees (events ++ [⟨.install number routine, .entry (.ok (entry number))⟩])
        ⟨table, g.memory.writeBlock (entry number).physical (stub number)⟩ := by
  obtain ⟨table, installed, same, routines⟩ :=
    install_of_taken routine g.memory usable
  have taken : ∀ other, table.Taken other ↔ g.table.Taken other := by
    intro other
    unfold CallbackTable.Taken
    rw [same]
  have kept : allocations (events ++
      [⟨.install number routine, .entry (.ok (entry number))⟩]) = allocations events := by
    rw [allocations_concat]
    exact List.append_nil _
  have latest : ∀ other, latest? (events ++
      [⟨.install number routine, .entry (.ok (entry number))⟩]) other =
        if number = other then some routine else latest? events other := by
    intro other
    rw [latest?_concat]
    by_cases here : number = other
    · simp only [Event.installed?, if_pos here, Option.some_or]
    · simp only [Event.installed?, if_neg here, Option.none_or]
  refine ⟨table, ?_, ?_⟩
  · simp only [Guest.perform, installed]
  constructor
  case numbered => rw [kept]; exact agrees.numbered
  case flags => rw [kept]; exact fun other => (taken other).trans (agrees.flags other)
  case routines =>
    intro other
    rw [latest, ← agrees.routines other]
    exact routines other
  case named =>
    intro other found known
    rw [latest] at known
    show other ≠ 0 ∧ table.Taken other.toNat
    rw [taken]
    by_cases here : number = other
    · rw [← here]
      exact usable
    · rw [if_neg here] at known
      exact agrees.named other found known
  case stubs =>
    intro other found known
    rw [latest] at known
    by_cases here : number = other
    · rw [← here]
      exact holds_writeBlock_stub number g.memory
    · rw [if_neg here] at known
      -- Stubs are further apart than they are long.
      have first := toNat_physical_entry usable.2.1
      have second := toNat_physical_entry (agrees.small known)
      have different : number.toNat ≠ other.toNat := fun e => here (UInt16.toNat_inj.1 e)
      refine holds_stub_of_kept (agrees.stubs other found known) fun i low high => ?_
      exact byteAt_writeBlock_stub number g.memory i (by omega)

/-- **One step**: every call keeps the agreement. -/
theorem step (agrees : Agrees events g) (call : Call) (spared : g.Spared call) :
    Agrees (events ++ [⟨call, (g.perform call).1⟩]) (g.perform call).2 := by
  cases call with
  | allocate =>
      obtain ⟨table, performed, flags, routines⟩ := agrees.allocate
      rw [performed]
      have count : allocations (events ++ [⟨.allocate,
          .number (numbering (allocations events).length)⟩]) =
          allocations events ++ [numbering (allocations events).length] :=
        allocations_concat _ _
      have latest : ∀ number, latest? (events ++ [⟨.allocate,
          .number (numbering (allocations events).length)⟩]) number = latest? events number :=
        fun number => latest?_concat _ _ _
      constructor
      case numbered =>
        rw [count, List.length_append, List.length_singleton, List.range_succ, List.map_append,
          ← agrees.numbered]
        rfl
      case flags => rw [count, List.length_append]; exact flags
      case routines =>
        intro number
        rw [latest, ← agrees.routines number]
        unfold CallbackTable.routine?
        rw [routines]
      case named =>
        intro number routine known
        rw [latest] at known
        obtain ⟨notZero, taken⟩ := agrees.named number routine known
        have low := (agrees.flags _).1 taken
        exact ⟨notZero, (flags _).2 (by omega)⟩
      case stubs =>
        intro number routine known
        rw [latest] at known
        exact agrees.stubs number routine known
  | install number routine =>
      by_cases usable : number ≠ 0 ∧ g.table.Taken number.toNat
      · obtain ⟨table, performed, next⟩ := agrees.install number routine usable
        rw [performed]
        exact next
      · have performed : g.perform (.install number routine) =
            (.entry (.error (.invalidCallback number)), g) := by
          simp only [Guest.perform, install_of_not_taken usable]
        rw [performed]
        exact agrees.quiet rfl (fun _ => rfl) fun _ _ => rfl
  | name number => exact agrees.quiet rfl (fun _ => rfl) fun _ _ => rfl
  | dispatch number =>
      cases known : g.table.routine? number with
      | none =>
          rw [perform_dispatch_of_none known]
          exact agrees.quiet rfl (fun _ => rfl) fun _ _ => rfl
      | some routine =>
          have kept : ∀ i : Fin memorySize, InStubArea i →
              (g.perform (.dispatch number)).2.memory.byteAt i = g.memory.byteAt i := spared
          rw [perform_dispatch_of_some known] at kept ⊢
          exact agrees.quiet rfl (fun _ => rfl) kept
  | elsewhere change => exact agrees.quiet rfl (fun _ => rfl) spared

end Agrees

/-- **Every history**: the table and the memory agree with it. -/
theorem agrees_of_history {m : Memory} {events : List Event} {g : Guest}
    (history : History m events g) : Agrees events g := by
  induction history with
  | start => exact agrees_start m
  | next before call spared agrees => exact agrees.step call spared

theorem length_handedOut {events : List Event}
    (numbered : allocations events = (List.range (allocations events).length).map numbering) :
    (handedOut events).length = min 127 (allocations events).length := by
  have counted : ∀ count : Nat,
      (((List.range count).map numbering).filterMap Except.toOption).length = min 127 count := by
    intro count
    induction count with
    | zero => rfl
    | succ count ih =>
        rw [List.range_succ, List.map_append, List.filterMap_append, List.length_append, ih]
        by_cases free : count + 1 < callbackSlots
        · have number : numbering count = .ok (UInt16.ofNat (count + 1)) := if_pos free
          simp only [List.map_cons, List.map_nil, number, List.filterMap_cons, Except.toOption,
            List.filterMap_nil, List.length_singleton]
          unfold callbackSlots at free
          omega
        · have number : numbering count = .error .noFreeCallbacks := if_neg free
          simp only [List.map_cons, List.map_nil, number, List.filterMap_cons, Except.toOption,
            List.filterMap_nil, List.length_nil]
          unfold callbackSlots at free
          omega
  rw [handedOut, numbered]
  simpa using counted (allocations events).length

/-! ## How every next call is answered -/

/-- How the callbacks answer after a history. -/
structure Faithful (events : List Event) (g : Guest) : Prop where
  /-- Allocations got 1 up to 127, and failures from then on. -/
  numbers : ∀ (k : Nat) (bound : k < (allocations events).length), (allocations events)[k] =
    if k < 127 then .ok (UInt16.ofNat (k + 1)) else .error .noFreeCallbacks
  /-- The flags that are set are those of the numbers handed out so far, and of number 0. -/
  flags : ∀ (number : Nat) (bound : number < callbackSlots),
    g.table.allocated[number] = true ↔ number ≤ (handedOut events).length
  /-- Exactly the numbers handed out so far can be set up; their five bytes change. -/
  installs : ∀ number routine, 1 ≤ number.toNat → number.toNat ≤ (handedOut events).length →
    ∃ table memory, g.perform (.install number routine) =
        (.entry (.ok (entry number)), ⟨table, memory⟩) ∧
      memory.Holds (entry number) (stub number) ∧
      ∀ i : Fin memorySize,
        (i < (entry number).physical.toNat ∨ (entry number).physical.toNat + 5 ≤ i) →
        memory.byteAt i = g.memory.byteAt i
  refuses : ∀ number routine, ¬ (1 ≤ number.toNat ∧ number.toNat ≤ (handedOut events).length) →
    g.perform (.install number routine) = (.entry (.error (.invalidCallback number)), g)
  /-- A number is known exactly if something was installed under it. -/
  known_iff : ∀ number, (∃ routine, latest? events number = some routine) ↔
    ∃ routine p, Event.mk (.install number routine) (.entry (.ok p)) ∈ events
  /-- A known number is the latest routine, and its stub leads back to it. -/
  known : ∀ number routine, latest? events number = some routine →
    g.perform (.name number) = (.name (some routine.name), g) ∧
    g.perform (.dispatch number) =
      (.signal (.ok (routine.handler g.memory).1), ⟨g.table, (routine.handler g.memory).2⟩) ∧
    g.memory.Holds (entry number)
      [0xfe, 0x38, UInt8.ofNat number.toNat, UInt8.ofNat (number.toNat / 256), 0xcb] ∧
    g.memory.readWord ((entry number).advance 2) = number
  /-- Every other number is unknown, and asking for it changes nothing. -/
  unknown : ∀ number, latest? events number = none →
    g.perform (.name number) = (.name none, g) ∧
    g.perform (.dispatch number) = (.signal (.error (.unknownCallback number)), g)
  outside : ∀ number : UInt16, number = 0 ∨ 128 ≤ number.toNat → latest? events number = none

/-- **Callbacks over whole histories**: whatever was asked of a new table, and as long as nothing but
installing stores where the stubs are, numbers, flags, stubs and answers are what the history
says. -/
theorem faithful_of_history {m : Memory} {events : List Event} {g : Guest}
    (history : History m events g) : Faithful events g := by
  have agrees := agrees_of_history history
  have taken : ∀ number, g.table.Taken number ↔ number ≤ (handedOut events).length := by
    intro number
    rw [length_handedOut agrees.numbered]
    exact agrees.flags number
  have answered : ∀ k, numbering k =
      if k < 127 then .ok (UInt16.ofNat (k + 1)) else .error .noFreeCallbacks := by
    intro k
    unfold numbering callbackSlots
    by_cases free : k < 127
    · rw [if_pos free, if_pos (by omega)]
    · rw [if_neg free, if_neg (by omega)]
  constructor
  case numbers =>
    intro k bound
    have listed := congrArg (fun l => l[k]?) agrees.numbered
    simp only [List.getElem?_map, List.getElem?_range bound, List.getElem?_eq_getElem bound,
      Option.map_some, Option.some.injEq] at listed
    rw [listed, answered]
  case flags =>
    intro number bound
    rw [← taken]
    exact ⟨fun used => ⟨bound, used⟩, fun used => used.2⟩
  case installs =>
    intro number routine positive low
    obtain ⟨table, performed, -⟩ :=
      agrees.install number routine ⟨ne_zero_iff.2 positive, (taken _).2 low⟩
    exact ⟨table, _, performed, holds_writeBlock_stub number g.memory,
      byteAt_writeBlock_stub number g.memory⟩
  case refuses =>
    intro number routine refused
    rw [← ne_zero_iff, ← taken] at refused
    simp only [Guest.perform, install_of_not_taken refused]
  case known_iff =>
    intro number
    constructor
    · rintro ⟨routine, latest⟩
      by_cases installed : ∃ routine p, Event.mk (.install number routine) (.entry (.ok p)) ∈ events
      · exact installed
      · have never := latest?_eq_none_iff.2 fun routine p member => installed ⟨routine, p, member⟩
        rw [never] at latest
        cases latest
    · rintro ⟨routine, p, member⟩
      cases latest : latest? events number with
      | some found => exact ⟨found, rfl⟩
      | none => exact absurd member (latest?_eq_none_iff.1 latest routine p)
  case known =>
    intro number routine latest
    have installed : g.table.routine? number = some routine :=
      (agrees.routines number).trans latest
    refine ⟨?_, perform_dispatch_of_some installed, agrees.stubs number routine latest,
      readWord_of_holds_stub (agrees.stubs number routine latest) (agrees.small latest)⟩
    simp only [Guest.perform, CallbackTable.name?, installed, Option.map_some]
  case unknown =>
    intro number latest
    have missing : g.table.routine? number = none := (agrees.routines number).trans latest
    refine ⟨?_, perform_dispatch_of_none missing⟩
    simp only [Guest.perform, CallbackTable.name?, missing, Option.map_none]
  case outside =>
    intro number out
    cases latest : latest? events number with
    | none => rfl
    | some routine =>
        obtain ⟨notZero, -⟩ := agrees.named number routine latest
        have small := agrees.small latest
        obtain zero | large := out
        · exact absurd zero notZero
        · exact absurd small (Nat.not_lt_of_le large)

/-- A number that was set up twice is the second routine. -/
theorem faithful_after_replacing :
    ∃ g, History .zero
        [⟨.allocate, .number (.ok 1)⟩,
          ⟨.install 1 ⟨"First", fun m => (.resume, m)⟩, .entry (.ok ⟨0xf000, 0x1020⟩)⟩,
          ⟨.install 1 ⟨"Second", fun m => (.stop, m)⟩, .entry (.ok ⟨0xf000, 0x1020⟩)⟩] g ∧
      (g.perform (.name 1)).1 = .name (some "Second") ∧
      (g.perform (.dispatch 1)).1 = .signal (.ok .stop) ∧
      g.memory.Holds ⟨0xf000, 0x1020⟩ [0xfe, 0x38, 0x01, 0x00, 0xcb] := by
  have numbered : History .zero _ _ := .next .start .allocate fun _ _ => rfl
  have first := numbered.next (.install 1 ⟨"First", fun m => (.resume, m)⟩) trivial
  have second := first.next (.install 1 ⟨"Second", fun m => (.stop, m)⟩) trivial
  obtain ⟨name, dispatch, stub, -⟩ :=
    (faithful_of_history second).known 1 ⟨"Second", fun m => (.stop, m)⟩ rfl
  exact ⟨_, second, congrArg Prod.fst name, congrArg Prod.fst dispatch, stub⟩

end GuestDos.Kernel.Callbacks
