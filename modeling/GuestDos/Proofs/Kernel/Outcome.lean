/-
# GuestDos.Proofs.Kernel.Outcome -- when booting fails, and what it leaves then

Booting needs paragraphs of private memory and one callback number.  What it demands of them is a
list that depends on the model alone (`demands`), and booting ends at the first demand that the
system cannot serve (`firstUnserved?`), with everything done that came before it.

* `Demand`, `demands`, `firstUnserved?` -- what booting asks for, and what the system cannot give.
* `performAll_of_served`, `performAll_of_unserved` -- the steps of the plan up to there.
* `Left` -- what booting leaves, whether it fails or not; `NoOverflow` -- its arithmetic is exact.
* `setupTables_outcome` -- the outcome of every booting; `setupTables_succeeds_iff` is the bound of
  each model.
-/
import GuestDos.Proofs.Kernel.Contents
import GuestDos.Proofs.Kernel.OwnWrites

namespace GuestDos.Kernel

set_option autoImplicit false

open GuestDos.Machine (FarPointer Memory memorySize)
open Boot

/-! ## What booting demands -/

/-- What a system can run out of while booting. -/
inductive Demand where
  | paragraphs (count : UInt16)
  | callback
deriving DecidableEq, Repr

/-- Everything that booting demands, in order. -/
def demands (japanese : Bool) : List Demand :=
  [.paragraphs 4, .paragraphs 4, .paragraphs 4]
    ++ (if japanese then [.paragraphs 2, .paragraphs 2] else [])
    ++ [.paragraphs 2, .paragraphs 25, .paragraphs 4, .paragraphs 2, .paragraphs 3, .paragraphs 6,
      .callback, .paragraphs 3, .paragraphs 8]

namespace Demand

/-- The paragraphs that are gone once a demand is served. -/
def size : Demand → Nat
  | paragraphs count => count.toNat
  | callback => 0

/-- Whether a system can serve a demand after `gone` paragraphs.  The last paragraph before the limit
is never handed out. -/
def served (s : System) (gone : Nat) : Demand → Bool
  | paragraphs count =>
      s.privateMemory.next.toNat + gone + count.toNat < s.privateMemory.limit.toNat
  | callback => s.callbacks.nextFree < callbackSlots

/-- The error of a demand that the system left cannot serve. -/
def failure (left : System) : Demand → KernelError
  | paragraphs count =>
      .outOfTableMemory count left.privateMemory.next left.privateMemory.limit
  | callback => .noFreeCallbacks

theorem failure_ne (demand : Demand) (left : System) (number : UInt16) :
    demand.failure left ≠ .unknownCallback number ∧
      demand.failure left ≠ .invalidCallback number := by
  cases demand <;> simp [failure]

end Demand

/-- The first demand that a system cannot serve, with the paragraphs that are gone by then and the
demands that come after it. -/
def firstUnserved? (s : System) : (gone : Nat) → List Demand → Option (Nat × Demand × List Demand)
  | _, [] => none
  | gone, demand :: rest =>
      if demand.served s gone then firstUnserved? s (gone + demand.size) rest
      else some (gone, demand, rest)

/-- What a step demands. -/
def BootStep.demand? : BootStep → Option Demand
  | reserve table => some (.paragraphs table.paragraphs)
  | lay _ _ => none
  | install => some .callback

/-- What a list of steps demands. -/
def demandsOf (steps : List BootStep) : List Demand :=
  steps.filterMap BootStep.demand?

theorem demandsOf_bootPlan (site : Site) : demandsOf (bootPlan site) = demands site.japanese := by
  unfold bootPlan driverPlan
  cases site.japanese <;> rfl

/-! ## Up to the first demand that is not served -/

section Serving

variable {config : Config} {s now final : System} {p : Progress} {step : BootStep}
  {steps : List BootStep} {demand : Demand}

/-- A step that demands nothing succeeds. -/
theorem perform_of_no_demand (site : Site) (nothing : step.demand? = none) (now : System) :
    ∃ next, step.perform site now = .ok () next := by
  cases step with
  | lay place image => exact ⟨_, rfl⟩
  | reserve table => cases nothing
  | install => cases nothing

theorem perform_of_served (reached : Reached (.of config s) s.privateMemory.limit p now)
    (allowed : step.Allowed (.of config s) p) (asks : step.demand? = some demand)
    (served : demand.served s (room p.reserved) = true) :
    ∃ next, step.perform (.of config s) now = .ok () next := by
  have cursor : now.privateMemory.next.toNat = s.privateMemory.next.toNat + room p.reserved :=
    reached.cursor
  cases step with
  | lay place image => cases asks
  | reserve table =>
      cases asks
      simp only [Demand.served, decide_eq_true_eq] at served
      exact ⟨_, perform_reserve_of_room (by rw [cursor, reached.bound]; omega)⟩
  | install =>
      cases asks
      simp only [Demand.served, decide_eq_true_eq] at served
      have fresh : now.callbacks.nextFree = s.callbacks.nextFree := reached.fresh allowed
      exact ⟨_, perform_install_of_free (by rw [fresh]; exact served)⟩

theorem perform_of_unserved (reached : Reached (.of config s) s.privateMemory.limit p now)
    (allowed : step.Allowed (.of config s) p) (asks : step.demand? = some demand)
    (unserved : demand.served s (room p.reserved) = false) :
    step.perform (.of config s) now = .error (demand.failure now) now := by
  have cursor : now.privateMemory.next.toNat = s.privateMemory.next.toNat + room p.reserved :=
    reached.cursor
  cases step with
  | lay place image => cases asks
  | reserve table =>
      cases asks
      simp only [Demand.served, decide_eq_false_iff_not] at unserved
      exact perform_reserve_of_no_room (by rw [cursor, reached.bound]; omega)
  | install =>
      cases asks
      simp only [Demand.served, decide_eq_false_iff_not] at unserved
      have fresh : now.callbacks.nextFree = s.callbacks.nextFree := reached.fresh allowed
      exact perform_install_of_full (by rw [fresh]; exact unserved)

/-- What is gone after a step, by its demand. -/
theorem room_after (p : Progress) (step : BootStep) :
    room (p.after step).reserved =
      room p.reserved + (step.demand?.map Demand.size).getD 0 := by
  cases step with
  | reserve table => exact room_after_reserve p table
  | lay place image => rfl
  | install => rfl

/-- Steps whose demands can all be served succeed. -/
theorem performAll_of_served (orderly : Orderly (.of config s) p steps)
    (reached : Reached (.of config s) s.privateMemory.limit p now)
    (served : firstUnserved? s (room p.reserved) (demandsOf steps) = none) :
    ∃ final, performAll (.of config s) steps now = .ok () final := by
  induction steps generalizing p now with
  | nil => exact ⟨now, rfl⟩
  | cons step rest ih =>
      obtain ⟨allowed, restOrderly⟩ := orderly
      have gone := room_after p step
      cases asks : step.demand? with
      | none =>
          obtain ⟨next, done⟩ := perform_of_no_demand (.of config s) asks now
          have nextReached := (perform_keeps allowed reached done).1
          rw [performAll_cons_ok done]
          refine ih restOrderly nextReached ?_
          rw [asks] at gone
          simpa [demandsOf, asks, gone] using served
      | some demand =>
          simp only [demandsOf, List.filterMap_cons_some asks, firstUnserved?] at served
          split at served
          · rename_i can
            obtain ⟨next, done⟩ := perform_of_served reached allowed asks can
            have nextReached := (perform_keeps allowed reached done).1
            rw [performAll_cons_ok done]
            refine ih restOrderly nextReached ?_
            rw [gone, asks]
            exact served
          · cases served

theorem performAll_append_of_ok {site : Site} {earlier later : List BootStep}
    (done : performAll site earlier s = .ok () now) :
    performAll site (earlier ++ later) s = performAll site later now := by
  rw [performAll_append]
  exact bind_of_ok done

/-- Steps that fail at a demand: those before it succeed, with `gone` paragraphs gone by then, and the
demands `after` it are not heard. -/
def FailsAt (site : Site) (p : Progress) (now : System) (steps : List BootStep) (gone : Nat)
    (demand : Demand) (after : List Demand) : Prop :=
  ∃ done step rest final, steps = done ++ step :: rest ∧ step.demand? = some demand ∧
    demandsOf rest = after ∧ room (p.afterAll done).reserved = gone ∧
    performAll site done now = .ok () final ∧
    step.perform site final = .error (demand.failure final) final

theorem FailsAt.cons {site : Site} {next : System} {gone : Nat} {after : List Demand}
    (first : step.perform site now = .ok () next)
    (later : FailsAt site (p.after step) next steps gone demand after) :
    FailsAt site p now (step :: steps) gone demand after := by
  obtain ⟨done, failing, rest, final, rfl, asks, behind, taken, reaches, fails⟩ := later
  exact ⟨step :: done, failing, rest, final, rfl, asks, behind, taken,
    (performAll_cons_ok first).trans reaches, fails⟩

/-- Steps among whose demands one cannot be served fail at the first such one. -/
theorem performAll_of_unserved {gone : Nat} {after : List Demand}
    (orderly : Orderly (.of config s) p steps)
    (reached : Reached (.of config s) s.privateMemory.limit p now)
    (unserved : firstUnserved? s (room p.reserved) (demandsOf steps) = some (gone, demand, after)) :
    FailsAt (.of config s) p now steps gone demand after := by
  induction steps generalizing p now with
  | nil => cases unserved
  | cons step rest ih =>
      obtain ⟨allowed, restOrderly⟩ := orderly
      have goneAfter := room_after p step
      cases asks : step.demand? with
      | none =>
          obtain ⟨next, done⟩ := perform_of_no_demand (.of config s) asks now
          refine .cons done (ih restOrderly (perform_keeps allowed reached done).1 ?_)
          rw [asks] at goneAfter
          simpa [demandsOf, asks, goneAfter] using unserved
      | some first =>
          simp only [demandsOf, List.filterMap_cons_some asks, firstUnserved?] at unserved
          split at unserved
          · rename_i can
            obtain ⟨next, done⟩ := perform_of_served reached allowed asks can
            refine .cons done (ih restOrderly (perform_keeps allowed reached done).1 ?_)
            rw [goneAfter, asks]
            exact unserved
          · rename_i cannot
            cases unserved
            exact ⟨[], step, rest, now, rfl, asks, rfl, rfl, rfl,
              perform_of_unserved reached allowed asks (by simpa using cannot)⟩

end Serving

/-! ## The callback that booting takes -/

/-- The callback table with the case map routine installed under the next number, or as it was. -/
def CallbacksAfter (s now : System) (installed : Bool) : Prop :=
  if installed then
    ∃ free : s.callbacks.nextFree < callbackSlots,
      now.callbacks = s.callbacks.installNext caseMapRoutine free
  else now.callbacks = s.callbacks

section Callbacks

variable {site : Site} {s now final : System} {p : Progress} {step : BootStep}
  {steps : List BootStep}

theorem perform_callbacks (allowed : step.Allowed site p)
    (before : CallbacksAfter s now p.installed) (done : step.perform site now = .ok () final) :
    CallbacksAfter s final (p.after step).installed := by
  cases step with
  | lay place image =>
      cases done
      exact before
  | reserve table =>
      by_cases enough : table.paragraphs.toNat + now.privateMemory.next.toNat <
          now.privateMemory.limit.toNat
      · rw [perform_reserve_of_room enough] at done
        cases done
        exact before
      · rw [perform_reserve_of_no_room enough] at done
        cases done
  | install =>
      have notYet : p.installed = false := allowed
      have same : now.callbacks = s.callbacks := by simpa [CallbacksAfter, notYet] using before
      by_cases free : now.callbacks.nextFree < callbackSlots
      · rw [perform_install_of_free free] at done
        cases done
        refine ⟨same ▸ free, ?_⟩
        simp only [same]
      · rw [perform_install_of_full free] at done
        cases done

theorem performAll_callbacks (orderly : Orderly site p steps)
    (before : CallbacksAfter s now p.installed) (done : performAll site steps now = .ok () final) :
    CallbacksAfter s final (p.afterAll steps).installed := by
  induction steps generalizing p now with
  | nil =>
      cases done
      exact before
  | cons step rest ih =>
      obtain ⟨allowed, restOrderly⟩ := orderly
      cases outcome : step.perform site now with
      | error failure next =>
          rw [performAll_cons_error outcome] at done
          cases done
      | ok _ next =>
          rw [performAll_cons_ok outcome] at done
          exact ih restOrderly (perform_callbacks allowed before outcome) done

theorem installed_afterAll :
    (p.afterAll steps).installed = true ↔ p.installed = true ∨ .callback ∈ demandsOf steps := by
  induction steps generalizing p with
  | nil => simp [Progress.afterAll, demandsOf]
  | cons step rest ih =>
      have folded : p.afterAll (step :: rest) = (p.after step).afterAll rest := rfl
      rw [folded, ih]
      cases step <;> simp [Progress.after, demandsOf, BootStep.demand?]

/-- The callback is demanded before the last two requests, and once. -/
theorem callback_mem_iff {japanese : Bool} {before after : List Demand} {demand : Demand}
    (split : demands japanese = before ++ demand :: after) :
    .callback ∈ before ↔ after.length < 2 := by
  have places : ∀ japanese, ∀ n < (demands japanese).length,
      .callback ∈ (demands japanese).take n ↔ ((demands japanese).drop (n + 1)).length < 2 := by
    decide
  have here := places japanese before.length (by rw [split]; simp)
  rw [split] at here
  simpa using here

end Callbacks

/-! ## What booting leaves -/

/-- What booting leaves after the steps that were performed, with `gone` paragraphs taken and the case
map routine installed or not. -/
structure Left (config : Config) (s : System) (done : List BootStep) (gone : Nat) (installed : Prop)
    (final : System) : Prop where
  performed : Performed (.of config s) done final
  reaches : performAll (.of config s) done s = .ok () final
  journal : final.memory = applyAll (.of config s) s.memory (writesOf (.of config s) done)
  cursor : final.privateMemory.next.toNat = s.privateMemory.next.toNat + gone
  limit : final.privateMemory.limit = s.privateMemory.limit
  /-- A number is taken and the routine is installed under it, or the table is as it was. -/
  taken : installed → ∃ free : s.callbacks.nextFree < callbackSlots,
    final.callbacks = s.callbacks.installNext caseMapRoutine free
  kept : ¬ installed → final.callbacks = s.callbacks
  /-- The stub is stored exactly then, and is in memory unless the country information was laid
  over it. -/
  stored : (∃ w ∈ writesOf (.of config s) done, w.place = .stub) ↔ installed
  held : installed →
    (∀ w ∈ writesOf (.of config s) done, w.place = .table .country →
      ∀ i, (Site.of config s).Owns .stub i → ¬ (Site.of config s).Owns w.place i) →
    final.memory.Holds (CallbackTable.entry (Site.of config s).number)
      (CallbackTable.stub (Site.of config s).number)

/-- No sum that the performed steps make is cut off: those of the requests, the cursors, the offsets
within a segment, and the addresses of the bytes that are stored. -/
structure NoOverflow (site : Site) (done : List BootStep) (s : System) : Prop where
  request : ∀ (table : PrivateTable) (now : System),
    table.paragraphs.toNat + now.privateMemory.next.toNat < 2 ^ 32
  cursor : ∀ before table rest, done = before ++ .reserve table :: rest →
    ∃ now later, performAll site before s = .ok () now ∧
      (BootStep.reserve table).perform site now = .ok () later ∧
      later.privateMemory.next.toNat =
        now.privateMemory.next.toNat + table.paragraphs.toNat
  offset : ∀ w ∈ writesOf site done, w.field.finish ≤ 2 ^ 16
  address : ∀ w ∈ writesOf site done,
    (w.pointer site).physical.toNat = 16 * (site.segment w.place).toNat + w.field.offset.toNat ∧
    ∀ k < w.field.bytes.length, ((w.pointer site).physical + UInt32.ofNat k).toNat =
      (w.pointer site).physical.toNat + k
  entry : (∃ w ∈ writesOf site done, w.place = .stub) →
    site.number.toNat = site.nextFree ∧
    (CallbackTable.entry site.number).offset.toNat = 0x1000 + 32 * site.nextFree

/-- The steps after the routine is installed store the country information only. -/
theorem exists_install (site : Site) : ∃ early late,
    bootPlan site = early ++ .install :: late ∧ .callback ∉ demandsOf early ∧
      ∀ w ∈ writesOf site late, w.place = .table .country := by
  refine ⟨openingPlan ++ driverPlan site ++ (closingPlan site).take 17,
    (closingPlan site).drop 18, ?_, ?_, ?_⟩
  · unfold bootPlan
    rw [List.append_assoc _ ((closingPlan site).take 17)]
    rfl
  · have before : demandsOf (openingPlan ++ driverPlan site ++ (closingPlan site).take 17) =
        (demands site.japanese).takeWhile (· ≠ .callback) := by
      unfold driverPlan
      cases site.japanese <;> rfl
    rw [before]
    cases site.japanese <;> decide
  · intro w member
    simp only [closingPlan, List.drop, writesOf, List.flatMap_cons, BootStep.writes,
      List.flatMap_nil, List.append_nil, List.nil_append] at member
    obtain ⟨field, -, rfl⟩ := List.mem_map.1 member
    rfl

section Left

variable {config : Config} {s final : System} {done : List BootStep}

theorem Performed.exists_rest {site : Site} (performed : Performed site done final) :
    ∃ rest, bootPlan site = done ++ rest := by
  rcases performed with all | ⟨step, rest, -, stopped, -⟩
  · exact ⟨[], by rw [all, List.append_nil]⟩
  · exact ⟨step :: rest, stopped⟩

/-- Once the routine is installed, only the country information may be stored over its stub. -/
theorem exists_install_of_performed {site : Site} (performed : Performed site done final)
    (asked : .callback ∈ demandsOf done) : ∃ early late, done = early ++ .install :: late ∧
      ∀ w ∈ writesOf site late, w.place = .table .country := by
  obtain ⟨rest, plan⟩ := performed.exists_rest
  obtain ⟨early, late, installs, notBefore, country⟩ := exists_install site
  rw [plan] at installs
  rcases List.append_eq_append_iff.1 installs with ⟨between, rfl, -⟩ | ⟨between, rfl, tail⟩
  · rw [demandsOf, List.filterMap_append] at notBefore
    exact absurd (List.mem_append_left _ asked) notBefore
  · cases between with
    | nil =>
        rw [List.append_nil] at asked
        exact absurd asked notBefore
    | cons step between =>
        obtain ⟨rfl, rfl⟩ := List.cons.inj tail
        refine ⟨early, between, rfl, fun w member => country w ?_⟩
        show w ∈ writesOf site (between ++ rest)
        rw [writesOf, List.flatMap_append]
        exact List.mem_append_left _ member

theorem holds_stub (performed : Performed (.of config s) done final)
    (journal : final.memory = applyAll (.of config s) s.memory (writesOf (.of config s) done))
    (asked : .callback ∈ demandsOf done)
    (clear : ∀ w ∈ writesOf (.of config s) done, w.place = .table .country →
      ∀ i, (Site.of config s).Owns .stub i → ¬ (Site.of config s).Owns w.place i) :
    final.memory.Holds (CallbackTable.entry (Site.of config s).number)
      (CallbackTable.stub (Site.of config s).number) := by
  have orderly := performed.orderly
  obtain ⟨early, late, rfl, country⟩ := exists_install_of_performed performed asked
  generalize (Site.of config s) = site at *
  have inside := CallbackTable.stub_inside site.number
  have writes : writesOf site (early ++ .install :: late) = writesOf site early ++
      (BootStep.install.writes site ++ writesOf site late) := by
    rw [writesOf, List.flatMap_append, List.flatMap_cons]
    rfl
  rw [writes, applyAll_append, applyAll_append] at journal
  -- the stub is there as soon as it is written, and what is written after that is elsewhere
  refine Memory.Holds.congr inside (n := applyAll site (applyAll site s.memory
    (writesOf site early)) (BootStep.install.writes site)) ?_ ?_
  · intro k bound
    rw [journal]
    have member : ∀ w ∈ writesOf site late, w ∈ writesOf site (early ++ .install :: late) := by
      intro w later
      rw [writes]
      exact List.mem_append_right _ (List.mem_append_right _ later)
    apply byteAt_applyAll_of_not_owns
    · exact fun w later => (orderly.writes (member w later)).2
    · intro w later
      refine clear w (member w later) (country w later) _ ⟨_, List.mem_singleton_self _, ?_, ?_⟩
      · show 16 * _ + _ ≤ _ + k
        rw [FarPointer.toNat_physical]
        exact Nat.le_add_right _ k
      · show _ + k < 16 * _ + (_ + 5)
        rw [FarPointer.toNat_physical, ← Nat.add_assoc]
        exact Nat.add_lt_add_left bound _
  · have fits : Machine.Image.FitsIn
        [⟨(CallbackTable.entry site.number).offset, CallbackTable.stub site.number⟩] 0x10000 := by
      intro field member
      obtain rfl := List.mem_singleton.1 member
      have window : ((CallbackTable.entry site.number).offset.toNat,
          (CallbackTable.entry site.number).offset.toNat + 5) ∈ site.windows .stub :=
        List.mem_singleton_self _
      exact window_le window
    have laid : BootStep.install.writes site = List.map (Write.mk .stub)
        [⟨(CallbackTable.entry site.number).offset, CallbackTable.stub site.number⟩] := rfl
    rw [laid, ← lay_eq_applyAll]
    have reads := Machine.Image.reads_single
      ⟨(CallbackTable.entry site.number).offset, CallbackTable.stub site.number⟩
    exact Memory.holds_lay fits reads inside

/-- What booting leaves follows from the steps that were performed. -/
theorem left_of_performed (performed : Performed (.of config s) done final)
    (reaches : performAll (.of config s) done s = .ok () final) :
    Left config s done (room (Progress.start.afterAll done).reserved)
      (.callback ∈ demandsOf done) final := by
  have orderly := performed.orderly
  obtain ⟨reached, journal⟩ := performAll_keeps orderly (reached_start config s) reaches
  have callbacks : CallbacksAfter s final (Progress.start.afterAll done).installed :=
    performAll_callbacks orderly rfl reaches
  have asked_iff : (Progress.start.afterAll done).installed = true ↔
      .callback ∈ demandsOf done := by
    simp [installed_afterAll, Progress.start]
  constructor
  case performed => exact performed
  case reaches => exact reaches
  case journal => exact journal
  case cursor => exact reached.cursor
  case limit => exact reached.bound
  case taken =>
    intro asked
    simpa [CallbacksAfter, asked_iff.2 asked] using callbacks
  case kept =>
    intro notAsked
    simpa [CallbacksAfter, mt asked_iff.1 notAsked] using callbacks
  case stored =>
    constructor
    · rintro ⟨w, member, atStub⟩
      have ready := (orderly.writes member).1
      rw [atStub] at ready
      exact asked_iff.1 ready
    · intro asked
      obtain ⟨early, late, rfl, -⟩ := exists_install_of_performed performed asked
      refine ⟨_, List.mem_flatMap.2 ⟨.install, ?_, List.mem_singleton_self _⟩, rfl⟩
      exact List.mem_append_right _ List.mem_cons_self
  case held => exact holds_stub performed journal

theorem noOverflow_of_performed (performed : Performed (.of config s) done final)
    (reaches : performAll (.of config s) done s = .ok () final) :
    NoOverflow (.of config s) done s := by
  have left := left_of_performed performed reaches
  have orderly := performed.orderly
  constructor
  case request =>
    intro table now
    have asked := table.paragraphs.toNat_lt
    have cursor := now.privateMemory.next.toNat_lt
    omega
  case cursor =>
    rintro before table rest rfl
    obtain ⟨now, reachesNow, remaining⟩ := performAll_append_ok reaches
    by_cases enough : table.paragraphs.toNat + now.privateMemory.next.toNat <
        now.privateMemory.limit.toNat
    · exact ⟨now, _, reachesNow, perform_reserve_of_room enough,
        PrivateMemory.toNat_next_add enough⟩
    · rw [performAll_cons_error (perform_reserve_of_no_room enough)] at remaining
      cases remaining
  case offset => exact fun w member => (orderly.writes member).2.finish_le
  case address =>
    intro w member
    have inMemory := finish_le_memorySize (orderly.writes member).2
    refine ⟨FarPointer.toNat_physical _, fun k bound => ?_⟩
    unfold Write.finish Write.start memorySize at inMemory
    have small : (UInt32.ofNat k).toNat = k :=
      UInt32.toNat_ofNat_of_lt' (by simp only [UInt32.size]; omega)
    rw [UInt32.toNat_add, small]
    omega
  case entry =>
    intro stored
    obtain ⟨free, -⟩ := left.taken (left.stored.1 stored)
    exact ⟨CallbackTable.toNat_number free, CallbackTable.toNat_offset_entry free⟩

end Left

/-! ## The outcome -/

section Outcome

variable {config : Config} {s : System}

/-- Everything that booting demands can be served exactly when there is room for all paragraphs below
the last one, and a callback number. -/
theorem firstUnserved?_eq_none :
    firstUnserved? s 0 (demands config.model.isJapanese) = none ↔
      s.privateMemory.next.toNat + (if config.model.isJapanese then 69 else 65) <
        s.privateMemory.limit.toNat ∧ s.callbacks.nextFree < callbackSlots := by
  have orderly := bootPlan_orderly (.of config s)
  have demanded : demandsOf (bootPlan (.of config s)) = demands config.model.isJapanese :=
    demandsOf_bootPlan _
  constructor
  · intro served
    rw [← demanded] at served
    obtain ⟨final, booted⟩ := performAll_of_served orderly (reached_start config s) served
    have reached := reached_booted booted
    refine ⟨?_, (reached.taken rfl).1⟩
    rw [← room_requests]
    refine reached.below.resolve_left ?_
    simp [requests]
  · rintro ⟨enough, free⟩
    have room_eq : room (Progress.start.afterAll (bootPlan (.of config s))).reserved =
        if config.model.isJapanese then 69 else 65 := by
      rw [afterAll_bootPlan]
      exact room_requests _
    obtain ⟨final, booted⟩ := performAll_succeeds orderly (reached_start config s)
      (by rw [room_eq]; exact enough) free
    cases outcome : firstUnserved? s 0 (demands config.model.isJapanese) with
    | none => rfl
    | some unserved =>
        obtain ⟨gone, demand, after⟩ := unserved
        rw [← demanded] at outcome
        obtain ⟨done, step, rest, left, plan, -, -, -, before, fails⟩ :=
          performAll_of_unserved orderly (reached_start config s) outcome
        rw [plan, performAll_append_of_ok before, performAll_cons_error fails] at booted
        cases booted

/-- Booting ends at the first demand that cannot be served, and leaves what the demands before it
left. -/
theorem setupTables_of_demands (config : Config) (s : System) :
    match firstUnserved? s 0 (demands config.model.isJapanese) with
    | none => ∃ final done,
        setupTables config s = .ok (Site.of config s).tables final ∧
          Left config s done (if config.model.isJapanese then 69 else 65) True final ∧
          NoOverflow (.of config s) done s
    | some (gone, demand, after) => ∃ final done,
        setupTables config s = .error (demand.failure final) final ∧
          Left config s done gone (after.length < 2) final ∧ NoOverflow (.of config s) done s := by
  have orderly := bootPlan_orderly (.of config s)
  have demanded : demandsOf (bootPlan (.of config s)) = demands config.model.isJapanese :=
    demandsOf_bootPlan _
  cases outcome : firstUnserved? s 0 (demands config.model.isJapanese) with
  | none =>
      rw [← demanded] at outcome
      obtain ⟨final, booted⟩ := performAll_of_served orderly (reached_start config s) outcome
      have performed : Performed (.of config s) (bootPlan (.of config s)) final := .inl rfl
      have left := left_of_performed performed booted
      have asked : .callback ∈ demandsOf (bootPlan (.of config s)) := by
        rw [demanded]
        cases config.model.isJapanese <;> decide
      have total : room (Progress.start.afterAll (bootPlan (.of config s))).reserved =
          if config.model.isJapanese then 69 else 65 := by
        rw [afterAll_bootPlan]
        exact room_requests _
      rw [total, eq_true asked] at left
      exact ⟨final, _, setupTables_of_ok booted, left, noOverflow_of_performed performed booted⟩
  | some unserved =>
      obtain ⟨gone, demand, after⟩ := unserved
      rw [← demanded] at outcome
      obtain ⟨done, step, rest, final, plan, asks, behind, taken, before, fails⟩ :=
        performAll_of_unserved orderly (reached_start config s) outcome
      have performed : Performed (.of config s) done final := .inr ⟨step, rest, _, plan, fails⟩
      have left := left_of_performed performed before
      have split : demands config.model.isJapanese = demandsOf done ++ demand :: after := by
        rw [← demanded, plan, demandsOf, List.filterMap_append, List.filterMap_cons_some asks]
        exact congrArg _ (congrArg _ behind)
      rw [taken, propext (callback_mem_iff split)] at left
      have failed : performAll (.of config s) (bootPlan (.of config s)) s =
          .error (demand.failure final) final := by
        rw [plan, performAll_append_of_ok before, performAll_cons_error fails]
      exact ⟨final, done, setupTables_of_error failed, left,
        noOverflow_of_performed performed before⟩

/-- **When booting fails, and how.**  It succeeds exactly when the first free paragraph and the 65 it
takes, 69 on a Japanese model, end below the last one, and a callback number is free.  Otherwise it
fails with the error of the first demand that cannot be served, which names the request, the cursor
and the limit; the cursor stays where the demands before left it, and the callback is taken and its
stub stored exactly if that demand is one of the last two.  No error is about a callback that is not
installed or was never handed out, and nothing overflows. -/
theorem setupTables_outcome (config : Config) (s : System) :
    let total := if config.model.isJapanese then 69 else 65
    (firstUnserved? s 0 (demands config.model.isJapanese) = none ↔
      s.privateMemory.next.toNat + total < s.privateMemory.limit.toNat ∧
        s.callbacks.nextFree < callbackSlots) ∧
    (match firstUnserved? s 0 (demands config.model.isJapanese) with
    | none => ∃ final done,
        setupTables config s = .ok (Site.of config s).tables final ∧
          Left config s done total True final ∧ NoOverflow (.of config s) done s
    | some (gone, demand, after) => ∃ final done,
        setupTables config s = .error (demand.failure final) final ∧
          Left config s done gone (after.length < 2) final ∧ NoOverflow (.of config s) done s) ∧
    ∀ number final, setupTables config s ≠ .error (.unknownCallback number) final ∧
      setupTables config s ≠ .error (.invalidCallback number) final := by
  have outcome := setupTables_of_demands config s
  refine ⟨firstUnserved?_eq_none, outcome, fun number final => ?_⟩
  split at outcome
  · obtain ⟨left, -, booted, -⟩ := outcome
    rw [booted]
    constructor <;> intro failed <;> cases failed
  · rename_i demand _ _
    obtain ⟨left, -, failed, -⟩ := outcome
    obtain ⟨notUnknown, notInvalid⟩ := demand.failure_ne left number
    rw [failed]
    constructor <;> intro same <;> injection same
    · contradiction
    · contradiction

/-- **When booting a model succeeds**: J-3100 and DOS/V need four paragraphs more than the others, and
all need a callback number that was not handed out. -/
theorem setupTables_succeeds_iff (model : MachineModel) (setAx : Bool) (page : UInt16)
    (s : System) :
    (∃ tables final, setupTables ⟨model, setAx, page⟩ s = .ok tables final) ↔
      s.privateMemory.next.toNat + (match model with | .ibm | .ax => 65 | .j3100 | .dosV => 69) <
        s.privateMemory.limit.toNat ∧ ∃ number < callbackSlots, ¬ s.callbacks.Taken number := by
  have total : (match model with | .ibm | .ax => 65 | .j3100 | .dosV => 69) =
      if model.isJapanese then 69 else 65 := by
    cases model <;> rfl
  have all_served : firstUnserved? s 0 (demands model.isJapanese) = none ↔
      s.privateMemory.next.toNat + (if model.isJapanese then 69 else 65) <
        s.privateMemory.limit.toNat ∧ s.callbacks.nextFree < callbackSlots :=
    @firstUnserved?_eq_none ⟨model, setAx, page⟩ s
  have outcome := setupTables_of_demands ⟨model, setAx, page⟩ s
  rw [total, ← CallbackTable.nextFree_lt_iff, ← all_served]
  constructor
  · rintro ⟨tables, final, booted⟩
    split at outcome
    · assumption
    · obtain ⟨last, -, failed, -⟩ := outcome
      rw [failed] at booted
      cases booted
  · intro served
    rw [served] at outcome
    obtain ⟨final, -, booted, -⟩ := outcome
    exact ⟨_, final, booted⟩

/-- With one paragraph too few, the last request of a Japanese model is not served. -/
example : firstUnserved? ⟨.zero, ⟨0x2000, 0x2045⟩, .empty⟩ 0 (demands true) =
    some (61, .paragraphs 8, []) := by
  decide

end Outcome

end GuestDos.Kernel
