/-
# GuestDos.Proofs.Kernel.Performing -- what performing an orderly list of steps does

`Reached` ties a system to the progress of a list: the cursor of private memory, its limit, and the
callback number that is free or taken.  One step keeps it and applies its own journal (`perform_keeps`), so
a list does (`performAll_keeps`).  A step that fails changes nothing, so a list that fails is a
prefix that succeeded (`performAll_error`); with room and a free number none fails
(`performAll_succeeds`).
-/
import GuestDos.Proofs.Kernel.Journal

namespace GuestDos.Kernel

set_option autoImplicit false

open GuestDos.Machine (FarPointer Memory Field Image memorySize)
open Boot

/-- A system in which booting has come this far. -/
structure Reached (site : Site) (limit : UInt16) (p : Progress) (now : System) : Prop where
  cursor : now.privateMemory.next.toNat = site.base.toNat + room p.reserved
  bound : now.privateMemory.limit = limit
  below : p.reserved = [] ∨ site.base.toNat + room p.reserved < limit.toNat
  fresh : p.installed = false → now.callbacks.nextFree = site.nextFree
  taken : p.installed = true → now.callbacks.Taken site.nextFree
  answers : p.installed = true → ∀ m, now.callbacks.dispatch site.number m = .ok (.resume, m)

theorem reached_start (config : Config) (s : System) :
    Reached (.of config s) s.privateMemory.limit .start s :=
  ⟨rfl, rfl, .inl rfl, fun _ => rfl, fun installed => absurd installed Bool.false_ne_true,
    fun installed => absurd installed Bool.false_ne_true⟩

section Performing

variable {site : Site} {limit : UInt16} {p : Progress} {now final : System}

/-! ## One step -/

theorem perform_reserve_of_room {table : PrivateTable}
    (enough : table.paragraphs.toNat + now.privateMemory.next.toNat <
      now.privateMemory.limit.toNat) :
    (BootStep.reserve table).perform site now =
      .ok () { now with
        privateMemory := ⟨now.privateMemory.next + table.paragraphs, now.privateMemory.limit⟩ } :=
  bind_of_ok (reserve_of_room enough)

theorem perform_reserve_of_no_room {table : PrivateTable}
    (full : ¬ table.paragraphs.toNat + now.privateMemory.next.toNat <
      now.privateMemory.limit.toNat) :
    (BootStep.reserve table).perform site now =
      .error (.outOfTableMemory table.paragraphs now.privateMemory.next now.privateMemory.limit)
        now :=
  bind_of_error (reserve_of_no_room full)

theorem perform_install_of_free (free : now.callbacks.nextFree < callbackSlots) :
    BootStep.install.perform site now =
      .ok () { now with
        callbacks := now.callbacks.installNext caseMapRoutine free
        memory := now.memory.writeBlock
          (CallbackTable.entry (UInt16.ofNat now.callbacks.nextFree)).physical
          (CallbackTable.stub (UInt16.ofNat now.callbacks.nextFree)) } :=
  install_caseMap_of_free free

theorem perform_install_of_full (full : ¬ now.callbacks.nextFree < callbackSlots) :
    BootStep.install.perform site now = .error .noFreeCallbacks now :=
  install_caseMap_of_full full

/-- A step that fails changes nothing. -/
theorem perform_error {step : BootStep} {failure : KernelError}
    (failed : step.perform site now = .error failure final) : final = now := by
  cases step with
  | reserve table =>
      by_cases enough : table.paragraphs.toNat + now.privateMemory.next.toNat <
          now.privateMemory.limit.toNat
      · rw [perform_reserve_of_room enough] at failed
        cases failed
      · rw [perform_reserve_of_no_room enough] at failed
        cases failed
        rfl
  | lay place image => cases failed
  | install =>
      by_cases free : now.callbacks.nextFree < callbackSlots
      · rw [perform_install_of_free free] at failed
        cases failed
      · rw [perform_install_of_full free] at failed
        cases failed
        rfl

/-- A step that succeeds moves its progress on and applies its journal. -/
theorem perform_keeps {step : BootStep} (allowed : step.Allowed site p)
    (reached : Reached site limit p now) (done : step.perform site now = .ok () final) :
    Reached site limit (p.after step) final ∧
      final.memory = applyAll site now.memory (step.writes site) := by
  obtain ⟨cursor, bound, below, fresh, taken, answers⟩ := reached
  cases step with
  | reserve table =>
      by_cases enough : table.paragraphs.toNat + now.privateMemory.next.toNat <
          now.privateMemory.limit.toNat
      · rw [perform_reserve_of_room enough] at done
        cases done
        have moved := PrivateMemory.toNat_next_add enough
        have total := room_after_reserve p table
        refine ⟨⟨?_, bound, .inr ?_, fresh, taken, answers⟩, rfl⟩
        · rw [total, ← Nat.add_assoc, ← cursor]
          exact moved
        · rw [← bound]
          omega
      · rw [perform_reserve_of_no_room enough] at done
        cases done
  | lay place image =>
      cases done
      exact ⟨⟨cursor, bound, below, fresh, taken, answers⟩, lay_eq_applyAll site now.memory place image⟩
  | install =>
      have same : now.callbacks.nextFree = site.nextFree := fresh allowed
      by_cases free : now.callbacks.nextFree < callbackSlots
      · rw [perform_install_of_free free] at done
        cases done
        refine ⟨⟨cursor, bound, below, fun notYet => ?_, fun _ => ?_, fun _ m => ?_⟩, ?_⟩
        · cases notYet
        · rw [← same]
          exact CallbackTable.taken_installNext caseMapRoutine free
        · have number : site.number = UInt16.ofNat now.callbacks.nextFree := by
            rw [same, Site.number]
          rw [number]
          exact CallbackTable.dispatch_installNext caseMapRoutine free m
        · rw [same]
          rfl
      · rw [perform_install_of_full free] at done
        cases done

/-! ## Every step of a list -/

theorem performAll_cons_ok {step : BootStep} {rest : List BootStep} {next : System}
    (first : step.perform site now = .ok () next) :
    performAll site (step :: rest) now = performAll site rest next :=
  bind_of_ok first

theorem performAll_cons_error {step : BootStep} {rest : List BootStep} {failure : KernelError}
    {next : System} (first : step.perform site now = .error failure next) :
    performAll site (step :: rest) now = .error failure next :=
  bind_of_error first

theorem performAll_append (earlier later : List BootStep) :
    performAll site (earlier ++ later) =
      (performAll site earlier >>= fun _ => performAll site later) := by
  induction earlier with
  | nil => rfl
  | cons step rest ih =>
      simp only [List.cons_append, performAll, ih, bind_assoc]

/-- Steps that succeed move the progress on and apply their journal. -/
theorem performAll_keeps {steps : List BootStep} (orderly : Orderly site p steps)
    (reached : Reached site limit p now) (done : performAll site steps now = .ok () final) :
    Reached site limit (p.afterAll steps) final ∧
      final.memory = applyAll site now.memory (writesOf site steps) := by
  induction steps generalizing p now with
  | nil =>
      cases done
      exact ⟨reached, rfl⟩
  | cons step rest ih =>
      obtain ⟨allowed, restOrderly⟩ := orderly
      cases outcome : step.perform site now with
      | error failure next =>
          rw [performAll_cons_error outcome] at done
          cases done
      | ok _ next =>
          rw [performAll_cons_ok outcome] at done
          obtain ⟨nextReached, stored⟩ := perform_keeps allowed reached outcome
          obtain ⟨finalReached, restStored⟩ := ih restOrderly nextReached done
          refine ⟨finalReached, ?_⟩
          rw [restStored, stored, writesOf_cons, applyAll_append]

/-- Where a list fails, the steps before the failing one succeeded, and their system stays. -/
theorem performAll_error {steps : List BootStep} {failure : KernelError}
    (failed : performAll site steps now = .error failure final) :
    ∃ done step rest, steps = done ++ step :: rest ∧ performAll site done now = .ok () final ∧
      step.perform site final = .error failure final := by
  induction steps generalizing now with
  | nil => cases failed
  | cons step rest ih =>
      cases outcome : step.perform site now with
      | error _ next =>
          rw [performAll_cons_error outcome] at failed
          cases failed
          obtain rfl := perform_error outcome
          exact ⟨[], step, rest, rfl, rfl, outcome⟩
      | ok _ next =>
          rw [performAll_cons_ok outcome] at failed
          obtain ⟨done, failing, later, rfl, before, fails⟩ := ih failed
          exact ⟨step :: done, failing, later, rfl, (performAll_cons_ok outcome).trans before, fails⟩

/-- With room for every request and a callback number left, no step fails. -/
theorem performAll_succeeds {steps : List BootStep} (orderly : Orderly site p steps)
    (reached : Reached site limit p now)
    (enough : site.base.toNat + room (p.afterAll steps).reserved < limit.toNat)
    (free : site.nextFree < callbackSlots) :
    ∃ final, performAll site steps now = .ok () final := by
  induction steps generalizing p now with
  | nil => exact ⟨now, rfl⟩
  | cons step rest ih =>
      obtain ⟨allowed, restOrderly⟩ := orderly
      obtain ⟨next, served⟩ : ∃ next, step.perform site now = .ok () next := by
        cases step with
        | reserve table =>
            have total := room_le_afterAll (p.after (.reserve table)) rest
            have here : room (p.after (.reserve table)).reserved =
                room p.reserved + table.paragraphs.toNat := room_after_reserve p table
            have cursor := reached.cursor
            have bound := reached.bound
            have together : room (p.afterAll (.reserve table :: rest)).reserved =
                room ((p.after (.reserve table)).afterAll rest).reserved := rfl
            exact ⟨_, perform_reserve_of_room (by rw [bound]; omega)⟩
        | lay place image => exact ⟨_, rfl⟩
        | install =>
            exact ⟨_, perform_install_of_free (by rw [reached.fresh allowed]; exact free)⟩
      rw [performAll_cons_ok served]
      exact ih restOrderly (perform_keeps allowed reached served).1 enough

end Performing

end GuestDos.Kernel
