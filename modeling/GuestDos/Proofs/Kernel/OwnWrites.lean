/-
# GuestDos.Proofs.Kernel.OwnWrites -- booting stores only what is its own

Whether it succeeds or fails, booting stores to the fixed places of the kernel, to the stub of the
callback number it took, and to the paragraphs it took.  Every write to a private table stays in the
paragraphs handed out for that very table, which overlap no other table's, and no write goes around
the end of memory.

* `setupTables_performed` -- booting performs its plan up to a step that fails, or all of it.
* `OwnWrites` -- what the steps that were performed stored, and where.
* `setupTables_ownWrites` -- every booting, successful or not.
-/
import GuestDos.Proofs.Kernel.Performing

namespace GuestDos.Kernel

set_option autoImplicit false

open GuestDos.Machine (FarPointer Memory Field Image memorySize)
open Boot

/-- The system that a program leaves, whether it fails or not. -/
def Boot.leaves {α : Type} (program : Boot α) (s : System) : System :=
  match program s with
  | .ok _ final => final
  | .error _ final => final

/-- The steps that were performed: all of the plan, or those before a step that fails. -/
def Performed (site : Site) (done : List BootStep) (final : System) : Prop :=
  bootPlan site = done ∨ ∃ step rest failure,
    bootPlan site = done ++ step :: rest ∧ step.perform site final = .error failure final

/-- The ranges outside private memory and the stubs that booting may store to: first address, and
one past the last. -/
def fixedRanges : List (Nat × Nat) :=
  [ (0x800, 0x890),                                          -- info block
    (0xa00, 0xa12),                                          -- header of the console driver
    (0xa8a, 0xa8e), (0xa9a, 0xa9e), (0xaaa, 0xaae),          -- console names
    (0xb20, 0xb3a),                                          -- swappable data area
    (0x1080, 0x1084),                                        -- current directory
    (0x1570, 0x1578) ]                                       -- lead bytes

/-- The addresses that booting from `s` to `final` may store to: the fixed places, the stub of the
callback number it took, and the paragraphs it took. -/
def MayStore (s final : System) (i : Nat) : Prop :=
  (∃ range ∈ fixedRanges, range.1 ≤ i ∧ i < range.2) ∨
  (final.callbacks.Taken s.callbacks.nextFree ∧
    0xf1000 + 32 * s.callbacks.nextFree ≤ i ∧ i < 0xf1000 + 32 * s.callbacks.nextFree + 5) ∨
  (16 * s.privateMemory.next.toNat ≤ i ∧ i < 16 * final.privateMemory.next.toNat)

/-- The first paragraph of a table, and the one after its last. -/
def Site.paragraphsOf (site : Site) (table : PrivateTable) : Nat × Nat :=
  ((site.segment (.table table)).toNat,
    (site.segment (.table table)).toNat + table.paragraphs.toNat)

/-- What the steps in `done` did on the way from `s` to `final`, and where they stored. -/
structure OwnWrites (site : Site) (done : List BootStep) (s final : System) : Prop where
  performed : Performed site done final
  reaches : performAll site done s = .ok () final
  /-- Nothing but the journal changes the memory. -/
  journal : final.memory = applyAll site s.memory (writesOf site done)
  /-- No write goes around the end of memory. -/
  noWrap : ∀ w ∈ writesOf site done, w.finish site ≤ memorySize
  /-- Private tables get the paragraphs that were requested for them. -/
  handed : ∀ before table rest, done = before ++ .reserve table :: rest →
    ∃ now later, performAll site before s = .ok () now ∧
      reserve table.paragraphs now = .ok (site.segment (.table table)) later
  /-- A private table is stored to only in its own paragraphs. -/
  inside : ∀ w ∈ writesOf site done, ∀ table, w.place = .table table →
    .reserve table ∈ done ∧ 16 * (site.paragraphsOf table).1 ≤ w.start site ∧
      w.finish site ≤ 16 * (site.paragraphsOf table).2
  /-- The paragraphs of two tables do not overlap. -/
  apart : ∀ first second, .reserve first ∈ done → .reserve second ∈ done → first ≠ second →
    (site.paragraphsOf first).2 ≤ (site.paragraphsOf second).1 ∨
      (site.paragraphsOf second).2 ≤ (site.paragraphsOf first).1

/-! ## The steps that were performed -/

theorem performAll_append_ok {site : Site} {earlier later : List BootStep} {s final : System}
    (done : performAll site (earlier ++ later) s = .ok () final) :
    ∃ now, performAll site earlier s = .ok () now ∧ performAll site later now = .ok () final := by
  induction earlier generalizing s with
  | nil => exact ⟨s, rfl, done⟩
  | cons step rest ih =>
      rw [List.cons_append] at done
      cases outcome : step.perform site s with
      | error failure next =>
          rw [performAll_cons_error outcome] at done
          cases done
      | ok _ next =>
          rw [performAll_cons_ok outcome] at done ⊢
          exact ih done

theorem setupTables_of_ok {config : Config} {s final : System}
    (done : performAll (.of config s) (bootPlan (.of config s)) s = .ok () final) :
    setupTables config s = .ok (Site.of config s).tables final := by
  rw [setupTables_eq_plan]
  exact bind_of_ok done

theorem setupTables_of_error {config : Config} {s final : System} {failure : KernelError}
    (failed : performAll (.of config s) (bootPlan (.of config s)) s = .error failure final) :
    setupTables config s = .error failure final := by
  rw [setupTables_eq_plan]
  show EStateM.bind _ _ s = _
  unfold EStateM.bind
  rw [failed]

/-- Booting performs its plan, up to a step that fails or all of it. -/
theorem setupTables_performed (config : Config) (s : System) :
    ∃ done, Performed (.of config s) done (leaves (setupTables config) s) ∧
      performAll (.of config s) done s = .ok () (leaves (setupTables config) s) := by
  unfold leaves
  cases outcome : performAll (.of config s) (bootPlan (.of config s)) s with
  | ok _ final =>
      rw [setupTables_of_ok outcome]
      exact ⟨_, .inl rfl, outcome⟩
  | error failure final =>
      rw [setupTables_of_error outcome]
      obtain ⟨done, step, rest, plan, before, fails⟩ := performAll_error outcome
      exact ⟨done, .inr ⟨step, rest, failure, plan, fails⟩, before⟩

theorem Performed.orderly {site : Site} {done : List BootStep} {final : System}
    (performed : Performed site done final) : Orderly site .start done := by
  have plan := bootPlan_orderly site
  obtain all | ⟨step, rest, failure, stopped, -⟩ := performed
  · rwa [all] at plan
  · rw [stopped] at plan
    exact (orderly_append.1 plan).1

/-! ## Where the paragraphs of a table are -/

section Placed

variable {site : Site} {limit : UInt16} {p : Progress} {now : System}

/-- The segment of a table that has its paragraphs does not wrap. -/
theorem toNat_segment_table (reached : Reached site limit p now) {table : PrivateTable}
    (packed : p.Packed site.japanese) (reserved : table ∈ p.reserved) :
    (site.segment (.table table)).toNat = site.base.toNat + table.offset site.japanese := by
  have held := packed.held table reserved
  have small := limit.toNat_lt
  have below : site.base.toNat + room p.reserved < limit.toNat := by
    obtain none | below := reached.below
    · rw [none] at reserved
      exact absurd reserved List.not_mem_nil
    · exact below
  unfold Site.segment
  rw [UInt16.toNat_add, UInt16.toNat_ofNat_of_lt']
  · omega
  · simp only [UInt16.size]
    omega

theorem paragraphsOf_eq (reached : Reached site limit p now) {table : PrivateTable}
    (packed : p.Packed site.japanese) (reserved : table ∈ p.reserved) :
    site.paragraphsOf table =
      (site.base.toNat + table.offset site.japanese,
        site.base.toNat + table.offset site.japanese + table.paragraphs.toNat) := by
  unfold Site.paragraphsOf
  rw [toNat_segment_table reached packed reserved]

/-- Two tables that have their paragraphs lie one after the other. -/
theorem apart_of_packed {japanese : Bool} (packed : p.Packed japanese) {first second : PrivateTable}
    (firstReserved : first ∈ p.reserved) (secondReserved : second ∈ p.reserved)
    (different : first ≠ second) :
    first.offset japanese + first.paragraphs.toNat ≤ second.offset japanese ∨
      second.offset japanese + second.paragraphs.toNat ≤ first.offset japanese := by
  refine List.Pairwise.forall_of_forall_of_flip
    (R := fun first second => first ≠ second →
      first.offset japanese + first.paragraphs.toNat ≤ second.offset japanese ∨
        second.offset japanese + second.paragraphs.toNat ≤ first.offset japanese)
    (fun _ _ same => absurd rfl same) (packed.apart.imp fun before _ => .inl before)
    (packed.apart.imp fun before _ => .inr before) firstReserved secondReserved different

/-- A write that fits a private table stays in its paragraphs. -/
theorem inside_paragraphs {w : Write} {table : PrivateTable} (isTable : w.place = .table table)
    (fits : site.Fits w.place w.field) :
    16 * (site.paragraphsOf table).1 ≤ w.start site ∧
      w.finish site ≤ 16 * (site.paragraphsOf table).2 := by
  obtain ⟨window, member, -, high⟩ := fits
  rw [isTable] at member
  obtain rfl := List.mem_singleton.1 member
  rw [Write.start_eq, Write.finish_eq, isTable]
  unfold Site.paragraphsOf
  simp only at high ⊢
  omega

/-- The place, as addresses. -/
theorem owns_of_fits {w : Write} (fits : site.Fits w.place w.field) {i : Nat}
    (first : w.start site ≤ i) (last : i < w.finish site) : site.Owns w.place i := by
  obtain ⟨window, member, low, high⟩ := fits
  rw [Write.start_eq] at first
  rw [Write.finish_eq] at last
  exact ⟨window, member, by omega, by omega⟩

theorem finish_le_memorySize {w : Write} (fits : site.Fits w.place w.field) :
    w.finish site ≤ memorySize := by
  have inSegment := fits.finish_le
  have small := (site.segment w.place).toNat_lt
  rw [Write.finish_eq]
  unfold memorySize
  omega

/-- A write leaves every byte alone that its place does not own. -/
theorem byteAt_apply_of_not_owns (m : Memory) {w : Write} (fits : site.Fits w.place w.field)
    (i : Fin memorySize) (outside : ¬ site.Owns w.place i) :
    (w.apply site m).byteAt i = m.byteAt i := by
  have untouched : i < w.start site ∨ w.finish site ≤ i := by
    by_cases first : w.start site ≤ i
    · exact .inr (Nat.le_of_not_lt fun last => outside (owns_of_fits fits first last))
    · exact .inl (Nat.lt_of_not_le first)
  rw [Write.start_eq, Write.finish_eq] at untouched
  unfold Write.apply Write.pointer
  rw [Memory.byteAt_storeField _ _ _ fits.finish_le]
  split
  · rename_i inSegment
    obtain before | past := untouched
    · rw [Field.byteAt?_of_lt (by omega)]
      rfl
    · rw [Field.byteAt?_of_finish_le (by omega)]
      rfl
  · rfl

theorem byteAt_applyAll_of_not_owns (m : Memory) {journal : List Write}
    (fits : ∀ w ∈ journal, site.Fits w.place w.field) (i : Fin memorySize)
    (outside : ∀ w ∈ journal, ¬ site.Owns w.place i) :
    (applyAll site m journal).byteAt i = m.byteAt i := by
  induction journal generalizing m with
  | nil => rfl
  | cons w rest ih =>
      have kept := byteAt_apply_of_not_owns m (fits w List.mem_cons_self) i
        (outside w List.mem_cons_self)
      rw [← kept]
      exact ih (w.apply site m) (fun v later => fits v (List.mem_cons_of_mem _ later))
        (fun v later => outside v (List.mem_cons_of_mem _ later))

end Placed

/-! ## What booting may store to -/

/-- A place that is ready lies in what booting may store to. -/
theorem mayStore_of_owns {config : Config} {s final : System} {p : Progress} {place : Place}
    {i : Nat} (reached : Reached (.of config s) s.privateMemory.limit p final)
    (packed : p.Packed config.model.isJapanese) (ready : p.Ready place)
    (owns : (Site.of config s).Owns place i) : MayStore s final i := by
  obtain ⟨window, member, first, last⟩ := owns
  cases place with
  | infoBlock =>
      obtain rfl := List.mem_singleton.1 member
      exact .inl ⟨(0x800, 0x890), by decide, first, last⟩
  | swappableArea =>
      obtain rfl := List.mem_singleton.1 member
      exact .inl ⟨(0xb20, 0xb3a), by decide, first, last⟩
  | consoleNames =>
      simp only [Site.windows, List.mem_cons, List.not_mem_nil, or_false] at member
      obtain rfl | rfl | rfl := member
      · exact .inl ⟨(0xa8a, 0xa8e), by decide, first, last⟩
      · exact .inl ⟨(0xa9a, 0xa9e), by decide, first, last⟩
      · exact .inl ⟨(0xaaa, 0xaae), by decide, first, last⟩
  | consoleDriver =>
      obtain rfl := List.mem_singleton.1 member
      exact .inl ⟨(0xa00, 0xa12), by decide, first, last⟩
  | currentDirectory =>
      obtain rfl := List.mem_singleton.1 member
      exact .inl ⟨(0x1080, 0x1084), by decide, first, last⟩
  | leadBytes =>
      obtain rfl := List.mem_singleton.1 member
      exact .inl ⟨(0x1570, 0x1578), by decide, first, last⟩
  | stub =>
      obtain rfl := List.mem_singleton.1 member
      have installed : p.installed = true := ready
      have taken : final.callbacks.Taken s.callbacks.nextFree := reached.taken installed
      have offset : (CallbackTable.entry (Site.of config s).number).offset.toNat =
          0x1000 + 32 * s.callbacks.nextFree := CallbackTable.toNat_offset_entry taken.1
      have segment : (Site.of config s).segment .stub = 0xf000 := rfl
      rw [segment] at first last
      simp only [offset, UInt16.reduceToNat] at first last
      exact .inr (.inl ⟨taken, by omega, by omega⟩)
  | table table =>
      obtain rfl := List.mem_singleton.1 member
      have held := packed.held table ready
      have segment := toNat_segment_table reached packed ready
      have cursor : final.privateMemory.next.toNat =
          s.privateMemory.next.toNat + room p.reserved := reached.cursor
      have base : (Site.of config s).base.toNat = s.privateMemory.next.toNat := rfl
      have models : (Site.of config s).japanese = config.model.isJapanese := rfl
      rw [base, models] at segment
      simp only at first last
      exact .inr (.inr ⟨by omega, by omega⟩)

/-- What a request inside the performed steps handed out. -/
theorem handed_segment {config : Config} {s final : System} {before rest : List BootStep}
    {table : PrivateTable}
    (orderly : Orderly (.of config s) .start (before ++ .reserve table :: rest))
    (reaches : performAll (.of config s) (before ++ .reserve table :: rest) s = .ok () final) :
    ∃ now later, performAll (.of config s) before s = .ok () now ∧
      reserve table.paragraphs now = .ok ((Site.of config s).segment (.table table)) later := by
  obtain ⟨now, reachesNow, remaining⟩ := performAll_append_ok reaches
  obtain ⟨orderlyBefore, next, -⟩ := orderly_append.1 orderly
  obtain ⟨reached, -⟩ := performAll_keeps orderlyBefore (reached_start config s) reachesNow
  have offset : table.offset (Site.of config s).japanese =
      room (Progress.start.afterAll before).reserved := next
  have here : (Site.of config s).segment (.table table) = now.privateMemory.next := by
    apply UInt16.toNat_inj.1
    have small := now.privateMemory.next.toNat_lt
    have cursor := reached.cursor
    unfold Site.segment
    rw [UInt16.toNat_add, UInt16.toNat_ofNat_of_lt'] <;> rw [offset]
    · omega
    · simp only [UInt16.size]
      omega
  by_cases enough : table.paragraphs.toNat + now.privateMemory.next.toNat <
      now.privateMemory.limit.toNat
  · rw [here]
    exact ⟨now, _, reachesNow, reserve_of_room enough⟩
  · rw [performAll_cons_error (perform_reserve_of_no_room enough)] at remaining
    cases remaining

/-- **Booting stores only what is its own**, whether it succeeds or fails: it performs its plan up
to a step that fails, no byte changes that it may not store to, and the steps it performed stored
where they own. -/
theorem setupTables_ownWrites (config : Config) (s : System) :
    setupTables config s =
        (performAll (.of config s) (bootPlan (.of config s)) >>= fun _ =>
          pure (Site.of config s).tables) s ∧
    (∀ i : Fin memorySize, ¬ MayStore s (leaves (setupTables config) s) i →
      (leaves (setupTables config) s).memory.byteAt i = s.memory.byteAt i) ∧
    ∃ done, OwnWrites (.of config s) done s (leaves (setupTables config) s) := by
  obtain ⟨done, performed, reaches⟩ := setupTables_performed config s
  have orderly := performed.orderly
  have packed := orderly.packed (packed_start _)
  obtain ⟨reached, journal⟩ := performAll_keeps orderly (reached_start config s) reaches
  have reserved : ∀ table, .reserve table ∈ done →
      table ∈ (Progress.start.afterAll done).reserved :=
    fun table member => mem_reserved_afterAll.2 (.inr member)
  refine ⟨setupTables_eq_plan config s, ?_, done, performed, reaches, journal, ?_, ?_, ?_, ?_⟩
  · intro i outside
    rw [journal]
    apply byteAt_applyAll_of_not_owns
    · exact fun w member => (orderly.writes member).2
    · exact fun w member owns =>
        outside (mayStore_of_owns reached packed (orderly.writes member).1 owns)
  · exact fun w member => finish_le_memorySize (orderly.writes member).2
  · rintro before table rest rfl
    exact handed_segment orderly reaches
  · intro w member table isTable
    obtain ⟨ready, fits⟩ := orderly.writes member
    rw [isTable] at ready
    have requested := mem_reserved_afterAll.1 ready
    refine ⟨requested.resolve_left List.not_mem_nil, ?_⟩
    exact inside_paragraphs isTable fits
  · intro first second firstDone secondDone different
    have ordered := apart_of_packed packed (reserved first firstDone) (reserved second secondDone)
      different
    rw [paragraphsOf_eq reached packed (reserved first firstDone),
      paragraphsOf_eq reached packed (reserved second secondDone)]
    simp only
    omega

end GuestDos.Kernel
