/-
# GuestDos.Proofs.Kernel.Booted -- a machine after booting

On a machine with room for every table, between the fixed places and the stubs, and with a callback
number left, booting succeeds, and then all tables hold at once: none was damaged by a later one,
and every link between them leads to the table it names.

* `DriverChain` -- following the next pointers of the device headers.
* `TablesHold` -- what programs find; `TablesHold.drivers_of_model` is the chain of each model.
* `setupTables_tablesHold` -- every booting of a `Bootable` machine leaves that.
-/
import GuestDos.Proofs.Kernel.Readings

namespace GuestDos.Kernel

set_option autoImplicit false

open GuestDos.Machine (FarPointer Memory Image)
open GuestDos.Machine.LittleEndian (encode length_encode)

/-- Following the next pointers of device headers visits these, then meets ffff:ffff. -/
inductive DriverChain (m : Memory) : FarPointer → List FarPointer → Prop where
  | done : DriverChain m ⟨0xffff, 0xffff⟩ []
  | driver {header : FarPointer} {others : List FarPointer} (more : header ≠ ⟨0xffff, 0xffff⟩)
      (next : DriverChain m (m.readPointer header) others) :
      DriverChain m header (header :: others)

/-- A chain visits one list of headers only. -/
theorem driverChain_unique {m : Memory} {first : FarPointer} {headers others : List FarPointer}
    (chain : DriverChain m first headers) (other : DriverChain m first others) :
    headers = others := by
  induction chain generalizing others with
  | done =>
      cases other with
      | done => rfl
      | driver more _ => exact absurd rfl more
  | driver more next ih =>
      cases other with
      | done => exact absurd rfl more
      | driver _ otherNext => rw [ih otherNext]

/-- The header of the console driver. -/
def consoleHeader : FarPointer :=
  ⟨0x00a0, 0⟩

/-- The headers in the chain of drivers: a Japanese model has its own console driver in front. -/
def KernelTables.drivers (tables : KernelTables) : List FarPointer :=
  match tables.japanese with
  | some (driver, _) => [⟨driver, 0⟩, consoleHeader]
  | none => [consoleHeader]

/-- What programs find in memory after booting. -/
structure TablesHold (config : Config) (tables : KernelTables) (callbacks : CallbackTable)
    (m : Memory) : Prop where
  -- links of the info block
  block : tables.infoBlock.location = ⟨0x0080, 0⟩
  fileTable_link : tables.infoBlock.pointer .fcbTable m = tables.fileTable
  diskBuffer_link : tables.infoBlock.pointer .diskBufferHead m = tables.diskBuffer
  directory_link : tables.infoBlock.pointer .currentDirectory m = ⟨0x0108, 0⟩
  buffers : tables.infoBlock.buffers m = (50, 50)
  -- chain of drivers
  japanese : tables.japanese.isSome = config.model.isJapanese
  chain : DriverChain m (tables.infoBlock.pointer .deviceChain m) tables.drivers
  chain_only : ∀ headers, DriverChain m (tables.infoBlock.pointer .deviceChain m) headers →
    headers = tables.drivers
  -- case map routine
  caseMap_link : m.readPointer ⟨tables.country, 0x19⟩ = tables.caseMap
  caseMap_stub : ∃ number : UInt16,
    m.Holds tables.caseMap ([0xfe, 0x38] ++ encode 2 number.toNat ++ [0xcb]) ∧
      ∀ n, callbacks.dispatch number n = .ok (.resume, n)
  -- fixed places
  infoBlock : ∀ stretch ∈ infoBlockStretches, m.Holds ⟨0x0080, stretch.1⟩ stretch.2
  swappableArea : m.Holds ⟨0x00b2, 0⟩ ([0x00, 0x00, 0xff] ++ List.replicate 23 0x00)
  consoleNames : ∀ offset ∈ [0x0a, 0x1a, 0x2a],
    m.Holds ⟨0x00a8, offset⟩ [0x43, 0x4f, 0x4e, 0x20]
  console : m.Holds consoleHeader
    [ 0xff, 0xff, 0xff, 0xff, 0x13, 0x80, 0xff, 0xff, 0xff, 0xff,
      0x43, 0x4f, 0x4e, 0x20, 0x20, 0x20, 0x20, 0x20 ]
  currentDirectory : m.Holds ⟨0x0108, 0⟩ [0x43, 0x3a, 0x5c, 0x00]
  leadBytes : tables.leadBytes = ⟨0x0157, 0⟩ ∧
    m.Holds tables.leadBytes
      (if config.setAx || config.model.isJapanese then
        [0x06, 0x00, 0x81, 0x9f, 0xe0, 0xfc, 0x00, 0x00]
      else [0x00, 0x00, 0x00, 0x00])
  -- private tables
  mediaIds : m.Holds tables.mediaIds (List.replicate 52 0x00)
  fileNameChars : m.Holds tables.fileNameChars
    [ 0x16, 0x00, 0x01, 0x00, 0xff, 0x00, 0x00, 0x20, 0x02, 0x0e,
      0x2e, 0x22, 0x2f, 0x5c, 0x5b, 0x5d, 0x3a, 0x7c, 0x3c, 0x3e, 0x2b, 0x3d, 0x3b, 0x2c ]
  collating : m.Holds tables.collation collatingBytes
  upperCase : tables.upperCase = tables.collation.advance 258 ∧
    m.Holds tables.upperCase upperCaseBytes
  fileTable : m.Holds tables.fileTable [0xff, 0xff, 0xff, 0xff, 0x64, 0x00]
  driveParameters : m.Holds ⟨tables.driveParameters, 0⟩ ((List.range 26).map UInt8.ofNat)
  diskBuffer : m.Holds tables.diskBuffer
    ([0xff, 0xff, 0xff, 0xff, 0xff, 0x00, 0x00, 0x00, 0x00, 0x00, 0x01, 0x00, 0x00,
      0xff, 0xff, 0xff, 0xff] ++ List.replicate 15 0x00)
  country : m.Holds ⟨tables.country, 0⟩ (countryBytes config tables.caseMap)
  -- Japanese models
  ibmAdsp : ∀ driver startup, tables.japanese = some (driver, startup) →
    m.Holds ⟨driver, 0⟩
      [ 0x00, 0x00, 0xa0, 0x00, 0x00, 0xc0, 0x18, 0x00, 0x1e, 0x00,
        0x24, 0x49, 0x42, 0x4d, 0x41, 0x44, 0x53, 0x50 ] ∧
      m.Holds ⟨driver, 0x18⟩ [0x26, 0x81, 0x4f, 0x03, 0x00, 0x01, 0xcb]
  startupInfo : ∀ driver startup, tables.japanese = some (driver, startup) →
    m.Holds ⟨startup, 0⟩ (startupInfoBytes startup)

/-- The chain by model: J-3100 and DOS/V have a driver of their own in front of the console's. -/
theorem TablesHold.drivers_of_model {config : Config} {tables : KernelTables}
    {callbacks : CallbackTable} {m : Memory} (holds : TablesHold config tables callbacks m) :
    (config.model = .ibm ∨ config.model = .ax → tables.drivers = [consoleHeader]) ∧
      (config.model = .j3100 ∨ config.model = .dosV →
        ∃ driver startup, tables.japanese = some (driver, startup) ∧
          tables.drivers = [⟨driver, 0⟩, consoleHeader]) := by
  have kind := holds.japanese
  unfold KernelTables.drivers
  constructor
  · intro plain
    have notJapanese : config.model.isJapanese = false := by
      obtain ibm | ax := plain
      · rw [ibm]
        rfl
      · rw [ax]
        rfl
    rw [notJapanese, Option.isSome_eq_false_iff, Option.isNone_iff_eq_none] at kind
    rw [kind]
  · intro japanese
    rw [MachineModel.isJapanese_iff.2 japanese] at kind
    obtain ⟨⟨driver, startup⟩, has⟩ := Option.isSome_iff_exists.1 kind
    exact ⟨driver, startup, has, by rw [has]⟩

section Booted

variable {config : Config} {s final : System}

theorem used_table {site : Site} {table : PrivateTable} (requested : table ∈ requests false) :
    site.Used (.table table) := by
  have always : ∀ table ∈ requests false, table ∈ requests true := by decide
  show table ∈ requests site.japanese
  cases site.japanese with
  | false => exact requested
  | true => exact always table requested

theorem used_japanese {site : Site} (japanese : site.japanese = true) {table : PrivateTable}
    (requested : table ∈ requests true) : site.Used (.table table) := by
  show table ∈ requests site.japanese
  rw [japanese]
  exact requested

theorem image_ibmAdsp {site : Site} (japanese : site.japanese = true) :
    site.image (.table .ibmAdsp) = Tables.ibmAdsp := by
  unfold Site.image
  rw [japanese]
  rfl

theorem image_startupInfo {site : Site} (japanese : site.japanese = true) :
    site.image (.table .startupInfo) =
      Tables.startupInfo (site.segment (.table .startupInfo)) := by
  unfold Site.image
  rw [japanese]
  rfl

variable (bootable : Bootable config s)
  (booted : performAll (.of config s) (bootPlan (.of config s)) s = .ok () final)

include bootable booted

/-- A private table holds what its image says. -/
theorem table_booted (table : PrivateTable) (used : (Site.of config s).Used (.table table))
    {offset : UInt16} {bytes : List UInt8}
    (within : offset.toNat + bytes.length ≤ 16 * table.paragraphs.toNat)
    (reads : ((Site.of config s).image (.table table)).Reads offset.toNat bytes) :
    final.memory.Holds ⟨(Site.of config s).segment (.table table), offset⟩ bytes :=
  holds_booted bootable booted _ used (List.mem_singleton_self _) (Nat.zero_le _) within reads

/-- A far pointer of the info block leads to what it is linked to. -/
theorem link_booted (field : InfoBlock.PointerField) :
    (Site.of config s).tables.infoBlock.pointer field final.memory =
      (Site.of config s).linked field := by
  apply Memory.readPointer_of_holds
  refine holds_booted bootable booted .infoBlock trivial (List.mem_singleton_self _)
    (Nat.zero_le _) ?_ (link_reads _ field)
  cases field <;> simp [InfoBlock.PointerField.offset, InfoBlock.size]

/-- The buffer counts. -/
theorem buffers_booted :
    (Site.of config s).tables.infoBlock.buffers final.memory = (50, 50) := by
  have first : final.memory.readWord ⟨Layout.infoBlockSegment, InfoBlock.bufferOffsets.1⟩ = 50 := by
    apply Memory.readWord_of_holds
    refine holds_booted bootable booted .infoBlock trivial (List.mem_singleton_self _)
      (Nat.zero_le _) (by decide) ?_
    exact Image.reads_append_field (.word InfoBlock.bufferOffsets.1 Tables.bufferCount) rfl
  have second : final.memory.readWord ⟨Layout.infoBlockSegment, InfoBlock.bufferOffsets.2⟩ =
      50 := by
    apply Memory.readWord_of_holds
    refine holds_booted bootable booted .infoBlock trivial (List.mem_singleton_self _)
      (Nat.zero_le _) (by decide) ?_
    exact Image.reads_append_field (.word InfoBlock.bufferOffsets.2 Tables.bufferCount) rfl
  exact Prod.ext first second

/-- The console driver ends the chain. -/
theorem console_ends : DriverChain final.memory consoleHeader [consoleHeader] := by
  have ends : Tables.consoleDriver.Reads 0
      (encode 4 (FarPointer.mk 0xffff 0xffff).toDword.toNat) := by decide +kernel
  have next : final.memory.readPointer consoleHeader = ⟨0xffff, 0xffff⟩ :=
    Memory.readPointer_of_holds (holds_booted bootable booted .consoleDriver trivial
      (List.mem_singleton_self _) (Nat.zero_le _) (by decide) ends)
  exact .driver (by decide) (next ▸ .done)

theorem chain_booted :
    DriverChain final.memory ((Site.of config s).linked .deviceChain)
      (Site.of config s).tables.drivers := by
  have console := console_ends bootable booted
  unfold Site.linked Site.firstDriver KernelTables.drivers Site.tables Site.japaneseSegments
  cases japanese : (Site.of config s).japanese with
  | false => exact console
  | true =>
      have leads : Tables.ibmAdsp.Reads 0 (encode 4 consoleHeader.toDword.toNat) := by
        decide +kernel
      have next : final.memory.readPointer
          ⟨(Site.of config s).segment (.table .ibmAdsp), 0⟩ = consoleHeader :=
        Memory.readPointer_of_holds (table_booted bootable booted .ibmAdsp
          (used_japanese japanese (by decide)) (by decide) (image_ibmAdsp japanese ▸ leads))
      exact .driver (by simp [FarPointer.ofSegment]) (next ▸ console)

/-- The stub of the case map routine, and what calling it does. -/
theorem caseMap_booted :
    ∃ number : UInt16,
      final.memory.Holds (CallbackTable.entry (Site.of config s).number)
        ([0xfe, 0x38] ++ encode 2 number.toNat ++ [0xcb]) ∧
      ∀ n, final.callbacks.dispatch number n = .ok (.resume, n) := by
  refine ⟨(Site.of config s).number, ?_, (reached_booted booted).answers rfl⟩
  have within : (CallbackTable.entry (Site.of config s).number).offset.toNat +
      (CallbackTable.stub (Site.of config s).number).length ≤
        (CallbackTable.entry (Site.of config s).number).offset.toNat + 5 :=
    Nat.le_refl _
  exact holds_booted bootable booted .stub rfl (List.mem_singleton_self _) (Nat.le_refl _) within
    (Image.reads_single ⟨_, CallbackTable.stub (Site.of config s).number⟩)

/-- The far pointer in the country information leads to the case map routine. -/
theorem caseMap_linked :
    final.memory.readPointer ⟨(Site.of config s).segment (.table .country), 0x19⟩ =
      CallbackTable.entry (Site.of config s).number := by
  have reads := country_reads config (CallbackTable.entry (Site.of config s).number)
  unfold countryBytes at reads
  rw [Image.reads_append, Image.reads_append] at reads
  exact Memory.readPointer_of_holds
    (table_booted bootable booted .country (used_table (by decide))
      (by rw [length_encode]; decide) reads.1.2)

/-- What only the Japanese models have. -/
theorem japanese_booted {driver startup : UInt16}
    (has : (Site.of config s).japaneseSegments = some (driver, startup)) :
    final.memory.Holds ⟨driver, 0⟩
        [ 0x00, 0x00, 0xa0, 0x00, 0x00, 0xc0, 0x18, 0x00, 0x1e, 0x00,
          0x24, 0x49, 0x42, 0x4d, 0x41, 0x44, 0x53, 0x50 ] ∧
      final.memory.Holds ⟨driver, 0x18⟩ [0x26, 0x81, 0x4f, 0x03, 0x00, 0x01, 0xcb] ∧
      final.memory.Holds ⟨startup, 0⟩ (startupInfoBytes startup) := by
  unfold Site.japaneseSegments at has
  cases japanese : (Site.of config s).japanese with
  | false =>
      rw [japanese] at has
      cases has
  | true =>
      rw [japanese] at has
      cases has
      have header : Tables.ibmAdsp.Reads 0
          [ 0x00, 0x00, 0xa0, 0x00, 0x00, 0xc0, 0x18, 0x00, 0x1e, 0x00,
            0x24, 0x49, 0x42, 0x4d, 0x41, 0x44, 0x53, 0x50 ] := by decide +kernel
      have routines : Tables.ibmAdsp.Reads 0x18 [0x26, 0x81, 0x4f, 0x03, 0x00, 0x01, 0xcb] := by
        decide +kernel
      refine ⟨?_, ?_, ?_⟩
      · exact table_booted bootable booted .ibmAdsp (used_japanese japanese (by decide)) (by decide)
          (image_ibmAdsp japanese ▸ header)
      · exact table_booted bootable booted .ibmAdsp (used_japanese japanese (by decide)) (by decide)
          (image_ibmAdsp japanese ▸ routines)
      · refine table_booted bootable booted .startupInfo (used_japanese japanese (by decide)) ?_
          (image_startupInfo japanese ▸ startupInfo_reads _)
        simp [startupInfoBytes, startupInfoHead, startupInfoTail, PrivateTable.paragraphs,
          Tables.startupInfoParagraphs]

theorem tablesHold_booted :
    TablesHold config (Site.of config s).tables final.callbacks final.memory where
  block := rfl
  fileTable_link := link_booted bootable booted .fcbTable
  diskBuffer_link := link_booted bootable booted .diskBufferHead
  directory_link := link_booted bootable booted .currentDirectory
  buffers := buffers_booted bootable booted
  japanese := by
    show (Site.of config s).japaneseSegments.isSome = (Site.of config s).japanese
    unfold Site.japaneseSegments
    cases (Site.of config s).japanese <;> rfl
  chain := by
    rw [link_booted bootable booted]
    exact chain_booted bootable booted
  chain_only := by
    intro headers other
    rw [link_booted bootable booted] at other
    exact driverChain_unique other (chain_booted bootable booted)
  caseMap_link := caseMap_linked bootable booted
  caseMap_stub := caseMap_booted bootable booted
  infoBlock := by
    intro stretch member
    have within : ∀ stretch ∈ infoBlockStretches,
        stretch.1.toNat + stretch.2.length ≤ InfoBlock.size := by decide +kernel
    exact holds_booted bootable booted .infoBlock trivial (List.mem_singleton_self _)
      (Nat.zero_le _) (within stretch member) (infoBlock_reads _ stretch member)
  swappableArea := by
    have reads : Image.Reads [.zeros 0 swappableAreaSize, .byte 2 0xff] 0
        ([0x00, 0x00, 0xff] ++ List.replicate 23 0x00) := by decide +kernel
    exact holds_booted bootable booted .swappableArea trivial (List.mem_singleton_self _)
      (Nat.zero_le _) (by decide) reads
  consoleNames := by
    intro offset member
    simp only [List.mem_cons, List.not_mem_nil, or_false] at member
    have windows : (Site.of config s).windows .consoleNames =
        [(0x0a, 0x0e), (0x1a, 0x1e), (0x2a, 0x2e)] := rfl
    obtain rfl | rfl | rfl := member
    · have reads : Tables.consoleNames.Reads 0x0a [0x43, 0x4f, 0x4e, 0x20] := by decide +kernel
      exact holds_booted bootable booted .consoleNames trivial (windows ▸ List.mem_cons_self)
        (Nat.le_refl _) (Nat.le_refl _) reads
    · have reads : Tables.consoleNames.Reads 0x1a [0x43, 0x4f, 0x4e, 0x20] := by decide +kernel
      exact holds_booted bootable booted .consoleNames trivial
        (windows ▸ List.mem_cons_of_mem _ List.mem_cons_self) (Nat.le_refl _) (Nat.le_refl _) reads
    · have reads : Tables.consoleNames.Reads 0x2a [0x43, 0x4f, 0x4e, 0x20] := by decide +kernel
      exact holds_booted bootable booted .consoleNames trivial
        (windows ▸ List.mem_cons_of_mem _ (List.mem_cons_of_mem _ List.mem_cons_self))
        (Nat.le_refl _) (Nat.le_refl _) reads
  console := by
    have reads : Tables.consoleDriver.Reads 0
        [ 0xff, 0xff, 0xff, 0xff, 0x13, 0x80, 0xff, 0xff, 0xff, 0xff,
          0x43, 0x4f, 0x4e, 0x20, 0x20, 0x20, 0x20, 0x20 ] := by decide +kernel
    exact holds_booted bootable booted .consoleDriver trivial (List.mem_singleton_self _)
      (Nat.zero_le _) (by decide) reads
  currentDirectory := by
    have reads : Tables.currentDirectory.Reads 0 [0x43, 0x3a, 0x5c, 0x00] := by decide +kernel
    exact holds_booted bootable booted .currentDirectory trivial (List.mem_singleton_self _)
      (Nat.zero_le _) (by decide) reads
  leadBytes := by
    have reads : ∀ present : Bool,
        (if present then Tables.leadBytes else Tables.noLeadBytes : Image).Reads 0
          (if present then [0x06, 0x00, 0x81, 0x9f, 0xe0, 0xfc, 0x00, 0x00]
          else [0x00, 0x00, 0x00, 0x00]) := by decide +kernel
    refine ⟨rfl, holds_booted bootable booted .leadBytes trivial (List.mem_singleton_self _)
      (Nat.zero_le _) ?_ (reads (config.setAx || config.model.isJapanese))⟩
    split <;> decide
  mediaIds := by
    have reads : Tables.mediaIds.Reads 0 (List.replicate 52 0x00) := by decide +kernel
    exact table_booted bootable booted .mediaIds (used_table (by decide)) (by decide) reads
  fileNameChars := by
    have reads : Tables.fileNameChars.Reads 0
        [ 0x16, 0x00, 0x01, 0x00, 0xff, 0x00, 0x00, 0x20, 0x02, 0x0e,
          0x2e, 0x22, 0x2f, 0x5c, 0x5b, 0x5d, 0x3a, 0x7c, 0x3c, 0x3e, 0x2b, 0x3d, 0x3b, 0x2c ] := by
      decide +kernel
    exact table_booted bootable booted .fileNameChars (used_table (by decide)) (by decide) reads
  collating := by
    refine table_booted bootable booted .collation (used_table (by decide)) ?_ collation_reads.1
    rw [collatingBytes, List.length_append, List.length_map, List.length_range]
    decide
  upperCase := by
    have within : Tables.upperCaseOffset.toNat + upperCaseBytes.length ≤
        16 * PrivateTable.collation.paragraphs.toNat := by
      rw [upperCaseBytes, List.length_append, List.length_map, List.length_range]
      decide
    exact ⟨rfl, table_booted bootable booted .collation (used_table (by decide)) within
      collation_reads.2⟩
  fileTable := by
    have reads : Tables.fileTable.Reads 0 [0xff, 0xff, 0xff, 0xff, 0x64, 0x00] := by
      decide +kernel
    exact table_booted bootable booted .fileTable (used_table (by decide)) (by decide) reads
  driveParameters := by
    have reads : Tables.driveParameters.Reads 0 ((List.range 26).map UInt8.ofNat) := by
      decide +kernel
    exact table_booted bootable booted .driveParameters (used_table (by decide)) (by decide) reads
  diskBuffer := by
    have reads : Tables.diskBuffer.Reads 0
        ([0xff, 0xff, 0xff, 0xff, 0xff, 0x00, 0x00, 0x00, 0x00, 0x00, 0x01, 0x00, 0x00,
          0xff, 0xff, 0xff, 0xff] ++ List.replicate 15 0x00) := by decide +kernel
    exact table_booted bootable booted .diskBuffer (used_table (by decide)) (by decide) reads
  country := by
    refine table_booted bootable booted .country (used_table (by decide)) ?_ (country_reads _ _)
    simp [countryBytes, countryHead, countryFormats, countryTail, PrivateTable.paragraphs,
      Tables.countryParagraphs]
  ibmAdsp := fun _ _ has =>
    have holds := japanese_booted bootable booted has
    ⟨holds.1, holds.2.1⟩
  startupInfo := fun _ _ has => (japanese_booted bootable booted has).2.2

end Booted

/-- **After booting, all tables hold at once and every link agrees.** -/
theorem setupTables_tablesHold (config : Config) (s : System) (bootable : Bootable config s) :
    ∃ tables final, setupTables config s = .ok tables final ∧
      TablesHold config tables final.callbacks final.memory := by
  obtain ⟨final, booted⟩ := bootable.boots
  exact ⟨_, final, setupTables_of_ok booted, tablesHold_booted bootable booted⟩

/-- A machine that has just been switched on has room for every table, and callback numbers. -/
theorem bootable_fresh (config : Config) : Bootable config .fresh where
  free := by decide
  enough := by
    cases config.model.isJapanese <;> decide
  above := by decide
  below := by decide

/-- A machine with just enough: 70 paragraphs, of which the last is never handed out, and one
callback number, the others having been handed out before. -/
def tightMachine : System :=
  ⟨.zero, ⟨0x2000, 0x2046⟩,
    (List.range 126).foldl (fun t _ => (t.allocate.toOption.map Prod.snd).getD t) .empty⟩

theorem tightMachine_tablesHold :
    Bootable (.ofModel .dosV) tightMachine ∧
      ∃ tables final, setupTables (.ofModel .dosV) tightMachine = .ok tables final ∧
        TablesHold (.ofModel .dosV) tables final.callbacks final.memory := by
  have bootable : Bootable (.ofModel .dosV) tightMachine :=
    ⟨by decide +kernel, by decide, by decide, by decide⟩
  exact ⟨bootable, setupTables_tablesHold _ _ bootable⟩

end GuestDos.Kernel
