/-
# GuestDos.Proofs.Kernel.Influence -- what a setting can change

Two bootings of the same system compared.  Both perform a list of steps, and where their machines
are both Japanese or both not, the lists differ in the image of one step: the lead bytes, or the
country information.  Steps keep two systems alike but for what already differs, so all that the
setting can change is the bytes that the two images say differently.  A Japanese machine and another
one request different tables, so there is nothing of the kind between them.

* `System.AlikeBut`, `AlikeBut` -- systems, and outcomes, that differ at most in some bytes.
* `perform_alike`, `performAll_alike` -- the same steps keep systems alike.
* `performAll_alike_of_lay` -- steps that differ in one image.
* `Site.SamePlaces` -- sites that store the same things in the same places.
* `HandsOut`, `CountryBytes` -- the segment that a table gets, and bytes of the country information.
* `setupTables_influences` -- what the code page, the lead bytes and the machine can change.
-/
import GuestDos.Proofs.Kernel.Contents
import GuestDos.Proofs.Kernel.OwnWrites

namespace GuestDos.Kernel

set_option autoImplicit false

open GuestDos.Machine (FarPointer Memory Field Image memorySize)
open GuestDos.Machine.Image (byteAt?_of_outside byteAt?_of_fitsIn)
open Boot

/-! ## Alike but for some bytes -/

/-- The systems differ at most in the bytes of memory at these addresses. -/
structure System.AlikeBut (differ : Nat → Prop) (x y : System) : Prop where
  privateMemory : x.privateMemory = y.privateMemory
  callbacks : x.callbacks = y.callbacks
  memory : ∀ i : Fin memorySize, ¬ differ i → x.memory.byteAt i = y.memory.byteAt i

/-- The same result or the same failure, in systems that differ at most in these bytes. -/
inductive AlikeBut {α : Type} (differ : Nat → Prop) :
    EStateM.Result KernelError System α → EStateM.Result KernelError System α → Prop where
  | ok (result : α) {x y : System} (alike : x.AlikeBut differ y) :
      AlikeBut differ (.ok result x) (.ok result y)
  | error (failure : KernelError) {x y : System} (alike : x.AlikeBut differ y) :
      AlikeBut differ (.error failure x) (.error failure y)

theorem System.AlikeBut.refl (differ : Nat → Prop) (x : System) : x.AlikeBut differ x :=
  ⟨rfl, rfl, fun _ _ => rfl⟩

theorem AlikeBut.refl {α : Type} (differ : Nat → Prop)
    (x : EStateM.Result KernelError System α) : AlikeBut differ x x := by
  cases x with
  | ok result s => exact .ok result (.refl differ s)
  | error failure s => exact .error failure (.refl differ s)

/-- Programs that go on alike after outcomes that are alike. -/
theorem AlikeBut.bind {α β : Type} {differ : Nat → Prop} {f g : Boot α} {k l : α → Boot β}
    {x y : System} (first : AlikeBut differ (f x) (g y))
    (rest : ∀ (result : α) (u v : System), u.AlikeBut differ v →
      AlikeBut differ (k result u) (l result v)) :
    AlikeBut differ ((f >>= k) x) ((g >>= l) y) := by
  show AlikeBut differ (EStateM.bind f k x) (EStateM.bind g l y)
  unfold EStateM.bind
  generalize f x = left at first ⊢
  generalize g y = right at first ⊢
  cases first with
  | ok result alike => exact rest result _ _ alike
  | error failure alike => exact .error failure alike

section Alike

variable {differ : Nat → Prop}

theorem byteAt_writeBlock_congr {m n : Memory} (address : UInt32) (bytes : List UInt8)
    (same : ∀ i : Fin memorySize, ¬ differ i → m.byteAt i = n.byteAt i)
    (i : Fin memorySize) (kept : ¬ differ i) :
    (m.writeBlock address bytes).byteAt i = (n.writeBlock address bytes).byteAt i := by
  induction bytes generalizing m n address with
  | nil => exact same i kept
  | cons byte rest ih =>
      refine ih (address + 1) fun k keeps => ?_
      rw [Memory.byteAt_poke, Memory.byteAt_poke, same k keeps]

theorem byteAt_lay_congr {m n : Memory} (segment : UInt16) (image : Image)
    (same : ∀ i : Fin memorySize, ¬ differ i → m.byteAt i = n.byteAt i)
    (i : Fin memorySize) (kept : ¬ differ i) :
    (m.lay segment image).byteAt i = (n.lay segment image).byteAt i := by
  induction image generalizing m n with
  | nil => exact same i kept
  | cons field rest ih =>
      exact ih fun k keeps => byteAt_writeBlock_congr _ field.bytes same k keeps

/-! ## The same steps -/

section Steps

variable {site : Site} {x y : System}

/-- **One step**: systems that are alike succeed or fail alike. -/
theorem perform_alike (step : BootStep) (alike : x.AlikeBut differ y) :
    AlikeBut differ (step.perform site x) (step.perform site y) := by
  obtain ⟨m, allocator, callbacks⟩ := x
  obtain ⟨n, _, _⟩ := y
  obtain ⟨rfl, rfl, memory⟩ := alike
  cases step with
  | reserve table =>
      by_cases enough : table.paragraphs.toNat + allocator.next.toNat < allocator.limit.toNat
      · rw [perform_reserve_of_room enough, perform_reserve_of_room enough]
        exact .ok () ⟨rfl, rfl, memory⟩
      · rw [perform_reserve_of_no_room enough, perform_reserve_of_no_room enough]
        exact .error _ ⟨rfl, rfl, memory⟩
  | lay place image =>
      exact .ok () ⟨rfl, rfl, byteAt_lay_congr (site.segment place) image memory⟩
  | install =>
      by_cases free : callbacks.nextFree < callbackSlots
      · rw [perform_install_of_free free, perform_install_of_free free]
        exact .ok () ⟨rfl, rfl, byteAt_writeBlock_congr _ _ memory⟩
      · rw [perform_install_of_full free, perform_install_of_full free]
        exact .error _ ⟨rfl, rfl, memory⟩

/-- **Every list of steps.** -/
theorem performAll_alike (steps : List BootStep) (alike : x.AlikeBut differ y) :
    AlikeBut differ (performAll site steps x) (performAll site steps y) := by
  induction steps generalizing x y with
  | nil => exact .ok () alike
  | cons step rest ih => exact (perform_alike step alike).bind fun _ _ _ still => ih still

end Steps

/-! ## Steps that differ in one image -/

section Images

variable {site : Site} {place : Place} {image other : Image}

/-- Two images make a difference only where they say different things. -/
theorem byteAt_lay_of_images (m : Memory) (segment : UInt16) (fits : image.FitsIn 0x10000)
    (otherFits : other.FitsIn 0x10000) (i : Fin memorySize)
    (same : ∀ k : Nat, i = 16 * segment.toNat + k → image.byteAt? k = other.byteAt? k) :
    (m.lay segment image).byteAt i = (m.lay segment other).byteAt i := by
  rw [Memory.byteAt_lay m segment image fits, Memory.byteAt_lay m segment other otherFits]
  by_cases inside : 16 * segment.toNat ≤ i
  · rw [same (i - 16 * segment.toNat) (by omega)]
  · rw [if_neg inside, if_neg inside]

/-- Steps that differ in one image leave systems that differ where the images do, and only if the
steps before it succeeded. -/
theorem performAll_alike_of_lay {early late : List BootStep} {s : System}
    (fits : image.FitsIn 0x10000) (otherFits : other.FitsIn 0x10000)
    (covered : ∀ now, performAll site early s = .ok () now → ∀ k : Nat,
      image.byteAt? k ≠ other.byteAt? k → differ (16 * (site.segment place).toNat + k)) :
    AlikeBut differ (performAll site (early ++ .lay place image :: late) s)
      (performAll site (early ++ .lay place other :: late) s) := by
  rw [performAll_append, performAll_append]
  cases outcome : performAll site early s with
  | error failure last =>
      rw [bind_of_error outcome, bind_of_error outcome]
      exact .refl _ _
  | ok _ now =>
      rw [bind_of_ok outcome, bind_of_ok outcome]
      refine performAll_alike late ⟨rfl, rfl, fun i kept => ?_⟩
      refine byteAt_lay_of_images now.memory (site.segment place) fits otherFits i fun k here => ?_
      by_cases same : image.byteAt? k = other.byteAt? k
      · exact same
      · exact absurd (here ▸ covered now outcome k same) kept

end Images

end Alike

/-! ## Sites that store in the same places -/

/-- The machines of the sites are both Japanese or both not, and everything starts at the same
place. -/
structure Site.SamePlaces (x y : Site) : Prop where
  japanese : x.japanese = y.japanese
  base : x.base = y.base
  nextFree : x.nextFree = y.nextFree

namespace Site.SamePlaces

variable {x y : Site}

theorem number (same : x.SamePlaces y) : x.number = y.number := by
  unfold Site.number
  rw [same.nextFree]

theorem segment (same : x.SamePlaces y) (place : Place) : x.segment place = y.segment place := by
  cases place with
  | table table =>
      simp only [Site.segment, same.base, same.japanese]
  | stub =>
      simp only [Site.segment, same.number]
  | _ => rfl

theorem tables (same : x.SamePlaces y) : x.tables = y.tables := by
  simp only [Site.tables, Site.pointer, Site.japaneseSegments, same.segment, same.number,
    same.japanese]

theorem link (same : x.SamePlaces y) (field : InfoBlock.PointerField) (place : Place) :
    BootStep.link x field place = BootStep.link y field place := by
  unfold BootStep.link
  rw [same.segment]

theorem driverPlan (same : x.SamePlaces y) : Kernel.driverPlan x = Kernel.driverPlan y := by
  simp only [Kernel.driverPlan, japanesePlan, same.japanese, same.segment, same.link]

theorem performAll (same : x.SamePlaces y) (steps : List BootStep) :
    Kernel.performAll x steps = Kernel.performAll y steps := by
  induction steps with
  | nil => rfl
  | cons step rest ih =>
      have first : step.perform x = step.perform y := by
        cases step with
        | lay place image => simp only [BootStep.perform, same.segment]
        | _ => rfl
      rw [Kernel.performAll, Kernel.performAll, first, ih]

/-- Sites with the same lead bytes differ in the country information. -/
theorem countryPlans (same : x.SamePlaces y) (leads : x.image .leadBytes = y.image .leadBytes) :
    ∃ before,
      bootPlan x = (before ++ [.reserve .country]) ++
        .lay (.table .country) (x.image (.table .country)) :: [.reserve .longNameArea] ∧
      bootPlan y = (before ++ [.reserve .country]) ++
        .lay (.table .country) (y.image (.table .country)) :: [.reserve .longNameArea] := by
  refine ⟨openingPlan ++ Kernel.driverPlan x ++ (closingPlan x).take 18, ?_, ?_⟩
  · simp only [List.append_assoc]
    rfl
  · have closing : (closingPlan x).take 18 = (closingPlan y).take 18 := by
      unfold Site.image at leads
      simp only [closingPlan, List.take, same.link, leads]
    rw [same.driverPlan, closing]
    simp only [List.append_assoc]
    rfl

/-- Sites with the same country information differ in the lead bytes. -/
theorem leadBytesPlans (same : x.SamePlaces y)
    (countries : x.image (.table .country) = y.image (.table .country)) :
    ∃ before after,
      bootPlan x = before ++ .lay .leadBytes (x.image .leadBytes) :: after ∧
      bootPlan y = before ++ .lay .leadBytes (y.image .leadBytes) :: after := by
  refine ⟨openingPlan ++ Kernel.driverPlan x ++ (closingPlan x).take 2, (closingPlan x).drop 3,
    ?_, ?_⟩
  · simp only [List.append_assoc]
    rfl
  · have early : (closingPlan x).take 2 = (closingPlan y).take 2 := by
      simp only [closingPlan, List.take, same.link]
    have late : (closingPlan x).drop 3 = (closingPlan y).drop 3 := by
      unfold Site.image at countries
      simp only [closingPlan, List.drop, same.link, countries]
    rw [same.driverPlan, early, late]
    simp only [List.append_assoc]
    rfl

end Site.SamePlaces

/-! ## Where an image says nothing -/

theorem byteAt?_word {offset value : UInt16} {k : Nat}
    (outside : k < offset.toNat ∨ offset.toNat + 2 ≤ k) :
    (Field.word offset value).byteAt? k = none := by
  have finish : (Field.word offset value).finish = offset.toNat + 2 := by
    simp only [Field.finish, Field.word, Machine.LittleEndian.length_encode]
  obtain before | past := outside
  · exact Field.byteAt?_of_lt before
  · exact Field.byteAt?_of_finish_le (finish ▸ past)

theorem country_fitsIn_segment (config : Config) (caseMap : FarPointer) :
    (Tables.country config caseMap).FitsIn 0x10000 :=
  fun field member => Nat.le_trans (Tables.country_fitsIn config caseMap field member) (by decide)

theorem leadBytes_fitsIn (site : Site) : (site.image .leadBytes).FitsIn 8 := by
  unfold Site.image
  dsimp only
  split <;> decide +kernel

theorem leadBytes_fitsIn_segment (site : Site) : (site.image .leadBytes).FitsIn 0x10000 :=
  fun field member => Nat.le_trans (leadBytes_fitsIn site field member) (by decide)

/-! ## The segment of the country information -/

/-- Booting hands this segment out for a table: everything before its request succeeds, and the
request does. -/
def HandsOut (config : Config) (s : System) (table : PrivateTable) (segment : UInt16) : Prop :=
  ∃ before rest now later, bootPlan (.of config s) = before ++ .reserve table :: rest ∧
    performAll (.of config s) before s = .ok () now ∧
    reserve table.paragraphs now = .ok segment later

/-- The addresses of these offsets of the country information; none if booting fails before it has a
segment. -/
def CountryBytes (config : Config) (s : System) (offsets : List Nat) (i : Nat) : Prop :=
  ∃ segment, HandsOut config s .country segment ∧ ∃ offset ∈ offsets, i = 16 * segment.toNat + offset

section Settings

variable {config other : Config} {s : System}

theorem handsOut_of_performed {before rest : List BootStep} {table : PrivateTable} {now : System}
    (plan : bootPlan (.of config s) = (before ++ [.reserve table]) ++ rest)
    (performed : performAll (.of config s) (before ++ [.reserve table]) s = .ok () now) :
    HandsOut config s table ((Site.of config s).segment (.table table)) := by
  have orderly := bootPlan_orderly (.of config s)
  rw [plan] at orderly
  obtain ⟨there, later, reaches, handed⟩ := handed_segment (orderly_append.1 orderly).1 performed
  refine ⟨before, rest, there, later, ?_, reaches, handed⟩
  rw [plan, List.append_assoc]
  rfl

/-- A table gets one segment. -/
theorem HandsOut.unique {table : PrivateTable} {segment second : UInt16}
    (first : HandsOut config s table segment) (again : HandsOut config s table second) :
    segment = second := by
  have known : ∀ segment, HandsOut config s table segment →
      segment = (Site.of config s).segment (.table table) := by
    rintro segment ⟨before, rest, now, later, plan, reaches, handed⟩
    have orderly := bootPlan_orderly (.of config s)
    rw [plan, List.append_cons] at orderly
    have performed : performAll (.of config s) (before ++ [.reserve table]) s = .ok () later := by
      rw [performAll_append, bind_of_ok reaches]
      exact bind_of_ok (bind_of_ok handed)
    obtain ⟨there, next, reachesThere, given⟩ :=
      handed_segment (orderly_append.1 orderly).1 performed
    rw [reaches] at reachesThere
    cases reachesThere
    rw [handed] at given
    cases given
    rfl
  rw [known segment first, known second again]

theorem handsOut_of_booted {tables : KernelTables} {final : System}
    (booted : setupTables config s = .ok tables final) :
    HandsOut config s .country tables.country := by
  obtain ⟨before, plan, -⟩ :=
    Site.SamePlaces.countryPlans (x := .of config s) (y := .of config s) ⟨rfl, rfl, rfl⟩ rfl
  cases outcome : performAll (.of config s) (bootPlan (.of config s)) s with
  | error failure last =>
      rw [setupTables_of_error outcome] at booted
      cases booted
  | ok _ last =>
      rw [setupTables_of_ok outcome] at booted
      cases booted
      rw [plan] at outcome
      obtain ⟨now, performed, -⟩ := performAll_append_ok outcome
      exact handsOut_of_performed plan performed

theorem samePlaces_of (s : System) (kind : config.model.isJapanese = other.model.isJapanese) :
    (Site.of config s).SamePlaces (.of other s) :=
  ⟨kind, rfl, rfl⟩

/-- Booting at sites that store in the same places is alike if performing the plans is. -/
theorem setupTables_alike {differ : Nat → Prop}
    (same : (Site.of config s).SamePlaces (.of other s))
    (performed : AlikeBut differ (performAll (.of config s) (bootPlan (.of config s)) s)
      (performAll (.of config s) (bootPlan (.of other s)) s)) :
    AlikeBut differ (setupTables config s) (setupTables other s) := by
  rw [setupTables_eq_plan, setupTables_eq_plan, ← same.performAll, ← same.tables]
  exact performed.bind fun _ _ _ alike => .ok _ alike

/-- Settings that show in the country information only. -/
theorem setupTables_alike_of_country (offsets : List Nat)
    (kind : config.model.isJapanese = other.model.isJapanese)
    (leads : (Site.of config s).image .leadBytes = (Site.of other s).image .leadBytes)
    (shown : ∀ caseMap k, k ∉ offsets →
      (Tables.country config caseMap).byteAt? k = (Tables.country other caseMap).byteAt? k) :
    AlikeBut (CountryBytes config s offsets) (setupTables config s) (setupTables other s) := by
  have same := samePlaces_of s kind
  obtain ⟨before, plan, otherPlan⟩ := same.countryPlans leads
  apply setupTables_alike same
  rw [plan, otherPlan]
  refine performAll_alike_of_lay (country_fitsIn_segment config _) (country_fitsIn_segment other _)
    fun now performed k different => ?_
  refine ⟨_, handsOut_of_performed plan performed, k, ?_, rfl⟩
  by_cases listed : k ∈ offsets
  · exact listed
  · exact absurd (shown _ k listed) different

/-- Settings that show in the lead bytes only. -/
theorem setupTables_alike_of_leadBytes
    (kind : config.model.isJapanese = other.model.isJapanese)
    (countries : (Site.of config s).image (.table .country) =
      (Site.of other s).image (.table .country)) :
    AlikeBut (fun i => 0x1570 ≤ i ∧ i < 0x1578) (setupTables config s) (setupTables other s) := by
  have same := samePlaces_of s kind
  obtain ⟨before, after, plan, otherPlan⟩ := same.leadBytesPlans countries
  apply setupTables_alike same
  rw [plan, otherPlan]
  refine performAll_alike_of_lay (leadBytes_fitsIn_segment _) (leadBytes_fitsIn_segment _)
    fun _ _ k different => ?_
  have start : 16 * ((Site.of config s).segment .leadBytes).toNat = 0x1570 := rfl
  have short : k < 8 := Nat.lt_of_not_le fun past => different (by
    rw [byteAt?_of_fitsIn (leadBytes_fitsIn _) past, byteAt?_of_fitsIn (leadBytes_fitsIn _) past])
  omega

/-- Settings that do not show. -/
theorem setupTables_eq (kind : config.model.isJapanese = other.model.isJapanese)
    (leads : (Site.of config s).image .leadBytes = (Site.of other s).image .leadBytes)
    (countries : (Site.of config s).image (.table .country) =
      (Site.of other s).image (.table .country)) :
    setupTables config s = setupTables other s := by
  have same := samePlaces_of s kind
  obtain ⟨before, plan, otherPlan⟩ := same.countryPlans leads
  have samePlan : bootPlan (.of config s) = bootPlan (.of other s) := by
    rw [plan, otherPlan, countries]
  rw [setupTables_eq_plan, setupTables_eq_plan, samePlan, same.performAll, same.tables]

end Settings

/-! ## What the settings can change -/

/-- What the settings can change in the outcome of booting a system: the result, the failure, the
cursor of private memory and the callbacks never, and these bytes. -/
structure Influences (s : System) : Prop where
  codePage : ∀ model setAx page page',
    AlikeBut (CountryBytes ⟨model, setAx, page⟩ s [5, 6])
      (setupTables ⟨model, setAx, page⟩ s) (setupTables ⟨model, setAx, page'⟩ s)
  setAx : ∀ model setAx setAx' page,
    AlikeBut (fun i => 0x1570 ≤ i ∧ i < 0x1578)
      (setupTables ⟨model, setAx, page⟩ s) (setupTables ⟨model, setAx', page⟩ s)
  setAxJapanese : ∀ model setAx setAx' page, model = .j3100 ∨ model = .dosV →
    setupTables ⟨model, setAx, page⟩ s = setupTables ⟨model, setAx', page⟩ s
  japanese : ∀ setAx page,
    setupTables ⟨.j3100, setAx, page⟩ s = setupTables ⟨.dosV, setAx, page⟩ s
  plain : ∀ setAx page,
    AlikeBut (CountryBytes ⟨.ibm, setAx, page⟩ s [3, 4, 7, 8, 9, 0x17, 0x18])
      (setupTables ⟨.ibm, setAx, page⟩ s) (setupTables ⟨.ax, setAx, page⟩ s)
  /-- Where booting succeeds, the segment of the country information is the one that it reports. -/
  country : ∀ config tables final, setupTables config s = .ok tables final →
    ∀ segment, HandsOut config s .country segment ↔ segment = tables.country

/-- **What a setting can change**, from every system, whether booting it succeeds or fails. -/
theorem setupTables_influences (s : System) : Influences s where
  codePage := fun model setAx page page' => by
    refine setupTables_alike_of_country [5, 6] rfl rfl fun caseMap k outside => ?_
    simp only [List.mem_cons, List.not_mem_nil, or_false, not_or] at outside
    have silent : ∀ value, (Field.word 0x05 value).byteAt? k = none :=
      fun value => byteAt?_word (by simp only [UInt16.reduceToNat]; omega)
    simp only [Tables.country, Image.byteAt?_append, Image.byteAt?, silent]
  setAx := fun model setAx setAx' page => setupTables_alike_of_leadBytes rfl rfl
  setAxJapanese := fun model setAx setAx' page japanese => by
    refine setupTables_eq rfl ?_ rfl
    obtain rfl | rfl := japanese
    · simp only [Site.image, Site.japanese, Site.of, MachineModel.isJapanese, Bool.or_true]
    · simp only [Site.image, Site.japanese, Site.of, MachineModel.isJapanese, Bool.or_true]
  japanese := fun setAx page => setupTables_eq rfl rfl rfl
  plain := fun setAx page => by
    refine setupTables_alike_of_country _ rfl rfl fun caseMap k outside => ?_
    simp only [List.mem_cons, List.not_mem_nil, or_false, not_or] at outside
    have silent : ∀ value, (Field.word 0x03 value).byteAt? k = none :=
      fun value => byteAt?_word (by simp only [UInt16.reduceToNat]; omega)
    have silentAx : Image.byteAt? Tables.axCountryFields k = none := by
      apply byteAt?_of_outside
      intro field member
      simp only [Tables.axCountryFields, List.mem_cons, List.not_mem_nil, or_false] at member
      obtain rfl | rfl | rfl | rfl := member <;>
        simp only [Field.finish, Field.word, Field.byte, UInt16.reduceToNat,
          Machine.LittleEndian.length_encode, List.length_singleton] <;> omega
    simp only [Tables.country, MachineModel.isAxFamily, Image.byteAt?_append, Image.byteAt?, silent,
      silentAx, if_true, if_false, Bool.false_eq_true, List.append_nil, Option.none_or]
  country := fun config tables final booted segment => by
    constructor
    · exact fun handed => handed.unique (handsOut_of_booted booted)
    · rintro rfl
      exact handsOut_of_booted booted

end GuestDos.Kernel
