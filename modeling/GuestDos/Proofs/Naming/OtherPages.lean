/-
# GuestDos.Proofs.Naming.OtherPages -- the same host names under other code pages

A page has a say in the naming of files through two questions only: how wide a character is, and
whether it can be encoded.  Pages that answer both alike for the characters of a host name
(`AgreeOn`) make the same of it, although it is the conversion that they measure: it has nothing but
characters of the host name in upper case, and some that every page sees alike.  Up to U+00FF all
pages see all characters alike, so that a run over such host names is the same whatever page each of
its steps uses.

* `isLegal_congr`, `convert_congr`, `isTruncated_congr` -- what pages that agree make of a host name.
* `Step`, `ShortNames.perform` -- claims, requests and checks, with their answers.
* `performAll_congr` -- runs whose steps differ in pages that agree.
* `performAll_any_page` -- runs over host names up to U+00FF.
-/
import Mathlib.Data.List.Forall2
import GuestDos.Proofs.Naming.Calls
import GuestDos.Proofs.Naming.Grammar

namespace GuestDos.Naming

set_option autoImplicit false

variable {page other : CodePage} {text name : Text}

/-! ## One host name -/

theorem isLegal_congr (agree : AgreeOn page other name) : isLegal page name = isLegal other name := by
  rw [Bool.eq_iff_iff]
  exact ⟨agree.isLegal, agree.symm.isLegal⟩

theorem convertText_congr (agree : AgreeOn page other name) :
    convertText page name = convertText other name := by
  apply List.map_congr_left
  intro c kept
  simp only [convertChar, agree.canEncode c (mem_of_mem_kept kept)]

/-- The conversion is as wide, character by character: upper case keeps the width, and an underscore
takes one place under every page. -/
theorem width_fullParts_congr (agree : AgreeOn page other name) :
    ∀ c ∈ (fullParts (convertText page name)).title ++ (fullParts (convertText page name)).extension,
      page.width c = other.width c := by
  have underscore : page.width '_' = other.width '_' := by
    rw [page.width_of_le_ff (by decide), other.width_of_le_ff (by decide)]
  intro c member
  rcases mem_of_mem_fullParts member with rfl | converted
  · exact underscore
  · obtain ⟨source, inName, rfl⟩ := exists_of_mem_convertText converted
    unfold convertChar
    split
    · exact underscore
    · rw [width_toUpper, width_toUpper, agree.width source inName]

theorem truncate_congr {places : Nat} (same : ∀ c ∈ text, page.width c = other.width c) :
    truncate page places text = truncate other places text := by
  induction text generalizing places with
  | nil => rfl
  | cons c rest ih =>
      simp only [truncate, same c List.mem_cons_self,
        ih fun d member => same d (List.mem_cons_of_mem c member)]

/-- The title and the extension of a conversion are cut at the same places. -/
theorem truncate_fullParts_congr (agree : AgreeOn page other name) (places : Nat) :
    truncate page places (fullParts (convertText page name)).title =
        truncate other places (fullParts (convertText page name)).title ∧
      truncate page places (fullParts (convertText page name)).extension =
        truncate other places (fullParts (convertText page name)).extension := by
  have same := width_fullParts_congr agree
  exact ⟨truncate_congr fun c member => same c (List.mem_append_left _ member),
    truncate_congr fun c member => same c (List.mem_append_right _ member)⟩

theorem convert_congr (agree : AgreeOn page other name) (tail : Option Nat) :
    ShortName.convert page tail name = ShortName.convert other tail name := by
  simp only [ShortName.convert, ← convertText_congr agree, truncate_fullParts_congr agree]

theorem isTruncated_congr (agree : AgreeOn page other name) :
    isTruncated page name = isTruncated other name := by
  simp only [isTruncated, ← convertText_congr agree, truncate_fullParts_congr agree]

namespace ShortNames

/-! ## Single steps -/

/-- What is made up for a host name that has no short name. -/
theorem freshAlias_congr (names : ShortNames) (agree : AgreeOn page other name) :
    names.freshAlias page name = names.freshAlias other name := by
  simp only [freshAlias, convert_congr agree, isTruncated_congr agree]

theorem reserve_congr (names : ShortNames) (agree : AgreeOn page other name) :
    names.reserve page name = names.reserve other name := by
  simp only [reserve, isLegal_congr agree]

theorem assign_congr (names : ShortNames) (agree : AgreeOn page other name) :
    names.assign page name = names.assign other name := by
  simp only [assign, reserve_congr names agree, freshAlias_congr names agree]

/-- What can be asked about a host name. -/
inductive Question where
  /-- Whether it may have itself for a short name, which it then has. -/
  | reserve
  /-- Which short name it has. -/
  | assign
  /-- Whether it is legal. -/
  | isLegal
deriving DecidableEq, Repr

/-- A question about a host name, under a page of its own. -/
structure Step where
  question : Question
  host : Text
  page : CodePage
deriving DecidableEq, Repr

/-- The answer to a question. -/
inductive Reply where
  | verdict (holds : Bool)
  | shortName (short : Text)
deriving DecidableEq, Repr

/-- The answer of one step, and the short names after it. -/
def perform (names : ShortNames) (step : Step) : Reply × ShortNames :=
  match step.question with
  | .reserve => ((names.reserve step.page step.host).map .verdict id)
  | .assign => ((names.assign step.page step.host).map .shortName id)
  | .isLegal => (.verdict (isLegal step.page step.host), names)

/-- The answers of some steps, one after the other, and the short names after the last one. -/
def performAll (names : ShortNames) : List Step → List Reply × ShortNames
  | [] => ([], names)
  | step :: rest =>
      let (reply, names) := names.perform step
      let (replies, names) := names.performAll rest
      (reply :: replies, names)

/-- Two steps ask the same, perhaps under different pages. -/
def Step.AsksSame (step other : Step) : Prop :=
  step.question = other.question ∧ step.host = other.host

instance (step other : Step) : Decidable (step.AsksSame other) :=
  inferInstanceAs (Decidable (_ ∧ _))

theorem perform_congr (names : ShortNames) {step other : Step} (same : step.AsksSame other)
    (agree : AgreeOn step.page other.page step.host) : names.perform step = names.perform other := by
  obtain ⟨question, host, page⟩ := step
  obtain ⟨otherQuestion, otherHost, otherPage⟩ := other
  obtain ⟨rfl, rfl⟩ := same
  cases question with
  | reserve => simp only [perform, reserve_congr names agree]
  | assign => simp only [perform, assign_congr names agree]
  | isLegal => simp only [perform, isLegal_congr agree]

/-! ## Runs -/

/-- **Pages that agree on every host name of a run** give the same run: one differing answer would
change the short names, and with them every later alias. -/
theorem performAll_congr (names : ShortNames) {steps others : List Step}
    (same : List.Forall₂ (fun step other =>
      step.AsksSame other ∧ AgreeOn step.page other.page step.host) steps others) :
    names.performAll steps = names.performAll others := by
  induction same generalizing names with
  | nil => rfl
  | cons first _ ih => simp only [performAll, perform_congr names first.1 first.2, ih]

/-- **The code page does not matter up to U+00FF.**  Two runs ask the same questions about the same
host names, with no character above U+00FF, from the same short names on.  Whatever page each step of
either run uses, they get the same answers and end with the same short names. -/
theorem performAll_any_page (names : ShortNames) {steps others : List Step}
    (same : List.Forall₂ Step.AsksSame steps others)
    (latin : ∀ step ∈ steps, ∀ c ∈ step.host, c.toNat ≤ 0xff) :
    names.performAll steps = names.performAll others := by
  apply names.performAll_congr
  rw [List.forall₂_iff_zip] at same ⊢
  refine ⟨same.1, fun {step other} pair => ⟨same.2 pair, ?_⟩⟩
  exact agreeOn_of_latin _ _ (latin step (List.of_mem_zip pair).1)

/-- Above U+00FF it does: only page 932 can encode such a letter. -/
example : (empty.performAll [⟨.isLegal, "Ā".toList, .western⟩]).1 = [.verdict false] ∧
    (empty.performAll [⟨.isLegal, "Ā".toList, ⟨932⟩⟩]).1 = [.verdict true] := by
  decide +kernel

/-- Twins up to ASCII case, letters with marks, a refused claim and a check in between, each step
under one of two pages. -/
def markedSteps (first second : CodePage) : List Step :=
  [⟨.reserve, "été.txt".toList, first⟩, ⟨.assign, "ÿ résumé [1].docx".toList, second⟩,
    ⟨.isLegal, "naïf".toList, first⟩, ⟨.reserve, "éTé.TXT".toList, second⟩,
    ⟨.assign, "éTé.TXT".toList, first⟩]

theorem markedSteps_any_page :
    let steps := markedSteps ⟨932⟩ ⟨850⟩
    let others := markedSteps .western ⟨932⟩
    List.Forall₂ Step.AsksSame steps others ∧
      (∀ step ∈ steps, ∀ c ∈ step.host, c.toNat ≤ 0xff) ∧
      (empty.performAll steps).1 =
        [.verdict true, .shortName "ÿRéSUM~1.DOC".toList, .verdict true, .verdict false,
          .shortName "éTé~1.TXT".toList] ∧
      empty.performAll steps = empty.performAll others := by
  intro steps others
  have same : List.Forall₂ Step.AsksSame steps others := by decide
  have latin : ∀ step ∈ steps, ∀ c ∈ step.host, c.toNat ≤ 0xff := by
    have all : steps.all (fun step => step.host.all (·.toNat ≤ 0xff)) = true := by decide +kernel
    simpa only [List.all_eq_true, decide_eq_true_eq] using all
  exact ⟨same, latin, by decide +kernel, performAll_any_page empty same latin⟩

end ShortNames

end GuestDos.Naming
