/-
# GuestDos.Proofs.Naming.Legality -- which names are legal, and that made-up names are

`isLegal` scans a name from left to right; `isLegal_iff` says what it looks for: a title without
dots, and behind the first dot an extension without dots, each within its places.  Every conversion
meets it as long as its tail leaves the title within eight places, and a name that meets it already
loses nothing by conversion.

* `scanPart?_eq_some` -- what the scan of one part finds.
* `isLegal_iff`, `exists_legalParts` -- the two parts of a legal name.
* `length_le_of_isLegal` -- at most twelve characters.
* `isLegal_convert` -- an alias is legal, whatever the host name was.
* `isTruncated_of_isLegal` -- a legal name is not cut.
-/
import GuestDos.Proofs.Naming.Conversion

namespace GuestDos.Naming

set_option autoImplicit false

/-! ## The parts of a legal name -/

/-- **What the scan of a part finds**: legal characters up to the first dot or the end, and the places
that they take. -/
theorem scanPart?_eq_some {page : CodePage} {places width : Nat} {text left : Text} :
    scanPart? page places text = some (width, left) ↔
      ∃ part, text = part ++ left ∧ '.' ∉ part ∧ (∀ c ∈ part, isIllegalChar c = false) ∧
        width = places + page.textWidth part ∧ (left = [] ∨ ∃ behind, left = '.' :: behind) := by
  constructor
  · intro scanned
    induction text generalizing places with
    | nil =>
        cases scanned
        exact ⟨[], by simp [CodePage.textWidth]⟩
    | cons c rest ih =>
        unfold scanPart? at scanned
        split at scanned
        · rename_i dot
          cases scanned
          exact ⟨[], by simpa [CodePage.textWidth] using dot⟩
        · rename_i other
          split at scanned
          · cases scanned
          · rename_i legal
            obtain ⟨part, rfl, dotless, clear, rfl, stop⟩ := ih scanned
            refine ⟨c :: part, rfl, ?_, ?_, ?_, stop⟩
            · rw [List.mem_cons, not_or]
              exact ⟨fun dot => other (beq_iff_eq.2 dot.symm), dotless⟩
            · simpa [legal] using clear
            · simp [CodePage.textWidth, Nat.add_assoc]
  · rintro ⟨part, rfl, dotless, clear, rfl, stop⟩
    induction part generalizing places with
    | nil =>
        rcases stop with rfl | ⟨behind, rfl⟩ <;> simp [scanPart?, CodePage.textWidth]
    | cons c rest ih =>
        simp only [List.mem_cons, not_or, forall_eq_or_imp] at dotless clear
        have other : c ≠ '.' := Ne.symm dotless.1
        simp [scanPart?, other, clear.1, ih dotless.2 clear.2, CodePage.textWidth, Nat.add_assoc]

/-- Whether a title or an extension has only legal characters and fits its places. -/
def fitsLegally (page : CodePage) (places : Nat) (part : Text) : Bool :=
  part.all (!isIllegalChar ·) && page.textWidth part ≤ places

theorem fitsLegally_iff {page : CodePage} {places : Nat} {part : Text} :
    fitsLegally page places part = true ↔
      (∀ c ∈ part, isIllegalChar c = false) ∧ page.textWidth part ≤ places := by
  simp [fitsLegally]

/-- **The parts of a legal name.** -/
theorem isLegal_iff {page : CodePage} {name : Text} :
    isLegal page name = true ↔
      name ≠ [] ∧ page.encodes name = true ∧
        ∃ title, '.' ∉ title ∧ fitsLegally page titleWidth title = true ∧
          (name = title ∨ ∃ extension, name = title ++ '.' :: extension ∧ '.' ∉ extension ∧
            fitsLegally page extensionWidth extension = true) := by
  constructor
  · intro legal
    simp only [isLegal, Bool.and_eq_true, Bool.not_eq_true', List.isEmpty_eq_false_iff,
      Option.any_eq_true, decide_eq_true_eq, List.isEmpty_iff] at legal
    obtain ⟨⟨nonempty, encoded⟩, ⟨titlePlaces, behind⟩, titleScanned, titleFits,
      ⟨extensionPlaces, left⟩, extensionScanned, extensionFits, rfl⟩ := legal
    obtain ⟨title, rfl, titleDotless, titleLegal, rfl, stop⟩ := scanPart?_eq_some.1 titleScanned
    rw [Nat.zero_add] at titleFits
    refine ⟨nonempty, encoded, title, titleDotless, fitsLegally_iff.2 ⟨titleLegal, titleFits⟩, ?_⟩
    rcases stop with rfl | ⟨rest, rfl⟩
    · exact .inl (List.append_nil title)
    · obtain ⟨extension, whole, dotless, extensionLegal, rfl, -⟩ :=
        scanPart?_eq_some.1 extensionScanned
      rw [List.drop_one, List.tail_cons, List.append_nil] at whole
      rw [Nat.zero_add] at extensionFits
      subst whole
      exact .inr ⟨rest, rfl, dotless, fitsLegally_iff.2 ⟨extensionLegal, extensionFits⟩⟩
  · rintro ⟨nonempty, encoded, title, titleDotless, titleFits, parts⟩
    obtain ⟨titleLegal, titlePlaces⟩ := fitsLegally_iff.1 titleFits
    have scanned : ∀ left, (left = [] ∨ ∃ behind, left = '.' :: behind) →
        scanPart? page 0 (title ++ left) = some (page.textWidth title, left) := fun left stop =>
      scanPart?_eq_some.2 ⟨title, rfl, titleDotless, titleLegal, (Nat.zero_add _).symm, stop⟩
    rcases parts with rfl | ⟨extension, rfl, dotless, fits⟩
    · have titleScanned := scanned [] (.inl rfl)
      rw [List.append_nil] at titleScanned
      simp [isLegal, nonempty, encoded, titleScanned, titlePlaces, scanPart?]
    · obtain ⟨extensionLegal, extensionPlaces⟩ := fitsLegally_iff.1 fits
      have titleScanned := scanned ('.' :: extension) (.inr ⟨extension, rfl⟩)
      have extensionScanned : scanPart? page 0 extension = some (page.textWidth extension, []) :=
        scanPart?_eq_some.2 ⟨extension, (List.append_nil extension).symm, dotless, extensionLegal,
          (Nat.zero_add _).symm, .inl rfl⟩
      simp [isLegal, encoded, titleScanned, titlePlaces, extensionScanned, extensionPlaces]

/-- Eight characters, a dot and three more. -/
theorem length_le_of_isLegal {page : CodePage} {name : Text} (legal : isLegal page name = true) :
    name.length ≤ 12 := by
  obtain ⟨-, -, title, -, titleFits, parts⟩ := isLegal_iff.1 legal
  have titleLength := page.length_le_textWidth title
  have titlePlaces : page.textWidth title ≤ 8 := (fitsLegally_iff.1 titleFits).2
  rcases parts with rfl | ⟨extension, rfl, -, fits⟩
  · omega
  · have extensionLength := page.length_le_textWidth extension
    have extensionPlaces : page.textWidth extension ≤ 3 := (fitsLegally_iff.1 fits).2
    rw [List.length_append, List.length_cons]
    omega

/-! ## Aliases -/

/-- A presentable name within its places is legal. -/
theorem Presentable.isLegal {page : CodePage} {name : ShortName} (presentable : Presentable page name)
    (nonempty : name.title ≠ []) (title : page.textWidth name.title ≤ titleWidth)
    (extension : page.textWidth name.extension ≤ extensionWidth) :
    isLegal page name.text = true := by
  obtain ⟨shown, titleDotless, extensionDotless⟩ := presentable
  have titleFits : fitsLegally page titleWidth name.title = true :=
    fitsLegally_iff.2 ⟨fun c member => (shown c (List.mem_append_left _ member)).legal, title⟩
  have extensionFits : fitsLegally page extensionWidth name.extension = true :=
    fitsLegally_iff.2 ⟨fun c member => (shown c (List.mem_append_right _ member)).legal, extension⟩
  have encoded : ∀ c ∈ name.title ++ '.' :: name.extension, page.canEncode c = true := by
    intro c member
    rcases List.mem_append.1 member with inTitle | rest
    · exact (shown c (List.mem_append_left _ inTitle)).encoded
    · rcases List.mem_cons.1 rest with rfl | inExtension
      · exact page.canEncode_of_le_ff (by decide)
      · exact (shown c (List.mem_append_right _ inExtension)).encoded
  rw [isLegal_iff]
  unfold ShortName.text
  split
  · refine ⟨nonempty, List.all_eq_true.2 fun c member => ?_, name.title, titleDotless, titleFits,
      .inl rfl⟩
    exact encoded c (List.mem_append_left _ member)
  · exact ⟨by simp, List.all_eq_true.2 encoded, name.title, titleDotless, titleFits,
      .inr ⟨name.extension, rfl, extensionDotless, extensionFits⟩⟩

/-- Every character of a tail takes one place. -/
theorem textWidth_tailText (page : CodePage) (tail : Option Nat) :
    page.textWidth (tailText tail) = (tailText tail).length := by
  have digits : ∀ text : Text, (∀ c ∈ text, c.isDigit = true) →
      page.textWidth text = text.length := by
    intro text allDigits
    induction text with
    | nil => rfl
    | cons c rest ih =>
        have bounds := Char.isDigit_iff_toNat.1 (allDigits c List.mem_cons_self)
        have high : c.toNat ≤ 57 := bounds.2
        have single := page.width_of_le_ff (c := c) (by omega)
        rw [CodePage.textWidth, single, ih fun d member => allDigits d (List.mem_cons_of_mem _ member),
          List.length_cons, Nat.add_comm]
  cases tail with
  | none => rfl
  | some n =>
      have number := digits (Nat.toDigits 10 n) fun c member =>
        Nat.isDigit_of_mem_toDigits (by decide) (by decide) member
      have tilde : page.width '~' = 1 := page.width_of_le_ff (by decide)
      rw [tailText, CodePage.textWidth, number, tilde, List.length_cons, Nat.add_comm]

theorem width_le_two (page : CodePage) (c : Char) : page.width c ≤ 2 := by
  unfold CodePage.width
  split <;> omega

theorem title_fullParts_ne_nil (text : Text) : (fullParts text).title ≠ [] := by
  unfold fullParts
  show (if _ then ['_'] else _) ≠ []
  split
  · exact List.cons_ne_nil _ _
  · rename_i some_
    exact fun none_ => some_ (List.isEmpty_iff.2 none_)

/-- Where two places are left, something of a text is kept. -/
theorem truncate_ne_nil {page : CodePage} {places : Nat} {text : Text} (enough : 2 ≤ places)
    (nonempty : text ≠ []) : truncate page places text ≠ [] := by
  cases text with
  | nil => exact absurd rfl nonempty
  | cons c rest =>
      have width := width_le_two page c
      rw [truncate, if_pos (by omega)]
      exact List.cons_ne_nil _ _

/-- **A conversion is legal**, whatever the host name was, as long as its tail fits the title. -/
theorem isLegal_convert (page : CodePage) {tail : Option Nat} (name : Text)
    (fits : (tailText tail).length ≤ titleWidth) :
    isLegal page (ShortName.convert page tail name).text = true := by
  refine (presentable_convert page tail name).isLegal ?_ ?_ ?_
  · intro empty
    obtain ⟨kept, ending⟩ := List.append_eq_nil_iff.1 empty
    have plain : (tailText tail).length = 0 := by rw [ending]; rfl
    exact truncate_ne_nil (by rw [plain]; decide) (title_fullParts_ne_nil _) kept
  · have kept := textWidth_truncate_le page (titleWidth - (tailText tail).length)
      (fullParts (convertText page name)).title
    show page.textWidth (truncate page _ _ ++ tailText tail) ≤ titleWidth
    rw [CodePage.textWidth_append, textWidth_tailText]
    omega
  · exact textWidth_truncate_le page extensionWidth _

/-! ## Legal names are not cut -/

theorem splitLastDot?_of_dotless {text : Text} (dotless : '.' ∉ text) :
    splitLastDot? text = none := by
  cases split : splitLastDot? text with
  | none => rfl
  | some parts =>
      obtain ⟨joined, -⟩ := splitLastDot?_eq_some split
      exact absurd (joined ▸ by simp) dotless

theorem splitLastDot?_append {front back : Text} (dotless : '.' ∉ back) :
    splitLastDot? (front ++ '.' :: back) = some (front, back) := by
  cases split : splitLastDot? (front ++ '.' :: back) with
  | none => exact absurd (by simp) (splitLastDot?_eq_none split)
  | some parts =>
      obtain ⟨joined, absent⟩ := splitLastDot?_eq_some split
      have behind := eq_of_append_cons_eq joined dotless absent
      rw [← behind] at joined
      rw [List.append_cancel_right joined, behind]

/-- A title without dots and what is behind the dot come out as they are. -/
theorem fullParts_eq {title : Text} (nonempty : title ≠ []) (dotless : '.' ∉ title) :
    fullParts title = ⟨title, []⟩ ∧
      ∀ extension : Text, '.' ∉ extension →
        fullParts (title ++ '.' :: extension) = ⟨title, extension⟩ := by
  have kept : title.filter (· != '.') = title := by
    rw [List.filter_eq_self]
    intro c member
    simpa using fun dot : c = '.' => dotless (dot ▸ member)
  constructor
  · simp [fullParts, splitLastDot?_of_dotless dotless, kept, nonempty]
  · intro extension absent
    simp [fullParts, splitLastDot?_append absent, kept, nonempty]

/-- What conversion makes of a character that may stand in a legal name. -/
theorem convertChar_of_legal {page : CodePage} {c : Char} (legal : isIllegalChar c = false)
    (encoded : page.canEncode c = true) :
    page.width (convertChar page c) = page.width c ∧ (convertChar page c = '.' → c = '.') := by
  unfold convertChar
  split
  · rename_i replaced
    simp only [legal, encoded, Bool.not_true, Bool.false_or, Bool.or_eq_true, beq_iff_eq] at replaced
    have latin : c.toNat ≤ 0xff := by rcases replaced with rfl | rfl <;> decide
    refine ⟨?_, fun dot => absurd dot (by decide)⟩
    rw [page.width_of_le_ff latin, page.width_of_le_ff (by decide)]
  · exact ⟨width_toUpper page c, toUpper_eq_dot.1⟩

/-- What fits as it is needs no cut. -/
theorem isTruncated_of_fits {page : CodePage} {name : Text} {parts : ShortName}
    (converted : fullParts (convertText page name) = parts)
    (title : page.textWidth parts.title ≤ titleWidth)
    (extension : page.textWidth parts.extension ≤ extensionWidth) :
    isTruncated page name = false := by
  simp [isTruncated, converted, truncate_eq_self title, truncate_eq_self extension]

/-- The title or the extension of a legal name. -/
structure LegalPart (page : CodePage) (part : Text) : Prop where
  legal : ∀ c ∈ part, isIllegalChar c = false
  encoded : ∀ c ∈ part, page.canEncode c = true
  dotless : '.' ∉ part

/-- A legal name is a title within its places, or a title and an extension within theirs. -/
theorem exists_legalParts {page : CodePage} {name : Text} (legal : isLegal page name = true) :
    ∃ title, LegalPart page title ∧ page.textWidth title ≤ titleWidth ∧
      (name = title ∨ ∃ extension, name = title ++ '.' :: extension ∧ LegalPart page extension ∧
        page.textWidth extension ≤ extensionWidth) := by
  obtain ⟨-, encoded, title, titleDotless, titleFits, parts⟩ := isLegal_iff.1 legal
  obtain ⟨titleLegal, titlePlaces⟩ := fitsLegally_iff.1 titleFits
  have characters : ∀ c ∈ name, page.canEncode c = true := List.all_eq_true.1 encoded
  rcases parts with rfl | ⟨extension, rfl, extensionDotless, extensionFits⟩
  · exact ⟨name, ⟨titleLegal, characters, titleDotless⟩, titlePlaces, .inl rfl⟩
  · obtain ⟨extensionLegal, extensionPlaces⟩ := fitsLegally_iff.1 extensionFits
    have front : LegalPart page title :=
      ⟨titleLegal, fun c member => characters c (List.mem_append_left _ member), titleDotless⟩
    have back : LegalPart page extension :=
      ⟨extensionLegal,
        fun c member => characters c (List.mem_append_right _ (List.mem_cons_of_mem _ member)),
        extensionDotless⟩
    exact ⟨title, front, titlePlaces, .inr ⟨extension, rfl, back, extensionPlaces⟩⟩

theorem legalPart_nil (page : CodePage) : LegalPart page [] :=
  ⟨by simp, by simp, by simp⟩

/-- What the guest reads in a legal name. -/
theorem legalPart_ofText {page : CodePage} {name : Text} (legal : isLegal page name = true) :
    LegalPart page (ShortName.ofText name).title ∧
      LegalPart page (ShortName.ofText name).extension := by
  obtain ⟨title, front, -, rfl | ⟨extension, rfl, back, -⟩⟩ := exists_legalParts legal
  · rw [ShortName.ofText_dotless front.dotless]
    exact ⟨front, legalPart_nil page⟩
  · rw [ShortName.ofText_append front.dotless]
    exact ⟨front, back⟩

namespace LegalPart

variable {page : CodePage} {part : Text}

/-- Conversion keeps the width of a part and makes no dots. -/
theorem map_convertChar (h : LegalPart page part) :
    page.textWidth (part.map (convertChar page)) = page.textWidth part ∧
      '.' ∉ part.map (convertChar page) := by
  obtain ⟨legal, encoded, dotless⟩ := h
  induction part with
  | nil => exact ⟨rfl, List.not_mem_nil⟩
  | cons c rest ih =>
      obtain ⟨restWidth, restDotless⟩ := ih (fun d member => legal d (List.mem_cons_of_mem _ member))
        (fun d member => encoded d (List.mem_cons_of_mem _ member))
        (fun member => dotless (List.mem_cons_of_mem _ member))
      obtain ⟨width, dot⟩ :=
        convertChar_of_legal (legal c List.mem_cons_self) (encoded c List.mem_cons_self)
      refine ⟨by simp only [List.map_cons, CodePage.textWidth, width, restWidth], ?_⟩
      intro member
      rcases List.mem_cons.1 member with first | later
      · exact dotless (dot first.symm ▸ List.mem_cons_self)
      · exact restDotless later

/-- There are no spaces to drop. -/
theorem filter_space (h : LegalPart page part) : part.filter (· != ' ') = part := by
  rw [List.filter_eq_self]
  intro c member
  have space : c ≠ ' ' := by
    rintro rfl
    exact absurd (h.legal _ member) (by decide)
  simpa using space

/-- There are no dots to drop in front of a title, nor of what follows it. -/
theorem dropWhile_dot (h : LegalPart page part) (nonempty : part ≠ []) (rest : Text) :
    (part ++ rest).dropWhile (· == '.') = part ++ rest := by
  obtain ⟨c, others, rfl⟩ := List.exists_cons_of_ne_nil nonempty
  have other : c ≠ '.' := fun dot => h.dotless (dot ▸ List.mem_cons_self)
  simp [other]

theorem convertText_eq (h : LegalPart page part) :
    convertText page part = part.map (convertChar page) := by
  cases part with
  | nil => rfl
  | cons c rest =>
      have start := h.dropWhile_dot (List.cons_ne_nil c rest) []
      rw [List.append_nil] at start
      rw [convertText, start, h.filter_space]

/-- A name that is converted like a single part within the places of a title is not cut. -/
theorem isTruncated_eq (h : LegalPart page part) (fits : page.textWidth part ≤ titleWidth)
    {name : Text} (converted : convertText page name = convertText page part) :
    isTruncated page name = false := by
  obtain ⟨width, clean⟩ := h.map_convertChar
  by_cases nothing : part = []
  · subst nothing
    refine isTruncated_of_fits (congrArg fullParts converted) ?_ (Nat.zero_le _)
    show page.width '_' + 0 ≤ titleWidth
    have underscore : page.width '_' = 1 := page.width_of_le_ff (by decide)
    rw [underscore]
    decide
  · rw [h.convertText_eq] at converted
    have parts := (fullParts_eq (by simpa using nothing) clean).1
    refine isTruncated_of_fits ((congrArg fullParts converted).trans parts) ?_ (Nat.zero_le _)
    exact width ▸ fits

end LegalPart

/-- **A legal name is not cut.** -/
theorem isTruncated_of_isLegal {page : CodePage} {name : Text} (legal : isLegal page name = true) :
    isTruncated page name = false := by
  obtain ⟨title, front, titlePlaces, rfl | ⟨extension, rfl, back, extensionPlaces⟩⟩ :=
    exists_legalParts legal
  · exact front.isTruncated_eq titlePlaces rfl
  · by_cases untitled : title = []
    · -- the dot in front is dropped, and the extension becomes the title
      subst untitled
      exact back.isTruncated_eq (Nat.le_trans extensionPlaces (by decide)) rfl
    · obtain ⟨frontWidth, frontClean⟩ := front.map_convertChar
      obtain ⟨backWidth, backClean⟩ := back.map_convertChar
      have dot : convertChar page '.' = '.' := by
        simp [convertChar, page.canEncode_of_le_ff (c := '.') (by decide), isIllegalChar,
          illegalPunctuation]
      have converted : convertText page (title ++ '.' :: extension) =
          title.map (convertChar page) ++ '.' :: extension.map (convertChar page) := by
        rw [convertText, front.dropWhile_dot untitled, List.filter_append, front.filter_space,
          List.filter_cons, if_pos (by decide), back.filter_space, List.map_append, List.map_cons,
          dot]
      have parts := (fullParts_eq (by simpa using untitled) frontClean).2 _ backClean
      refine isTruncated_of_fits ((congrArg fullParts converted).trans parts) ?_ ?_
      · exact frontWidth ▸ titlePlaces
      · exact backWidth ▸ extensionPlaces

end GuestDos.Naming
