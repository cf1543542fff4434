/-
# GuestDos.Proofs.Naming.Grammar -- the grammar of legal names

The check of a name scans it once, counting places, and stops at the first thing that it cannot
accept.  What it accepts is a grammar that says nothing of scanning: a title, or a title and an
extension with a dot between them, of characters that DOS does not reject, within eight and three
places.  The grammar asks for the characters and their widths alone, so ASCII case does not matter,
and up to U+00FF neither does the code page.

* `Rejected`, `NamePart`, `EightDotThree` -- the grammar.
* `isLegal_iff_eightDotThree` -- it is what the check accepts.
* `isLegal_upper` -- names in upper case.
* `EightDotThree.congr`, `AgreeOn` -- names under another page.
* `isLegal_grammar` -- the check and what follows from its grammar.
-/
import GuestDos.Proofs.Naming.Legality

namespace GuestDos.Naming

set_option autoImplicit false

variable {page other : CodePage} {text : Text}

/-! ## The grammar -/

/-- The characters that DOS rejects in a title and in an extension. -/
def Rejected (c : Char) : Prop :=
  c ≤ ' ' ∨ c = '\x7f' ∨ c ∈ ['"', '+', '=', ',', ';', ':', '<', '>', '|', '?', '*']

/-- A title or an extension within some places. -/
structure NamePart (page : CodePage) (places : Nat) (part : Text) : Prop where
  dotless : '.' ∉ part
  clear : ∀ c ∈ part, ¬ Rejected c
  fits : page.textWidth part ≤ places

/-- A name that the guest can be shown as it is: a title alone, or with a dot and an extension. -/
structure EightDotThree (page : CodePage) (text : Text) : Prop where
  nonempty : text ≠ []
  encodable : ∀ c ∈ text, page.canEncode c = true
  parts : NamePart page 8 text ∨ ∃ title extension, text = title ++ '.' :: extension ∧
    NamePart page 8 title ∧ NamePart page 3 extension

theorem isIllegalChar_iff {c : Char} : isIllegalChar c = true ↔ Rejected c := by
  have space : c ≤ ' ' ↔ c.toNat ≤ 0x20 := UInt32.le_iff_toNat_le
  have delete : c = '\x7f' ↔ c.toNat = 0x7f := Char.toNat_inj.symm
  simp only [isIllegalChar, Rejected, space, delete, Bool.or_eq_true, decide_eq_true_eq,
    beq_iff_eq, List.contains_iff_mem, illegalPunctuation, or_assoc]

/-- The part of a name that the scan accepts. -/
theorem namePart_iff {places : Nat} {part : Text} :
    NamePart page places part ↔ '.' ∉ part ∧ fitsLegally page places part = true := by
  have clear : (∀ c ∈ part, ¬ Rejected c) ↔ ∀ c ∈ part, isIllegalChar c = false := by
    simp only [← isIllegalChar_iff, Bool.not_eq_true]
  rw [fitsLegally_iff, ← clear]
  exact ⟨fun ⟨dotless, legal, fits⟩ => ⟨dotless, legal, fits⟩,
    fun ⟨dotless, legal, fits⟩ => ⟨dotless, legal, fits⟩⟩

/-- **The check accepts its grammar.** -/
theorem isLegal_iff_eightDotThree : isLegal page text = true ↔ EightDotThree page text := by
  rw [isLegal_iff]
  constructor
  · rintro ⟨nonempty, encoded, title, titleDotless, titleFits, parts⟩
    have titlePart : NamePart page 8 title := namePart_iff.2 ⟨titleDotless, titleFits⟩
    refine ⟨nonempty, List.all_eq_true.1 encoded, ?_⟩
    rcases parts with rfl | ⟨extension, rfl, dotless, fits⟩
    · exact .inl titlePart
    · exact .inr ⟨title, extension, rfl, titlePart, namePart_iff.2 ⟨dotless, fits⟩⟩
  · rintro ⟨nonempty, encodable, parts⟩
    refine ⟨nonempty, List.all_eq_true.2 encodable, ?_⟩
    rcases parts with alone | ⟨title, extension, rfl, titlePart, extensionPart⟩
    · obtain ⟨dotless, fits⟩ := namePart_iff.1 alone
      exact ⟨text, dotless, fits, .inl rfl⟩
    · obtain ⟨titleDotless, titleFits⟩ := namePart_iff.1 titlePart
      exact ⟨title, titleDotless, titleFits, .inr ⟨extension, rfl, namePart_iff.1 extensionPart⟩⟩

/-! ## Upper case -/

theorem encodes_upper (page : CodePage) (text : Text) :
    page.encodes (Text.upper text) = page.encodes text := by
  simp [CodePage.encodes, Text.upper, List.all_map, Function.comp_def, canEncode_toUpper]

/-- The scan of a part counts the same places in upper case. -/
theorem scanPart?_upper (page : CodePage) (places : Nat) (text : Text) :
    scanPart? page places (Text.upper text) =
      (scanPart? page places text).map fun found => (found.1, Text.upper found.2) := by
  induction text generalizing places with
  | nil => rfl
  | cons c rest ih =>
      have dot : (c.toUpper == '.') = (c == '.') := by
        rw [Bool.eq_iff_iff, beq_iff_eq, beq_iff_eq, toUpper_eq_dot]
      show scanPart? page places (c.toUpper :: Text.upper rest) = _
      simp only [scanPart?, dot, isIllegalChar_toUpper, width_toUpper, ih]
      split
      · rfl
      · split <;> rfl

/-- **Legal names in upper case.** -/
theorem isLegal_upper (page : CodePage) (text : Text) :
    isLegal page (Text.upper text) = isLegal page text := by
  have isEmpty : ∀ rest : Text, (Text.upper rest).isEmpty = rest.isEmpty := fun rest => by
    cases rest <;> rfl
  have behind : ∀ rest : Text, (Text.upper rest).drop 1 = Text.upper (rest.drop 1) :=
    fun rest => (List.map_drop).symm
  simp only [isLegal, isEmpty, encodes_upper, scanPart?_upper, Option.any_map, behind]

/-! ## Other pages -/

theorem textWidth_congr {part : Text} (same : ∀ c ∈ part, page.width c = other.width c) :
    page.textWidth part = other.textWidth part := by
  induction part with
  | nil => rfl
  | cons c rest ih =>
      rw [CodePage.textWidth, CodePage.textWidth, same c List.mem_cons_self,
        ih fun d member => same d (List.mem_cons_of_mem c member)]

theorem NamePart.congr {places : Nat} {part : Text} (legal : NamePart page places part)
    (same : ∀ c ∈ part, page.width c = other.width c) : NamePart other places part :=
  ⟨legal.dotless, legal.clear, textWidth_congr same ▸ legal.fits⟩

/-- A page under which the characters are encodable and as wide as before. -/
theorem EightDotThree.congr (legal : EightDotThree page text)
    (encodable : ∀ c ∈ text, other.canEncode c = true)
    (same : ∀ c ∈ text, page.width c = other.width c) : EightDotThree other text := by
  refine ⟨legal.nonempty, encodable, ?_⟩
  rcases legal.parts with alone | ⟨title, extension, rfl, titlePart, extensionPart⟩
  · exact .inl (alone.congr same)
  · exact .inr ⟨title, extension, rfl,
      titlePart.congr fun c member => same c (List.mem_append_left _ member),
      extensionPart.congr fun c member =>
        same c (List.mem_append_right _ (List.mem_cons_of_mem _ member))⟩

/-- Two pages see the characters of a text alike. -/
structure AgreeOn (page other : CodePage) (text : Text) : Prop where
  width : ∀ c ∈ text, page.width c = other.width c
  canEncode : ∀ c ∈ text, page.canEncode c = other.canEncode c

theorem AgreeOn.symm (agree : AgreeOn page other text) : AgreeOn other page text :=
  ⟨fun c member => (agree.width c member).symm, fun c member => (agree.canEncode c member).symm⟩

/-- Up to U+00FF all pages agree. -/
theorem agreeOn_of_latin (page other : CodePage) (latin : ∀ c ∈ text, c.toNat ≤ 0xff) :
    AgreeOn page other text := by
  constructor <;> intro c member
  · rw [page.width_of_le_ff (latin c member), other.width_of_le_ff (latin c member)]
  · rw [page.canEncode_of_le_ff (latin c member), other.canEncode_of_le_ff (latin c member)]

theorem AgreeOn.isLegal (agree : AgreeOn page other text) (legal : isLegal page text = true) :
    isLegal other text = true := by
  rw [isLegal_iff_eightDotThree] at legal ⊢
  refine legal.congr (fun c member => ?_) agree.width
  rw [← agree.canEncode c member]
  exact legal.encodable c member

/-- Up to U+00FF a name is legal under all pages or under none. -/
theorem isLegal_of_latin (latin : ∀ c ∈ text, c.toNat ≤ 0xff) (legal : isLegal page text = true) :
    isLegal other text = true :=
  (agreeOn_of_latin page other latin).isLegal legal

/-- A single byte page has nothing above U+00FF. -/
theorem canEncode_iff_of_single {c : Char} (single : page.number ≠ 932) :
    page.canEncode c = true ↔ c.toNat ≤ 0xff := by
  simp [CodePage.canEncode, CodePage.isShiftJis, single]

/-- **The grammar of legal names.**  Under every page, a text is legal just when it is not empty, every
character of it can be encoded, and it is a title of up to eight places, or such a title, a dot and an
extension of up to three, neither with a dot nor with a character that DOS rejects.  So it is legal in
upper case too and only then; it has no more than twelve characters; and under a single byte page it
is legal just when it is under page 932 and has no character above U+00FF. -/
theorem isLegal_grammar (page : CodePage) (text : Text) :
    (isLegal page text = true ↔ EightDotThree page text) ∧
      isLegal page (Text.upper text) = isLegal page text ∧
      (isLegal page text = true → text.length ≤ 12) ∧
      (page.number ≠ 932 →
        (isLegal page text = true ↔ isLegal ⟨932⟩ text = true ∧ ∀ c ∈ text, c.toNat ≤ 0xff)) := by
  refine ⟨isLegal_iff_eightDotThree, isLegal_upper page text, length_le_of_isLegal, fun single => ?_⟩
  constructor
  · intro legal
    have encodable := (isLegal_iff_eightDotThree.1 legal).encodable
    have latin : ∀ c ∈ text, c.toNat ≤ 0xff := fun c member =>
      (canEncode_iff_of_single single).1 (encodable c member)
    exact ⟨isLegal_of_latin latin legal, latin⟩
  · rintro ⟨legal, latin⟩
    exact isLegal_of_latin latin legal

/-- A title may be empty, and so may an extension behind a dot; a second dot is one too many. -/
example : isLegal .western ".".toList = true ∧ isLegal .western "..".toList = false ∧
    isLegal ⟨932⟩ "日本語文.TXT".toList = true ∧ isLegal ⟨932⟩ "日本語文X".toList = false := by
  decide

end GuestDos.Naming
