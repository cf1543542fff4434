/-
# GuestDos.Proofs.Naming.Conversion -- what a converted name is made of

Whatever characters a host name has, its conversion has only such as the guest can be shown: upper
case, in the code page, none that DOS rejects.  Neither its title nor its extension has a dot of its
own, so the one dot of its text tells them apart.

* `toUpper_cases` -- what upper case does to a character.
* `Shown`, `Presentable` -- such characters, and short names made of them; `presentable_convert`.
* `mem_of_mem_convert` -- where the characters of a conversion come from.
* `ShortName.ofText` -- a short name as the guest reads it; one whose title has no dot is read back
  from its text (`ofText_text`, `text_injective`).
* `truncate_truncate` -- cutting again to less is cutting to less at once.
-/
import Mathlib.Data.List.TakeWhile
import GuestDos.Proofs.Naming.AliasSearch

namespace GuestDos.Naming

set_option autoImplicit false

/-! ## Characters -/

/-- A letter goes down by 32, every other character stays. -/
theorem toUpper_cases (c : Char) :
    c.toUpper = c ∨ 97 ≤ c.toNat ∧ c.toNat ≤ 122 ∧ c.toUpper.toNat = c.toNat - 32 := by
  by_cases letter : c.val ≥ 'a'.val ∧ c.val ≤ 'z'.val
  · have low : 97 ≤ c.toNat := UInt32.le_iff_toNat_le.1 letter.1
    have high : c.toNat ≤ 122 := UInt32.le_iff_toNat_le.1 letter.2
    refine .inr ⟨low, high, ?_⟩
    have moved : c.toUpper.val = c.val + ('A'.val - 'a'.val) := by
      unfold Char.toUpper
      rw [dif_pos letter]
    show c.toUpper.val.toNat = c.val.toNat - 32
    have small : c.val.toNat ≤ 122 := high
    have large : 97 ≤ c.val.toNat := low
    rw [moved, UInt32.toNat_add]
    have step : ('A'.val - 'a'.val).toNat = 2 ^ 32 - 32 := by decide
    omega
  · left
    unfold Char.toUpper
    rw [dif_neg letter]

theorem toUpper_toUpper (c : Char) : c.toUpper.toUpper = c.toUpper := by
  rcases toUpper_cases c with same | ⟨low, high, moved⟩
  · rw [same, same]
  · rcases toUpper_cases c.toUpper with same | ⟨stillLow, -, -⟩
    · exact same
    · omega

/-- Upper case makes no dots and loses none. -/
theorem toUpper_eq_dot {c : Char} : c.toUpper = '.' ↔ c = '.' := by
  constructor
  · intro dot
    rcases toUpper_cases c with same | ⟨low, high, moved⟩
    · exact same ▸ dot
    · rw [dot] at moved
      have : ('.' : Char).toNat = 46 := rfl
      omega
  · rintro rfl
    rfl

/-- No digit and no letter is rejected. -/
theorem range_of_illegal {c : Char} (illegal : isIllegalChar c = true) :
    c.toNat < 48 ∨ 57 < c.toNat ∧ c.toNat < 65 ∨ 90 < c.toNat ∧ c.toNat < 97 ∨ 122 < c.toNat := by
  have punctuation : ∀ p ∈ illegalPunctuation, p.toNat < 48 ∨ 57 < p.toNat ∧ p.toNat < 65 ∨
      90 < p.toNat ∧ p.toNat < 97 ∨ 122 < p.toNat := by simp [illegalPunctuation]
  unfold isIllegalChar at illegal
  simp only [Bool.or_eq_true, decide_eq_true_eq, beq_iff_eq, List.contains_iff_mem] at illegal
  rcases illegal with (low | delete) | mark
  · omega
  · omega
  · exact punctuation c mark

/-- Upper case makes no character illegal, and none legal. -/
theorem isIllegalChar_toUpper (c : Char) : isIllegalChar c.toUpper = isIllegalChar c := by
  rcases toUpper_cases c with same | ⟨low, high, moved⟩
  · rw [same]
  · have letter : ∀ d : Char, 65 ≤ d.toNat ∧ d.toNat ≤ 90 ∨ 97 ≤ d.toNat ∧ d.toNat ≤ 122 →
        isIllegalChar d = false := by
      intro d range
      rw [← Bool.not_eq_true]
      intro illegal
      have := range_of_illegal illegal
      omega
    rw [letter c (by omega), letter c.toUpper (by omega)]

theorem canEncode_toUpper (page : CodePage) (c : Char) :
    page.canEncode c.toUpper = page.canEncode c := by
  rcases toUpper_cases c with same | ⟨-, high, moved⟩
  · rw [same]
  · rw [page.canEncode_of_le_ff (c := c) (by omega), page.canEncode_of_le_ff (by omega)]

theorem width_toUpper (page : CodePage) (c : Char) : page.width c.toUpper = page.width c := by
  rcases toUpper_cases c with same | ⟨-, high, moved⟩
  · rw [same]
  · rw [page.width_of_le_ff (c := c) (by omega), page.width_of_le_ff (by omega)]

/-- A character that a made-up short name may have. -/
structure Shown (page : CodePage) (c : Char) : Prop where
  upper : c.toUpper = c
  encoded : page.canEncode c = true
  legal : isIllegalChar c = false

theorem shown_underscore (page : CodePage) : Shown page '_' :=
  ⟨rfl, page.canEncode_of_le_ff (by decide), rfl⟩

theorem shown_tilde (page : CodePage) : Shown page '~' :=
  ⟨rfl, page.canEncode_of_le_ff (by decide), rfl⟩

theorem shown_of_isDigit (page : CodePage) {c : Char} (digit : c.isDigit = true) :
    Shown page c := by
  have bounds := Char.isDigit_iff_toNat.1 digit
  have low : 48 ≤ c.toNat := bounds.1
  have high : c.toNat ≤ 57 := bounds.2
  refine ⟨toUpper_of_isDigit digit, page.canEncode_of_le_ff (by omega), ?_⟩
  rw [← Bool.not_eq_true]
  intro illegal
  have := range_of_illegal illegal
  omega

/-- Every character becomes one that can be shown. -/
theorem shown_convertChar (page : CodePage) (c : Char) : Shown page (convertChar page c) := by
  unfold convertChar
  split
  · exact shown_underscore page
  · rename_i fine
    simp only [Bool.or_eq_true, not_or, Bool.not_eq_true, Bool.not_eq_false'] at fine
    obtain ⟨⟨⟨encoded, legal⟩, -⟩, -⟩ := fine
    exact ⟨toUpper_toUpper c, (canEncode_toUpper page c).trans encoded,
      (isIllegalChar_toUpper c).trans legal⟩

/-! ## Parts -/

/-- Only a text without dots is not split. -/
theorem splitLastDot?_eq_none {text : Text} (whole : splitLastDot? text = none) : '.' ∉ text := by
  induction text with
  | nil => exact List.not_mem_nil
  | cons c rest ih =>
      unfold splitLastDot? at whole
      cases tail : splitLastDot? rest with
      | some parts => simp [tail] at whole
      | none =>
          have other : c ≠ '.' := by
            rintro rfl
            simp [tail] at whole
          simp [ih tail, Ne.symm other]

/-- A text is split at its last dot: nothing behind it has a dot. -/
theorem splitLastDot?_eq_some {text front back : Text}
    (split : splitLastDot? text = some (front, back)) :
    text = front ++ '.' :: back ∧ '.' ∉ back := by
  induction text generalizing front with
  | nil => cases split
  | cons c rest ih =>
      unfold splitLastDot? at split
      cases tail : splitLastDot? rest with
      | some parts =>
          rw [tail] at split
          cases split
          obtain ⟨joined, absent⟩ := ih tail
          exact ⟨congrArg (c :: ·) joined, absent⟩
      | none =>
          rw [tail] at split
          by_cases dot : c = '.'
          · subst dot
            cases split
            exact ⟨rfl, splitLastDot?_eq_none tail⟩
          · simp [dot] at split

/-- A short name of characters that can be shown, with no dot but the one between its parts. -/
structure Presentable (page : CodePage) (name : ShortName) : Prop where
  shown : ∀ c ∈ name.title ++ name.extension, Shown page c
  title_dotless : '.' ∉ name.title
  extension_dotless : '.' ∉ name.extension

/-- What is left of a name when its leading dots and its spaces are dropped. -/
theorem mem_of_mem_kept {name : Text} {c : Char}
    (kept : c ∈ (name.dropWhile (· == '.')).filter (· != ' ')) : c ∈ name :=
  (List.dropWhile_sublist _).subset (List.mem_filter.1 kept).1

theorem exists_of_mem_convertText {page : CodePage} {name : Text} {c : Char}
    (member : c ∈ convertText page name) : ∃ source ∈ name, convertChar page source = c := by
  obtain ⟨source, kept, made⟩ := List.mem_map.1 member
  exact ⟨source, mem_of_mem_kept kept, made⟩

theorem shown_convertText {page : CodePage} {name : Text} {c : Char}
    (member : c ∈ convertText page name) : Shown page c := by
  obtain ⟨source, -, rfl⟩ := exists_of_mem_convertText member
  exact shown_convertChar page source

/-- The parts of a text have no characters of their own, but for the underscore of an empty title. -/
theorem mem_of_mem_fullParts {text : Text} {c : Char}
    (member : c ∈ (fullParts text).title ++ (fullParts text).extension) : c = '_' ∨ c ∈ text := by
  have within : ∀ front back : Text, (∀ d ∈ front ++ back, d ∈ text) →
      c ∈ (if (front.filter (· != '.')).isEmpty then ['_'] else front.filter (· != '.')) ++ back →
      c = '_' ∨ c ∈ text := by
    intro front back pieces member
    rcases List.mem_append.1 member with inTitle | inExtension
    · split at inTitle
      · exact .inl (List.mem_singleton.1 inTitle)
      · exact .inr (pieces c (List.mem_append_left _ (List.mem_filter.1 inTitle).1))
    · exact .inr (pieces c (List.mem_append_right _ inExtension))
  simp only [fullParts] at member
  refine within _ _ (fun d piece => ?_) member
  cases split : splitLastDot? text with
  | some parts =>
      rw [split, Option.getD_some] at piece
      rw [(splitLastDot?_eq_some split).1]
      rcases List.mem_append.1 piece with front | back
      · exact List.mem_append_left _ front
      · exact List.mem_append_right _ (List.mem_cons_of_mem _ back)
  | none => simpa [split] using piece

/-- The title is cleaned of its dots, and the extension stands behind the last one. -/
theorem fullParts_dotless (text : Text) :
    '.' ∉ (fullParts text).title ∧ '.' ∉ (fullParts text).extension := by
  have title : ∀ front : Text,
      '.' ∉ (if (front.filter (· != '.')).isEmpty then ['_'] else front.filter (· != '.')) := by
    intro front
    split
    · decide
    · simp
  refine ⟨title _, ?_⟩
  cases split : splitLastDot? text with
  | some parts => simpa [fullParts, split] using (splitLastDot?_eq_some split).2
  | none => simp [fullParts, split]

theorem mem_of_mem_truncate {page : CodePage} {places : Nat} {text : Text} {c : Char}
    (member : c ∈ truncate page places text) : c ∈ text :=
  (truncate_isPrefix page places text).subset member

theorem shown_tailText (page : CodePage) {tail : Option Nat} {c : Char}
    (member : c ∈ tailText tail) : Shown page c ∧ c ≠ '.' := by
  cases tail with
  | none => exact absurd member List.not_mem_nil
  | some n =>
      rcases List.mem_cons.1 member with rfl | digit
      · exact ⟨shown_tilde page, by decide⟩
      · have isDigit := Nat.isDigit_of_mem_toDigits (by decide) (by decide) digit
        refine ⟨shown_of_isDigit page isDigit, ?_⟩
        rintro rfl
        exact absurd isDigit (by decide)

/-- Where the characters of a conversion come from. -/
theorem mem_of_mem_convert {page : CodePage} {tail : Option Nat} {name : Text} {c : Char}
    (member : c ∈ (ShortName.convert page tail name).title ++
      (ShortName.convert page tail name).extension) :
    c ∈ tailText tail ∨ c = '_' ∨ c ∈ convertText page name := by
  rcases List.mem_append.1 member with inTitle | inExtension
  · rcases List.mem_append.1 inTitle with kept | ending
    · exact .inr (mem_of_mem_fullParts (List.mem_append_left _ (mem_of_mem_truncate kept)))
    · exact .inl ending
  · exact .inr (mem_of_mem_fullParts (List.mem_append_right _ (mem_of_mem_truncate inExtension)))

theorem presentable_convert (page : CodePage) (tail : Option Nat) (name : Text) :
    Presentable page (ShortName.convert page tail name) := by
  obtain ⟨titleDotless, extensionDotless⟩ := fullParts_dotless (convertText page name)
  refine ⟨fun c member => ?_, ?_, fun member => extensionDotless (mem_of_mem_truncate member)⟩
  · rcases mem_of_mem_convert member with ending | rfl | converted
    · exact (shown_tailText page ending).1
    · exact shown_underscore page
    · exact shown_convertText converted
  · intro member
    rcases List.mem_append.1 member with kept | ending
    · exact titleDotless (mem_of_mem_truncate kept)
    · exact (shown_tailText page ending).2 rfl

/-! ## Texts of short names -/

/-- A presentable name is upper case as it is. -/
theorem Presentable.upper_text {page : CodePage} {name : ShortName}
    (presentable : Presentable page name) : Text.upper name.text = name.text := by
  have unchanged : ∀ c ∈ name.text, c.toUpper = c := by
    intro c member
    unfold ShortName.text at member
    split at member
    · exact (presentable.shown c (List.mem_append_left _ member)).upper
    · rcases List.mem_append.1 member with inTitle | rest
      · exact (presentable.shown c (List.mem_append_left _ inTitle)).upper
      · rcases List.mem_cons.1 rest with rfl | inExtension
        · rfl
        · exact (presentable.shown c (List.mem_append_right _ inExtension)).upper
  exact (List.map_congr_left unchanged).trans (List.map_id _)

/-! ## Reading a short name back -/

/-- Reading up to the first dot, where there is one and where there is none. -/
theorem takeWhile_dropWhile_title {title : Text} (dotless : '.' ∉ title) (rest : Text) :
    (title ++ '.' :: rest).takeWhile (· != '.') = title ∧
      (title ++ '.' :: rest).dropWhile (· != '.') = '.' :: rest ∧
      title.takeWhile (· != '.') = title ∧ title.dropWhile (· != '.') = [] := by
  have clear : ∀ c ∈ title, (c != '.') = true := by
    intro c member
    simpa using fun dot : c = '.' => dotless (dot ▸ member)
  refine ⟨?_, ?_, List.takeWhile_eq_self_iff.2 clear, List.dropWhile_eq_nil_iff.2 clear⟩
  · rw [List.takeWhile_append_of_pos clear]
    simp
  · rw [List.dropWhile_append_of_pos clear]
    simp

/-- A text without a dot, or cut at its first one. -/
theorem exists_parts (text : Text) :
    ∃ title, '.' ∉ title ∧ (text = title ∨ ∃ extension, text = title ++ '.' :: extension) := by
  refine ⟨text.takeWhile (· != '.'), fun dot => by simpa using List.mem_takeWhile_imp dot, ?_⟩
  have joined := List.takeWhile_append_dropWhile (p := (· != '.')) (l := text)
  cases behind : text.dropWhile (· != '.') with
  | nil =>
      rw [behind, List.append_nil] at joined
      exact .inl joined.symm
  | cons c extension =>
      have dot : c = '.' := by
        have stops := List.head?_dropWhile_not (· != '.') text
        simpa [behind] using stops
      rw [behind, dot] at joined
      exact .inr ⟨extension, joined.symm⟩

namespace ShortName

/-- What the guest reads in a text: the title before the first dot, and the extension behind it. -/
def ofText (text : Text) : ShortName :=
  ⟨text.takeWhile (· != '.'), (text.dropWhile (· != '.')).drop 1⟩

theorem ofText_dotless {title : Text} (dotless : '.' ∉ title) : ofText title = ⟨title, []⟩ := by
  obtain ⟨-, -, taken, dropped⟩ := takeWhile_dropWhile_title dotless []
  rw [ofText, taken, dropped]
  rfl

theorem ofText_append {title : Text} (dotless : '.' ∉ title) (extension : Text) :
    ofText (title ++ '.' :: extension) = ⟨title, extension⟩ := by
  obtain ⟨taken, dropped, -, -⟩ := takeWhile_dropWhile_title dotless extension
  rw [ofText, taken, dropped]
  rfl

/-- Title and extension have all characters of a text, but for the dot. -/
theorem mem_ofText {text : Text} {c : Char} (other : c ≠ '.') :
    c ∈ (ofText text).title ++ (ofText text).extension ↔ c ∈ text := by
  obtain ⟨title, dotless, rfl | ⟨extension, rfl⟩⟩ := exists_parts text
  · simp [ofText_dotless dotless]
  · simp [ofText_append dotless, other]

/-- A short name is read as it was written. -/
theorem ofText_text {name : ShortName} (dotless : '.' ∉ name.title) : ofText name.text = name := by
  unfold text
  split
  · rename_i none_
    rw [ofText_dotless dotless, ← List.isEmpty_iff.1 none_]
  · exact ofText_append dotless name.extension

end ShortName

/-- The text before the first dot is the title, and the rest says what the extension is. -/
theorem text_injective {first second : ShortName} (firstDotless : '.' ∉ first.title)
    (secondDotless : '.' ∉ second.title) (same : first.text = second.text) : first = second := by
  rw [← ShortName.ofText_text firstDotless, same, ShortName.ofText_text secondDotless]

/-! ## Cutting -/

/-- Cutting again to less is cutting to less at once. -/
theorem truncate_truncate (page : CodePage) {small large : Nat} (le : small ≤ large) (text : Text) :
    truncate page small (truncate page large text) = truncate page small text := by
  induction text generalizing small large with
  | nil => rfl
  | cons c rest ih =>
      by_cases fits : page.width c ≤ large
      · rw [truncate, if_pos fits, truncate, truncate]
        split
        · rw [ih (by omega)]
        · rfl
      · rw [truncate, if_neg fits, truncate, truncate, if_neg (by omega)]

/-- What fits is not cut. -/
theorem truncate_eq_self {page : CodePage} {places : Nat} {text : Text}
    (fits : page.textWidth text ≤ places) : truncate page places text = text := by
  induction text generalizing places with
  | nil => rfl
  | cons c rest ih =>
      simp only [CodePage.textWidth] at fits
      rw [truncate, if_pos (by omega), ih (by omega)]

/-- A text is cut before a character exactly if what comes before fits, and does not with that
character. -/
theorem truncate_append_eq_iff {page : CodePage} {places : Nat} {kept rest : Text} {c : Char} :
    truncate page places (kept ++ c :: rest) = kept ↔
      page.textWidth kept ≤ places ∧ places < page.textWidth kept + page.width c := by
  induction kept generalizing places with
  | nil =>
      rw [List.nil_append, truncate, CodePage.textWidth]
      split
      · simp only [reduceCtorEq, false_iff]
        omega
      · simp only [true_iff]
        omega
  | cons d kept ih =>
      rw [List.cons_append, truncate, CodePage.textWidth]
      split
      · rw [List.cons.injEq, ih]
        simp only [true_and]
        omega
      · simp only [reduceCtorEq, false_iff]
        omega

end GuestDos.Naming
