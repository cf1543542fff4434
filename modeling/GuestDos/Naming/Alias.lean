/-
# GuestDos.Naming.Alias -- short names made up for host names

A host name that is not legal is converted to upper case, cleaned of what DOS rejects, split at
its last dot and cut to fit.  A numbered alias gives up the end of its title for a tail `~N`.

* `ShortName` -- a title and an extension; `ShortName.text` writes it with a dot between.
* `ShortName.convert` -- the plain conversion (`tail = none`) or the numbered one.
* `isTruncated` -- whether anything had to be cut off to fit.

Init only.
-/
import GuestDos.Naming.Legal

namespace GuestDos.Naming

set_option autoImplicit false

/-- A name of the guest: a title and an extension that may be empty. -/
@[ext] structure ShortName where
  title : Text
  extension : Text
deriving DecidableEq, Repr

/-- The title alone, or title and extension with a dot between. -/
def ShortName.text (name : ShortName) : Text :=
  if name.extension.isEmpty then name.title else name.title ++ '.' :: name.extension

/-- What a host character becomes: upper case, or an underscore if it cannot be shown. -/
def convertChar (page : CodePage) (c : Char) : Char :=
  if !page.canEncode c || isIllegalChar c || c == '[' || c == ']' then '_' else c.toUpper

/-- Drops leading dots, then all spaces, and converts what is left. -/
def convertText (page : CodePage) (name : Text) : Text :=
  ((name.dropWhile (· == '.')).filter (· != ' ')).map (convertChar page)

/-- Splits a text at its last dot; there is nothing to split without one. -/
def splitLastDot? : Text → Option (Text × Text)
  | [] => none
  | c :: rest =>
      match splitLastDot? rest with
      | some (front, back) => some (c :: front, back)
      | none => if c == '.' then some ([], rest) else none

/-- Title and extension of a converted name, before they are cut: the title without its dots, or
an underscore for an empty one. -/
def fullParts (text : Text) : ShortName :=
  let (front, back) := (splitLastDot? text).getD (text, [])
  let title := front.filter (· != '.')
  ⟨if title.isEmpty then ['_'] else title, back⟩

/-- Keeps whole characters from the front while they fit the places. -/
def truncate (page : CodePage) : Nat → Text → Text
  | _, [] => []
  | places, c :: rest =>
      if page.width c ≤ places then c :: truncate page (places - page.width c) rest else []

/-- The tail of a numbered alias; a plain conversion has none. -/
def tailText : Option Nat → Text
  | none => []
  | some n => '~' :: Nat.toDigits 10 n

namespace ShortName

/-- The short name made up for a host name, with a tail squeezed into the title. -/
def convert (page : CodePage) (tail : Option Nat) (name : Text) : ShortName :=
  let full := fullParts (convertText page name)
  let ending := tailText tail
  ⟨truncate page (titleWidth - ending.length) full.title ++ ending,
    truncate page extensionWidth full.extension⟩

end ShortName

/-- Whether the plain conversion of a host name had to be cut to fit. -/
def isTruncated (page : CodePage) (name : Text) : Bool :=
  let full := fullParts (convertText page name)
  (truncate page titleWidth full.title).length < full.title.length
    || (truncate page extensionWidth full.extension).length < full.extension.length

/-- What is kept fits the places. -/
theorem textWidth_truncate_le (page : CodePage) (places : Nat) (text : Text) :
    page.textWidth (truncate page places text) ≤ places := by
  induction text generalizing places with
  | nil => simp [truncate, CodePage.textWidth]
  | cons c rest ih =>
    unfold truncate
    split
    · have kept := ih (places - page.width c)
      simp only [CodePage.textWidth]
      omega
    · simp [CodePage.textWidth]

/-- What is kept is the beginning of the text. -/
theorem truncate_isPrefix (page : CodePage) (places : Nat) (text : Text) :
    truncate page places text <+: text := by
  induction text generalizing places with
  | nil => simp [truncate]
  | cons c rest ih =>
    unfold truncate
    split
    · exact (List.prefix_cons_inj c).2 (ih _)
    · exact List.nil_prefix

end GuestDos.Naming
