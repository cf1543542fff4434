/-
# GuestDos.Naming.Legal -- which names the guest can be shown as they are

A legal name has a title of up to eight places, optionally a dot and an extension of up to three
more, no second dot, and no character that DOS rejects.

* `scanPart?` -- one pass over a title or an extension, which counts its places.
* `isLegal` decides it in two of them, with the dot skipped in between; nothing may be left behind.

Init only.
-/
import GuestDos.Naming.CodePage

namespace GuestDos.Naming

set_option autoImplicit false

/-- The places of a title. -/
abbrev titleWidth : Nat := 8

/-- The places of an extension. -/
abbrev extensionWidth : Nat := 3

/-- Punctuation that cannot appear in a short name. -/
def illegalPunctuation : List Char :=
  ['"', '+', '=', ',', ';', ':', '<', '>', '|', '?', '*']

/-- Characters that cannot appear in a short name: everything up to space, delete, and some
punctuation. -/
def isIllegalChar (c : Char) : Bool :=
  c.toNat ≤ 0x20 || c.toNat == 0x7f || illegalPunctuation.contains c

/-- Reads a title or an extension up to the dot behind it: the places that it takes besides those
counted so far, and what is left from the dot on.  No answer where a character is illegal. -/
def scanPart? (page : CodePage) (places : Nat) : Text → Option (Nat × Text)
  | [] => some (places, [])
  | c :: rest =>
      if c == '.' then some (places, c :: rest)
      else if isIllegalChar c then none
      else scanPart? page (places + page.width c) rest

/-- Whether a name can be shown to the guest as it is. -/
def isLegal (page : CodePage) (name : Text) : Bool :=
  !name.isEmpty && page.encodes name
    && (scanPart? page 0 name).any fun (title, behind) =>
      title ≤ titleWidth
        && (scanPart? page 0 (behind.drop 1)).any fun (extension, left) =>
          extension ≤ extensionWidth && left.isEmpty

end GuestDos.Naming
