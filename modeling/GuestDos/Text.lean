/-
# GuestDos.Text -- characters, ASCII case and hexadecimal digits

Names and paths are lists of Unicode characters: every rule about them is a recursion on the list.

* `Text.upper` -- ASCII letters to upper case, every other character as it is.
* `Text.hex w n` -- the low `w` hexadecimal digits of `n`, lower case; `length_hex`.

Init only.
-/

namespace GuestDos

set_option autoImplicit false

/-- A text, one Unicode character at a time. -/
abbrev Text := List Char

namespace Text

/-- ASCII lower case letters become upper case; no other character changes. -/
def upper (text : Text) : Text :=
  text.map Char.toUpper

/-- The low `w` hexadecimal digits of `n`, most significant first, in lower case. -/
def hex : Nat → Nat → Text
  | 0, _ => []
  | w + 1, n => hex w (n / 16) ++ [Nat.digitChar (n % 16)]

@[simp] theorem length_upper (text : Text) : (upper text).length = text.length := by
  simp [upper]

@[simp] theorem upper_append (first second : Text) :
    upper (first ++ second) = upper first ++ upper second := by
  simp [upper]

@[simp] theorem length_hex (w n : Nat) : (hex w n).length = w := by
  induction w generalizing n with
  | zero => rfl
  | succ w ih => simp [hex, ih]

end Text

end GuestDos
