/-
# GuestDos.Naming.CodePage -- how the guest's code page sees host characters

Limits on the length of a name are counted in guest bytes, so a character that needs two bytes in
the code page takes two places in an 8.3 name.

* `width`, `canEncode` -- one character; `textWidth`, `encodes` -- a text.
* `width_of_le_ff`, `canEncode_of_le_ff` -- up to U+00FF all pages agree.

Init only.
-/
import GuestDos.Text

namespace GuestDos.Naming

set_option autoImplicit false

/-- A guest code page, by its number. -/
structure CodePage where
  number : UInt16
deriving DecidableEq, Repr

namespace CodePage

/-- The page of a system that was not configured otherwise. -/
def western : CodePage := ⟨437⟩

instance : Inhabited CodePage := ⟨western⟩

/-- Page 932 is Shift-JIS; all others are single byte pages. -/
def isShiftJis (page : CodePage) : Bool :=
  page.number == 932

/-- U+FF61 to U+FF9F are single bytes in Shift-JIS. -/
def isHalfwidthKatakana (c : Char) : Bool :=
  0xff61 ≤ c.toNat && c.toNat ≤ 0xff9f

/-- The bytes that a character occupies in the guest. -/
def width (page : CodePage) (c : Char) : Nat :=
  if page.isShiftJis && 0xff < c.toNat && !isHalfwidthKatakana c then 2 else 1

/-- Whether a character survives the conversion to the guest at all. -/
def canEncode (page : CodePage) (c : Char) : Bool :=
  page.isShiftJis || c.toNat ≤ 0xff

/-- Whether every character of a text survives the conversion. -/
def encodes (page : CodePage) (text : Text) : Bool :=
  text.all page.canEncode

/-- The bytes that a text occupies in the guest. -/
def textWidth (page : CodePage) : Text → Nat
  | [] => 0
  | c :: rest => page.width c + page.textWidth rest

theorem width_pos (page : CodePage) (c : Char) : 0 < page.width c := by
  unfold width
  split <;> omega

theorem width_of_le_ff (page : CodePage) {c : Char} (latin : c.toNat ≤ 0xff) :
    page.width c = 1 := by
  have small : ¬ 0xff < c.toNat := by omega
  simp [width, small]

theorem canEncode_of_le_ff (page : CodePage) {c : Char} (latin : c.toNat ≤ 0xff) :
    page.canEncode c = true := by
  simp [canEncode, latin]

@[simp] theorem textWidth_append (page : CodePage) (first second : Text) :
    page.textWidth (first ++ second) = page.textWidth first + page.textWidth second := by
  induction first with
  | nil => simp [textWidth]
  | cons c rest ih => simp [textWidth, ih, Nat.add_assoc]

/-- Every character takes at least one byte. -/
theorem length_le_textWidth (page : CodePage) (text : Text) :
    text.length ≤ page.textWidth text := by
  induction text with
  | nil => simp [textWidth]
  | cons c rest ih =>
    have one := page.width_pos c
    simp only [textWidth, List.length_cons]
    omega

end CodePage

end GuestDos.Naming
