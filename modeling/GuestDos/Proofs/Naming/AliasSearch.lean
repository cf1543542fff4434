/-
# GuestDos.Proofs.Naming.AliasSearch -- the search for a free numbered alias

The numbered aliases of one host name never collide, not even when the title has no place left for
anything but the number: behind the last `~` of a title stand the digits of its own number.  So
among one more candidates than there are names in use one is free, and `firstFree` looks far enough.

* `numbered_injective` -- different numbers give aliases that differ in more than ASCII case.
* `firstFree_le`, `not_free_of_lt_firstFree`, `isFree_firstFree` -- the search stops at the first
  free number.
* `freshAlias_unused` -- the alias made up for a name is not in use.
-/
import Mathlib.Data.List.Nodup
import GuestDos.Naming.ShortNames

namespace GuestDos.Naming

set_option autoImplicit false

/-! ## Candidates -/

/-- The alias with number `n` for a host name. -/
def numbered (page : CodePage) (host : Text) (n : Nat) : Text :=
  (ShortName.convert page (some n) host).text

theorem toUpper_of_isDigit {c : Char} (digit : c.isDigit = true) : c.toUpper = c := by
  have bounds := Char.isDigit_iff_toNat.1 digit
  unfold Char.toUpper
  rw [dif_neg]
  rintro ⟨letter, -⟩
  have high : 97 ≤ c.val.toNat := UInt32.le_iff_toNat_le.1 letter
  have low : c.val.toNat ≤ 57 := bounds.2
  omega

/-- A tail has no letters. -/
theorem upper_tailText (n : Nat) : Text.upper (tailText (some n)) = tailText (some n) := by
  have digits : (Nat.toDigits 10 n).map Char.toUpper = Nat.toDigits 10 n := by
    refine (List.map_congr_left fun c member => ?_).trans (List.map_id _)
    exact toUpper_of_isDigit (Nat.isDigit_of_mem_toDigits (by decide) (by decide) member)
  simp [tailText, Text.upper, digits]

theorem tilde_not_mem_toDigits (n : Nat) : '~' ∉ Nat.toDigits 10 n := by
  intro member
  have digit := Nat.isDigit_of_mem_toDigits (by decide) (by decide) member
  simp at digit

/-- What stands behind the last occurrence of a character is determined by the text. -/
theorem eq_of_append_cons_eq {c : Char} {first second rest other : Text}
    (same : first ++ c :: rest = second ++ c :: other)
    (absent : c ∉ rest) (absentOther : c ∉ other) : rest = other := by
  have behind : ∀ front back : Text, c ∉ back →
      (front ++ c :: back).reverse.takeWhile (· != c) = back.reverse := by
    intro front back missing
    rw [List.reverse_append, List.reverse_cons, List.append_assoc, List.takeWhile_append_of_pos]
    · simp
    · intro x member
      have : x ≠ c := fun e => missing (e ▸ List.mem_reverse.1 member)
      simpa using this
  have := behind first rest absent
  rw [same, behind second other absentOther] at this
  exact (List.reverse_inj.1 this).symm

theorem tailText_injective {n k : Nat} {first second : Text}
    (same : first ++ tailText (some n) = second ++ tailText (some k)) : n = k := by
  have digits := eq_of_append_cons_eq same (tilde_not_mem_toDigits n) (tilde_not_mem_toDigits k)
  rw [← Nat.ofDigitChars_ten_toDigits (n := n), digits, Nat.ofDigitChars_ten_toDigits]

/-- A short name in upper case, taken apart. -/
theorem upper_text (name : ShortName) :
    Text.upper name.text = Text.upper name.title ++
      (if name.extension.isEmpty then [] else '.' :: Text.upper name.extension) := by
  unfold ShortName.text
  split <;> simp [Text.upper]

/-- Different numbers give aliases that differ in more than ASCII case. -/
theorem numbered_injective (page : CodePage) (host : Text) {n k : Nat}
    (same : Text.upper (numbered page host n) = Text.upper (numbered page host k)) : n = k := by
  simp only [numbered, upper_text, ShortName.convert, Text.upper_append, upper_tailText] at same
  exact tailText_injective (List.append_cancel_right same)

/-! ## The search -/

theorem le_firstFree (isFree : Nat → Bool) (n steps : Nat) : n ≤ firstFree isFree n steps := by
  induction steps generalizing n with
  | zero => exact Nat.le_refl n
  | succ steps ih =>
      unfold firstFree
      split
      · exact Nat.le_refl n
      · exact Nat.le_of_succ_le (ih (n + 1))

theorem firstFree_le (isFree : Nat → Bool) (n steps : Nat) :
    firstFree isFree n steps ≤ n + steps := by
  induction steps generalizing n with
  | zero => exact Nat.le_refl n
  | succ steps ih =>
      unfold firstFree
      split
      · exact Nat.le_add_right n _
      · have := ih (n + 1)
        omega

/-- No number before the one that is found is free. -/
theorem not_free_of_lt_firstFree {isFree : Nat → Bool} {n steps k : Nat} (from_ : n ≤ k)
    (before : k < firstFree isFree n steps) : isFree k = false := by
  induction steps generalizing n with
  | zero => exact absurd before (Nat.not_lt.2 from_)
  | succ steps ih =>
      unfold firstFree at before
      split at before
      · exact absurd before (Nat.not_lt.2 from_)
      · rename_i taken
        rcases Nat.eq_or_lt_of_le from_ with rfl | later
        · simpa using taken
        · exact ih later before

/-- If a number within reach is free, so is the one that is found. -/
theorem isFree_firstFree {isFree : Nat → Bool} {n steps k : Nat} (from_ : n ≤ k)
    (reach : k ≤ n + steps) (free : isFree k = true) :
    isFree (firstFree isFree n steps) = true := by
  induction steps generalizing n with
  | zero =>
      have : k = n := by omega
      exact this ▸ free
  | succ steps ih =>
      unfold firstFree
      split
      · assumption
      · rename_i taken
        have later : n ≠ k := by
          rintro rfl
          exact taken free
        exact ih (by omega) (by omega)

/-- Among one more different texts than a set has, one is not in the set. -/
theorem exists_not_mem (used : Std.TreeSet Text) {text : Nat → Text}
    (different : ∀ n k, text n = text k → n = k) :
    ∃ n, 1 ≤ n ∧ n ≤ 1 + used.size ∧ text n ∉ used := by
  apply Classical.byContradiction
  intro none_
  have taken : ∀ n, n < used.size + 1 → text (n + 1) ∈ used := by
    intro n bound
    apply Classical.byContradiction
    intro free
    exact none_ ⟨n + 1, by omega, by omega, free⟩
  have distinct : ((List.range (used.size + 1)).map fun n => text (n + 1)).Nodup := by
    refine List.Nodup.map ?_ List.nodup_range
    intro n k same
    exact Nat.succ.inj (different _ _ same)
  have within : ((List.range (used.size + 1)).map fun n => text (n + 1)) ⊆ used.toList := by
    intro upper member
    obtain ⟨n, bound, rfl⟩ := List.mem_map.1 member
    exact Std.TreeSet.mem_toList.2 (taken n (List.mem_range.1 bound))
  have := distinct.length_le_of_subset within
  rw [List.length_map, List.length_range, Std.TreeSet.length_toList] at this
  omega

namespace ShortNames

/-- Whether a number is still free for a host name. -/
def isFreeNumber (names : ShortNames) (page : CodePage) (host : Text) (n : Nat) : Bool :=
  !names.isUsed (numbered page host n)

/-- The number that an alias of a host name gets if it gets one. -/
def aliasNumber (names : ShortNames) (page : CodePage) (host : Text) : Nat :=
  firstFree (names.isFreeNumber page host) 1 names.used.size

theorem exists_free_number (names : ShortNames) (page : CodePage) (host : Text) :
    ∃ n, 1 ≤ n ∧ n ≤ 1 + names.used.size ∧ names.isFreeNumber page host n = true := by
  obtain ⟨n, low, high, free⟩ :=
    exists_not_mem names.used fun n k => @numbered_injective page host n k
  refine ⟨n, low, high, ?_⟩
  rw [isFreeNumber, Bool.not_eq_true', ← Bool.not_eq_true, isUsed_iff]
  exact free

theorem isFreeNumber_aliasNumber (names : ShortNames) (page : CodePage) (host : Text) :
    names.isFreeNumber page host (names.aliasNumber page host) = true := by
  obtain ⟨n, low, high, free⟩ := names.exists_free_number page host
  exact isFree_firstFree low high free

/-- An alias is the plain conversion, or the one with the first free number. -/
theorem freshAlias_eq (names : ShortNames) (page : CodePage) (host : Text) :
    names.freshAlias page host =
      if isTruncated page host || names.isUsed (ShortName.convert page none host).text then
        numbered page host (names.aliasNumber page host)
      else (ShortName.convert page none host).text :=
  rfl

/-- The alias made up for a name is not in use. -/
theorem freshAlias_unused (names : ShortNames) (page : CodePage) (host : Text) :
    names.isUsed (names.freshAlias page host) = false := by
  rw [freshAlias_eq]
  split
  · simpa [isFreeNumber] using names.isFreeNumber_aliasNumber page host
  · rename_i plain
    simp only [Bool.or_eq_true, not_or, Bool.not_eq_true] at plain
    exact plain.2

end ShortNames

end GuestDos.Naming
