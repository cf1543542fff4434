/-
# GuestDos.Proofs.Naming.DosFiles -- which short names denote the same file of the guest

The guest knows a file by its title and its extension, and does not tell a missing extension from an
empty one.  Short names are kept apart as texts.  The two notions part at one shape only: a title
with nothing behind its dot.  A conversion never writes that dot (`getLast?_text`), but a legal name
that has it keeps it, and then stands beside the same title without the dot as another name of the
same file.

* `SameFile` -- equal titles and equal extensions in any ASCII case; `sameFile_iff`.
* `ShortNames.Origin` -- how a host name came by its short name; `origin_run`.
* `sameFile_of_run` -- when two host names share a file of the guest.
* `dotted_sameFile` -- two that do.
-/
import Mathlib.Data.List.Induction
import GuestDos.Proofs.Naming.Calls
import GuestDos.Proofs.Naming.Conversion

namespace GuestDos.Naming

set_option autoImplicit false

/-! ## Short names that denote the same file -/

/-- Two short names denote the same file: their titles are equal and their extensions are, without
regard to ASCII case. -/
def SameFile (first second : Text) : Prop :=
  Text.upper (ShortName.ofText first).title = Text.upper (ShortName.ofText second).title ∧
    Text.upper (ShortName.ofText first).extension = Text.upper (ShortName.ofText second).extension

instance (first second : Text) : Decidable (SameFile first second) :=
  inferInstanceAs (Decidable (_ ∧ _))

namespace ShortName

/-- **Texts that are read alike** are equal, but for a dot with nothing behind it. -/
theorem ofText_eq_iff {first second : Text} :
    ofText first = ofText second ↔
      first = second ∨ ('.' ∉ second ∧ first = second ++ ['.']) ∨
        ('.' ∉ first ∧ second = first ++ ['.']) := by
  constructor
  · intro same
    obtain ⟨title, dotless, rfl | ⟨extension, rfl⟩⟩ := exists_parts first <;>
      obtain ⟨otherTitle, otherDotless, rfl | ⟨otherExtension, rfl⟩⟩ := exists_parts second
    · rw [ofText_dotless dotless, ofText_dotless otherDotless] at same
      exact .inl (congrArg ShortName.title same)
    · rw [ofText_dotless dotless, ofText_append otherDotless] at same
      obtain ⟨rfl, rfl⟩ := ShortName.mk.inj same
      exact .inr (.inr ⟨dotless, rfl⟩)
    · rw [ofText_append dotless, ofText_dotless otherDotless] at same
      obtain ⟨rfl, rfl⟩ := ShortName.mk.inj same
      exact .inr (.inl ⟨otherDotless, rfl⟩)
    · rw [ofText_append dotless, ofText_append otherDotless] at same
      obtain ⟨rfl, rfl⟩ := ShortName.mk.inj same
      exact .inl rfl
  · rintro (rfl | ⟨dotless, rfl⟩ | ⟨dotless, rfl⟩)
    · rfl
    · rw [ofText_append dotless, ofText_dotless dotless]
    · rw [ofText_append dotless, ofText_dotless dotless]

end ShortName

theorem dot_mem_upper {text : Text} : '.' ∈ Text.upper text ↔ '.' ∈ text := by
  simp only [Text.upper, List.mem_map, toUpper_eq_dot, exists_eq_right]

theorem ofText_upper (text : Text) :
    ShortName.ofText (Text.upper text) =
      ⟨Text.upper (ShortName.ofText text).title, Text.upper (ShortName.ofText text).extension⟩ := by
  obtain ⟨title, dotless, rfl | ⟨extension, rfl⟩⟩ := exists_parts text
  · rw [ShortName.ofText_dotless dotless, ShortName.ofText_dotless (mt dot_mem_upper.1 dotless)]
    rfl
  · have upper : Text.upper (title ++ '.' :: extension) =
        Text.upper title ++ '.' :: Text.upper extension := by simp [Text.upper]
    rw [upper, ShortName.ofText_append dotless,
      ShortName.ofText_append (mt dot_mem_upper.1 dotless)]

/-- **When two short names denote the same file**: they are equal in some ASCII case, or one of them
is the other with a dot behind it. -/
theorem sameFile_iff {first second : Text} :
    SameFile first second ↔
      Text.upper first = Text.upper second ∨
        ('.' ∉ second ∧ Text.upper first = Text.upper second ++ ['.']) ∨
        ('.' ∉ first ∧ Text.upper second = Text.upper first ++ ['.']) := by
  have asTexts : SameFile first second ↔
      ShortName.ofText (Text.upper first) = ShortName.ofText (Text.upper second) := by
    rw [ofText_upper, ofText_upper, ShortName.mk.injEq]
    rfl
  rw [asTexts, ShortName.ofText_eq_iff, dot_mem_upper, dot_mem_upper]

/-- No conversion ends with a dot. -/
theorem getLast?_text {page : CodePage} {name : ShortName} (presentable : Presentable page name) :
    name.text.getLast? ≠ some '.' := by
  intro last
  unfold ShortName.text at last
  split at last
  · exact presentable.title_dotless (List.mem_of_getLast? last)
  · rename_i some_
    obtain ⟨c, rest, parts⟩ := List.exists_cons_of_ne_nil (mt List.isEmpty_iff.2 some_)
    rw [List.getLast?_append_of_ne_nil _ (List.cons_ne_nil _ _), parts,
      List.getLast?_cons_cons, ← parts] at last
    exact presentable.extension_dotless (List.mem_of_getLast? last)

namespace ShortNames

/-! ## Where short names come from -/

/-- How a host name came by its short name: it is legal under the page of a call and was given itself,
or a call gave it a conversion. -/
inductive Origin (calls : List Call) (host short : Text) : Prop where
  | itself {c : Call} (member : c ∈ calls) (about : c.host = host)
      (legal : isLegal c.page host = true) (same : short = host)
  | converted {c : Call} (member : c ∈ calls) (about : c.host = host) (tail : Option Nat)
      (same : short = (ShortName.convert c.page tail host).text)

theorem Origin.mono {calls more : List Call} {host short : Text} (origin : Origin calls host short)
    (within : calls ⊆ more) : Origin more host short := by
  cases origin with
  | itself member about legal same => exact .itself (within member) about legal same
  | converted member about tail same => exact .converted (within member) about tail same

theorem exists_freshAlias (names : ShortNames) (page : CodePage) (host : Text) :
    ∃ tail, names.freshAlias page host = (ShortName.convert page tail host).text := by
  rw [freshAlias_eq]
  split
  · exact ⟨some (names.aliasNumber page host), rfl⟩
  · exact ⟨none, rfl⟩

/-- A short name that a call hands out comes from that call. -/
theorem origin_call {names : ShortNames} {c : Call} {short : Text}
    (unseen : names.assigned[c.host]? = none)
    (seen : (names.call c).assigned[c.host]? = some short) : Origin [c] c.host short := by
  cases c with
  | reserve page host =>
      have unseen : names.assigned[host]? = none := unseen
      change (names.reserve page host).2.assigned[host]? = some short at seen
      rw [reserve_of_unseen page unseen] at seen
      split at seen
      · rename_i free
        rw [getElem?_record, if_pos rfl] at seen
        exact .itself List.mem_cons_self rfl (Bool.and_eq_true_iff.1 free).1
          (Option.some.inj seen).symm
      · rw [unseen] at seen
        cases seen
  | assign page host =>
      have unseen : names.assigned[host]? = none := unseen
      change (names.assign page host).2.assigned[host]? = some short at seen
      rw [assigned_assign, assign_of_unseen page unseen] at seen
      obtain rfl : names.newShort page host = short := Option.some.inj seen
      unfold newShort
      split
      · rename_i free
        exact .itself List.mem_cons_self rfl (Bool.and_eq_true_iff.1 free).1 rfl
      · obtain ⟨tail, made⟩ := names.exists_freshAlias page host
        exact .converted List.mem_cons_self rfl tail made

/-- **Every short name has an origin.** -/
theorem origin_run {calls : List Call} {host short : Text}
    (seen : (empty.run calls).assigned[host]? = some short) : Origin calls host short := by
  induction calls using List.reverseRecOn generalizing short with
  | nil => simp [run] at seen
  | append_singleton calls c ih =>
      rw [run_concat] at seen
      cases before : (empty.run calls).assigned[host]? with
      | some known =>
          rw [assigned_call before] at seen
          exact (Option.some.inj seen ▸ ih before).mono (List.subset_append_left _ _)
      | none =>
          by_cases about : host = c.host
          · subst about
            exact (origin_call before seen).mono (List.subset_append_right _ _)
          · rw [assigned_call_of_ne _ c about, before] at seen
            cases seen

/-! ## Host names that share a file -/

/-- A legal host name ends with a dot and is its own short name, and another short name is the same
without the dot. -/
structure KeepsDot (calls : List Call) (host short otherShort : Text) : Prop where
  legal : ∃ c ∈ calls, c.host = host ∧ isLegal c.page host = true
  own : short = host
  dotless : '.' ∉ otherShort
  dotted : Text.upper host = Text.upper otherShort ++ ['.']

/-- A short name that ends with a dot was not made. -/
theorem keepsDot_of_dotted {calls : List Call} {host short otherShort : Text}
    (seen : (empty.run calls).assigned[host]? = some short) (dotless : '.' ∉ otherShort)
    (dotted : Text.upper short = Text.upper otherShort ++ ['.']) :
    KeepsDot calls host short otherShort := by
  cases origin_run seen with
  | itself member about legal same =>
      exact ⟨⟨_, member, about, legal⟩, same, dotless, same ▸ dotted⟩
  | @converted c member about tail same =>
      have presentable := presentable_convert c.page tail host
      rw [same, presentable.upper_text] at dotted
      exact absurd (by simp [dotted]) (getLast?_text presentable)

/-- **Which host names share a file.**  After any calls, under any pages, two different host names
have short names that denote the same file of the guest just when one of the host names is legal, ends
with a dot and is its own short name, and the other's short name is the same without the dot. -/
theorem sameFile_of_run {calls : List Call} {host other short otherShort : Text}
    (seen : (empty.run calls).assigned[host]? = some short)
    (seenOther : (empty.run calls).assigned[other]? = some otherShort) (different : host ≠ other) :
    SameFile short otherShort ↔
      KeepsDot calls host short otherShort ∨ KeepsDot calls other otherShort short := by
  rw [sameFile_iff]
  constructor
  · rintro (same | ⟨dotless, dotted⟩ | ⟨dotless, dotted⟩)
    · exact absurd ((consistent_run calls).injective _ _ _ _ seen seenOther same) different
    · exact .inl (keepsDot_of_dotted seen dotless dotted)
    · exact .inr (keepsDot_of_dotted seenOther dotless dotted)
  · rintro (keeps | keeps)
    · exact .inr (.inl ⟨keeps.dotless, keeps.own ▸ keeps.dotted⟩)
    · exact .inr (.inr ⟨keeps.dotless, keeps.own ▸ keeps.dotted⟩)

/-! ## Poles -/

/-- A legal name that ends with a dot, and two that are converted: one to the same title, and one to
a title that is taken. -/
def dottedCalls : List Call :=
  [.reserve .western "Readme.".toList, .assign .western ".readme".toList,
    .assign .western "read me".toList]

/-- The alias of one shares its file with the legal name, that of the other does not. -/
theorem dottedCalls_share :
    let names := empty.run dottedCalls
    names.assigned["Readme.".toList]? = some "Readme.".toList ∧
      names.assigned[".readme".toList]? = some "README".toList ∧
      names.assigned["read me".toList]? = some "README~1".toList ∧
      (SameFile "Readme.".toList "README".toList ↔
        KeepsDot dottedCalls "Readme.".toList "Readme.".toList "README".toList ∨
          KeepsDot dottedCalls ".readme".toList "README".toList "Readme.".toList) ∧
      SameFile "Readme.".toList "README".toList ∧ ¬ SameFile "Readme.".toList "README~1".toList := by
  intro names
  have kept : names.assigned["Readme.".toList]? = some "Readme.".toList := by decide +kernel
  have converted : names.assigned[".readme".toList]? = some "README".toList := by decide +kernel
  exact ⟨kept, converted, by decide +kernel, sameFile_of_run kept converted (by decide), by decide,
    by decide⟩

/-- Two legal names, each its own short name, that denote the same file. -/
theorem dotted_sameFile :
    let names := empty.run [.assign .western "A".toList, .assign .western "A.".toList]
    names.assigned["A".toList]? = some "A".toList ∧
      names.assigned["A.".toList]? = some "A.".toList ∧
      "A".toList ≠ "A.".toList ∧ SameFile "A".toList "A.".toList := by
  decide +kernel

end ShortNames

end GuestDos.Naming
