/-
# GuestDos.Proofs.Kernel.Paragraphs -- what a run of requests hands out

Private memory is asked again and again, and a request that is refused does not end the run.  The
cursor never reaches the limit, a request is served exactly if it asks for no more than what
remains, and what the served requests were given lies side by side from the start of the range up
to the cursor.

* `request`, `after`, `answers` -- one request, what several leave, and how they are answered.
* `Grant`, `grants` -- the paragraphs that were handed out, in order of request.
* `Serves` -- how a request is answered inside a range; `serves_of_inside`.
* `Adjoining` -- grants without gaps; `adjoining_grants` -- those of a run, from any state.
* `grants_adjoin` -- every run in every range.
-/
import GuestDos.Kernel.PrivateMemory

namespace GuestDos.Kernel.PrivateMemory

set_option autoImplicit false

/-! ## Requests -/

/-- The answer to a request, and what is left after it; a refused request leaves everything. -/
def request (p : PrivateMemory) (paragraphs : UInt16) : Except KernelError UInt16 × PrivateMemory :=
  match p.take paragraphs with
  | .ok (segment, rest) => (.ok segment, rest)
  | .error failure => (.error failure, p)

/-- What is left after requests. -/
def after (p : PrivateMemory) (requests : List UInt16) : PrivateMemory :=
  requests.foldl (fun now paragraphs => (now.request paragraphs).2) p

/-- A request and its answer. -/
structure Reply where
  asked : UInt16
  answer : Except KernelError UInt16

/-- How requests are answered, one after the other. -/
def answers : PrivateMemory → List UInt16 → List Reply
  | _, [] => []
  | p, paragraphs :: rest =>
      ⟨paragraphs, (p.request paragraphs).1⟩ :: (p.request paragraphs).2.answers rest

/-- Paragraphs that were handed out together. -/
structure Grant where
  first : UInt16
  count : UInt16
deriving DecidableEq, Repr

namespace Grant

/-- The paragraph just past the grant. -/
def finish (grant : Grant) : Nat :=
  grant.first.toNat + grant.count.toNat

/-- The paragraph belongs to the grant. -/
def Contains (grant : Grant) (paragraph : Nat) : Prop :=
  grant.first.toNat ≤ paragraph ∧ paragraph < grant.finish

end Grant

/-- What a request was given, if it was served. -/
def Reply.grant? (reply : Reply) : Option Grant :=
  match reply.answer with
  | .ok segment => some ⟨segment, reply.asked⟩
  | .error _ => none

/-- What requests are given, in order; refused ones are given nothing. -/
def grants (p : PrivateMemory) (requests : List UInt16) : List Grant :=
  (p.answers requests).filterMap Reply.grant?

/-- The cursor has not reached the limit. -/
def Inside (p : PrivateMemory) : Prop :=
  p.next.toNat < p.limit.toNat

/-- How a request is answered inside a range. -/
structure Serves (p : PrivateMemory) (paragraphs : UInt16) : Prop where
  served_iff : (∃ segment, (p.request paragraphs).1 = .ok segment) ↔ paragraphs ≤ p.remaining
  /-- A served request is given the cursor, which moves on as the rest shrinks. -/
  served : paragraphs ≤ p.remaining →
    (p.request paragraphs).1 = .ok p.next ∧
    (p.request paragraphs).2.next.toNat = p.next.toNat + paragraphs.toNat ∧
    (p.request paragraphs).2.remaining.toNat + paragraphs.toNat = p.remaining.toNat
  /-- A refused request changes nothing and says what was asked, where, and the limit. -/
  refused : ¬ paragraphs ≤ p.remaining →
    p.request paragraphs = (.error (.outOfTableMemory paragraphs p.next p.limit), p)
  /-- A smaller request is served after a refused one. -/
  recovers : ¬ paragraphs ≤ p.remaining → ∀ fewer ≤ p.remaining,
    ((p.request paragraphs).2.request fewer).1 = .ok p.next

section Requests

variable {p : PrivateMemory} {paragraphs : UInt16}

theorem request_of_room (room : paragraphs.toNat + p.next.toNat < p.limit.toNat) :
    p.request paragraphs = (.ok p.next, ⟨p.next + paragraphs, p.limit⟩) := by
  unfold request
  rw [(take_eq_ok_iff _ _ _ _).2 ⟨room, rfl, rfl⟩]

theorem request_of_no_room (full : ¬ paragraphs.toNat + p.next.toNat < p.limit.toNat) :
    p.request paragraphs = (.error (.outOfTableMemory paragraphs p.next p.limit), p) := by
  have refused : p.take paragraphs = .error (.outOfTableMemory paragraphs p.next p.limit) :=
    if_pos (Nat.le_of_not_lt full)
  unfold request
  rw [refused]

theorem toNat_remaining (p : PrivateMemory) :
    p.remaining.toNat = p.limit.toNat - p.next.toNat - 1 := by
  have bound := p.limit.toNat_lt
  unfold remaining
  apply UInt16.toNat_ofNat_of_lt'
  simp only [UInt16.size]
  omega

/-- What remains is what can be asked for: the two tests of a request agree. -/
theorem le_remaining_iff (inside : p.Inside) :
    paragraphs ≤ p.remaining ↔ paragraphs.toNat + p.next.toNat < p.limit.toNat := by
  unfold Inside at inside
  rw [UInt16.le_iff_toNat_le, toNat_remaining]
  omega

theorem serves_of_inside (inside : p.Inside) (paragraphs : UInt16) : p.Serves paragraphs := by
  have fits : ∀ {count}, count ≤ p.remaining ↔ count.toNat + p.next.toNat < p.limit.toNat :=
    le_remaining_iff inside
  constructor
  case served_iff =>
    constructor
    · rintro ⟨segment, served⟩
      by_cases few : paragraphs ≤ p.remaining
      · exact few
      · rw [request_of_no_room (mt fits.2 few)] at served
        cases served
    · intro few
      exact ⟨p.next, by rw [request_of_room (fits.1 few)]⟩
  case served =>
    intro few
    have room := fits.1 few
    have moved := toNat_next_add room
    rw [request_of_room room]
    refine ⟨rfl, moved, ?_⟩
    simp only [toNat_remaining, moved]
    omega
  case refused => exact fun many => request_of_no_room (mt fits.2 many)
  case recovers =>
    intro many fewer few
    rw [request_of_no_room (mt fits.2 many), request_of_room (fits.1 few)]

/-- One request leaves the limit, never moves the cursor back, and keeps it below the limit. -/
theorem request_keeps (p : PrivateMemory) (paragraphs : UInt16) :
    (p.request paragraphs).2.limit = p.limit ∧
    p.next.toNat ≤ (p.request paragraphs).2.next.toNat ∧
    (p.Inside → (p.request paragraphs).2.Inside) := by
  by_cases room : paragraphs.toNat + p.next.toNat < p.limit.toNat
  · have moved := toNat_next_add room
    rw [request_of_room room]
    refine ⟨rfl, ?_, fun _ => ?_⟩
    · rw [moved]
      exact Nat.le_add_right _ _
    · show (p.next + paragraphs).toNat < p.limit.toNat
      omega
  · rw [request_of_no_room room]
    exact ⟨rfl, Nat.le_refl _, id⟩

end Requests

/-! ## Runs -/

theorem after_cons (p : PrivateMemory) (paragraphs : UInt16) (rest : List UInt16) :
    p.after (paragraphs :: rest) = (p.request paragraphs).2.after rest :=
  rfl

/-- What one request keeps, a run keeps. -/
theorem after_keeps (p : PrivateMemory) (requests : List UInt16) :
    (p.after requests).limit = p.limit ∧ p.next.toNat ≤ (p.after requests).next.toNat ∧
      (p.Inside → (p.after requests).Inside) := by
  induction requests generalizing p with
  | nil => exact ⟨rfl, Nat.le_refl _, id⟩
  | cons paragraphs rest ih =>
      obtain ⟨limit, moves, inside⟩ := p.request_keeps paragraphs
      obtain ⟨restLimit, restMoves, restInside⟩ := ih (p.request paragraphs).2
      rw [after_cons]
      exact ⟨restLimit.trans limit, Nat.le_trans moves restMoves, fun h => restInside (inside h)⟩

/-! ## Grants side by side -/

/-- Each grant begins where the one before ends, from paragraph `first` up to `last`. -/
def Adjoining : (first last : Nat) → List Grant → Prop
  | first, last, [] => first = last
  | first, last, grant :: rest => grant.first.toNat = first ∧ Adjoining grant.finish last rest

namespace Adjoining

variable {first last : Nat} {grants : List Grant}

theorem le (adjoining : Adjoining first last grants) : first ≤ last := by
  induction grants generalizing first with
  | nil => exact Nat.le_of_eq adjoining
  | cons grant rest ih =>
      obtain ⟨rfl, restAdjoining⟩ := adjoining
      exact Nat.le_trans (Nat.le_add_right _ _) (ih restAdjoining)

/-- Together the grants are the paragraphs from `first` up to `last`. -/
theorem contains_iff (adjoining : Adjoining first last grants) (i : Nat) :
    (∃ grant ∈ grants, grant.Contains i) ↔ first ≤ i ∧ i < last := by
  induction grants generalizing first with
  | nil =>
      have same : first = last := adjoining
      simp only [List.not_mem_nil, false_and, exists_false, false_iff]
      omega
  | cons grant rest ih =>
      obtain ⟨rfl, restAdjoining⟩ := adjoining
      have reach := restAdjoining.le
      have starts : grant.first.toNat ≤ grant.finish := Nat.le_add_right _ _
      simp only [List.mem_cons, exists_eq_or_imp]
      rw [ih restAdjoining, Grant.Contains]
      omega

/-- No paragraph is in two grants. -/
theorem pairwise (adjoining : Adjoining first last grants) :
    grants.Pairwise fun earlier later => ∀ i, ¬ (earlier.Contains i ∧ later.Contains i) := by
  induction grants generalizing first with
  | nil => exact .nil
  | cons grant rest ih =>
      obtain ⟨-, restAdjoining⟩ := adjoining
      refine .cons ?_ (ih restAdjoining)
      rintro later member i ⟨⟨-, ends⟩, inLater⟩
      have starts := ((restAdjoining.contains_iff i).1 ⟨later, member, inLater⟩).1
      exact absurd ends (Nat.not_lt.2 starts)

end Adjoining

theorem grants_cons (p : PrivateMemory) (paragraphs : UInt16) (rest : List UInt16) :
    p.grants (paragraphs :: rest) =
      ((Reply.mk paragraphs (p.request paragraphs).1).grant?).toList ++
        (p.request paragraphs).2.grants rest := by
  unfold grants
  rw [answers, List.filterMap_cons]
  cases (Reply.mk paragraphs (p.request paragraphs).1).grant? <;> rfl

/-- What a run hands out lies side by side, from the cursor before it to the cursor after it. -/
theorem adjoining_grants (p : PrivateMemory) (requests : List UInt16) :
    Adjoining p.next.toNat (p.after requests).next.toNat (p.grants requests) := by
  induction requests generalizing p with
  | nil => exact rfl
  | cons paragraphs rest ih =>
      rw [grants_cons, after_cons]
      by_cases room : paragraphs.toNat + p.next.toNat < p.limit.toNat
      · have served := request_of_room room
        have restAdjoining := ih (p.request paragraphs).2
        rw [served] at restAdjoining ⊢
        refine ⟨rfl, ?_⟩
        rw [toNat_next_add room] at restAdjoining
        exact restAdjoining
      · rw [request_of_no_room room]
        exact ih p

/-- At the limit or past it nothing is ever served, not even a request for no paragraphs. -/
theorem run_of_not_inside {p : PrivateMemory} (outside : ¬ p.Inside) (requests : List UInt16) :
    p.after requests = p ∧ p.grants requests = [] := by
  induction requests with
  | nil => exact ⟨rfl, rfl⟩
  | cons paragraphs rest ih =>
      have full : ¬ paragraphs.toNat + p.next.toNat < p.limit.toNat := by
        unfold Inside at outside
        omega
      rw [grants_cons, after_cons, request_of_no_room full]
      exact ih

/-- **What every run of requests hands out.**  In a range that is not empty the cursor stays between
the start and the limit, a request is served exactly if it asks for no more than what remains, and
what was handed out lies side by side from the start up to the cursor, without the last paragraph
of the range.  In an empty or reversed range every request is refused.  Moving the cursor never
overflows. -/
theorem grants_adjoin (start limit : UInt16) (requests : List UInt16) :
    let range : PrivateMemory := ⟨start, limit⟩
    let now := range.after requests
    let given := range.grants requests
    now.limit = limit ∧
    (start < limit →
      start ≤ now.next ∧ now.next < limit ∧
      (∀ paragraphs, now.Serves paragraphs) ∧
      Adjoining start.toNat now.next.toNat given ∧
      (given.Pairwise fun earlier later => ∀ i, ¬ (earlier.Contains i ∧ later.Contains i)) ∧
      (∀ i, (∃ grant ∈ given, grant.Contains i) ↔ start.toNat ≤ i ∧ i < now.next.toNat) ∧
      ∀ grant ∈ given, ¬ grant.Contains (limit.toNat - 1)) ∧
    (limit ≤ start → now = range ∧ given = [] ∧ ∀ paragraphs, now.request paragraphs =
      (.error (.outOfTableMemory paragraphs start limit), range)) ∧
    ∀ paragraphs segment, (now.request paragraphs).1 = .ok segment →
      now.next.toNat + paragraphs.toNat < UInt16.size ∧
      (now.request paragraphs).2.next.toNat = now.next.toNat + paragraphs.toNat := by
  intro range now given
  obtain ⟨sameLimit, moves, staysInside⟩ := range.after_keeps requests
  have adjoining : Adjoining start.toNat now.next.toNat given := range.adjoining_grants requests
  refine ⟨sameLimit, fun nonempty => ?_, fun empty => ?_, fun paragraphs segment served => ?_⟩
  · have inside : now.Inside := staysInside (UInt16.lt_iff_toNat_lt.1 nonempty)
    have below : now.next.toNat < limit.toNat := by
      rw [← show now.limit = limit from sameLimit]
      exact inside
    refine ⟨UInt16.le_iff_toNat_le.2 moves, UInt16.lt_iff_toNat_lt.2 below,
      serves_of_inside inside, adjoining, adjoining.pairwise, adjoining.contains_iff, ?_⟩
    intro grant member last
    have before := ((adjoining.contains_iff _).1 ⟨grant, member, last⟩).2
    omega
  · have outside : ¬ range.Inside := Nat.not_lt.2 (UInt16.le_iff_toNat_le.1 empty)
    obtain ⟨unchanged, nothing⟩ := run_of_not_inside outside requests
    refine ⟨unchanged, nothing, fun paragraphs => ?_⟩
    rw [show now = range from unchanged]
    apply request_of_no_room
    unfold Inside at outside
    omega
  · by_cases room : paragraphs.toNat + now.next.toNat < now.limit.toNat
    · have bound := now.limit.toNat_lt
      rw [request_of_room room]
      refine ⟨?_, toNat_next_add room⟩
      unfold UInt16.size
      omega
    · rw [request_of_no_room room] at served
      cases served

/-- A request that reaches the limit is refused, and a smaller one is served after it. -/
example : (PrivateMemory.mk 0x100 0x110).grants [8, 8, 7] = [⟨0x100, 8⟩, ⟨0x108, 7⟩] := by
  decide

end GuestDos.Kernel.PrivateMemory
