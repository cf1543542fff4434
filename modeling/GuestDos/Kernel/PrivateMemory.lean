/-
# GuestDos.Kernel.PrivateMemory -- paragraphs for the internal tables

The cursor only moves forwards: tables are laid out once while booting and never freed.

* `take` hands out paragraphs or reports what was asked for, where, and the limit.
* `take_eq_ok_iff` -- a request is served exactly if it ends below the limit, whose last paragraph
  is never handed out; then the cursor moves past it.

Init only.
-/
import GuestDos.Kernel.Error
import GuestDos.Kernel.Layout

namespace GuestDos.Kernel

set_option autoImplicit false

/-- What is left of a range of paragraphs. -/
structure PrivateMemory where
  /-- The next paragraph to be handed out. -/
  next : UInt16
  /-- The end of the range. -/
  limit : UInt16
deriving DecidableEq, Repr

namespace PrivateMemory

/-- The range of a machine that has just been switched on. -/
def fresh : PrivateMemory :=
  ⟨Layout.privateStart, Layout.privateLimit⟩

/-- Hands out `paragraphs` paragraphs; the last one before the limit is never handed out. -/
def take (p : PrivateMemory) (paragraphs : UInt16) : Except KernelError (UInt16 × PrivateMemory) :=
  if p.limit.toNat ≤ paragraphs.toNat + p.next.toNat then
    .error (.outOfTableMemory paragraphs p.next p.limit)
  else
    .ok (p.next, { p with next := p.next + paragraphs })

/-- The largest request that can be served. -/
def remaining (p : PrivateMemory) : UInt16 :=
  UInt16.ofNat (p.limit.toNat - p.next.toNat - 1)

theorem take_eq_ok_iff (p : PrivateMemory) (paragraphs segment : UInt16) (q : PrivateMemory) :
    p.take paragraphs = .ok (segment, q) ↔
      paragraphs.toNat + p.next.toNat < p.limit.toNat ∧ segment = p.next ∧
        q = ⟨p.next + paragraphs, p.limit⟩ := by
  unfold take
  split
  · rename_i full
    simp only [reduceCtorEq, false_iff]
    omega
  · rename_i room
    simp only [Except.ok.injEq, Prod.mk.injEq]
    constructor
    · rintro ⟨rfl, rfl⟩
      exact ⟨by omega, rfl, rfl⟩
    · rintro ⟨-, rfl, rfl⟩
      exact ⟨rfl, rfl⟩

/-- Moving the cursor past a request that was served does not overflow. -/
theorem toNat_next_add {p : PrivateMemory} {paragraphs : UInt16}
    (room : paragraphs.toNat + p.next.toNat < p.limit.toNat) :
    (p.next + paragraphs).toNat = p.next.toNat + paragraphs.toNat := by
  have bound := p.limit.toNat_lt
  rw [UInt16.toNat_add]
  omega

end PrivateMemory

end GuestDos.Kernel
