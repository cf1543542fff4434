/-
# GuestDos.Machine.LittleEndian -- fixed-width little-endian bytes

The byte order of every word and double word in guest memory.

* `encode w n` -- the low `w` bytes of `n`, least significant first; `length_encode`.
* `decode` -- little-endian bytes as a natural; `decode_lt` bounds it by the byte count.
* `decode_encode` reads the low `w` bytes back; `encode_decode` is the other round trip.

Init only.
-/

namespace GuestDos.Machine.LittleEndian

set_option autoImplicit false

/-- The low `w` bytes of `n`, least significant first. -/
def encode : Nat → Nat → List UInt8
  | 0, _ => []
  | w + 1, n => UInt8.ofNat n :: encode w (n / 256)

/-- Little-endian bytes read as a natural. -/
def decode : List UInt8 → Nat
  | [] => 0
  | byte :: rest => byte.toNat + 256 * decode rest

@[simp] theorem length_encode (w n : Nat) : (encode w n).length = w := by
  induction w generalizing n with
  | zero => rfl
  | succ w ih => simp [encode, ih]

/-- What is read back is the number, less what did not fit. -/
theorem decode_encode (w n : Nat) : decode (encode w n) = n % Nat.pow 256 w := by
  induction w generalizing n with
  | zero => simp [encode, decode, Nat.mod_one]
  | succ w ih =>
    simp only [encode, decode, ih, UInt8.toNat_ofNat']
    have step : Nat.pow 256 (w + 1) = 256 * Nat.pow 256 w := Nat.mul_comm _ _
    rw [step, Nat.mod_mul]

/-- A `w`-byte reading is below the `w`-th power of 256. -/
theorem decode_lt (bytes : List UInt8) : decode bytes < Nat.pow 256 bytes.length := by
  induction bytes with
  | nil => simp [decode]
  | cons byte rest ih =>
    have small := byte.toNat_lt
    have step : Nat.pow 256 (rest.length + 1) = 256 * Nat.pow 256 rest.length := Nat.mul_comm _ _
    simp only [decode, List.length_cons, step]
    omega

/-- Reading bytes and writing them again gives the same bytes. -/
theorem encode_decode (bytes : List UInt8) : encode bytes.length (decode bytes) = bytes := by
  induction bytes with
  | nil => rfl
  | cons byte rest ih =>
    have small : byte.toNat < 256 := byte.toNat_lt
    have high : (byte.toNat + 256 * decode rest) / 256 = decode rest := by omega
    have low : UInt8.ofNat (byte.toNat + 256 * decode rest) = byte := by
      apply UInt8.toNat_inj.1
      simp only [UInt8.toNat_ofNat']
      omega
    simp [encode, decode, high, low, ih]

end GuestDos.Machine.LittleEndian
