import Mathlib.Algebra.Order.Ring.Nat

set_option autoImplicit false

/- Unsigned numbers as byte strings, least significant byte first. -/
namespace LittleEndian

/-- The low `width` bytes of a number. -/
def encode : (width : Nat) → Nat → List UInt8
  | 0, _ => []
  | width + 1, number => UInt8.ofNat number :: encode width (number / 256)

def decode : List UInt8 → Nat
  | [] => 0
  | byte :: bytes => byte.toNat + 256 * decode bytes

@[simp] theorem length_encode (width number : Nat) : (encode width number).length = width := by
  induction width generalizing number with
  | zero => rfl
  | succ width ih => simp only [encode, List.length_cons, ih]

/-- Encoding keeps what fits the width. -/
theorem decode_encode_mod (width number : Nat) :
    decode (encode width number) = number % 256 ^ width := by
  induction width generalizing number with
  | zero => rw [Nat.pow_zero, Nat.mod_one, encode, decode]
  | succ width ih =>
      have widened : 256 ^ (width + 1) = 256 * 256 ^ width := by
        rw [Nat.pow_succ, Nat.mul_comm]
      rw [encode, decode, ih, widened, Nat.mod_mul, UInt8.toNat_ofNat']

/-- Encoding keeps a number that fits the width. -/
theorem decode_encode (width number : Nat) (fits : number < 256 ^ width) :
    decode (encode width number) = number := by
  rw [decode_encode_mod, Nat.mod_eq_of_lt fits]

/-- The first bytes of an encoded number encode its low end. -/
theorem take_encode {short width : Nat} (number : Nat) (inside : short ≤ width) :
    (encode width number).take short = encode short number := by
  induction short generalizing width number with
  | zero => rfl
  | succ short ih =>
      cases width with
      | zero => exact absurd inside (by omega)
      | succ width => rw [encode, encode, List.take_succ_cons, ih _ (by omega)]

theorem decode_lt (bytes : List UInt8) : decode bytes < 256 ^ bytes.length := by
  induction bytes with
  | nil => exact Nat.one_pos
  | cons byte bytes ih =>
      have small := byte.toNat_lt
      rw [decode, List.length_cons, Nat.pow_succ]
      omega

/-- Byte strings of one length that stand for the same number are the same. -/
theorem decode_inj {left right : List UInt8} (wide : left.length = right.length)
    (same : decode left = decode right) : left = right := by
  induction left generalizing right with
  | nil => exact (List.eq_nil_of_length_eq_zero wide.symm).symm
  | cons byte left ih =>
      cases right with
      | nil => cases wide
      | cons other right =>
          have small := byte.toNat_lt
          have small' := other.toNat_lt
          rw [decode, decode] at same
          have first : byte.toNat = other.toNat := by omega
          have rest : decode left = decode right := by omega
          rw [UInt8.toNat_inj.mp first, ih (Nat.succ.inj wide) rest]

end LittleEndian
