/-
  Little-endian numbers as byte lists.
-/
import Mathlib.Data.List.Basic
import Mathlib.Tactic.Ring

/-- Bytes. -/
abbrev Bytes := List UInt8

namespace LittleEndian

/-- The `k` lowest base-256 digits of a number, lowest first. -/
def encode : ℕ → ℕ → Bytes
  | 0, _ => []
  | k + 1, n => UInt8.ofNat n :: encode k (n / 256)

/-- The number with the given base-256 digits, lowest first. -/
def decode : Bytes → ℕ
  | [] => 0
  | b :: bs => b.toNat + 256 * decode bs

@[simp] theorem length_encode (k n : ℕ) : (encode k n).length = k := by
  induction k generalizing n with
  | zero => rfl
  | succ k ih => rw [encode, List.length_cons, ih]

/-- Reading back what was written gives the number modulo the range. -/
theorem decode_encode (k n : ℕ) : decode (encode k n) = n % 256 ^ k := by
  induction k generalizing n with
  | zero => rw [encode, decode, pow_zero, Nat.mod_one]
  | succ k ih =>
    have hbyte : (UInt8.ofNat n).toNat = n % 256 := UInt8.toNat_ofNat'
    rw [encode, decode, ih, hbyte, pow_succ, Nat.mul_comm (256 ^ k) 256, Nat.mod_mul]

theorem decode_encode_uint64 (n : UInt64) : UInt64.ofNat (decode (encode 8 n.toNat)) = n := by
  have hlt : n.toNat < 256 ^ 8 := n.toNat_lt
  rw [decode_encode, Nat.mod_eq_of_lt hlt, UInt64.ofNat_toNat]

end LittleEndian
