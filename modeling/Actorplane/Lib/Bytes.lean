import Mathlib.Data.UInt
import Mathlib.Tactic

/-!
# Little-endian words

A number below `256 ^ width` and its `width` bytes, lowest first, determine
each other.
-/

namespace Actorplane
namespace Bytes

/-- The `width` low bytes of a number, lowest first. -/
def little : (width n : ℕ) → List UInt8
  | 0, _ => []
  | width + 1, n => UInt8.ofNat (n % 256) :: little width (n / 256)

/-- The number whose little-endian bytes these are. -/
def value : List UInt8 → ℕ
  | [] => 0
  | b :: bs => b.toNat + 256 * value bs

@[simp] theorem little_length (width n : ℕ) : (little width n).length = width := by
  induction width generalizing n with
  | zero => rfl
  | succ width ih => simp [little, ih]

theorem value_little {width n : ℕ} (h : n < 256 ^ width) : value (little width n) = n := by
  induction width generalizing n with
  | zero =>
    rw [pow_zero] at h
    simp only [little, value]
    omega
  | succ width ih =>
    rw [pow_succ] at h
    have tail : value (little width (n / 256)) = n / 256 := ih (by omega)
    have head : (UInt8.ofNat (n % 256)).toNat = n % 256 := by
      simp
    rw [little, value, tail, head]
    omega

theorem value_lt (bs : List UInt8) : value bs < 256 ^ bs.length := by
  induction bs with
  | nil => decide
  | cons b bs ih =>
    have hb := b.toNat_lt
    rw [value, List.length_cons, pow_succ]
    omega

theorem little_value (bs : List UInt8) : little bs.length (value bs) = bs := by
  induction bs with
  | nil => rfl
  | cons b bs ih =>
    have hb := b.toNat_lt
    have low : (b.toNat + 256 * value bs) % 256 = b.toNat := by omega
    have high : (b.toNat + 256 * value bs) / 256 = value bs := by omega
    rw [List.length_cons, value, little, low, high, ih, UInt8.ofNat_toNat]

theorem little_of_length {width : ℕ} {bs : List UInt8} (h : bs.length = width) :
    little width (value bs) = bs := by
  subst h
  exact little_value bs

end Bytes
end Actorplane
