import Mathlib.Data.Nat.Bitwise
import Mathlib.Logic.Function.Basic

/-!
# Byte memory

Memory as a byte at each address, with little-endian numbers of a given width, and the arithmetic of
aligned addresses. A number is read back as it was written, and writes outside its bytes do not
change it.
-/

namespace ByteMemory

abbrev Memory := ℕ → UInt8

/-- The number in the `w` bytes at the address. -/
def read (m : Memory) (a : ℕ) : ℕ → ℕ
  | 0 => 0
  | w + 1 => (m a).toNat + 256 * read m (a + 1) w

/-- The number into the `w` bytes at the address. -/
def write (m : Memory) (a : ℕ) : ℕ → ℕ → Memory
  | 0, _ => m
  | w + 1, v => write (Function.update m a (UInt8.ofNat v)) (a + 1) w (v / 256)

section Words

variable {m m' : Memory} {a b w w' v : ℕ}

theorem read_of_bytes (h : ∀ i < w, m (a + i) = m' (b + i)) : read m a w = read m' b w := by
  induction w generalizing a b with
  | zero => rfl
  | succ w ih =>
    have hhead : m a = m' b := h 0 (Nat.succ_pos w)
    have htail : read m (a + 1) w = read m' (b + 1) w := ih fun i hi => by
      have hbyte := h (i + 1) (Nat.succ_lt_succ hi)
      rwa [Nat.add_comm i 1, ← Nat.add_assoc, ← Nat.add_assoc] at hbyte
    show (m a).toNat + 256 * read m (a + 1) w = (m' b).toNat + 256 * read m' (b + 1) w
    rw [hhead, htail]

theorem write_apply (h : b < a ∨ a + w ≤ b) : write m a w v b = m b := by
  induction w generalizing m a v with
  | zero => rfl
  | succ w ih =>
    have hne : b ≠ a := by omega
    show write (Function.update m a _) (a + 1) w (v / 256) b = m b
    rw [ih (by omega), Function.update_of_ne hne]

theorem read_write (m : Memory) (a w v : ℕ) : read (write m a w v) a w = v % 256 ^ w := by
  induction w generalizing m a v with
  | zero => exact (Nat.mod_one v).symm
  | succ w ih =>
    show (write (Function.update m a (UInt8.ofNat v)) (a + 1) w (v / 256) a).toNat +
      256 * read (write (Function.update m a (UInt8.ofNat v)) (a + 1) w (v / 256)) (a + 1) w = _
    have hsplit : v % 256 ^ (w + 1) = v % 256 + 256 * (v / 256 % 256 ^ w) := by
      rw [pow_succ', Nat.mod_mul]
    rw [ih, write_apply (.inl (Nat.lt_succ_self a)), Function.update_self, UInt8.toNat_ofNat', hsplit]

theorem read_write_of_lt (h : v < 256 ^ w) : read (write m a w v) a w = v := by
  rw [read_write, Nat.mod_eq_of_lt h]

theorem read_write_apart (h : b + w' ≤ a ∨ a + w ≤ b) :
    read (write m a w v) b w' = read m b w' :=
  read_of_bytes fun _ _ => write_apply (by omega)

end Words

/-! ## Alignment -/

theorem and_not_mask {n k w : ℕ} (hk : k ≤ w) (hn : n < 2 ^ w) :
    n &&& (2 ^ w - 1 - (2 ^ k - 1)) = n - n % 2 ^ k := by
  have hmask : 2 ^ w - 1 - (2 ^ k - 1) = 2 ^ k * (2 ^ (w - k) - 1) := by
    have hpow : 2 ^ w = 2 ^ k * 2 ^ (w - k) := by rw [← pow_add, Nat.add_sub_of_le hk]
    have hpos : 0 < 2 ^ k := Nat.two_pow_pos k
    rw [Nat.mul_sub_one, ← hpow]
    omega
  have hround : n - n % 2 ^ k = 2 ^ k * (n / 2 ^ k) := by
    have hdiv := Nat.div_add_mod n (2 ^ k)
    omega
  rw [hmask, hround]
  refine Nat.eq_of_testBit_eq fun j => ?_
  rw [Nat.testBit_and, Nat.testBit_two_pow_mul, Nat.testBit_two_pow_mul, Nat.testBit_two_pow_sub_one,
    Nat.testBit_div_two_pow]
  by_cases hj : k ≤ j
  · by_cases hw : j < w
    · have hlt : j - k < w - k := by omega
      simp [hj, hlt]
    · have hbit : n.testBit j = false :=
        Nat.testBit_lt_two_pow (Nat.lt_of_lt_of_le hn (Nat.pow_le_pow_right (by decide) (by omega)))
      simp [hbit, hj]
  · simp [hj]

/-- The next multiple of the alignment. -/
def alignUp (n alignment : ℕ) : ℕ := n + (alignment - 1) - (n + (alignment - 1)) % alignment

theorem dvd_alignUp (n alignment : ℕ) : alignment ∣ alignUp n alignment :=
  Nat.dvd_sub_mod _

theorem le_alignUp (n : ℕ) {alignment : ℕ} (h : 0 < alignment) : n ≤ alignUp n alignment := by
  have hlt := Nat.mod_lt (n + (alignment - 1)) h
  unfold alignUp
  omega

end ByteMemory
