import Mathlib

/-! # Machine words

Unsigned 32-bit counters are natural numbers below `2 ^ 32` with the wrap-around written out;
64-bit clock values are bit vectors, compared through the signed reading of their difference. -/

namespace Word

/-- `a + b` on `unsigned int`: the sum modulo `2 ^ 32` (`u32Add_eq`), which a sum in range does not
need. -/
def u32Add (a b : ℕ) : ℕ := if a + b < 2 ^ 32 then a + b else (a + b) % 2 ^ 32

/-- `a - b` on `unsigned int`: the difference modulo `2 ^ 32` (`u32Sub_eq`). -/
def u32Sub (a b : ℕ) : ℕ :=
  if b ≤ a ∧ a < 2 ^ 32 then a - b else (a + (2 ^ 32 - b % 2 ^ 32)) % 2 ^ 32

theorem u32Add_eq (a b : ℕ) : u32Add a b = (a + b) % 2 ^ 32 := by
  unfold u32Add
  split
  · rename_i h; exact (Nat.mod_eq_of_lt h).symm
  · rfl

theorem u32Sub_eq (a b : ℕ) : u32Sub a b = (a + (2 ^ 32 - b % 2 ^ 32)) % 2 ^ 32 := by
  unfold u32Sub
  split
  · omega
  · rfl

theorem u32Add_of_lt {a b : ℕ} (h : a + b < 2 ^ 32) : u32Add a b = a + b := if_pos h

theorem u32Sub_of_le {a b : ℕ} (h : b ≤ a) (ha : a < 2 ^ 32) : u32Sub a b = a - b :=
  if_pos ⟨h, ha⟩

theorem u32Add_u32Sub {n : ℕ} (h : n < 2 ^ 32) : u32Add (u32Sub n 1) 1 = n := by
  rw [u32Add_eq, u32Sub_eq]
  omega

/-- An unsigned 64-bit value. -/
abbrev U64 := BitVec 64

theorem toNat_ofNat_of_lt {w n : ℕ} (h : n < 2 ^ w) : (BitVec.ofNat w n).toNat = n := by
  rw [BitVec.toNat_ofNat, Nat.mod_eq_of_lt h]

/-- `(s64)d <= 0`. -/
def s64NonPos (d : U64) : Bool := decide (d.toInt ≤ 0)

/-- `(s64)d < 0`. -/
def s64Neg (d : U64) : Bool := decide (d.toInt < 0)

/-! ### Values of a clock within half of its range

The values `w + a` with `a < 2 ^ 63` are ordered by their offset `a`, wherever the window starts. -/

theorem window_sub {a b : ℕ} (w : U64) (h : b ≤ a) :
    w + BitVec.ofNat 64 a - (w + BitVec.ofNat 64 b) = BitVec.ofNat 64 (a - b) := by
  obtain ⟨c, rfl⟩ := Nat.exists_eq_add_of_le h
  rw [Nat.add_sub_cancel_left, BitVec.ofNat_add, add_sub_add_left_eq_sub, add_sub_cancel_left]

theorem s64NonPos_ofNat {n : ℕ} (h : n < 2 ^ 63) :
    s64NonPos (BitVec.ofNat 64 n) = decide (n = 0) := by
  unfold s64NonPos
  have hnat : (BitVec.ofNat 64 n).toNat = n := toNat_ofNat_of_lt (by omega)
  rw [BitVec.toInt_eq_toNat_of_lt (by omega), hnat]
  congr 1
  simp

/-- The signed difference of two values of the window tells which is the later one. -/
theorem s64NonPos_window {a b : ℕ} (w : U64) (ha : a < 2 ^ 63) (hb : b < 2 ^ 63) :
    s64NonPos (w + BitVec.ofNat 64 a - (w + BitVec.ofNat 64 b)) = decide (a ≤ b) := by
  rcases Nat.lt_or_ge b a with h | h
  · rw [window_sub w h.le, s64NonPos_ofNat (by omega)]
    congr 1
    simp only [eq_iff_iff]
    omega
  · have hneg : w + BitVec.ofNat 64 a - (w + BitVec.ofNat 64 b) = -BitVec.ofNat 64 (b - a) := by
      rw [← window_sub w h, neg_sub]
    have hle : (-BitVec.ofNat 64 (b - a)).toInt ≤ 0 := by
      have hnat : (BitVec.ofNat 64 (b - a)).toNat = b - a := toNat_ofNat_of_lt (by omega)
      rw [BitVec.toInt_eq_toNat_cond, BitVec.toNat_neg, hnat]
      split <;> omega
    rw [hneg, decide_eq_true h]
    exact decide_eq_true hle

end Word
