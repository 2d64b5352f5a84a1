import KernelHacking.Lib.UserMem

/-! # Records in memory

A record of unsigned numbers as it lies in memory: field after field, each in its own number of
bytes, the lowest byte first.  `fields_record` reads back what `record` writes, whatever follows it,
and every sequence of bytes of the right length is the record of the fields read from it
(`record_fields`). -/

namespace Layout

open Uaccess

/-! ### Numbers -/

/-- The `n` lowest bytes of a number, the lowest one first. -/
def bytes : ℕ → ℕ → List U8
  | 0, _ => []
  | n + 1, x => BitVec.ofNat 8 x :: bytes n (x / 256)

/-- The number they stand for. -/
def value : List U8 → ℕ
  | [] => 0
  | b :: bs => b.toNat + 256 * value bs

@[simp] theorem length_bytes (n x : ℕ) : (bytes n x).length = n := by
  induction n generalizing x with
  | zero => rfl
  | succ n ih => rw [bytes, List.length_cons, ih]

theorem value_bytes {n x : ℕ} (h : x < 256 ^ n) : value (bytes n x) = x := by
  induction n generalizing x with
  | zero => rw [bytes, value]; omega
  | succ n ih =>
      rw [Nat.pow_succ] at h
      rw [bytes, value, ih (by omega), BitVec.toNat_ofNat]
      omega

theorem value_lt (bs : List U8) : value bs < 256 ^ bs.length := by
  induction bs with
  | nil => decide
  | cons b bs ih =>
      have hb := b.isLt
      rw [value, List.length_cons, Nat.pow_succ]
      omega

theorem bytes_value (bs : List U8) : bytes bs.length (value bs) = bs := by
  induction bs with
  | nil => rfl
  | cons b bs ih =>
      have hb := b.isLt
      have hdiv : (b.toNat + 256 * value bs) / 256 = value bs := by omega
      rw [List.length_cons, bytes, value, hdiv, ih]
      congr 1
      apply BitVec.eq_of_toNat_eq
      rw [BitVec.toNat_ofNat]
      omega

/-! ### Records -/

/-- The bytes of a record, given by the widths and values of its fields. -/
def record : List (ℕ × ℕ) → List U8
  | [] => []
  | f :: fs => bytes f.1 f.2 ++ record fs

/-- The fields of given widths. -/
def fields : List ℕ → List U8 → List ℕ
  | [], _ => []
  | w :: ws, bs => value (bs.take w) :: fields ws (bs.drop w)

theorem length_record (fs : List (ℕ × ℕ)) : (record fs).length = (fs.map Prod.fst).sum := by
  induction fs with
  | nil => rfl
  | cons f fs ih =>
      rw [record, List.length_append, length_bytes, ih, List.map_cons, List.sum_cons]

/-- What has been written is read back. -/
theorem fields_record {fs : List (ℕ × ℕ)} (h : ∀ f ∈ fs, f.2 < 256 ^ f.1) (rest : List U8) :
    fields (fs.map Prod.fst) (record fs ++ rest) = fs.map Prod.snd := by
  induction fs with
  | nil => rfl
  | cons f fs ih =>
      have hlen : (bytes f.1 f.2).length = f.1 := length_bytes _ _
      rw [List.map_cons, List.map_cons, record, fields, List.append_assoc,
        List.take_left' hlen, List.drop_left' hlen, value_bytes (h f List.mem_cons_self),
        ih fun g hg => h g (List.mem_cons_of_mem f hg)]

/-- Bytes of the right length are the record of what is read from them. -/
theorem record_fields {ws : List ℕ} {bs : List U8} (h : bs.length = ws.sum) :
    record (ws.zip (fields ws bs)) = bs := by
  induction ws generalizing bs with
  | nil =>
      rw [List.sum_nil, List.length_eq_zero_iff] at h
      rw [h]
      rfl
  | cons w ws ih =>
      rw [List.sum_cons] at h
      have htake : (bs.take w).length = w := by rw [List.length_take]; omega
      have hdrop : (bs.drop w).length = ws.sum := by rw [List.length_drop]; omega
      have hw : bytes w (value (bs.take w)) = bs.take w := by
        have := bytes_value (bs.take w)
        rwa [htake] at this
      rw [fields, List.zip_cons_cons, record, hw, ih hdrop, List.take_append_drop]

/-- A field fits its width. -/
theorem fields_lt {ws : List ℕ} {bs : List U8} (h : bs.length = ws.sum) :
    ∀ f ∈ ws.zip (fields ws bs), f.2 < 256 ^ f.1 := by
  induction ws generalizing bs with
  | nil => intro f hf; cases hf
  | cons w ws ih =>
      rw [List.sum_cons] at h
      have htake : (bs.take w).length = w := by rw [List.length_take]; omega
      have hdrop : (bs.drop w).length = ws.sum := by rw [List.length_drop]; omega
      intro f hf
      rw [fields, List.zip_cons_cons, List.mem_cons] at hf
      rcases hf with rfl | hf
      · have := value_lt (bs.take w)
        rwa [htake] at this
      · exact ih hdrop f hf

end Layout
