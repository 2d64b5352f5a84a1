import KernelHacking.Lib.Word

/-! # User memory

The memory of a process as the kernel sees it: bytes at 64-bit addresses, some of which cannot be
read or written.  `getUser`, `putUser` and `copyToUser` are the access functions; none of them
faults, they report an error instead, and a failed `getUser` gives a zero byte.  `placed a bs` is
where consecutive bytes go; what a loop of `putUser` stores of them is the part of it that is
writable (`stored`). -/

namespace Uaccess

open Word

/-- A byte. -/
abbrev U8 := BitVec 8

/-- `-EFAULT` is the error of an access. -/
def EFAULT : ℤ := 14

/-- The memory of a process. -/
structure UserMem where
  byte : U64 → U8
  readable : U64 → Bool
  writable : U64 → Bool

namespace UserMem

/-- `get_user`: the error and the value, which is zero when the access fails. -/
def getUser (u : UserMem) (a : U64) : ℤ × U8 :=
  if u.readable a then (0, u.byte a) else (-EFAULT, 0)

/-- `put_user`: the error and the memory afterwards. -/
def putUser (u : UserMem) (b : U8) (a : U64) : ℤ × UserMem :=
  if u.writable a then (0, { u with byte := Function.update u.byte a b }) else (-EFAULT, u)

/-- `copy_to_user`: the number of bytes that could not be copied and the memory afterwards. -/
def copyToUser (u : UserMem) (a : U64) : List U8 → ℕ × UserMem
  | [] => (0, u)
  | b :: bs =>
      if u.writable a then
        { u with byte := Function.update u.byte a b }.copyToUser (a + 1) bs
      else ((b :: bs).length, u)

/-- `copy_from_user`: the number of bytes that could not be copied, and the bytes that are stored at
the destination: zeros in the place of those that could not. -/
def copyFromUser (u : UserMem) (a : U64) : ℕ → ℕ × List U8
  | 0 => (0, [])
  | n + 1 =>
      if u.readable a then
        let r := u.copyFromUser (a + 1) n
        (r.1, u.byte a :: r.2)
      else (n + 1, List.replicate (n + 1) 0)

end UserMem

/-! ### Consecutive bytes -/

/-- Consecutive bytes with their addresses. -/
def placed (a : U64) : List U8 → List (U64 × U8)
  | [] => []
  | b :: bs => (a, b) :: placed (a + 1) bs

/-- The part of them that can be stored. -/
def stored (u : UserMem) (a : U64) (bs : List U8) : List (U64 × U8) :=
  (placed a bs).filter fun p => u.writable p.1

/-- The part of them that a copy stores: it stops at the first address that is not writable. -/
def copied (u : UserMem) (a : U64) (bs : List U8) : List (U64 × U8) :=
  (placed a bs).takeWhile fun p => u.writable p.1

/-- The memory after storing them where that is possible. -/
def UserMem.store (u : UserMem) (a : U64) : List U8 → UserMem
  | [] => u
  | b :: bs => ((u.putUser b a).2).store (a + 1) bs

/-- The bytes are in readable memory. -/
structure UserMem.HoldsBytes (u : UserMem) (a : U64) (s : List U8) : Prop where
  readable : ∀ i < s.length, u.readable (a + BitVec.ofNat 64 i) = true
  value : ∀ i, (h : i < s.length) → u.byte (a + BitVec.ofNat 64 i) = s[i]

/-- The `n` bytes at an address can be written. -/
def UserMem.WritableAt (u : UserMem) (a : U64) (n : ℕ) : Prop :=
  ∀ i < n, u.writable (a + BitVec.ofNat 64 i) = true

theorem add_one_ofNat (a : U64) (i : ℕ) :
    a + 1 + BitVec.ofNat 64 i = a + BitVec.ofNat 64 (i + 1) := by
  apply BitVec.eq_of_toNat_eq
  simp [BitVec.toNat_add, BitVec.toNat_ofNat]
  omega

theorem add_ofNat_add (a : U64) (i j : ℕ) :
    a + BitVec.ofNat 64 i + BitVec.ofNat 64 j = a + BitVec.ofNat 64 (i + j) := by
  rw [BitVec.add_assoc, BitVec.ofNat_add]

variable {u : UserMem} {a : U64} {b : U8} {bs : List U8}

@[simp] theorem length_placed (a : U64) (bs : List U8) : (placed a bs).length = bs.length := by
  induction bs generalizing a with
  | nil => rfl
  | cons b bs ih => simp [placed, ih]

theorem getElem_placed (a : U64) (bs : List U8) (i : ℕ) (h : i < bs.length) :
    (placed a bs)[i]? = some (a + BitVec.ofNat 64 i, bs[i]) := by
  induction bs generalizing a i with
  | nil => simp at h
  | cons b bs ih =>
      cases i with
      | zero => simp [placed]
      | succ i =>
          simp only [List.length_cons, Nat.add_lt_add_iff_right] at h
          simp only [placed, List.getElem?_cons_succ, List.getElem_cons_succ, ih (a + 1) i h,
            add_one_ofNat]

theorem mem_placed {p : U64 × U8} :
    p ∈ placed a bs ↔ ∃ i, ∃ h : i < bs.length, p = (a + BitVec.ofNat 64 i, bs[i]) := by
  constructor
  · intro hp
    obtain ⟨i, hi⟩ := List.mem_iff_getElem?.mp hp
    have hlt : i < bs.length := by
      have := (List.getElem?_eq_some_iff.mp hi).1
      rwa [length_placed] at this
    rw [getElem_placed a bs i hlt] at hi
    exact ⟨i, hlt, (Option.some.inj hi).symm⟩
  · rintro ⟨i, h, rfl⟩
    exact List.mem_iff_getElem?.mpr ⟨i, getElem_placed a bs i h⟩

/-- All bytes are stored exactly when all their addresses are writable. -/
theorem stored_eq_placed_iff : stored u a bs = placed a bs ↔
    ∀ i < bs.length, u.writable (a + BitVec.ofNat 64 i) = true := by
  unfold stored
  rw [List.filter_eq_self]
  constructor
  · intro h i hi
    exact h _ (mem_placed.mpr ⟨i, hi, rfl⟩)
  · intro h p hp
    obtain ⟨i, hi, rfl⟩ := mem_placed.mp hp
    exact h i hi

/-- Where there is room for the bytes, all of them are stored. -/
theorem stored_of_writableAt {n : ℕ} (h : u.WritableAt a n) (hlen : bs.length ≤ n) :
    stored u a bs = placed a bs :=
  stored_eq_placed_iff.mpr fun i hi => h i (Nat.lt_of_lt_of_le hi hlen)

@[simp] theorem writable_putUser : (u.putUser b a).2.writable = u.writable := by
  unfold UserMem.putUser
  split
  · rfl
  · rfl

theorem UserMem.HoldsBytes.getUser {s : List U8} (h : u.HoldsBytes a s) {i : ℕ} (hi : i < s.length) :
    u.getUser (a + BitVec.ofNat 64 i) = (0, s[i]) := by
  rw [UserMem.getUser, if_pos (h.readable i hi), h.value i hi]

theorem stored_cons : stored u a (b :: bs) =
    (if u.writable a then [(a, b)] else []) ++ stored (u.putUser b a).2 (a + 1) bs := by
  unfold stored
  rw [writable_putUser, placed, List.filter_cons]
  split
  · rfl
  · rfl

theorem placed_append (a : U64) (bs cs : List U8) :
    placed a (bs ++ cs) = placed a bs ++ placed (a + BitVec.ofNat 64 bs.length) cs := by
  induction bs generalizing a with
  | nil => simp [placed]
  | cons b bs ih =>
      simp only [List.cons_append, placed, ih, List.length_cons, add_one_ofNat]

theorem stored_append (u : UserMem) (a : U64) (bs cs : List U8) :
    stored u a (bs ++ cs) = stored u a bs ++ stored u (a + BitVec.ofNat 64 bs.length) cs := by
  unfold stored
  rw [placed_append, List.filter_append]

@[simp] theorem writable_store (u : UserMem) (a : U64) (bs : List U8) :
    (u.store a bs).writable = u.writable := by
  induction bs generalizing u a with
  | nil => rfl
  | cons b bs ih => rw [UserMem.store, ih, writable_putUser]

/-- What a copy stores and what it leaves behind. -/
theorem copyToUser_fst (u : UserMem) (a : U64) (bs : List U8) :
    (u.copyToUser a bs).1 + (copied u a bs).length = bs.length := by
  induction bs generalizing u a with
  | nil => rfl
  | cons b bs ih =>
      unfold copied
      rw [UserMem.copyToUser, placed, List.takeWhile_cons]
      by_cases ha : u.writable a = true
      · rw [if_pos ha, if_pos ha, List.length_cons, List.length_cons, ← Nat.add_assoc]
        exact congrArg (· + 1) (ih { u with byte := Function.update u.byte a b } (a + 1))
      · rw [if_neg ha, if_neg ha]
        rfl

/-- A copy fills the destination. -/
theorem length_copyFromUser (u : UserMem) (a : U64) (n : ℕ) : (u.copyFromUser a n).2.length = n := by
  induction n generalizing a with
  | zero => rfl
  | succ n ih =>
      rw [UserMem.copyFromUser]
      split
      · rw [List.length_cons, ih]
      · rw [List.length_replicate]

/-- A copy succeeds exactly if all bytes can be read. -/
theorem copyFromUser_eq_zero_iff {n : ℕ} : (u.copyFromUser a n).1 = 0 ↔
    ∀ i < n, u.readable (a + BitVec.ofNat 64 i) = true := by
  induction n generalizing a with
  | zero => simp [UserMem.copyFromUser]
  | succ n ih =>
      rw [UserMem.copyFromUser]
      by_cases ha : u.readable a = true
      · rw [if_pos ha]
        show (u.copyFromUser (a + 1) n).1 = 0 ↔ _
        rw [ih]
        constructor
        · intro h i hi
          cases i with
          | zero => simpa using ha
          | succ i => rw [← add_one_ofNat]; exact h i (by omega)
        · intro h i hi
          rw [add_one_ofNat]
          exact h (i + 1) (by omega)
      · rw [if_neg ha]
        constructor
        · intro h; cases h
        · intro h
          exact absurd (by simpa using h 0 (Nat.succ_pos n)) ha

/-- What a copy that succeeds stores. -/
theorem copyFromUser_bytes {n : ℕ} (h : ∀ i < n, u.readable (a + BitVec.ofNat 64 i) = true) :
    (u.copyFromUser a n).2 = (List.range n).map fun i => u.byte (a + BitVec.ofNat 64 i) := by
  induction n generalizing a with
  | zero => rfl
  | succ n ih =>
      have ha : u.readable a = true := by simpa using h 0 (Nat.succ_pos n)
      have hrest : ∀ i < n, u.readable (a + 1 + BitVec.ofNat 64 i) = true := by
        intro i hi
        rw [add_one_ofNat]
        exact h (i + 1) (by omega)
      rw [UserMem.copyFromUser, if_pos ha, List.range_succ_eq_map, List.map_cons, List.map_map]
      show u.byte a :: (u.copyFromUser (a + 1) n).2 = _
      rw [ih hrest]
      refine congrArg₂ List.cons (by simp) (List.map_congr_left fun i _ => ?_)
      rw [add_one_ofNat]
      rfl

/-! ### Memory after a store -/

@[simp] theorem readable_putUser : (u.putUser b a).2.readable = u.readable := by
  unfold UserMem.putUser
  split
  · rfl
  · rfl

@[simp] theorem readable_store (u : UserMem) (a : U64) (bs : List U8) :
    (u.store a bs).readable = u.readable := by
  induction bs generalizing u a with
  | nil => rfl
  | cons b bs ih => rw [UserMem.store, ih, readable_putUser]

/-- A copy to memory that is all writable stores everything. -/
theorem copyToUser_of_writable (u : UserMem) (a : U64) (bs : List U8)
    (h : ∀ i < bs.length, u.writable (a + BitVec.ofNat 64 i) = true) :
    u.copyToUser a bs = (0, u.store a bs) := by
  induction bs generalizing u a with
  | nil => rfl
  | cons b bs ih =>
      have ha : u.writable a = true := by simpa using h 0 (Nat.succ_pos _)
      rw [UserMem.copyToUser, if_pos ha, UserMem.store, UserMem.putUser, if_pos ha]
      apply ih
      intro i hi
      rw [add_one_ofNat]
      exact h (i + 1) (Nat.succ_lt_succ hi)

/-- A copy succeeds exactly if everything can be written. -/
theorem copyToUser_eq_zero_iff : (u.copyToUser a bs).1 = 0 ↔
    ∀ i < bs.length, u.writable (a + BitVec.ofNat 64 i) = true := by
  constructor
  · intro h
    have hlen := copyToUser_fst u a bs
    rw [h, Nat.zero_add] at hlen
    have hall : copied u a bs = placed a bs := by
      unfold copied at hlen ⊢
      refine List.IsPrefix.eq_of_length (List.takeWhile_prefix _) ?_
      rw [hlen, length_placed]
    unfold copied at hall
    rw [List.takeWhile_eq_self_iff] at hall
    intro i hi
    exact hall _ (mem_placed.mpr ⟨i, hi, rfl⟩)
  · intro h
    rw [copyToUser_of_writable u a bs h]

/-- A store leaves every other address alone. -/
theorem byte_store_of_ne (u : UserMem) (a : U64) (bs : List U8) {x : U64}
    (h : ∀ i < bs.length, x ≠ a + BitVec.ofNat 64 i) : (u.store a bs).byte x = u.byte x := by
  induction bs generalizing u a with
  | nil => rfl
  | cons b bs ih =>
      have hx : x ≠ a := by simpa using h 0 (Nat.succ_pos _)
      rw [UserMem.store, ih]
      · unfold UserMem.putUser
        split
        · exact Function.update_of_ne hx b u.byte
        · rfl
      · intro i hi
        rw [add_one_ofNat]
        exact h (i + 1) (Nat.succ_lt_succ hi)

/-- The bytes are there after a store, unless it goes round the address space. -/
theorem byte_store (u : UserMem) (a : U64) (bs : List U8) (hlen : bs.length ≤ 2 ^ 64)
    (h : ∀ i < bs.length, u.writable (a + BitVec.ofNat 64 i) = true) (i : ℕ) (hi : i < bs.length) :
    (u.store a bs).byte (a + BitVec.ofNat 64 i) = bs[i] := by
  induction bs generalizing u a i with
  | nil => simp at hi
  | cons b bs ih =>
      have ha : u.writable a = true := by simpa using h 0 (Nat.succ_pos _)
      rw [List.length_cons] at hlen
      cases i with
      | zero =>
          rw [UserMem.store, byte_store_of_ne]
          · rw [UserMem.putUser, if_pos ha]
            simp
          · intro j hj e
            rw [add_one_ofNat] at e
            have hval := congrArg BitVec.toNat (add_left_cancel e)
            simp only [BitVec.toNat_ofNat] at hval
            rw [Nat.mod_eq_of_lt (by omega), Nat.mod_eq_of_lt (by omega)] at hval
            omega
      | succ i =>
          rw [UserMem.store, ← add_one_ofNat]
          refine ih _ _ (by omega) ?_ i (Nat.lt_of_succ_lt_succ hi)
          intro j hj
          rw [writable_putUser, add_one_ofNat]
          exact h (j + 1) (Nat.succ_lt_succ hj)

theorem holdsBytes_store (hlen : bs.length ≤ 2 ^ 64)
    (hw : ∀ i < bs.length, u.writable (a + BitVec.ofNat 64 i) = true)
    (hr : ∀ i < bs.length, u.readable (a + BitVec.ofNat 64 i) = true) :
    (u.store a bs).HoldsBytes a bs :=
  ⟨fun i hi => by rw [readable_store]; exact hr i hi, fun i hi => byte_store u a bs hlen hw i hi⟩

/-! ### Reading what memory holds -/

/-- A copy of what memory holds. -/
theorem UserMem.HoldsBytes.copyFromUser {s : List U8} (h : u.HoldsBytes a s) :
    u.copyFromUser a s.length = (0, s) := by
  apply Prod.ext
  · exact copyFromUser_eq_zero_iff.mpr h.readable
  · rw [copyFromUser_bytes h.readable]
    apply List.ext_getElem
    · simp
    · intro i h₁ h₂
      rw [List.getElem_map, List.getElem_range]
      exact h.value i h₂

/-- Readable memory holds what a copy of it gives. -/
theorem holdsBytes_copyFromUser {n : ℕ} (h : (u.copyFromUser a n).1 = 0) :
    u.HoldsBytes a (u.copyFromUser a n).2 := by
  have hr := copyFromUser_eq_zero_iff.mp h
  refine ⟨?_, ?_⟩
  · rw [length_copyFromUser]
    exact hr
  · intro i hi
    simp only [copyFromUser_bytes hr]
    rw [List.getElem_map, List.getElem_range]

theorem UserMem.holdsBytes_append {s s' : List U8} : u.HoldsBytes a (s ++ s') ↔
    u.HoldsBytes a s ∧ u.HoldsBytes (a + BitVec.ofNat 64 s.length) s' := by
  constructor
  · intro h
    refine ⟨⟨?_, ?_⟩, ⟨?_, ?_⟩⟩
    · intro i hi
      exact h.readable i (by rw [List.length_append]; omega)
    · intro i hi
      rw [h.value i (by rw [List.length_append]; omega), List.getElem_append_left hi]
    · intro i hi
      rw [add_ofNat_add]
      exact h.readable _ (by rw [List.length_append]; omega)
    · intro i hi
      rw [add_ofNat_add, h.value _ (by rw [List.length_append]; omega)]
      simp
  · rintro ⟨h, h'⟩
    refine ⟨?_, ?_⟩
    · intro i hi
      rw [List.length_append] at hi
      by_cases hs : i < s.length
      · exact h.readable i hs
      · have hr := h'.readable (i - s.length) (by omega)
        rwa [add_ofNat_add, Nat.add_sub_cancel' (by omega)] at hr
    · intro i hi
      rw [List.length_append] at hi
      by_cases hs : i < s.length
      · rw [h.value i hs, List.getElem_append_left hs]
      · have hv := h'.value (i - s.length) (by omega)
        rw [add_ofNat_add, Nat.add_sub_cancel' (by omega)] at hv
        rw [hv, List.getElem_append_right (by omega)]

end Uaccess
