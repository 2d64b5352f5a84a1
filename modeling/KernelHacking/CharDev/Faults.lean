import KernelHacking.CharDev.Cursor

/-! # Faulting user memory

`device_write` and `device_read` count a byte whether or not `get_user` or `put_user` has moved it.
So what they report is true only where nothing faults: all the bytes that are counted could be read,
or written.  `transfers_honest_iff` says so, in both directions, for every state of the device and
every memory of the process. -/

namespace KernelHacking.CharDev

open TraceProg Prog Word Uaccess CString

/-- What `device_write` reports is true: as many bytes as it returns were readable, and are now the
first bytes of `Message`. -/
def WriteHonest (d : Device) (u : UserMem) (buffer length : U64) : Prop :=
  ∀ v d' t, (⟨u, .write buffer length⟩ : Call).Returns d v d' t → ∃ n : ℕ, v = n ∧
    ∀ i < n, u.readable (buffer + BitVec.ofNat 64 i) = true ∧
      d'.mem (BitVec.ofNat 64 i) = u.byte (buffer + BitVec.ofNat 64 i)

/-- What `device_read` reports is true: exactly as many unread bytes as it returns were stored in the
buffer, and the cursor has moved over them. -/
def ReadHonest (d : Device) (u : UserMem) (buffer length : U64) : Prop :=
  ∀ v d' t, (⟨u, .read buffer length⟩ : Call).Returns d v d' t → ∃ n : ℕ, v = n ∧
    ∃ k, d.messagePtr = some k ∧ d'.messagePtr = some (k + BitVec.ofNat 64 n) ∧
      stores t = placed buffer ((List.range n).map (d.from k))

/-- All bytes that `device_write` counts can be read. -/
def ReadableFor (u : UserMem) (buffer length : U64) : Prop :=
  ∀ i < min length.toNat BUF_LEN, u.readable (buffer + BitVec.ofNat 64 i) = true

/-- All bytes that `device_read` counts can be written: those of the caller's buffer for which there
is an unread byte.  (And their number is in the range of an `int`.) -/
def WritableFor (d : Device) (u : UserMem) (buffer length : U64) : Prop :=
  ∀ k, d.messagePtr = some k → ∀ i < length.toNat, (∀ j ≤ i, d.from k j ≠ 0) →
    i + 1 < 2 ^ 31 ∧ u.writable (buffer + BitVec.ofNat 64 i) = true

section
variable {d : Device} {u : UserMem} {k buffer length : U64}

theorem writeHonest_iff : WriteHonest d u buffer length ↔ ReadableFor u buffer length := by
  obtain ⟨t, hr, -⟩ := (returns_iff (c := ⟨u, .write buffer length⟩) (d := d)).mpr rfl
  have hmem : ∀ i < min length.toNat BUF_LEN,
      (d.written u buffer (min length.toNat BUF_LEN)).mem (BitVec.ofNat 64 i) =
        (u.getUser (buffer + BitVec.ofNat 64 i)).2 := by
    intro i hi
    have hnat : (BitVec.ofNat 64 i).toNat = i := toNat_ofNat_of_lt (by unfold BUF_LEN at hi; omega)
    show overwrite u buffer _ d.mem _ = _
    rw [overwrite, if_pos (by omega)]
  constructor
  · intro h i hi
    obtain ⟨n, hn, hall⟩ := h _ _ t hr
    obtain rfl : min length.toNat BUF_LEN = n := Int.ofNat.inj hn
    exact (hall i hi).1
  · intro h v d' t' hr'
    obtain ⟨rfl, rfl, -⟩ := hr.unique hr'
    refine ⟨_, rfl, ?_⟩
    intro i hi
    refine ⟨h i hi, ?_⟩
    rw [hmem i hi, UserMem.getUser, if_pos (h i hi)]

/-- The unread bytes, and where the reading stops. -/
theorem lt_length_unread_iff {n i : ℕ} :
    i < (d.unread k n).length ↔ i < n ∧ ∀ j ≤ i, d.from k j ≠ 0 := by
  unfold Device.unread
  constructor
  · intro h
    refine ⟨h.trans_le (length_upTo_le _ _), ?_⟩
    intro j hj
    exact CString.ne_zero_of_lt (Nat.lt_of_le_of_lt hj h)
  · intro hall
    obtain ⟨hi, hne⟩ := hall
    by_contra hge
    exact hne _ (Nat.le_of_not_lt hge) (stops (by omega))

theorem intOf_eq_natCast {n m : ℕ} (h : intOf n = m) : m < 2 ^ 31 := by
  unfold intOf at h
  have := BitVec.toInt_lt (x := BitVec.ofNat 32 n)
  omega

theorem readHonest_iff : ReadHonest d u buffer length ↔ WritableFor d u buffer length := by
  constructor
  · intro h k hk i hi hne
    obtain ⟨t, hr, hst⟩ := (returns_iff (c := ⟨u, .read buffer length⟩) (d := d)).mpr
      (Option.map_eq_some_iff.mpr ⟨k, hk, rfl⟩)
    obtain ⟨n, hn, k', hk', hptr, hplaced⟩ := h _ _ t hr
    obtain rfl : k' = k := Option.some.inj (hk'.symm.trans hk)
    obtain ⟨m, hm⟩ : ∃ m, m = (d.unread k' length.toNat).length := ⟨_, rfl⟩
    have him : i < m := hm ▸ lt_length_unread_iff.mpr ⟨hi, hne⟩
    have hml : m ≤ length.toNat := hm ▸ length_upTo_le _ _
    rw [← hm] at hn hptr
    -- the cursor tells how many bytes were gone over, even if the count does not
    have hnlt := intOf_eq_natCast hn
    have hnm : n = m := by
      have e := Option.some.inj hptr
      have e' := congrArg BitVec.toNat (BitVec.add_right_inj _ |>.mp e)
      rw [toNat_ofNat_of_lt (by have := length.isLt; omega), toNat_ofNat_of_lt (by omega)] at e'
      exact e'.symm
    subst hnm
    refine ⟨by omega, ?_⟩
    have hmap : (List.range n).map (d.from k') = d.unread k' length.toNat := by
      rw [hm]
      exact (upTo_eq_map _ _).symm
    rw [hmap, hst] at hplaced
    exact stored_eq_placed_iff.mp hplaced i (by omega)
  · intro h v d' t hr
    have ho := hr.outcome
    obtain ⟨k, hk, e⟩ := Option.map_eq_some_iff.mp ho
    simp only [Prod.mk.injEq] at e
    obtain ⟨m, hm⟩ : ∃ m, m = (d.unread k length.toNat).length := ⟨_, rfl⟩
    have hlt : m < 2 ^ 31 := by
      rcases Nat.eq_zero_or_pos m with h0 | hpos
      · omega
      · obtain ⟨hi, hne⟩ := lt_length_unread_iff.mp (show m - 1 < (d.unread k length.toNat).length by omega)
        have := (h k hk (m - 1) hi hne).1
        omega
    refine ⟨m, ?_, k, hk, ?_, ?_⟩
    · rw [← e.1, ← hm, intOf_of_lt hlt]
    · rw [← e.2.1, hm]
      rfl
    · have hmap : (List.range m).map (d.from k) = d.unread k length.toNat := by
        rw [hm]
        exact (upTo_eq_map _ _).symm
      rw [hmap, ← e.2.2, stored_eq_placed_iff]
      intro i hi
      obtain ⟨hi', hne⟩ := lt_length_unread_iff.mp hi
      exact (h k hk i hi' hne).2

/-- **What is reported was moved**, by a write exactly if all the bytes it counts can be read, and
by a read exactly if all the bytes it counts can be written. -/
theorem transfers_honest_iff : (WriteHonest d u buffer length ↔ ReadableFor u buffer length) ∧
    (ReadHonest d u buffer length ↔ WritableFor d u buffer length) :=
  ⟨writeHonest_iff, readHonest_iff⟩

end

/-- A process without memory. -/
def noMem : UserMem := ⟨fun _ => 97, fun _ => false, fun _ => false⟩

/-- **Nothing is moved, and all of it is reported**: a write from memory that cannot be read, and a
read into memory that cannot be written. -/
theorem transfers_dishonest : ¬ WriteHonest (lettered 5) noMem 0 5 ∧
    ¬ ReadHonest (lettered 5) noMem 0 5 := by
  refine ⟨?_, ?_⟩
  · rw [writeHonest_iff]
    intro h
    exact absurd (h 0 (by decide)) (by decide)
  · rw [readHonest_iff]
    intro h
    exact absurd (h 0 rfl 0 (by decide) (by intro j hj; rw [Nat.le_zero.mp hj]; decide)).2 (by decide)

end KernelHacking.CharDev
