import KernelHacking.Syscall.SchedAttr

/-! # What `sched_copy_attr` accepts

**`copy_attr_negotiates`** is the contract between callers and the kernel: a struct is accepted
exactly if its size field is zero or at least the size the kernel knows (and at most a page) and
everything after what the kernel knows is zero; a caller that gets `-E2BIG` finds the known size in
the size field, and the same memory is accepted at the next call. -/

namespace KernelHacking.Syscall

open Uaccess Word Layout

variable {userMax : ℕ} {u u' : UserMem} {uattr : U64} {attr a : UserAttr}

/-! ### Reading the size -/

theorem getUser32_of_holds {x : BitVec 32} (h : u.HoldsBytes uattr (bytes 4 x.toNat)) :
    getUser32 u uattr = (0, x) := by
  have hlen : (bytes 4 x.toNat).length = 4 := length_bytes 4 _
  have hcopy := h.copyFromUser
  rw [hlen] at hcopy
  have hx : x.toNat < 256 ^ 4 := x.isLt
  unfold getUser32
  rw [hcopy]
  simp only [if_true, value_bytes hx, BitVec.ofNat_toNat, BitVec.setWidth_eq]

/-- The size field of a struct in memory. -/
theorem getUser32_of_attr {rest : List U8} (h : u.HoldsBytes uattr (a.bytes ++ rest)) :
    getUser32 u uattr = (0, a.size) := by
  obtain ⟨fs, -, hbytes⟩ := a.bytes_eq_size
  have ha : a.bytes = bytes 4 a.size.toNat ++ fs := hbytes a.size
  rw [ha, List.append_assoc] at h
  exact getUser32_of_holds (UserMem.holdsBytes_append.mp h).1

/-- A read that fails gives `-EFAULT`. -/
theorem getUser32_fst (u : UserMem) (a : U64) : (getUser32 u a).1 = 0 ∨ (getUser32 u a).1 = -EFAULT := by
  unfold getUser32
  dsimp only
  split
  · exact .inl rfl
  · exact .inr rfl

/-! ### The part the kernel does not know -/

theorem holdsBytes_cons {b : U8} {bs : List U8} {x : U64} : u.HoldsBytes x (b :: bs) ↔
    (u.readable x = true ∧ u.byte x = b) ∧ u.HoldsBytes (x + 1) bs := by
  rw [← List.singleton_append, UserMem.holdsBytes_append]
  refine and_congr ⟨?_, ?_⟩ Iff.rfl
  · intro h
    exact ⟨by simpa using h.readable 0 (by simp), by simpa using h.value 0 (by simp)⟩
  · rintro ⟨hr, hv⟩
    refine ⟨?_, ?_⟩
    · intro i hi
      rw [List.length_singleton, Nat.lt_one_iff] at hi
      subst hi
      simpa using hr
    · intro i hi
      rw [List.length_singleton, Nat.lt_one_iff] at hi
      subst hi
      simpa using hv

/-- The loop passes exactly over zeros. -/
theorem unknownSet_eq_false {x : U64} {n : ℕ} :
    unknownSet u x n = .ok false ↔ u.HoldsBytes x (List.replicate n 0) := by
  induction n generalizing x with
  | zero =>
      refine ⟨fun _ => ⟨?_, ?_⟩, fun _ => rfl⟩
      · intro i hi; cases hi
      · intro i hi; cases hi
  | succ n ih =>
      rw [List.replicate_succ, holdsBytes_cons, ← ih, unknownSet, UserMem.getUser]
      by_cases hr : u.readable x = true
      · by_cases hb : u.byte x = 0#8
        · simp [hr, hb]
        · simp [hr, hb]
      · simp [hr, EFAULT]

/-- The only error it can give. -/
theorem unknownSet_error {x : U64} {n : ℕ} {ret : ℤ} (h : unknownSet u x n = .error ret) :
    ret = -EFAULT := by
  induction n generalizing x with
  | zero => cases h
  | succ n ih =>
      rw [unknownSet, UserMem.getUser] at h
      by_cases hr : u.readable x = true
      · by_cases hb : u.byte x = 0#8
        · simp [hr, hb] at h
          exact ih h
        · simp [hr, hb] at h
      · simp [hr, EFAULT] at h
        exact h.symm

/-- Pointers of the user range do not wrap around. -/
theorem unknown_length (hmax : userMax ≤ 2 ^ 63)
    (hok : accessOk userMax uattr SCHED_ATTR_SIZE_VER0 = true) {size : ℕ} (hsize : size ≤ PAGE_SIZE) :
    (uattr + BitVec.ofNat 64 size).toNat - (uattr + BitVec.ofNat 64 sizeofSchedAttr).toNat =
      size - sizeofSchedAttr := by
  have hle : uattr.toNat + SCHED_ATTR_SIZE_VER0 ≤ userMax := of_decide_eq_true hok
  simp only [SCHED_ATTR_SIZE_VER0, PAGE_SIZE, sizeofSchedAttr] at *
  rw [BitVec.toNat_add, BitVec.toNat_add, BitVec.toNat_ofNat, BitVec.toNat_ofNat]
  omega

/-! ### The struct that is accepted -/

/-- The size is one the kernel works with. -/
def UserAttr.WellSized (a : UserAttr) : Prop :=
  a.size = 0 ∨ SCHED_ATTR_SIZE_VER0 ≤ a.size.toNat ∧ a.size.toNat ≤ PAGE_SIZE

/-- What memory has to hold: the struct and then zeros up to its size. -/
def UserAttr.image (a : UserAttr) : List U8 :=
  a.bytes ++ List.replicate (a.size.toNat - sizeofSchedAttr) 0

/-- After the checks of the size. -/
theorem copyKnown_ok_iff (hmax : userMax ≤ 2 ^ 63)
    (hok : accessOk userMax uattr SCHED_ATTR_SIZE_VER0 = true) {size : ℕ}
    (hsize : SCHED_ATTR_SIZE_VER0 ≤ size ∧ size ≤ PAGE_SIZE) :
    copyKnown u uattr size = (.ok attr, u') ↔ u' = u ∧ ∃ a : UserAttr, attr = a.clampNice ∧
      u.HoldsBytes uattr (a.bytes ++ List.replicate (size - sizeofSchedAttr) 0) := by
  -- whether the loop is entered or not, what it passes over is zero
  have hunknown : (if sizeofSchedAttr < size then
      unknownSet u (uattr + BitVec.ofNat 64 sizeofSchedAttr)
        ((uattr + BitVec.ofNat 64 size).toNat - (uattr + BitVec.ofNat 64 sizeofSchedAttr).toNat)
      else .ok false) =
      unknownSet u (uattr + BitVec.ofNat 64 sizeofSchedAttr) (size - sizeofSchedAttr) := by
    rw [unknown_length hmax hok hsize.2]
    split
    · rfl
    · rename_i hlt
      rw [Nat.sub_eq_zero_of_le (not_lt.mp hlt)]
      rfl
  have hcopied : (if sizeofSchedAttr < size then sizeofSchedAttr else size) = sizeofSchedAttr := by
    have h48 : SCHED_ATTR_SIZE_VER0 = sizeofSchedAttr := rfl
    split <;> omega
  unfold copyKnown
  dsimp only
  rw [hunknown, hcopied, Nat.sub_self, List.replicate_zero]
  simp only [List.append_nil]
  constructor
  · intro h
    cases hz : unknownSet u (uattr + BitVec.ofNat 64 sizeofSchedAttr) (size - sizeofSchedAttr) with
    | error ret => rw [hz] at h; simp at h
    | ok b =>
        cases b with
        | true => rw [hz] at h; simp [errSize] at h
        | false =>
            rw [hz] at h
            dsimp only at h
            split at h
            · simp at h
            rename_i hr
            rw [not_not] at hr
            obtain ⟨hattr, rfl⟩ := Prod.mk.inj h
            have hlen : (u.copyFromUser uattr sizeofSchedAttr).2.length = sizeofSchedAttr :=
              length_copyFromUser _ _ _
            refine ⟨rfl, UserAttr.ofBytes (u.copyFromUser uattr sizeofSchedAttr).2,
              (Except.ok.inj hattr).symm, ?_⟩
            rw [UserAttr.bytes_ofBytes hlen, UserMem.holdsBytes_append, hlen]
            exact ⟨holdsBytes_copyFromUser hr, unknownSet_eq_false.mp hz⟩
  · rintro ⟨rfl, a, rfl, h⟩
    rw [UserMem.holdsBytes_append, a.length_bytes] at h
    have hcopy := h.1.copyFromUser
    rw [a.length_bytes] at hcopy
    rw [unknownSet_eq_false.mpr h.2]
    dsimp only
    rw [hcopy, if_neg (not_not.mpr rfl)]
    have hread : UserAttr.ofBytes a.bytes = a := by simpa using a.ofBytes_bytes []
    rw [hread]

/-- **What is accepted**, and what the kernel makes of it. -/
theorem schedCopyAttr_ok_iff (hmax : userMax ≤ 2 ^ 63) :
    schedCopyAttr userMax u uattr = (.ok attr, u') ↔
      accessOk userMax uattr SCHED_ATTR_SIZE_VER0 = true ∧ u' = u ∧
      ∃ a : UserAttr, a.WellSized ∧ attr = a.clampNice ∧ u.HoldsBytes uattr a.image := by
  unfold schedCopyAttr
  by_cases hok : accessOk userMax uattr SCHED_ATTR_SIZE_VER0 = true
  swap
  · rw [Bool.not_eq_true] at hok
    simp [hok]
  rw [if_neg (by rw [hok]; decide)]
  dsimp only
  constructor
  · intro h
    split at h
    · simp at h
    rename_i hret
    rw [not_not] at hret
    split at h
    · simp [errSize] at h
    rename_i hpage
    generalize hsz : (if (getUser32 u uattr).2 = 0 then SCHED_ATTR_SIZE_VER0
      else (getUser32 u uattr).2.toNat) = size at h
    split at h
    · simp [errSize] at h
    rename_i hver
    have hle : size ≤ PAGE_SIZE := by
      rw [← hsz]
      split
      · decide
      · exact not_lt.mp hpage
    obtain ⟨rfl, a, rfl, hmem⟩ := (copyKnown_ok_iff hmax hok ⟨not_lt.mp hver, hle⟩).mp h
    rw [getUser32_of_attr hmem] at hsz
    refine ⟨hok, rfl, a, ?_, rfl, ?_⟩
    · by_cases h0 : a.size = 0
      · exact .inl h0
      · rw [if_neg h0] at hsz
        rw [← hsz] at hver hle
        exact .inr ⟨not_lt.mp hver, hle⟩
    · unfold UserAttr.image
      by_cases h0 : a.size = 0
      · rw [if_pos h0] at hsz
        rw [← hsz] at hmem
        rw [h0]
        exact hmem
      · rw [if_neg h0] at hsz
        rw [hsz]
        exact hmem
  · rintro ⟨-, rfl, a, hsized, rfl, hmem⟩
    have hget := getUser32_of_attr hmem
    rw [hget]
    dsimp only
    rw [if_neg (not_not.mpr rfl)]
    rcases hsized with h0 | ⟨hver, hpage⟩
    · rw [h0, if_pos rfl, if_neg (by decide), if_neg (by decide)]
      refine (copyKnown_ok_iff hmax hok (by decide)).mpr ⟨rfl, a, rfl, ?_⟩
      unfold UserAttr.image at hmem
      rw [h0] at hmem
      exact hmem
    · have h0 : a.size ≠ 0 := by
        intro e
        rw [e] at hver
        exact absurd hver (by decide)
      rw [if_neg (not_lt.mpr hpage), if_neg h0, if_neg (not_lt.mpr hver)]
      exact (copyKnown_ok_iff hmax hok ⟨hver, hpage⟩).mpr ⟨rfl, a, rfl, hmem⟩

/-! ### The answer `-E2BIG` -/

theorem copyKnown_too_big {size : ℕ} (h : copyKnown u uattr size = (.error (-E2BIG), u')) :
    u' = putUser32 u (BitVec.ofNat 32 sizeofSchedAttr) uattr := by
  unfold copyKnown at h
  dsimp only at h
  generalize (if sizeofSchedAttr < size then sizeofSchedAttr else size) = n at h
  split at h
  · rename_i ret hz
    obtain ⟨hret, -⟩ := Prod.mk.inj h
    rw [Except.error.inj hret] at hz
    split at hz
    · exact absurd (unknownSet_error hz) (by decide)
    · cases hz
  · exact (Prod.mk.inj h).2.symm
  · split at h
    · exact absurd (Except.error.inj (Prod.mk.inj h).1) (by decide)
    · cases (Prod.mk.inj h).1

/-- Whoever gets it has a struct in the user range and may find the known size in it. -/
theorem schedCopyAttr_too_big (h : schedCopyAttr userMax u uattr = (.error (-E2BIG), u')) :
    accessOk userMax uattr SCHED_ATTR_SIZE_VER0 = true ∧
      u' = putUser32 u (BitVec.ofNat 32 sizeofSchedAttr) uattr := by
  unfold schedCopyAttr at h
  by_cases hok : accessOk userMax uattr SCHED_ATTR_SIZE_VER0 = true
  swap
  · rw [Bool.not_eq_true] at hok
    rw [if_pos hok] at h
    exact absurd (Except.error.inj (Prod.mk.inj h).1) (by decide)
  rw [if_neg (by rw [hok]; decide)] at h
  refine ⟨hok, ?_⟩
  dsimp only at h
  split at h
  · rename_i hret
    have hval := Except.error.inj (Prod.mk.inj h).1
    rcases getUser32_fst u uattr with e | e
    · exact absurd e hret
    · rw [e] at hval
      exact absurd hval (by decide)
  split at h
  · exact (Prod.mk.inj h).2.symm
  generalize (if (getUser32 u uattr).2 = 0 then SCHED_ATTR_SIZE_VER0
    else (getUser32 u uattr).2.toNat) = size at h
  split at h
  · exact (Prod.mk.inj h).2.symm
  · exact copyKnown_too_big h

/-- Writing the size field of a struct. -/
theorem holdsBytes_putUser32 (x : BitVec 32) (h : u.HoldsBytes uattr a.bytes)
    (hw : ∀ i < 4, u.writable (uattr + BitVec.ofNat 64 i) = true) :
    (putUser32 u x uattr).HoldsBytes uattr { a with size := x }.bytes := by
  obtain ⟨rest, hrest, hbytes⟩ := a.bytes_eq_size
  have ha : a.bytes = bytes 4 a.size.toNat ++ rest := hbytes a.size
  have hlen : ∀ y : BitVec 32, (bytes 4 y.toNat).length = 4 := fun y => length_bytes 4 _
  rw [ha, UserMem.holdsBytes_append, hlen] at h
  have hw' : ∀ i < (bytes 4 x.toNat).length, u.writable (uattr + BitVec.ofNat 64 i) = true := by
    rw [hlen]
    exact hw
  unfold putUser32
  rw [if_pos (copyToUser_eq_zero_iff.mpr hw'), hbytes, UserMem.holdsBytes_append, hlen]
  refine ⟨holdsBytes_store (by rw [hlen]; decide) hw' ?_, ?_, ?_⟩
  · rw [hlen]
    have hr := h.1.readable
    rw [hlen] at hr
    exact hr
  · intro i hi
    rw [readable_store]
    exact h.2.readable i hi
  · intro i hi
    rw [byte_store_of_ne]
    · exact h.2.value i hi
    · intro j hj e
      rw [hlen] at hj
      rw [hrest] at hi
      rw [add_ofNat_add] at e
      have hval := congrArg BitVec.toNat (add_left_cancel e)
      rw [BitVec.toNat_ofNat, BitVec.toNat_ofNat, Nat.mod_eq_of_lt (by omega),
        Nat.mod_eq_of_lt (by omega)] at hval
      omega

/-- **The contract of `sched_copy_attr`.**  It accepts exactly the structs of an admissible size
whose part unknown to the kernel is zero; and whoever is answered `-E2BIG` on memory that can be
read and whose size field can be written is accepted when it calls again with the memory as the
kernel left it: the struct is then the one the caller had, cut to the known size. -/
theorem copy_attr_negotiates (hmax : userMax ≤ 2 ^ 63) :
    (∀ attr u', schedCopyAttr userMax u uattr = (.ok attr, u') ↔
      accessOk userMax uattr SCHED_ATTR_SIZE_VER0 = true ∧ u' = u ∧
      ∃ a : UserAttr, a.WellSized ∧ attr = a.clampNice ∧ u.HoldsBytes uattr a.image) ∧
    ∀ u', schedCopyAttr userMax u uattr = (.error (-E2BIG), u') →
      (∀ i < 4, u.writable (uattr + BitVec.ofNat 64 i) = true) →
      ∀ a : UserAttr, u.HoldsBytes uattr a.bytes →
      schedCopyAttr userMax u' uattr =
        (.ok { a with size := BitVec.ofNat 32 sizeofSchedAttr }.clampNice, u') := by
  refine ⟨fun attr u' => schedCopyAttr_ok_iff hmax, ?_⟩
  intro u' hbig hw a hmem
  obtain ⟨hok, rfl⟩ := schedCopyAttr_too_big hbig
  have hknown : (BitVec.ofNat 32 sizeofSchedAttr).toNat = sizeofSchedAttr := by decide
  have hholds := holdsBytes_putUser32 (BitVec.ofNat 32 sizeofSchedAttr) hmem hw
  refine (schedCopyAttr_ok_iff hmax).mpr ⟨hok, rfl, _, .inr ?_, rfl, ?_⟩
  · dsimp only
    rw [hknown]
    decide
  · unfold UserAttr.image
    dsimp only
    rw [hknown, Nat.sub_self, List.replicate_zero, List.append_nil]
    exact hholds

/-- A struct of 64 bytes at address 4096 with something set that the kernel does not know. -/
def longStruct : UserMem where
  byte x := if x = 4096 then 64 else if x = 4096 + 48 then 1 else 0
  readable _ := true
  writable _ := true

/-- It is refused first and accepted then. -/
theorem copy_attr_negotiates_long : (schedCopyAttr (2 ^ 47) longStruct 4096).1 = .error (-E2BIG) ∧
    (schedCopyAttr (2 ^ 47) (schedCopyAttr (2 ^ 47) longStruct 4096).2 4096).1 =
      .ok ⟨48, 0, 0, 0, 0, 0, 0, 0⟩ := by
  have hbig : (schedCopyAttr (2 ^ 47) longStruct 4096).1 = .error (-E2BIG) := by rfl
  have hmem : longStruct.HoldsBytes 4096 (UserAttr.bytes ⟨64, 0, 0, 0, 0, 0, 0, 0⟩) := by
    refine ⟨fun _ _ => rfl, ?_⟩
    show ∀ i, (h : i < 48) → _
    decide
  have hthen := (copy_attr_negotiates (u := longStruct) (by decide)).2 _ (Prod.ext hbig rfl)
    (fun _ _ => rfl) _ hmem
  exact ⟨hbig, congrArg Prod.fst hthen⟩

end KernelHacking.Syscall
