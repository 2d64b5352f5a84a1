import KernelHacking.Lib.CString
import KernelHacking.CharDev.Device

/-! # What the operations of the device do

Each operation in closed form, as a function of the device and the memory of the caller: the value
it returns, the device afterwards, and the bytes it stores (`Op.outcome`).  A read delivers the
string at the cursor, at most `length` bytes of it; a write replaces the first bytes of the message.
`returns_iff` says that the code does exactly this; the later modules only use the closed form. -/

namespace KernelHacking.CharDev

open TraceProg Prog Word Uaccess CString

/-! ### Closed forms -/

/-- Kernel memory from an offset on. -/
def Device.from (d : Device) (k : U64) (i : ℕ) : U8 := d.mem (k + BitVec.ofNat 64 i)

/-- What is left to read at the cursor, at most `n` bytes. -/
def Device.unread (d : Device) (k : U64) (n : ℕ) : List U8 := upTo (d.from k) n

/-- The device after a read of these bytes. -/
def Device.advance (d : Device) (k : U64) (n : ℕ) : Device :=
  { d with messagePtr := some (k + BitVec.ofNat 64 n) }

/-- The message with its first `n` bytes replaced by those at `a`. -/
def overwrite (u : UserMem) (a : U64) (n : ℕ) (mem : U64 → U8) : U64 → U8 :=
  fun o => if o.toNat < n then (u.getUser (a + o)).2 else mem o

/-- The device after a write of `n` bytes. -/
def Device.written (d : Device) (u : UserMem) (a : U64) (n : ℕ) : Device :=
  { d with mem := overwrite u a n d.mem, messagePtr := some 0 }

/-- What the caller's memory holds from an address on, with zeros where it cannot be read. -/
def userFrom (u : UserMem) (a : U64) (i : ℕ) : U8 := (u.getUser (a + BitVec.ofNat 64 i)).2

/-- The length `IOCTL_SET_MSG` finds: it counts the terminator, but not that of the empty string. -/
def setMsgLength (u : UserMem) (a : U64) : ℕ :=
  if userFrom u a 0 = 0 then 0 else min BUF_LEN ((upTo (userFrom u a) BUF_LEN).length + 1)

/-- What an operation returns, the device afterwards, and the bytes stored; nothing when it
dereferences a null pointer. -/
def Op.outcome (d : Device) (u : UserMem) : Op → Option (ℤ × Device × List (U64 × U8))
  | .open =>
      if d.deviceOpen ≠ 0 then some (-EBUSY, d, [])
      else some (SUCCESS, { d with deviceOpen := d.deviceOpen + 1, messagePtr := some 0 }, [])
  | .release => some (SUCCESS, { d with deviceOpen := d.deviceOpen - 1 }, [])
  | .read buffer length => d.messagePtr.map fun k =>
      (intOf (d.unread k length.toNat).length,
        d.advance k (d.unread k length.toNat).length,
        stored u buffer (d.unread k length.toNat))
  | .write buffer length =>
      some ((min length.toNat BUF_LEN : ℕ), d.written u buffer (min length.toNat BUF_LEN), [])
  | .ioctl num param =>
      if num = IOCTL_SET_MSG then some (SUCCESS, d.written u param (setMsgLength u param), [])
      else if num = IOCTL_GET_MSG then d.messagePtr.map fun k =>
        (SUCCESS, d.advance k (d.unread k 99).length, stored u param (d.unread k 99 ++ [0]))
      else if num = IOCTL_GET_NTH_BYTE then some ((d.mem param).toInt, d, [])
      else some (SUCCESS, d, [])

/-! ### Small lemmas -/

@[simp] theorem stores_nil : stores [] = [] := rfl

@[simp] theorem stores_append (t t' : List Access) : stores (t ++ t') = stores t ++ stores t' :=
  List.filterMap_append

@[simp] theorem stores_load (o : U64) (t : List Access) : stores (.load o :: t) = stores t := rfl

@[simp] theorem stores_put (a : U64) (b : U8) (t : List Access) :
    stores (.put a b :: t) = (a, b) :: stores t := rfl

@[simp] theorem from_zero (d : Device) (k : U64) : d.from k 0 = d.mem k := by
  simp [Device.from]

theorem from_succ (d : Device) (k : U64) :
    (fun i => d.from k (i + 1)) = d.from (k + 1) := by
  funext i
  simp only [Device.from, add_one_ofNat]

@[simp] theorem userFrom_zero (u : UserMem) (a : U64) : userFrom u a 0 = (u.getUser a).2 := by
  simp [userFrom]

theorem userFrom_succ (u : UserMem) (a : U64) :
    (fun i => userFrom u a (i + 1)) = userFrom u (a + 1) := by
  funext i
  simp only [userFrom, add_one_ofNat]

@[simp] theorem overwrite_zero (u : UserMem) (a : U64) (mem : U64 → U8) :
    overwrite u a 0 mem = mem := by
  funext o
  simp [overwrite]

/-- One more byte. -/
theorem overwrite_succ (u : UserMem) (a : U64) (mem : U64 → U8) {i : ℕ} (hi : i < 2 ^ 64) :
    Function.update (overwrite u a i mem) (BitVec.ofNat 64 i) (u.getUser (a + BitVec.ofNat 64 i)).2 =
      overwrite u a (i + 1) mem := by
  have hnat : (BitVec.ofNat 64 i).toNat = i := toNat_ofNat_of_lt hi
  funext o
  by_cases e : o = BitVec.ofNat 64 i
  · rw [e, Function.update_self, overwrite, hnat, if_pos (Nat.lt_succ_self i)]
  · have hne : o.toNat ≠ i := by
      intro h
      exact e (BitVec.eq_of_toNat_eq (by rw [hnat, h]))
    rw [Function.update_of_ne e, overwrite, overwrite]
    by_cases hlt : o.toNat < i
    · rw [if_pos hlt, if_pos (by omega)]
    · rw [if_neg hlt, if_neg (by omega)]

theorem intOf_of_lt {n : ℕ} (h : n < 2 ^ 31) : intOf n = n := by
  unfold intOf
  have hnat : (BitVec.ofNat 32 n).toNat = n := toNat_ofNat_of_lt (by omega)
  rw [BitVec.toInt_eq_toNat_of_lt (by omega), hnat]

theorem setMsgLength_le (u : UserMem) (a : U64) : setMsgLength u a ≤ BUF_LEN := by
  unfold setMsgLength
  split
  · exact Nat.zero_le _
  · exact Nat.min_le_left _ _

/-! ### Reading -/

variable {d : Device} {u : UserMem} {k : U64}

/-- At a NUL nothing is left to read. -/
theorem unread_of_zero (h0 : d.mem k = 0) (n : ℕ) : d.unread k n = [] :=
  upTo_of_zero (by simpa using h0) n

theorem advance_zero (hk : d.messagePtr = some k) : d.advance k 0 = d := by
  unfold Device.advance
  simp [← hk]

theorem loadPtr_wp (hk : d.messagePtr = some k) {Q : U8 → Sys → List Access → Prop} :
    loadPtr.wp ⟨d, u⟩ Q ↔ Q (d.mem k) ⟨d, u⟩ [.load k] := by
  unfold loadPtr load
  simp [wp_deref hk]

theorem putUser_wp {b : U8} {a : U64} {s : Sys} {Q : ℤ → Sys → List Access → Prop} :
    (putUser b a).wp s Q ↔ Q (s.user.putUser b a).1 ⟨s.dev, (s.user.putUser b a).2⟩
      (if s.user.writable a then [.put a b] else []) := by
  unfold putUser
  by_cases h : s.user.writable a = true
  · simp [when, h]
  · simp [when, h]

theorem stores_ite (c : Prop) [Decidable c] (a : U64) (b : U8) :
    stores (if c then [.put a b] else []) = if c then [(a, b)] else [] := by
  split
  · rfl
  · rfl

/-- The loop delivers the string at the cursor.  It looks at the byte it stops at, and no further. -/
theorem readLoop_spec (n : ℕ) : ∀ (d : Device) (u : UserMem) (k buffer : U64) (m : ℕ),
    d.messagePtr = some k → (readLoop n buffer m).wp ⟨d, u⟩ fun v s t =>
      v = m + (d.unread k n).length ∧
      s = ⟨d.advance k (d.unread k n).length, u.store buffer (d.unread k n)⟩ ∧
      stores t = stored u buffer (d.unread k n) ∧
      ∀ o, .load o ∈ t ↔ ∃ i < n, i ≤ (d.unread k n).length ∧ o = k + BitVec.ofNat 64 i := by
  induction n with
  | zero =>
      intro d u k buffer m hk
      unfold readLoop
      rw [wp_ret]
      have hd : d.advance k (d.unread k 0).length = d := advance_zero hk
      refine ⟨rfl, ?_, rfl, by simp⟩
      rw [hd]
      rfl
  | succ n ih =>
      intro d u k buffer m hk
      unfold readLoop
      rw [wp_bind, loadPtr_wp hk]
      by_cases h0 : d.mem k = 0
      · -- the cursor is at the end of the string
        have hnil : d.unread k (n + 1) = [] := unread_of_zero h0 _
        rw [if_pos h0, wp_ret, hnil, List.length_nil, advance_zero hk]
        refine ⟨rfl, rfl, rfl, ?_⟩
        · intro o
          simp only [List.append_nil, List.mem_singleton, Access.load.injEq, Nat.le_zero]
          constructor
          · intro ho; exact ⟨0, Nat.succ_pos n, rfl, by simp [ho]⟩
          · intro hall
            obtain ⟨i, _, hi, ho⟩ := hall
            simpa [hi] using ho
      · obtain ⟨d₁, hd₁⟩ : ∃ d₁, d₁ = { d with messagePtr := some (k + 1) } := ⟨_, rfl⟩
        have hcons : d.unread k (n + 1) = d.mem k :: d₁.unread (k + 1) n := by
          unfold Device.unread
          rw [upTo_succ_of_ne (by simpa using h0), from_zero, from_succ, hd₁]
          rfl
        rw [if_neg h0, wp_bind, loadPtr_wp hk, wp_bind]
        unfold advancePtr
        rw [wp_modify, wp_bind, putUser_wp]
        have hih := ih d₁ (u.putUser (d.mem k) buffer).2 (k + 1) (buffer + 1) (m + 1) (by rw [hd₁])
        have hs : (⟨{ d with messagePtr := d.messagePtr.map (· + 1) },
            (u.putUser (d.mem k) buffer).2⟩ : Sys) = ⟨d₁, (u.putUser (d.mem k) buffer).2⟩ := by
          rw [hd₁, hk]
          rfl
        rw [hs]
        refine hih.mono ?_
        rintro v s t ⟨hv, hst, ht, hload⟩
        rw [hcons]
        refine ⟨?_, ?_, ?_, ?_⟩
        · rw [hv, List.length_cons]
          omega
        · rw [hst, hd₁]
          simp only [Device.advance, UserMem.store, List.length_cons, add_one_ofNat]
        · rw [stored_cons]
          simp [stores_ite, ht]
        · intro o
          have hcase : Access.load o ∈ [.load k] ++ ([.load k] ++ ([] ++
              ((if u.writable buffer then [.put buffer (d.mem k)] else []) ++ t))) ↔
              o = k ∨ Access.load o ∈ t := by
            by_cases hw : u.writable buffer = true
            · simp [hw]
            · simp [hw]
          rw [hcase, hload]
          constructor
          · intro ho
            rcases ho with rfl | ⟨i, hi, hle, rfl⟩
            · exact ⟨0, Nat.succ_pos n, Nat.zero_le _, by simp⟩
            · exact ⟨i + 1, Nat.succ_lt_succ hi, Nat.succ_le_succ hle, add_one_ofNat k i⟩
          · intro hall
            obtain ⟨i, hi, hle, ho⟩ := hall
            cases i with
            | zero => exact .inl (by simpa using ho)
            | succ i =>
                refine .inr ⟨i, Nat.lt_of_succ_lt_succ hi, Nat.le_of_succ_le_succ hle, ?_⟩
                rw [ho, add_one_ofNat]

/-- **`device_read` delivers what is left of the string at the cursor**, at most `length` bytes, and
moves the cursor over it. -/
theorem deviceRead_spec (hk : d.messagePtr = some k) (buffer length : U64) :
    (deviceRead buffer length).wp ⟨d, u⟩ fun v s t =>
      v = intOf (d.unread k length.toNat).length ∧
      s = ⟨d.advance k (d.unread k length.toNat).length,
        u.store buffer (d.unread k length.toNat)⟩ ∧
      stores t = stored u buffer (d.unread k length.toNat) ∧
      ∀ o, .load o ∈ t ↔ ∃ i ≤ (d.unread k length.toNat).length, (i < length.toNat ∨ i = 0) ∧
        o = k + BitVec.ofNat 64 i := by
  unfold deviceRead
  rw [wp_bind, loadPtr_wp hk]
  by_cases h0 : d.mem k = 0
  · have hnil : d.unread k length.toNat = [] := unread_of_zero h0 _
    rw [if_pos h0, wp_ret, hnil, List.length_nil, advance_zero hk]
    refine ⟨rfl, rfl, rfl, ?_⟩
    · intro o
      simp only [List.append_nil, List.mem_singleton, Access.load.injEq, Nat.le_zero]
      constructor
      · intro ho; exact ⟨0, rfl, .inr rfl, by simp [ho]⟩
      · intro hall
        obtain ⟨i, hi, _, ho⟩ := hall
        simpa [hi] using ho
  · rw [if_neg h0, wp_bind]
    refine (readLoop_spec length.toNat d u k buffer 0 hk).mono ?_
    rintro v s t ⟨rfl, rfl, ht, hload⟩
    rw [wp_ret]
    refine ⟨by rw [Nat.zero_add], rfl, by simpa using ht, ?_⟩
    intro o
    simp only [List.singleton_append, List.append_nil, List.mem_cons, Access.load.injEq, hload]
    constructor
    · intro ho
      rcases ho with rfl | ⟨i, hi, hle, rfl⟩
      · exact ⟨0, Nat.zero_le _, .inr rfl, by simp⟩
      · exact ⟨i, hle, .inl hi, rfl⟩
    · intro hall
      obtain ⟨i, hle, hi, ho⟩ := hall
      rcases hi with hi | rfl
      · exact .inr ⟨i, hi, hle, ho⟩
      · exact .inl (by simpa using ho)

/-- Before the device has been opened, a read dereferences a null pointer. -/
theorem deviceRead_null (hk : d.messagePtr = none) {buffer length : U64} {v : ℤ} {s : Sys}
    {t : List Access} : ¬ (deviceRead buffer length).Ends ⟨d, u⟩ v s t := by
  intro h
  unfold deviceRead loadPtr at h
  obtain ⟨ch, s₁, t₁, t₂, h₁, -, -⟩ := ends_bind.mp h
  obtain ⟨s₂, s₃, t₃, t₄, h₂, h₃, -⟩ := ends_bind.mp h₁
  obtain ⟨rfl, rfl, -⟩ := ends_get.mp h₂
  obtain ⟨k, s₄, t₅, t₆, h₄, -, -⟩ := ends_bind.mp h₃
  rw [hk] at h₄
  obtain ⟨n, hn⟩ := h₄
  cases hn

/-! ### Writing -/

theorem getUser_wp {a : U64} {s : Sys} {Q : ℤ × U8 → Sys → List Access → Prop} :
    (getUser a).wp s Q ↔ Q (s.user.getUser a) s [] := by
  unfold getUser
  simp

/-- The loop of `device_write`, from `i` on, `n` steps before the end of the buffer. -/
theorem writeLoop_spec (buffer length : U64) (n : ℕ) : ∀ i, i + n < 2 ^ 64 → i ≤ length.toNat →
    (writeLoop buffer length n i).wp ⟨{ d with mem := overwrite u buffer i d.mem }, u⟩ fun v s t =>
      v = min length.toNat (i + n) ∧
      s = ⟨{ d with mem := overwrite u buffer (min length.toNat (i + n)) d.mem }, u⟩ ∧ t = [] := by
  induction n with
  | zero =>
      intro i _ hi
      unfold writeLoop
      rw [wp_ret, Nat.add_zero, Nat.min_eq_right hi]
      exact ⟨rfl, rfl, rfl⟩
  | succ n ih =>
      intro i hlt hi
      unfold writeLoop
      by_cases h : i < length.toNat
      · rw [if_pos h, wp_bind, getUser_wp, wp_bind]
        unfold storeMessage
        rw [wp_modify]
        show wp _ (⟨{ d with mem := Function.update (overwrite u buffer i d.mem) _ _ }, u⟩ : Sys) _
        rw [overwrite_succ u buffer d.mem (by omega)]
        refine (ih (i + 1) (by omega) h).mono ?_
        rintro v s t ⟨hv, hs, rfl⟩
        rw [Nat.add_right_comm] at hv hs
        exact ⟨hv, hs, rfl⟩
      · have e : min length.toNat (i + (n + 1)) = i := by omega
        rw [if_neg h, wp_ret, e]
        exact ⟨rfl, rfl, rfl⟩

/-- **`device_write` replaces the first bytes of the message** and moves the cursor back. -/
theorem deviceWrite_spec (buffer length : U64) :
    (deviceWrite buffer length).wp ⟨d, u⟩ fun v s t =>
      v = (min length.toNat BUF_LEN : ℕ) ∧
      s = ⟨d.written u buffer (min length.toNat BUF_LEN), u⟩ ∧ t = [] := by
  unfold deviceWrite
  rw [wp_bind]
  have h := writeLoop_spec (d := d) (u := u) buffer length BUF_LEN 0 (by decide) (Nat.zero_le _)
  rw [overwrite_zero, Nat.zero_add] at h
  refine h.mono ?_
  rintro v s t ⟨rfl, rfl, rfl⟩
  rw [wp_bind]
  unfold resetPtr
  rw [wp_modify, wp_ret]
  exact ⟨rfl, rfl, rfl⟩

/-- The loop of `IOCTL_SET_MSG` after a character that is not the terminator. -/
theorem lengthLoop_spec (n : ℕ) : ∀ (s : Sys) (temp : U64) (ch : U8) (i : ℕ), ch ≠ 0 →
    (lengthLoop n temp ch i).wp s fun v s' t =>
      v = i + min n ((upTo (userFrom s.user temp) n).length + 1) ∧ s' = s ∧ t = [] := by
  induction n with
  | zero =>
      intro s temp ch i _
      unfold lengthLoop
      rw [wp_ret]
      simp
  | succ n ih =>
      intro s temp ch i hch
      unfold lengthLoop
      rw [if_neg hch, wp_bind, getUser_wp]
      by_cases h0 : (s.user.getUser temp).2 = 0
      · -- the terminator is counted, and ends the loop
        have hnil : upTo (userFrom s.user temp) (n + 1) = [] :=
          upTo_of_zero (by simpa using h0) _
        have hstop : lengthLoop n (temp + 1) (s.user.getUser temp).2 (i + 1) = pure (i + 1) := by
          cases n with
          | zero => rfl
          | succ n => exact if_pos h0
        rw [hstop, wp_ret, hnil]
        exact ⟨by simp, rfl, rfl⟩
      · have hcons : (upTo (userFrom s.user temp) (n + 1)).length =
            (upTo (userFrom s.user (temp + 1)) n).length + 1 := by
          rw [upTo_succ_of_ne (by simpa using h0), userFrom_succ, List.length_cons]
        refine (ih s (temp + 1) _ (i + 1) h0).mono ?_
        rintro v s' t ⟨hv, hs, ht⟩
        refine ⟨?_, hs, by simp [ht]⟩
        rw [hv, hcons]
        omega

theorem ioctlSetMsg_spec (param : U64) : (ioctlSetMsg param).wp ⟨d, u⟩ fun v s t =>
    v = SUCCESS ∧ s = ⟨d.written u param (setMsgLength u param), u⟩ ∧ t = [] := by
  have hlen : (lengthLoop BUF_LEN param (u.getUser param).2 0).wp ⟨d, u⟩ fun v s t =>
      v = setMsgLength u param ∧ s = ⟨d, u⟩ ∧ t = [] := by
    unfold setMsgLength
    by_cases h0 : (u.getUser param).2 = 0
    · have hstop : lengthLoop BUF_LEN param (u.getUser param).2 0 = pure 0 := if_pos h0
      rw [hstop, wp_ret, if_pos (by simpa using h0)]
      exact ⟨rfl, rfl, rfl⟩
    · rw [if_neg (by simpa using h0)]
      refine (lengthLoop_spec BUF_LEN ⟨d, u⟩ param _ 0 h0).mono ?_
      rintro v s t ⟨hv, hs, ht⟩
      rw [Nat.zero_add] at hv
      exact ⟨hv, hs, ht⟩
  unfold ioctlSetMsg
  rw [wp_bind, getUser_wp, wp_bind]
  refine hlen.mono ?_
  rintro v s t ⟨rfl, rfl, rfl⟩
  rw [wp_bind]
  refine (deviceWrite_spec (d := d) (u := u) param _).mono ?_
  rintro v s t ⟨-, rfl, rfl⟩
  have hle := setMsgLength_le u param
  have hmod : (BitVec.ofNat 64 (setMsgLength u param)).toNat = setMsgLength u param :=
    toNat_ofNat_of_lt (by unfold BUF_LEN at hle; omega)
  rw [wp_ret, hmod, Nat.min_eq_left hle]
  exact ⟨rfl, rfl, rfl⟩

/-! ### The other commands -/

theorem ioctlGetMsg_spec (hk : d.messagePtr = some k) (param : U64) :
    (ioctlGetMsg param).wp ⟨d, u⟩ fun v s t =>
      v = SUCCESS ∧ s.dev = d.advance k (d.unread k 99).length ∧
      stores t = stored u param (d.unread k 99 ++ [0]) ∧
      ∀ o, .load o ∈ t → ∃ i ≤ (d.unread k 99).length, i < 99 ∧ o = k + BitVec.ofNat 64 i := by
  unfold ioctlGetMsg
  rw [wp_bind]
  refine (deviceRead_spec hk param 99).mono ?_
  rintro v s t ⟨rfl, rfl, ht, hload⟩
  rw [wp_bind, putUser_wp, wp_ret]
  have h99 : (99 : U64).toNat = 99 := rfl
  rw [h99] at ht hload ⊢
  have hle : (d.unread k 99).length ≤ 99 := length_upTo_le _ _
  refine ⟨rfl, rfl, ?_, ?_⟩
  · rw [intOf_of_lt (by omega), stored_append]
    simp [stores_ite, ht, stored, placed, List.filter_cons]
  · intro o ho
    have ho' : Access.load o ∈ t := by
      simp only [List.append_nil, List.mem_append] at ho
      rcases ho with ho | ho
      · exact ho
      · split at ho
        · simp at ho
        · simp at ho
    obtain ⟨i, hi, hlt, rfl⟩ := (hload o).mp ho'
    exact ⟨i, hi, by omega, rfl⟩

theorem ioctlGetMsg_null (hk : d.messagePtr = none) {param : U64} {v : ℤ} {s : Sys}
    {t : List Access} : ¬ (ioctlGetMsg param).Ends ⟨d, u⟩ v s t := by
  intro h
  unfold ioctlGetMsg at h
  obtain ⟨i, s₁, t₁, t₂, h₁, -, -⟩ := ends_bind.mp h
  exact deviceRead_null hk h₁

/-! ### All operations -/

section
variable {param : U64} {num : BitVec 32}

theorem outcome_setMsg : (Op.ioctl IOCTL_SET_MSG param).outcome d u =
    some (SUCCESS, d.written u param (setMsgLength u param), []) := by
  rw [Op.outcome, if_pos rfl]

theorem outcome_getMsg : (Op.ioctl IOCTL_GET_MSG param).outcome d u = d.messagePtr.map fun k =>
    (SUCCESS, d.advance k (d.unread k 99).length, stored u param (d.unread k 99 ++ [0])) := by
  rw [Op.outcome, if_neg (by decide), if_pos rfl]

theorem outcome_getNthByte : (Op.ioctl IOCTL_GET_NTH_BYTE param).outcome d u =
    some ((d.mem param).toInt, d, []) := by
  rw [Op.outcome, if_neg (by decide), if_neg (by decide), if_pos rfl]

theorem outcome_other (h₁ : num ≠ IOCTL_SET_MSG) (h₂ : num ≠ IOCTL_GET_MSG)
    (h₃ : num ≠ IOCTL_GET_NTH_BYTE) :
    (Op.ioctl num param).outcome d u = some (SUCCESS, d, []) := by
  rw [Op.outcome, if_neg h₁, if_neg h₂, if_neg h₃]

theorem deviceIoctl_getMsg : deviceIoctl IOCTL_GET_MSG param = ioctlGetMsg param := by
  rw [deviceIoctl, if_neg (by decide), if_pos rfl]

theorem deviceIoctl_getNthByte :
    deviceIoctl IOCTL_GET_NTH_BYTE param = ioctlGetNthByte param := by
  rw [deviceIoctl, if_neg (by decide), if_neg (by decide), if_pos rfl]

/-- The code of `device_ioctl` ends as the closed form says. -/
theorem deviceIoctl_spec {v : ℤ} {d' : Device} {out : List (U64 × U8)}
    (h : (Op.ioctl num param).outcome d u = some (v, d', out)) :
    (deviceIoctl num param).wp ⟨d, u⟩ fun v' s t => v' = v ∧ s.dev = d' ∧ stores t = out := by
  by_cases e₁ : num = IOCTL_SET_MSG
  · subst e₁
    rw [outcome_setMsg] at h
    cases h
    refine (ioctlSetMsg_spec param).mono ?_
    rintro v s t ⟨rfl, rfl, rfl⟩
    exact ⟨rfl, rfl, rfl⟩
  by_cases e₂ : num = IOCTL_GET_MSG
  · subst e₂
    rw [outcome_getMsg] at h
    obtain ⟨k, hk, e⟩ := Option.map_eq_some_iff.mp h
    cases e
    rw [deviceIoctl_getMsg]
    refine (ioctlGetMsg_spec hk param).mono ?_
    rintro v s t ⟨rfl, hs, ht, -⟩
    exact ⟨rfl, hs, ht⟩
  by_cases e₃ : num = IOCTL_GET_NTH_BYTE
  · subst e₃
    rw [outcome_getNthByte] at h
    cases h
    rw [deviceIoctl_getNthByte]
    simp [ioctlGetNthByte, load]
  · rw [outcome_other e₁ e₂ e₃] at h
    cases h
    rw [deviceIoctl, if_neg e₁, if_neg e₂, if_neg e₃, wp_ret]
    exact ⟨rfl, rfl, rfl⟩

/-- Only `IOCTL_GET_MSG` dereferences `Message_Ptr`. -/
theorem outcome_ioctl_eq_none (h : (Op.ioctl num param).outcome d u = none) :
    num = IOCTL_GET_MSG ∧ d.messagePtr = none := by
  by_cases e₁ : num = IOCTL_SET_MSG
  · subst e₁; rw [outcome_setMsg] at h; cases h
  by_cases e₂ : num = IOCTL_GET_MSG
  · subst e₂
    rw [outcome_getMsg] at h
    exact ⟨rfl, Option.map_eq_none_iff.mp h⟩
  by_cases e₃ : num = IOCTL_GET_NTH_BYTE
  · subst e₃; rw [outcome_getNthByte] at h; cases h
  · rw [outcome_other e₁ e₂ e₃] at h; cases h

end

/-- The code ends as the closed form says. -/
theorem Op.prog_spec {op : Op} {v : ℤ} {d' : Device} {out : List (U64 × U8)}
    (h : op.outcome d u = some (v, d', out)) :
    op.prog.wp ⟨d, u⟩ fun v' s t => v' = v ∧ s.dev = d' ∧ stores t = out := by
  cases op with
  | «open» =>
      unfold Op.prog CharDev.deviceOpen
      rw [wp_bind, wp_get]
      unfold Op.outcome at h
      by_cases ho : d.deviceOpen ≠ 0
      · rw [if_pos ho] at h ⊢
        cases h
        rw [wp_ret]
        exact ⟨rfl, rfl, rfl⟩
      · rw [if_neg ho] at h ⊢
        cases h
        simp [resetPtr]
  | release =>
      cases h
      unfold Op.prog deviceRelease
      simp
  | read buffer length =>
      obtain ⟨k, hk, e⟩ := Option.map_eq_some_iff.mp h
      cases e
      refine (deviceRead_spec hk buffer length).mono ?_
      rintro v s t ⟨rfl, rfl, ht, -⟩
      exact ⟨rfl, rfl, ht⟩
  | write buffer length =>
      cases h
      refine (deviceWrite_spec buffer length).mono ?_
      rintro v s t ⟨rfl, rfl, rfl⟩
      exact ⟨rfl, rfl, rfl⟩
  | ioctl num param => exact deviceIoctl_spec h

/-- Where the closed form gives nothing, the code does not end. -/
theorem Op.prog_null {op : Op} (h : op.outcome d u = none) {v : ℤ} {s : Sys} {t : List Access} :
    ¬ op.prog.Ends ⟨d, u⟩ v s t := by
  cases op with
  | «open» =>
      rw [Op.outcome] at h
      split at h
      · cases h
      · cases h
  | release => cases h
  | read buffer length => exact deviceRead_null (Option.map_eq_none_iff.mp h)
  | write buffer length => cases h
  | ioctl num param =>
      obtain ⟨rfl, hk⟩ := outcome_ioctl_eq_none h
      rw [Op.prog, deviceIoctl_getMsg]
      exact ioctlGetMsg_null hk

/-- **The code does what the closed form says**, and nothing else. -/
theorem returns_iff {c : Call} {v : ℤ} {d' : Device} {out : List (U64 × U8)} :
    (∃ t, c.Returns d v d' t ∧ stores t = out) ↔ c.op.outcome d c.user = some (v, d', out) := by
  constructor
  · rintro ⟨t, ⟨u', hends⟩, rfl⟩
    cases ho : c.op.outcome d c.user with
    | none => exact absurd hends (Op.prog_null ho)
    | some r =>
        obtain ⟨v₁, d₁, out⟩ := r
        obtain ⟨rfl, hd, ht⟩ := (Op.prog_spec ho).of_ends hends
        rw [← hd, ht]
  · intro ho
    obtain ⟨v₁, s, t, hends, rfl, hd, ht⟩ := Op.prog_spec ho
    refine ⟨t, ⟨s.user, ?_⟩, ht⟩
    rw [← hd]
    exact hends

theorem Call.Returns.outcome {c : Call} {v : ℤ} {d' : Device} {t : List Access}
    (h : c.Returns d v d' t) : c.op.outcome d c.user = some (v, d', stores t) :=
  returns_iff.mp ⟨t, h, rfl⟩

/-- What a call can do to the device: nothing to the message and the cursor, set the cursor to the
start, move it over what is delivered, or write the first bytes of the message. -/
inductive DeviceStep (u : UserMem) (d : Device) : Device → Prop where
  | keeps {d' : Device} : d'.mem = d.mem → d'.messagePtr = d.messagePtr → DeviceStep u d d'
  | opens {d' : Device} : d'.mem = d.mem → d'.messagePtr = some 0 → DeviceStep u d d'
  | reads {k : U64} (n : ℕ) : d.messagePtr = some k →
      DeviceStep u d (d.advance k (d.unread k n).length)
  | writes (a : U64) {n : ℕ} : n ≤ BUF_LEN → DeviceStep u d (d.written u a n)

theorem Op.deviceStep {op : Op} {v : ℤ} {d' : Device} {out : List (U64 × U8)}
    (ho : op.outcome d u = some (v, d', out)) : DeviceStep u d d' := by
  cases op with
  | «open» =>
      rw [Op.outcome] at ho
      split at ho
      · cases ho; exact .keeps rfl rfl
      · cases ho; exact .opens rfl rfl
  | release => cases ho; exact .keeps rfl rfl
  | read buffer length =>
      obtain ⟨k, hk, e⟩ := Option.map_eq_some_iff.mp ho
      cases e
      exact .reads _ hk
  | write buffer length => cases ho; exact .writes buffer (Nat.min_le_right _ _)
  | ioctl num param =>
      by_cases e₁ : num = IOCTL_SET_MSG
      · subst e₁; rw [outcome_setMsg] at ho; cases ho; exact .writes param (setMsgLength_le u param)
      by_cases e₂ : num = IOCTL_GET_MSG
      · subst e₂
        rw [outcome_getMsg] at ho
        obtain ⟨k, hk, e⟩ := Option.map_eq_some_iff.mp ho
        cases e
        exact .reads 99 hk
      by_cases e₃ : num = IOCTL_GET_NTH_BYTE
      · subst e₃; rw [outcome_getNthByte] at ho; cases ho; exact .keeps rfl rfl
      · rw [outcome_other e₁ e₂ e₃] at ho; cases ho; exact .keeps rfl rfl

end KernelHacking.CharDev
