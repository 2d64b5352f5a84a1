import KernelHacking.CharDev.Spec

/-! # The cursor and the terminator

`device_read` stops at a NUL or when the caller's buffer is full, so it stays inside `Message` as
long as there is a NUL at or after the cursor.  Opening, reading and the other commands keep one
there; a write keeps one if it stores one or leaves one behind the bytes it stores, and
`IOCTL_SET_MSG` if the string is shorter than the buffer.  `cursor_stays_inside` says that these
conditions on the writes of a run are exact: the cursor has a NUL ahead in every state of the run if
and only if they all hold.  Eighty letters break it (`cursor_runs_out`). -/

namespace KernelHacking.CharDev

open TraceProg Prog Word Uaccess CString

/-! ### Runs -/

/-- The calls are made one after the other, each on an open file, and all of them return. -/
inductive Run : Device → List Call → Device → Prop where
  | nil (d : Device) : Run d [] d
  | cons {c : Call} {cs : List Call} {d d₁ d' : Device} {v : ℤ} {t : List Access} :
      c.op.Enabled d → c.Returns d v d₁ t → Run d₁ cs d' → Run d (c :: cs) d'

/-- The state can be reached from a loaded module. -/
def Reachable (d : Device) : Prop := ∃ d₀ cs, Loaded d₀ ∧ Run d₀ cs d

/-- A condition on a call and the state before it holds for every call of a run. -/
def Along (P : Device → Call → Prop) : Device → List Call → Prop
  | _, [] => True
  | d, c :: cs => P d c ∧ ∀ v d' t, c.Returns d v d' t → Along P d' cs

/-- A property holds in every state of a run. -/
def Throughout (P : Device → Prop) (d : Device) (cs : List Call) : Prop :=
  ∀ cs₁ cs₂ d', cs = cs₁ ++ cs₂ → Run d cs₁ d' → P d'

section
variable {c : Call} {cs : List Call} {d d₁ d' : Device} {v : ℤ} {t : List Access}

theorem Call.Returns.unique {v' : ℤ} {t' : List Access} (h : c.Returns d v d₁ t)
    (h' : c.Returns d v' d' t') : v = v' ∧ d₁ = d' ∧ t = t' := by
  obtain ⟨u, h⟩ := h
  obtain ⟨u', h'⟩ := h'
  obtain ⟨rfl, e, rfl⟩ := h.unique h'
  cases e
  exact ⟨rfl, rfl, rfl⟩

theorem throughout_cons {P : Device → Prop} (he : c.op.Enabled d) (hr : c.Returns d v d₁ t) :
    Throughout P d (c :: cs) ↔ P d ∧ Throughout P d₁ cs := by
  constructor
  · intro h
    refine ⟨h [] (c :: cs) d rfl (.nil d), ?_⟩
    intro cs₁ cs₂ d' e hrun
    exact h (c :: cs₁) cs₂ d' (by rw [e, List.cons_append]) (.cons he hr hrun)
  · intro hall cs₁ cs₂ d' e hrun
    obtain ⟨hd, h⟩ := hall
    cases hrun with
    | nil => exact hd
    | cons _ hr' hrun =>
        obtain ⟨rfl, rfl⟩ := List.cons.inj e
        obtain ⟨-, rfl, -⟩ := hr.unique hr'
        exact h _ cs₂ d' rfl hrun

theorem along_cons {P : Device → Call → Prop} (hr : c.Returns d v d₁ t) :
    Along P d (c :: cs) ↔ P d c ∧ Along P d₁ cs := by
  constructor
  · intro h
    exact ⟨h.1, h.2 v d₁ t hr⟩
  · intro hall
    obtain ⟨hc, h⟩ := hall
    refine ⟨hc, ?_⟩
    intro v' d' t' hr'
    obtain ⟨-, rfl, -⟩ := hr.unique hr'
    exact h

end

/-! ### A NUL ahead -/

/-- The cursor is in `Message`, and so is a NUL at or after it. -/
def CursorOk (d : Device) : Prop := ∀ k, d.messagePtr = some k → k.toNat < BUF_LEN ∧
  ∃ o : U64, k.toNat ≤ o.toNat ∧ o.toNat < BUF_LEN ∧ d.mem o = 0

/-- The same, with the start of `Message` for a cursor that has not been set. -/
def NulAhead (d : Device) : Prop :=
  ∃ o : U64, (d.messagePtr.getD 0).toNat ≤ o.toNat ∧ o.toNat < BUF_LEN ∧ d.mem o = 0

/-- What a write must see to: it stores a NUL or leaves one behind what it stores; the string of
`IOCTL_SET_MSG` ends within the buffer. -/
def Op.LeavesNul (d : Device) (u : UserMem) : Op → Prop
  | .write buffer length => (∃ i < min length.toNat BUF_LEN, userFrom u buffer i = 0) ∨
      ∃ o : U64, min length.toNat BUF_LEN ≤ o.toNat ∧ o.toNat < BUF_LEN ∧ d.mem o = 0
  | .ioctl num param => num = IOCTL_SET_MSG → ∃ i < BUF_LEN, userFrom u param i = 0
  | _ => True

/-- The condition on a call. -/
def Call.LeavesNul (d : Device) (c : Call) : Prop := c.op.LeavesNul d c.user

section
variable {d d' : Device} {u : UserMem} {k : U64} {v : ℤ}

theorem NulAhead.cursorOk (h : NulAhead d) : CursorOk d := by
  obtain ⟨o, hle, hlt, h0⟩ := h
  intro k hk
  rw [hk, Option.getD_some] at hle
  exact ⟨by omega, o, hle, hlt, h0⟩

theorem CursorOk.nulAhead (h : CursorOk d) (hk : d.messagePtr = some k) : NulAhead d := by
  obtain ⟨-, o, hle, hlt, h0⟩ := h k hk
  refine ⟨o, ?_, hlt, h0⟩
  rw [hk]
  exact hle

theorem loaded_nulAhead (h : Loaded d) : NulAhead d := by
  refine ⟨0, ?_, by decide, h.message 0 (by decide)⟩
  rw [h.ptr]
  exact Nat.le_refl _

/-- Kernel memory at an offset, seen from an earlier one. -/
theorem from_sub {o : U64} (h : k.toNat ≤ o.toNat) : d.from k (o.toNat - k.toNat) = d.mem o := by
  unfold Device.from
  congr 1
  apply BitVec.eq_of_toNat_eq
  have := o.isLt
  rw [BitVec.toNat_add, toNat_ofNat_of_lt (by omega), Nat.mod_eq_of_lt (by omega)]
  omega

/-- A read stops at the NUL at the latest. -/
theorem length_unread_le {o : U64} (h : k.toNat ≤ o.toNat) (h0 : d.mem o = 0) (n : ℕ) :
    (d.unread k n).length ≤ o.toNat - k.toNat := by
  by_contra hlt
  have hne : d.from k (o.toNat - k.toNat) ≠ 0 := ne_zero_of_lt (Nat.lt_of_not_le hlt)
  rw [from_sub h] at hne
  exact hne h0

theorem toNat_add_ofNat {i : ℕ} (h : k.toNat + i < 2 ^ 64) :
    (k + BitVec.ofNat 64 i).toNat = k.toNat + i := by
  rw [BitVec.toNat_add, BitVec.toNat_ofNat, Nat.add_mod_mod, Nat.mod_eq_of_lt h]

theorem NulAhead.advance (h : NulAhead d) (hk : d.messagePtr = some k) (n : ℕ) :
    NulAhead (d.advance k (d.unread k n).length) := by
  obtain ⟨o, hle, hlt, h0⟩ := h
  rw [hk, Option.getD_some] at hle
  have hlen := length_unread_le hle h0 n
  refine ⟨o, ?_, hlt, h0⟩
  show (k + BitVec.ofNat 64 (d.unread k n).length).toNat ≤ o.toNat
  have := o.isLt
  rw [toNat_add_ofNat (by omega)]
  omega

theorem overwrite_of_lt {a o : U64} {n : ℕ} {mem : U64 → U8} (h : o.toNat < n) :
    overwrite u a n mem o = userFrom u a o.toNat := by
  rw [overwrite, if_pos h, userFrom, BitVec.ofNat_toNat, BitVec.setWidth_eq]

/-- After a write there is a NUL among the bytes stored or behind them. -/
theorem nulAhead_written {a : U64} {n : ℕ} (hn : n ≤ BUF_LEN) :
    NulAhead (d.written u a n) ↔ (∃ i < n, userFrom u a i = 0) ∨
      ∃ o : U64, n ≤ o.toNat ∧ o.toNat < BUF_LEN ∧ d.mem o = 0 := by
  unfold BUF_LEN at hn
  constructor
  · intro hall
    obtain ⟨o, _, hlt, h0⟩ := hall
    change overwrite u a n d.mem o = 0 at h0
    by_cases ho : o.toNat < n
    · rw [overwrite_of_lt ho] at h0
      exact .inl ⟨o.toNat, ho, h0⟩
    · rw [overwrite, if_neg ho] at h0
      exact .inr ⟨o, by omega, hlt, h0⟩
  · intro h
    rcases h with ⟨i, hi, h0⟩ | ⟨o, hle, hlt, h0⟩
    · have hnat : (BitVec.ofNat 64 i).toNat = i := toNat_ofNat_of_lt (by omega)
      refine ⟨BitVec.ofNat 64 i, Nat.zero_le _, by rw [hnat]; unfold BUF_LEN; omega, ?_⟩
      show overwrite u a n d.mem _ = 0
      rw [overwrite_of_lt (by omega), hnat]
      exact h0
    · refine ⟨o, Nat.zero_le _, hlt, ?_⟩
      show overwrite u a n d.mem o = 0
      rw [overwrite, if_neg (by omega)]
      exact h0

theorem nulAhead_setMsg {a : U64} (h : NulAhead d) :
    NulAhead (d.written u a (setMsgLength u a)) ↔ ∃ i < BUF_LEN, userFrom u a i = 0 := by
  rw [nulAhead_written (setMsgLength_le u a)]
  unfold setMsgLength
  by_cases h0 : userFrom u a 0 = 0
  · -- nothing is written, and the old NUL stays
    rw [if_pos h0]
    obtain ⟨o, -, hlt, ho⟩ := h
    constructor
    · intro _; exact ⟨0, by decide, h0⟩
    · intro _; exact .inr ⟨o, Nat.zero_le _, hlt, ho⟩
  · rw [if_neg h0]
    have hle := length_upTo_le (userFrom u a) BUF_LEN
    constructor
    · intro h
      rcases h with ⟨i, hi, hi0⟩ | ⟨o, hle', hlt, -⟩
      · exact ⟨i, by omega, hi0⟩
      · have hlen : (upTo (userFrom u a) BUF_LEN).length < BUF_LEN := by omega
        exact ⟨_, hlen, stops hlen⟩
    · intro hall
      obtain ⟨i, hi, hi0⟩ := hall
      have hlen : (upTo (userFrom u a) BUF_LEN).length < BUF_LEN := by
        by_contra hge
        exact ne_zero_of_lt (show i < (upTo (userFrom u a) BUF_LEN).length by omega) hi0
      exact .inl ⟨_, by omega, stops hlen⟩

/-- **The step lemma**: a call keeps a NUL ahead of the cursor, if it is a write only under its
condition. -/
theorem Op.nulAhead_iff (h : NulAhead d) {op : Op} {out : List (U64 × U8)}
    (ho : op.outcome d u = some (v, d', out)) : NulAhead d' ↔ op.LeavesNul d u := by
  have htrue : NulAhead d' → (NulAhead d' ↔ True) := fun h' => ⟨fun _ => trivial, fun _ => h'⟩
  cases op with
  | «open» =>
      apply htrue
      rw [Op.outcome] at ho
      split at ho
      · cases ho; exact h
      · cases ho
        obtain ⟨o, -, hlt, h0⟩ := h
        exact ⟨o, Nat.zero_le _, hlt, h0⟩
  | release => apply htrue; cases ho; exact h
  | read buffer length =>
      apply htrue
      obtain ⟨k, hk, e⟩ := Option.map_eq_some_iff.mp ho
      cases e
      exact h.advance hk _
  | write buffer length =>
      cases ho
      exact nulAhead_written (Nat.min_le_right _ _)
  | ioctl num param =>
      show _ ↔ (num = IOCTL_SET_MSG → _)
      by_cases e₁ : num = IOCTL_SET_MSG
      · subst e₁
        rw [outcome_setMsg] at ho
        cases ho
        rw [nulAhead_setMsg h]
        exact ⟨fun h _ => h, fun h => h rfl⟩
      have hkeep : NulAhead d' → (NulAhead d' ↔ (num = IOCTL_SET_MSG →
          ∃ i < BUF_LEN, userFrom u param i = 0)) := fun h' => ⟨fun _ e => absurd e e₁, fun _ => h'⟩
      apply hkeep
      by_cases e₂ : num = IOCTL_GET_MSG
      · subst e₂
        rw [outcome_getMsg] at ho
        obtain ⟨k, hk, e⟩ := Option.map_eq_some_iff.mp ho
        cases e
        exact h.advance hk _
      by_cases e₃ : num = IOCTL_GET_NTH_BYTE
      · subst e₃; rw [outcome_getNthByte] at ho; cases ho; exact h
      · rw [outcome_other e₁ e₂ e₃] at ho; cases ho; exact h

/-- A write sets the cursor, so the condition can be read off the state after it. -/
theorem Op.leavesNul_of_cursorOk (h : NulAhead d) {op : Op} {out : List (U64 × U8)}
    (ho : op.outcome d u = some (v, d', out)) (hc : CursorOk d') : op.LeavesNul d u := by
  have hset : d'.messagePtr = some 0 → op.LeavesNul d u := fun hk =>
    (Op.nulAhead_iff h ho).mp (hc.nulAhead hk)
  cases op with
  | «open» => trivial
  | release => trivial
  | read buffer length => trivial
  | write buffer length => cases ho; exact hset rfl
  | ioctl num param =>
      intro e
      subst e
      rw [outcome_setMsg] at ho
      cases ho
      exact hset rfl rfl

/-! ### Runs keep the cursor inside -/

/-- The operations that go through `device_read`. -/
def Op.Reads : Op → Prop
  | .read .. => True
  | .ioctl num _ => num = IOCTL_GET_MSG
  | _ => False

variable {c : Call} {cs : List Call} {t : List Access}

/-- With a NUL ahead, a read looks only at `Message`. -/
theorem NulAhead.loads (h : NulAhead d) (hop : c.op.Reads) (hr : c.Returns d v d' t) {o : U64}
    (ho : .load o ∈ t) : o.toNat < BUF_LEN := by
  obtain ⟨u', hends⟩ := hr
  obtain ⟨u, op⟩ := c
  have hsome : ∀ {n i : ℕ} {k : U64}, d.messagePtr = some k → i ≤ (d.unread k n).length →
      (k + BitVec.ofNat 64 i).toNat < BUF_LEN := by
    intro n i k hk hi
    obtain ⟨z, hle, hlt, h0⟩ := h
    rw [hk, Option.getD_some] at hle
    have hlen := length_unread_le hle h0 n
    have := z.isLt
    rw [toNat_add_ofNat (by omega)]
    omega
  cases op with
  | read buffer length =>
      cases hk : d.messagePtr with
      | none => exact absurd hends (deviceRead_null hk)
      | some k =>
          obtain ⟨-, -, -, hload⟩ := (deviceRead_spec hk buffer length).of_ends hends
          obtain ⟨i, hi, -, rfl⟩ := (hload o).mp ho
          exact hsome hk hi
  | ioctl num param =>
      cases hop
      change (deviceIoctl IOCTL_GET_MSG param).Ends _ _ _ _ at hends
      rw [deviceIoctl_getMsg] at hends
      cases hk : d.messagePtr with
      | none => exact absurd hends (ioctlGetMsg_null hk)
      | some k =>
          obtain ⟨-, -, -, hload⟩ := (ioctlGetMsg_spec hk param).of_ends hends
          obtain ⟨i, hi, -, rfl⟩ := hload o ho
          exact hsome hk hi
  | «open» => exact absurd hop id
  | release => exact absurd hop id
  | write buffer length => exact absurd hop id

/-- The run lemma, from any state with a NUL ahead. -/
theorem Run.cursor (h : Run d cs d') (hd : NulAhead d) :
    (Throughout CursorOk d cs ↔ Along Call.LeavesNul d cs) ∧
      (Along Call.LeavesNul d cs → NulAhead d') := by
  induction h with
  | nil d =>
      refine ⟨⟨fun _ => trivial, ?_⟩, fun _ => hd⟩
      intro _ cs₁ cs₂ d' e hrun
      obtain ⟨rfl, -⟩ := List.append_eq_nil_iff.mp e.symm
      cases hrun
      exact hd.cursorOk
  | cons he hr _ ih =>
      have hstep := Op.nulAhead_iff hd hr.outcome
      rw [throughout_cons he hr, along_cons hr]
      refine ⟨⟨?_, ?_⟩, fun h => (ih (hstep.mpr h.1)).2 h.2⟩
      · intro hall
        obtain ⟨_, h⟩ := hall
        have hleaves := Op.leavesNul_of_cursorOk hd hr.outcome (h [] _ _ rfl (.nil _))
        exact ⟨hleaves, (ih (hstep.mpr hleaves)).1.mp h⟩
      · intro h
        exact ⟨hd.cursorOk, (ih (hstep.mpr h.1)).1.mpr h.2⟩

/-- **The cursor stays inside `Message`.**  In a run from the loaded module the cursor has a NUL
ahead of it inside `Message` in every state, if and only if every write stores a NUL or leaves one
behind what it stores, and every string given to `IOCTL_SET_MSG` ends within the buffer.  And then a
read in the state it has reached looks only at `Message`. -/
theorem cursor_stays_inside (hl : Loaded d) (h : Run d cs d') :
    (Throughout CursorOk d cs ↔ Along Call.LeavesNul d cs) ∧
      (Along Call.LeavesNul d cs → ∀ (c : Call) v d'' t, c.op.Reads →
        c.Returns d' v d'' t → ∀ o, .load o ∈ t → o.toNat < BUF_LEN) := by
  obtain ⟨hiff, hend⟩ := h.cursor (loaded_nulAhead hl)
  refine ⟨hiff, ?_⟩
  intro hal c v d'' t hop hr o ho
  exact (hend hal).loads hop hr ho

end

/-! ### Runs on a fresh module -/

/-- A loaded module, with zeros around it. -/
def freshDevice : Device := ⟨0, fun _ => 0, none⟩

theorem freshDevice_loaded : Loaded freshDevice := ⟨rfl, fun _ _ => rfl, rfl⟩

/-- A process whose memory is full of letters. -/
def letters : UserMem := ⟨fun _ => 97, fun _ => true, fun _ => true⟩

/-- The device after it has been opened and `n` letters have been written. -/
def lettered (n : ℕ) : Device := (⟨1, fun _ => 0, some 0⟩ : Device).written letters 0 n

theorem lettered_run (n : U64) : Run freshDevice [⟨letters, .open⟩, ⟨letters, .write 0 n⟩]
    (lettered (min n.toNat BUF_LEN)) := by
  obtain ⟨t₁, h₁, -⟩ := (returns_iff (c := ⟨letters, .open⟩) (d := freshDevice)).mpr rfl
  obtain ⟨t₂, h₂, -⟩ := (returns_iff (c := ⟨letters, .write 0 n⟩)
    (d := ⟨1, fun _ => 0, some 0⟩)).mpr rfl
  exact .cons trivial h₁ (.cons (show (1 : ℤ) ≠ 0 by decide) h₂ (.nil _))

theorem lettered_mem {n : ℕ} {o : U64} : (lettered n).mem o = if o.toNat < n then 97 else 0 := by
  show overwrite letters 0 n (fun _ => 0) o = _
  unfold overwrite
  split
  · rfl
  · rfl

theorem cursor_stays_inside_five : ∃ d, Loaded freshDevice ∧
    Run freshDevice [⟨letters, .open⟩, ⟨letters, .write 0 5⟩] d ∧
      Throughout CursorOk freshDevice [⟨letters, .open⟩, ⟨letters, .write 0 5⟩] := by
  obtain ⟨hiff, -⟩ := cursor_stays_inside freshDevice_loaded (lettered_run 5)
  refine ⟨_, freshDevice_loaded, lettered_run 5, hiff.mpr ⟨trivial, ?_⟩⟩
  intro v d' t hr
  obtain ⟨-, hd⟩ := Prod.mk.inj (Option.some.inj hr.outcome)
  obtain ⟨rfl, -⟩ := Prod.mk.inj hd
  refine ⟨.inr ⟨79, by decide, by decide, rfl⟩, ?_⟩
  intro _ _ _ _
  trivial

/-- **Eighty letters leave no NUL**, and the next read runs out of the buffer. -/
theorem cursor_runs_out : ∃ d, Loaded freshDevice ∧
    Run freshDevice [⟨letters, .open⟩, ⟨letters, .write 0 80⟩] d ∧ ¬ CursorOk d ∧
      ∃ v d' t, (⟨letters, .read 0 81⟩ : Call).Returns d v d' t ∧ .load (80 : U64) ∈ t := by
  have hlen : 80 ≤ ((lettered 80).unread 0 81).length := by
    by_contra hlt
    have h0 : (lettered 80).from 0 ((lettered 80).unread 0 81).length = 0 := stops (by
      show ((lettered 80).unread 0 81).length < 81
      omega)
    unfold Device.from at h0
    rw [lettered_mem, if_pos] at h0
    · cases h0
    · have hz : (0 : U64).toNat = 0 := rfl
      rw [toNat_add_ofNat (by omega)]
      omega
  refine ⟨lettered 80, freshDevice_loaded, lettered_run 80, ?_, ?_⟩
  · intro h
    obtain ⟨-, o, -, hlt, h0⟩ := h 0 rfl
    rw [lettered_mem, if_pos (by exact hlt)] at h0
    cases h0
  · obtain ⟨v, s, t, hends, -, -, -, hload⟩ :=
      deviceRead_spec (d := lettered 80) (u := letters) (k := 0) rfl 0 81
    exact ⟨v, s.dev, t, ⟨s.user, hends⟩, (hload 80).mpr ⟨80, hlen, .inl (by decide), by decide⟩⟩

end KernelHacking.CharDev
