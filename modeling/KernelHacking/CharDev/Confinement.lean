import KernelHacking.CharDev.Cursor

/-! # What the device discloses

Two devices that agree on the variables of the module, `Message` included, differ only in the memory
around them.  A sequence of calls discloses nothing of that memory if it gives the same values and
stores the same bytes on both.  That is so as long as every read finds a NUL at or after the cursor
or asks for no more bytes than are left of `Message`, and `IOCTL_GET_NTH_BYTE` asks for a byte of
`Message`; where the caller's buffers can be written these conditions are exact
(`discloses_only_message`).  Asking for byte 80 is enough to see beyond (`discloses_next_byte`). -/

namespace KernelHacking.CharDev

open TraceProg Prog Word Uaccess CString

/-! ### What the calls give -/

/-- The devices agree on the variables of the module. -/
structure Agree (d d₁ : Device) : Prop where
  deviceOpen : d₁.deviceOpen = d.deviceOpen
  messagePtr : d₁.messagePtr = d.messagePtr
  message : ∀ o : U64, o.toNat < BUF_LEN → d₁.mem o = d.mem o

/-- The values and stored bytes of the first calls of a sequence. -/
inductive Emits : Device → List Call → List (ℤ × List (U64 × U8)) → Prop where
  | nil (d : Device) (cs : List Call) : Emits d cs []
  | cons {c : Call} {cs : List Call} {d d' : Device} {v : ℤ} {t : List Access}
      {outs : List (ℤ × List (U64 × U8))} :
      c.Returns d v d' t → Emits d' cs outs → Emits d (c :: cs) ((v, stores t) :: outs)

/-- The calls give the same on all devices that agree with this one. -/
def SameOutputs (d : Device) (cs : List Call) : Prop :=
  ∀ d₁ d₂, Agree d d₁ → Agree d d₂ → ∀ outs, Emits d₁ cs outs → Emits d₂ cs outs

/-- A read of at most `n` bytes stays inside `Message`. -/
def Fits (d : Device) (k : U64) (n : ℕ) : Prop :=
  n = 0 ∨ (∃ o : U64, k.toNat ≤ o.toNat ∧ o.toNat < BUF_LEN ∧ d.mem o = 0) ∨ k.toNat + n ≤ BUF_LEN

/-- The condition on an operation: reads stay inside `Message`, and the byte asked for is one of its
bytes. -/
def Op.Confined (d : Device) : Op → Prop
  | .read _ length => ∀ k, d.messagePtr = some k → Fits d k length.toNat
  | .ioctl num param => (num = IOCTL_GET_MSG → ∀ k, d.messagePtr = some k → Fits d k 99) ∧
      (num = IOCTL_GET_NTH_BYTE → param.toNat < BUF_LEN)
  | _ => True

/-- The condition on a call. -/
def Call.Confined (d : Device) (c : Call) : Prop := c.op.Confined d

/-- The caller's buffer can be written, as far as the operation may store there: `IOCTL_GET_MSG` stores
at most 99 bytes and a NUL. -/
def Op.HasRoom (u : UserMem) : Op → Prop
  | .read buffer length => u.WritableAt buffer length.toNat
  | .ioctl num param => num = IOCTL_GET_MSG → u.WritableAt param 100
  | _ => True

section
variable {d d₁ d₂ d' : Device} {u : UserMem} {k : U64} {n : ℕ} {op : Op} {c : Call}
  {cs : List Call} {v : ℤ} {t : List Access} {out : List (U64 × U8)}

theorem emits_cons_iff {outs : List (ℤ × List (U64 × U8))} :
    Emits d (c :: cs) ((v, out) :: outs) ↔
      ∃ d', c.op.outcome d c.user = some (v, d', out) ∧ Emits d' cs outs := by
  constructor
  · intro h
    cases h with
    | cons hr he => exact ⟨_, hr.outcome, he⟩
  · intro hall
    obtain ⟨d', ho, he⟩ := hall
    obtain ⟨t, hr, rfl⟩ := returns_iff.mpr ho
    exact .cons hr he

theorem along_outcome {P : Device → Call → Prop} (ho : c.op.outcome d c.user = some (v, d', out)) :
    Along P d (c :: cs) ↔ P d c ∧ Along P d' cs := by
  obtain ⟨t, hr, -⟩ := returns_iff.mpr ho
  exact along_cons hr

/-- A read that fits looks only at `Message`. -/
theorem Fits.inside (h : Fits d k n) {i : ℕ} (hi : i < n) (hne : ∀ j < i, d.from k j ≠ 0) :
    (k + BitVec.ofNat 64 i).toNat < BUF_LEN := by
  rcases h with h | ⟨o, hle, hlt, h0⟩ | h
  · omega
  · have hio : i ≤ o.toNat - k.toNat := by
      by_contra hgt
      exact hne (o.toNat - k.toNat) (by omega) (by rw [from_sub hle]; exact h0)
    have := o.isLt
    rw [toNat_add_ofNat (by omega)]
    omega
  · unfold BUF_LEN at h ⊢
    rw [toNat_add_ofNat (by omega)]
    omega

theorem Agree.unread (h : Agree d d₁) (hf : Fits d k n) : d₁.unread k n = d.unread k n := by
  unfold Device.unread
  symm
  apply upTo_congr
  intro i hi hne
  exact (h.message _ (hf.inside hi hne)).symm

theorem Agree.advance (h : Agree d d₁) (k : U64) (n : ℕ) : Agree (d.advance k n) (d₁.advance k n) :=
  ⟨h.deviceOpen, rfl, h.message⟩

theorem Agree.written (h : Agree d d₁) (u : UserMem) (a : U64) (n : ℕ) :
    Agree (d.written u a n) (d₁.written u a n) := by
  refine ⟨h.deviceOpen, rfl, ?_⟩
  intro o ho
  show overwrite u a n d₁.mem o = overwrite u a n d.mem o
  unfold overwrite
  rw [h.message o ho]

/-- **The step lemma**: a confined call does the same on devices that agree. -/
theorem Op.outcome_agree (h : Agree d d₁) (hc : op.Confined d)
    (ho : op.outcome d u = some (v, d', out)) :
    ∃ d₁', op.outcome d₁ u = some (v, d₁', out) ∧ Agree d' d₁' := by
  cases op with
  | «open» =>
      rw [Op.outcome] at ho ⊢
      rw [h.deviceOpen]
      by_cases e : d.deviceOpen ≠ 0
      · rw [if_pos e] at ho ⊢
        cases ho
        exact ⟨d₁, rfl, h⟩
      · rw [if_neg e] at ho ⊢
        cases ho
        exact ⟨_, rfl, ⟨rfl, rfl, h.message⟩⟩
  | release =>
      cases ho
      exact ⟨_, rfl, ⟨by rw [h.deviceOpen], h.messagePtr, h.message⟩⟩
  | read buffer length =>
      obtain ⟨k, hk, e⟩ := Option.map_eq_some_iff.mp ho
      cases e
      refine ⟨_, ?_, h.advance k _⟩
      rw [Op.outcome, h.messagePtr, hk, Option.map_some, h.unread (hc k hk)]
  | write buffer length =>
      cases ho
      exact ⟨_, rfl, h.written u buffer _⟩
  | ioctl num param =>
      by_cases e₁ : num = IOCTL_SET_MSG
      · subst e₁
        rw [outcome_setMsg] at ho ⊢
        cases ho
        exact ⟨_, rfl, h.written u param _⟩
      by_cases e₂ : num = IOCTL_GET_MSG
      · subst e₂
        rw [outcome_getMsg] at ho ⊢
        obtain ⟨k, hk, e⟩ := Option.map_eq_some_iff.mp ho
        cases e
        refine ⟨_, ?_, h.advance k _⟩
        rw [h.messagePtr, hk, Option.map_some, h.unread (hc.1 rfl k hk)]
      by_cases e₃ : num = IOCTL_GET_NTH_BYTE
      · subst e₃
        rw [outcome_getNthByte] at ho ⊢
        cases ho
        rw [h.message param (hc.2 rfl)]
        exact ⟨d₁, rfl, h⟩
      · rw [outcome_other e₁ e₂ e₃] at ho ⊢
        cases ho
        exact ⟨d₁, rfl, h⟩

theorem Agree.fits (h : Agree d d₁) (hf : Fits d k n) : Fits d₁ k n := by
  rcases hf with hf | ⟨o, hle, hlt, h0⟩ | hf
  · exact .inl hf
  · exact .inr (.inl ⟨o, hle, hlt, by rw [h.message o hlt, h0]⟩)
  · exact .inr (.inr hf)

theorem Agree.confined (h : Agree d d₁) (hc : op.Confined d) : op.Confined d₁ := by
  cases op with
  | read buffer length =>
      intro k hk
      rw [h.messagePtr] at hk
      exact h.fits (hc k hk)
  | ioctl num param =>
      refine ⟨?_, hc.2⟩
      intro e k hk
      rw [h.messagePtr] at hk
      exact h.fits (hc.1 e k hk)
  | «open» => trivial
  | release => trivial
  | write buffer length => trivial

theorem Agree.symm (h : Agree d d₁) : Agree d₁ d :=
  ⟨h.deviceOpen.symm, h.messagePtr.symm, fun o ho => (h.message o ho).symm⟩

/-- Confined calls give the same. -/
theorem Along.sameOutputs (h : Along Call.Confined d cs) : SameOutputs d cs := by
  induction cs generalizing d with
  | nil =>
      intro d₁ d₂ _ _ outs he
      cases he
      exact .nil d₂ []
  | cons c cs ih =>
      intro d₁ d₂ h₁ h₂ outs he
      cases outs with
      | nil => exact .nil d₂ (c :: cs)
      | cons o outs =>
          obtain ⟨d₁', ho₁, he⟩ := emits_cons_iff.mp he
          -- the call on the common device, and from there on the second one
          obtain ⟨d', ho, ha₁⟩ := Op.outcome_agree h₁.symm (h₁.confined h.1) ho₁
          obtain ⟨d₂', ho₂, ha₂⟩ := Op.outcome_agree h₂ h.1 ho
          obtain ⟨t, ht, -⟩ := returns_iff.mpr ho
          exact emits_cons_iff.mpr
            ⟨d₂', ho₂, ih (h.2 _ d' t ht) _ d₂' ha₁.symm ha₂ _ he⟩

/-! ### Calls that are not confined -/

/-- The device with other memory around it. -/
def Device.around (d : Device) (mem : U64 → U8) : Device :=
  { d with mem := fun o => if o.toNat < BUF_LEN then d.mem o else mem o }

theorem agree_around (d : Device) (mem : U64 → U8) : Agree d (d.around mem) :=
  ⟨rfl, rfl, fun _ ho => if_pos ho⟩

/-- A read that does not fit tells zeros from ones beyond `Message`. -/
theorem length_unread_around (h : ¬ Fits d k n) :
    ((d.around fun _ => 0).unread k n).length < ((d.around fun _ => 1).unread k n).length := by
  unfold Fits at h
  push Not at h
  obtain ⟨hn, hnul, hlong⟩ := h
  have hzero : ((d.around fun _ => 0).unread k n).length ≤ BUF_LEN - k.toNat := by
    by_contra hgt
    have hne := CString.ne_zero_of_lt (Nat.lt_of_not_le hgt)
    apply hne
    by_cases hk : k.toNat < BUF_LEN
    · show (if _ then _ else (0 : U8)) = 0
      rw [if_neg]
      unfold BUF_LEN at hk ⊢
      rw [toNat_add_ofNat (by omega)]
      omega
    · rw [Nat.sub_eq_zero_of_le (Nat.le_of_not_lt hk), from_zero]
      exact if_neg hk
  have hone : BUF_LEN - k.toNat < ((d.around fun _ => 1).unread k n).length := by
    by_contra hle
    obtain ⟨m, hm⟩ : ∃ m, m = ((d.around fun _ => 1).unread k n).length := ⟨_, rfl⟩
    rw [← hm] at hle
    have hstop : (d.around fun _ => 1).from k m = 0 := by
      rw [hm]
      apply stops
      show ((d.around fun _ => 1).unread k n).length < n
      omega
    unfold Device.from Device.around at hstop
    dsimp only at hstop
    split at hstop
    · rename_i hin
      -- inside `Message` there is no NUL from the cursor on
      by_cases hk : k.toNat < BUF_LEN
      · refine hnul _ ?_ hin hstop
        unfold BUF_LEN at hk hle
        rw [toNat_add_ofNat (by omega)]
        omega
      · have hm0 : m = 0 := by omega
        rw [hm0] at hin
        simp only [BitVec.add_zero] at hin
        exact hk hin
    · cases hstop
  omega

theorem SameOutputs.outcome (h : SameOutputs d (c :: cs)) (h₁ : Agree d d₁) (h₂ : Agree d d₂)
    (ho : c.op.outcome d₁ c.user = some (v, d', out)) :
    ∃ d₂', c.op.outcome d₂ c.user = some (v, d₂', out) := by
  obtain ⟨d₂', ho₂, -⟩ :=
    emits_cons_iff.mp (h d₁ d₂ h₁ h₂ _ (emits_cons_iff.mpr ⟨d', ho, .nil d' cs⟩))
  exact ⟨d₂', ho₂⟩

/-- With room for them, more bytes are stored where a read that does not fit finds ones. -/
theorem stored_around_ne (a : U64) (bs : List U8) (hf : ¬ Fits d k n)
    (hw : u.WritableAt a (n + bs.length)) :
    stored u a ((d.around fun _ => 1).unread k n ++ bs) ≠
      stored u a ((d.around fun _ => 0).unread k n ++ bs) := by
  have hroom : ∀ d₁ : Device, stored u a (d₁.unread k n ++ bs) = placed a (d₁.unread k n ++ bs) := by
    intro d₁
    apply stored_of_writableAt hw
    rw [List.length_append]
    exact Nat.add_le_add_right (length_upTo_le _ _) _
  intro e
  rw [hroom, hroom] at e
  have hl := congrArg List.length e
  simp only [length_placed, List.length_append] at hl
  have := length_unread_around hf
  omega

/-- With room for what they store, calls that give the same are confined. -/
theorem SameOutputs.confined (hw : c.op.HasRoom c.user) (h : SameOutputs d (c :: cs)) :
    c.Confined d := by
  obtain ⟨u, op⟩ := c
  cases op with
  | read buffer length =>
      intro k hk
      by_contra hf
      obtain ⟨d₂', ho₂⟩ := h.outcome (agree_around d fun _ => 0) (agree_around d fun _ => 1)
        (Option.map_eq_some_iff.mpr ⟨k, hk, rfl⟩)
      obtain ⟨k', hk', ho₂⟩ := Option.map_eq_some_iff.mp ho₂
      obtain rfl : k' = k := Option.some.inj (hk'.symm.trans hk)
      simp only [Prod.mk.injEq] at ho₂
      refine stored_around_ne buffer [] hf hw ?_
      simpa using ho₂.2.2
  | ioctl num param =>
      refine ⟨?_, ?_⟩
      · intro e k hk
        subst e
        by_contra hf
        obtain ⟨d₂', ho₂⟩ := h.outcome (agree_around d fun _ => 0) (agree_around d fun _ => 1)
          (outcome_getMsg.trans (Option.map_eq_some_iff.mpr ⟨k, hk, rfl⟩))
        rw [outcome_getMsg] at ho₂
        obtain ⟨k', hk', ho₂⟩ := Option.map_eq_some_iff.mp ho₂
        obtain rfl : k' = k := Option.some.inj (hk'.symm.trans hk)
        simp only [Prod.mk.injEq] at ho₂
        exact stored_around_ne param [0] hf (hw rfl) ho₂.2.2
      · intro e
        subst e
        by_contra hp
        have hnth : (Op.ioctl IOCTL_GET_NTH_BYTE param).outcome (d.around fun _ => 0) u =
            some (((d.around fun _ => 0).mem param).toInt, d.around fun _ => 0, []) :=
          outcome_getNthByte
        obtain ⟨d₂', ho₂⟩ := h.outcome (agree_around d fun _ => 0) (agree_around d fun _ => 1) hnth
        rw [outcome_getNthByte] at ho₂
        simp only [Device.around, if_neg hp, Option.some.injEq, Prod.mk.injEq] at ho₂
        exact absurd ho₂.1 (by decide)
  | «open» => trivial
  | release => trivial
  | write buffer length => trivial

/-- No operation writes outside `Message`. -/
theorem outcome_outside (ho : op.outcome d u = some (v, d', out)) {o : U64}
    (hout : ¬ o.toNat < BUF_LEN) : d'.mem o = d.mem o := by
  cases Op.deviceStep ho with
  | keeps hm _ => rw [hm]
  | opens hm _ => rw [hm]
  | reads n hk => rfl
  | @writes a n hn =>
      show overwrite u a n d.mem o = _
      rw [overwrite, if_neg (by omega)]

theorem Agree.eq_of_outside (h : Agree d d₁) (hout : ∀ o : U64, ¬ o.toNat < BUF_LEN →
    d₁.mem o = d.mem o) : d₁ = d := by
  obtain ⟨o₁, m₁, p₁⟩ := d₁
  obtain ⟨o₂, m₂, p₂⟩ := d
  obtain ⟨rfl, rfl, hm⟩ := h
  have hmem : m₁ = m₂ := by
    funext o
    by_cases ho : o.toNat < BUF_LEN
    · exact hm o ho
    · exact hout o ho
  rw [hmem]

/-- After a confined call, the other calls give the same. -/
theorem SameOutputs.tail (h : SameOutputs d (c :: cs)) (hc : c.Confined d)
    (ho : c.op.outcome d c.user = some (v, d', out)) : SameOutputs d' cs := by
  -- every device that agrees afterwards comes from one that agreed before
  have hback : ∀ d₁', Agree d' d₁' → ∃ d₁, Agree d d₁ ∧
      c.op.outcome d₁ c.user = some (v, d₁', out) := by
    intro d₁' ha
    obtain ⟨d₁, ho₁, ha'⟩ := Op.outcome_agree (agree_around d d₁'.mem) hc ho
    have heq : d₁ = d₁' := by
      refine Agree.eq_of_outside ⟨?_, ?_, ?_⟩ ?_
      · rw [ha'.deviceOpen, ha.deviceOpen]
      · rw [ha'.messagePtr, ha.messagePtr]
      · intro o hin; rw [ha'.message o hin, ha.message o hin]
      · intro o hout
        rw [outcome_outside ho₁ hout]
        exact if_neg hout
    rw [heq] at ho₁
    exact ⟨_, agree_around d d₁'.mem, ho₁⟩
  intro d₁' d₂' ha₁ ha₂ outs he
  obtain ⟨d₁, hag₁, ho₁⟩ := hback d₁' ha₁
  obtain ⟨d₂, hag₂, ho₂⟩ := hback d₂' ha₂
  obtain ⟨d₃, ho₃, he₃⟩ :=
    emits_cons_iff.mp (h d₁ d₂ hag₁ hag₂ _ (emits_cons_iff.mpr ⟨d₁', ho₁, he⟩))
  rw [ho₂, Option.some.injEq, Prod.mk.injEq, Prod.mk.injEq] at ho₃
  rw [ho₃.2.1]
  exact he₃

/-- **The device discloses only its message**, for a sequence of calls of which every read finds a NUL
at or after the cursor in `Message`, or asks for no more bytes than are left of it, and every
`IOCTL_GET_NTH_BYTE` asks for one of its bytes.  Where the callers' buffers can be written, there are
no other such sequences. -/
theorem discloses_only_message (d : Device) (cs : List Call) :
    (Along Call.Confined d cs → SameOutputs d cs) ∧
      ((∀ c ∈ cs, c.op.HasRoom c.user) → SameOutputs d cs → Along Call.Confined d cs) := by
  refine ⟨Along.sameOutputs, ?_⟩
  induction cs generalizing d with
  | nil => intro _ _; trivial
  | cons c cs ih =>
      intro hw h
      have hc := h.confined (hw c List.mem_cons_self)
      refine ⟨hc, ?_⟩
      intro v d' t hr
      exact ih d' (fun c' hc' => hw c' (List.mem_cons_of_mem c hc')) (h.tail hc hr.outcome)

end

/-- A process opens the device, writes five letters, and gets them in all three ways. -/
def letterCalls : List Call := [⟨letters, .open⟩, ⟨letters, .write 0 5⟩, ⟨letters, .read 0 80⟩,
  ⟨letters, .ioctl IOCTL_GET_NTH_BYTE 3⟩, ⟨letters, .ioctl IOCTL_GET_MSG 0⟩]

theorem letterCalls_confined : Along Call.Confined freshDevice letterCalls := by
  have hfive : (lettered 5).unread 0 (80 : U64).toNat = [97, 97, 97, 97, 97] := by decide
  have hnul : (lettered 5).mem 5 = 0 := by decide
  have hopen : Op.open.outcome freshDevice letters = some (SUCCESS, ⟨1, fun _ => 0, some 0⟩, []) := rfl
  have hwrite : (Op.write 0 5).outcome ⟨1, fun _ => 0, some 0⟩ letters =
      some (5, lettered 5, []) := rfl
  have hread : (Op.read 0 80).outcome (lettered 5) letters =
      some (5, (lettered 5).advance 0 5, stored letters 0 [97, 97, 97, 97, 97]) := by
    rw [← hfive]
    rfl
  refine (along_outcome hopen).mpr ⟨trivial, ?_⟩
  refine (along_outcome hwrite).mpr ⟨trivial, ?_⟩
  refine (along_outcome hread).mpr ⟨?_, ?_⟩
  · intro k hk
    cases hk
    exact .inr (.inl ⟨5, by decide, by decide, hnul⟩)
  · refine (along_outcome outcome_getNthByte).mpr ⟨⟨?_, ?_⟩, ?_⟩
    · intro e; cases e
    · intro _; decide
    · refine ⟨⟨?_, ?_⟩, fun _ _ _ _ => trivial⟩
      · intro _ k hk
        cases hk
        exact .inr (.inl ⟨5, by decide, by decide, hnul⟩)
      · intro e; cases e

/-- The five letters are all that is told of the memory; byte 80 is beyond them. -/
theorem discloses_only_message_letters : SameOutputs freshDevice letterCalls ∧
    ¬ SameOutputs freshDevice [⟨letters, .open⟩, ⟨letters, .ioctl IOCTL_GET_NTH_BYTE 80⟩] := by
  refine ⟨(discloses_only_message _ _).1 letterCalls_confined, ?_⟩
  intro h
  have hroom : ∀ c ∈ ([⟨letters, .open⟩, ⟨letters, .ioctl IOCTL_GET_NTH_BYTE 80⟩] : List Call),
      c.op.HasRoom c.user := by
    intro c hc
    simp only [List.mem_cons, List.not_mem_nil, or_false] at hc
    rcases hc with rfl | rfl
    · trivial
    · intro e; cases e
  have hcs := (discloses_only_message _ _).2 hroom h
  rw [along_outcome (c := ⟨letters, .open⟩) rfl] at hcs
  exact absurd (hcs.2.1.2 rfl) (by decide)

/-- **The byte after `Message` is returned to whoever asks for it.** -/
theorem discloses_next_byte : ∃ d₁ d₂, Agree freshDevice d₁ ∧ Agree freshDevice d₂ ∧
    ∃ outs, Emits d₁ [⟨letters, .open⟩, ⟨letters, .ioctl IOCTL_GET_NTH_BYTE 80⟩] outs ∧
      ¬ Emits d₂ [⟨letters, .open⟩, ⟨letters, .ioctl IOCTL_GET_NTH_BYTE 80⟩] outs := by
  refine ⟨freshDevice.around fun _ => 0, freshDevice.around fun _ => 1, agree_around _ _,
    agree_around _ _, [(0, []), (0, [])], ?_, ?_⟩
  · exact emits_cons_iff.mpr ⟨_, rfl, emits_cons_iff.mpr ⟨_, outcome_getNthByte, .nil _ _⟩⟩
  · intro h
    obtain ⟨d', ho, h⟩ := emits_cons_iff.mp h
    cases (Option.some.inj ho : ((_, _, _) : ℤ × Device × List (U64 × U8)) = _)
    obtain ⟨d'', ho', -⟩ := emits_cons_iff.mp h
    rw [outcome_getNthByte] at ho'
    cases ho'

end KernelHacking.CharDev
