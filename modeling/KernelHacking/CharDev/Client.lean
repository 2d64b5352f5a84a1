import KernelHacking.CharDev.RoundTrip

/-! # The client that reads byte by byte

`ioctl_get_nth_byte` of `main.c` asks the device for `Message[0]`, `Message[1]`, ... with
`IOCTL_GET_NTH_BYTE`, which gives the byte as the value of the system call, and prints what it gets
until it has got the terminator.  The value of a system call is also how an error is reported, and a
byte that is negative as a `char` ends the client with an error.  `nthByte_agrees_iff` says that this
is the only difference to `IOCTL_GET_MSG`: the two give the same message exactly if all of its bytes
are below 128.

The process and the device are one program here: a trace records the system calls, what the device
does in them and what is printed. -/

namespace KernelHacking.CharDev

open TraceProg Prog Word Uaccess CString

namespace Client

/-! ### The process -/

/-- What a trace of the process records. -/
inductive Event where
  | ioctl (num : BitVec 32) (param : U64)
  | device (e : Access)
  | printf (text : String)
  | putchar (c : U8)
deriving DecidableEq, Repr

/-- Code of the client. -/
abbrev ClientM := Prog Sys Event

/-- The value the process gets for the value of an operation: an error number is replaced by -1. -/
def syscallResult (v : ℤ) : ℤ := if -4095 ≤ v ∧ v ≤ -1 then -1 else v

/-- `ioctl` on the file of the device. -/
def ioctl (num : BitVec 32) (param : U64) : ClientM ℤ := do
  emit (.ioctl num param)
  let v ← relabel .device (deviceIoctl num param)
  pure (syscallResult v)

/-- How a function of the client ends: it returns, or the process exits. -/
inductive Exit where
  | returned
  | exited
deriving DecidableEq, Repr

/-- The body of the loop of `ioctl_get_nth_byte`, with `i` as it is before `i++`; `char` is signed,
and the loop goes on while the byte is not the terminator. -/
def nthByteBody (i : ℕ) : ClientM (ℕ ⊕ Exit) := do
  let r ← ioctl IOCTL_GET_NTH_BYTE (BitVec.ofNat 64 i)
  let c : U8 := BitVec.ofInt 8 r
  if c.toInt < 0 then do
    emit (.printf ("ioctl_get_nth_byte failed at the " ++ toString (i + 1) ++ "'th byte:\n"))
    pure (.inr .exited)
  else do
    emit (.putchar c)
    pure (if c ≠ 0 then .inl (i + 1) else .inr .returned)

/-- `ioctl_get_nth_byte`. -/
def ioctlGetNthByte : ClientM Exit := do
  emit (.printf "get_nth_byte message:")
  let e ← loop nthByteBody 0
  when (e = .returned) (emit (.putchar 10))
  pure e

/-- The bytes printed with `putchar`. -/
def putchars (t : List Event) : List U8 :=
  t.filterMap fun e => match e with
    | .putchar c => some c
    | _ => none

@[simp] theorem putchars_append (t t' : List Event) :
    putchars (t ++ t') = putchars t ++ putchars t' := List.filterMap_append

/-! ### A byte as the value of a system call -/

/-- A byte that is not negative comes through. -/
theorem char_of_lt {b : U8} (h : b.toNat < 128) :
    BitVec.ofInt 8 (syscallResult b.toInt) = b ∧ ¬ b.toInt < 0 := by
  have hb : b.toInt = b.toNat := BitVec.toInt_eq_toNat_of_lt (by omega)
  have hres : syscallResult b.toInt = b.toInt := if_neg (by omega)
  exact ⟨by rw [hres, BitVec.ofInt_toInt], by omega⟩

/-- A negative one looks like an error. -/
theorem char_of_le {b : U8} (h : 128 ≤ b.toNat) :
    (BitVec.ofInt 8 (syscallResult b.toInt)).toInt < 0 := by
  have hlt := b.isLt
  have hb : b.toInt = b.toNat - 256 := by
    rw [BitVec.toInt_eq_toNat_cond, if_neg (by omega)]
    rfl
  have hres : syscallResult b.toInt = -1 := if_pos (by omega)
  rw [hres]
  decide

/-! ### The loop -/

section
variable {d : Device} {u : UserMem} {i : ℕ} {b : U8} {s : List U8}

theorem ioctl_wp {p : U64} {Q : ℤ → Sys → List Event → Prop} :
    (ioctl IOCTL_GET_NTH_BYTE p).wp ⟨d, u⟩ Q ↔ Q (syscallResult (d.mem p).toInt) ⟨d, u⟩
      [.ioctl IOCTL_GET_NTH_BYTE p, .device (.load p)] := by
  unfold ioctl
  rw [deviceIoctl_getNthByte, wp_bind, wp_emit, wp_bind, wp_relabel]
  simp [CharDev.ioctlGetNthByte, load]

/-- One turn of the loop at a byte that is not negative. -/
theorem nthByteBody_of_lt (hb : d.mem (BitVec.ofNat 64 i) = b) (h : b.toNat < 128)
    {Q : ℕ ⊕ Exit → Sys → List Event → Prop} :
    (nthByteBody i).wp ⟨d, u⟩ Q ↔ Q (if b ≠ 0 then .inl (i + 1) else .inr .returned) ⟨d, u⟩
      [.ioctl IOCTL_GET_NTH_BYTE (BitVec.ofNat 64 i), .device (.load (BitVec.ofNat 64 i)),
        .putchar b] := by
  obtain ⟨hc, hpos⟩ := char_of_lt h
  unfold nthByteBody
  rw [wp_bind, ioctl_wp, hb, hc, if_neg hpos]
  simp

/-- One turn of the loop at a negative byte. -/
theorem nthByteBody_of_le (hb : d.mem (BitVec.ofNat 64 i) = b) (h : 128 ≤ b.toNat) :
    (nthByteBody i).wp ⟨d, u⟩ fun e _ t => e = .inr .exited ∧ putchars t = [] := by
  unfold nthByteBody
  rw [wp_bind, ioctl_wp, hb, if_pos (char_of_le h)]
  simp [putchars]

/-- The first byte of a string in `Message`, and the rest of it. -/
theorem mem_of_holds {c : U8} (h : Holds (fun j => d.from 0 (i + j)) (c :: s)) :
    d.mem (BitVec.ofNat 64 i) = c ∧ c ≠ 0 ∧ Holds (fun j => d.from 0 (i + 1 + j)) s := by
  have h0 : d.from 0 i = c := h.value 0 (by simp)
  have hne : d.from 0 i ≠ 0 := h.ne_zero (i := 0) (by simp)
  have hdrop := h.drop (m := 1) (by simp)
  refine ⟨by rw [← from_start, h0], h0 ▸ hne, ?_⟩
  simpa [Nat.add_assoc] using hdrop

/-- The only call of a turn asks for the byte at `i`. -/
theorem asks_of_turn (hi : i < BUF_LEN) (num : BitVec 32) (p : U64)
    (hp : Event.ioctl num p ∈ [Event.ioctl IOCTL_GET_NTH_BYTE (BitVec.ofNat 64 i),
      .device (.load (BitVec.ofNat 64 i)), .putchar b]) : p.toNat < BUF_LEN := by
  simp only [List.mem_cons, Event.ioctl.injEq, reduceCtorEq, List.not_mem_nil, or_false] at hp
  unfold BUF_LEN at hi ⊢
  rw [hp.2, toNat_ofNat_of_lt (by omega)]
  omega

/-- The loop prints the string it finds, and its terminator, if no byte of it is negative. -/
theorem loop_returns (h : ∀ c ∈ s, c.toNat < 128) (hs : Holds (fun j => d.from 0 (i + j)) s)
    (hi : i + s.length < BUF_LEN) : (loop nthByteBody i).wp ⟨d, u⟩ fun e s' t =>
      e = .returned ∧ s' = ⟨d, u⟩ ∧ (∀ num p, Event.ioctl num p ∈ t → p.toNat < BUF_LEN) ∧
      putchars t = s ++ [0] := by
  induction s generalizing i with
  | nil =>
      have h0 : d.mem (BitVec.ofNat 64 i) = 0 := by
        rw [← from_start]
        exact hs.nul
      rw [wp_loop, wp_bind, nthByteBody_of_lt h0 (by decide), if_neg (by simp), Sum.elim_inr, wp_ret]
      refine ⟨rfl, rfl, ?_, rfl⟩
      intro num p hp
      rw [List.append_nil] at hp
      exact asks_of_turn (by simpa using hi) num p hp
  | cons c s ih =>
      obtain ⟨hmem, hne, hrest⟩ := mem_of_holds hs
      rw [List.length_cons] at hi
      rw [wp_loop, wp_bind, nthByteBody_of_lt hmem (h c List.mem_cons_self), if_pos hne,
        Sum.elim_inl]
      refine (ih (fun x hx => h x (List.mem_cons_of_mem c hx)) hrest (by omega)).mono ?_
      rintro e s' t ⟨rfl, rfl, hask, hput⟩
      refine ⟨rfl, rfl, ?_, ?_⟩
      · intro num p hp
        rcases List.mem_append.mp hp with hp | hp
        · exact asks_of_turn (by omega) num p hp
        · exact hask num p hp
      · rw [putchars_append, hput]
        rfl

/-- The client exits at the first negative byte. -/
theorem loop_exits (h : ∃ c ∈ s, 128 ≤ c.toNat) (hs : Holds (fun j => d.from 0 (i + j)) s) :
    (loop nthByteBody i).wp ⟨d, u⟩ fun e _ _ => e = .exited := by
  induction s generalizing i with
  | nil =>
      obtain ⟨c, hc, -⟩ := h
      cases hc
  | cons c s ih =>
      obtain ⟨hmem, hne, hrest⟩ := mem_of_holds hs
      rw [wp_loop, wp_bind]
      rcases Nat.lt_or_ge c.toNat 128 with hlt | hge
      · obtain ⟨x, hx, hxge⟩ := h
        have hxs : x ∈ s := by
          rcases List.mem_cons.mp hx with rfl | hx
          · omega
          · exact hx
        rw [nthByteBody_of_lt hmem hlt, if_pos hne, Sum.elim_inl]
        exact ih ⟨x, hxs, hxge⟩ hrest
      · refine (nthByteBody_of_le hmem hge).mono ?_
        rintro e s' t ⟨rfl, -⟩
        rw [Sum.elim_inr, wp_ret]

/-- What the client prints of a message without negative bytes. -/
theorem ioctlGetNthByte_returns (hnul : ∃ o : U64, o.toNat < BUF_LEN ∧ d.mem o = 0)
    (h : ∀ c ∈ d.text, c.toNat < 128) : ioctlGetNthByte.wp ⟨d, u⟩ fun e s' t =>
      e = .returned ∧ s' = ⟨d, u⟩ ∧ (∀ num p, Event.ioctl num p ∈ t → p.toNat < BUF_LEN) ∧
      putchars t = d.text ++ [0] ++ [10] := by
  have hs : Holds (fun j => d.from 0 (0 + j)) d.text := by simpa using holds_text hnul
  unfold ioctlGetNthByte
  rw [wp_bind, wp_emit, wp_bind]
  refine (loop_returns h hs (by simpa using text_length_lt hnul)).mono ?_
  rintro e s' t ⟨rfl, rfl, hask, hput⟩
  rw [wp_bind, when_pos rfl, wp_emit, wp_ret]
  refine ⟨rfl, rfl, ?_, ?_⟩
  · intro num p hp
    simp only [List.append_nil, List.mem_append, List.mem_cons, reduceCtorEq, List.not_mem_nil,
      or_false, false_or] at hp
    exact hask num p hp
  · simp only [putchars_append, hput]
    rfl

/-- A negative byte in the message ends the client. -/
theorem ioctlGetNthByte_exits (hnul : ∃ o : U64, o.toNat < BUF_LEN ∧ d.mem o = 0)
    (h : ∃ c ∈ d.text, 128 ≤ c.toNat) : ioctlGetNthByte.wp ⟨d, u⟩ fun e _ _ => e = .exited := by
  have hs : Holds (fun j => d.from 0 (0 + j)) d.text := by simpa using holds_text hnul
  unfold ioctlGetNthByte
  rw [wp_bind, wp_emit, wp_bind]
  refine (loop_exits h hs).mono ?_
  rintro e s' t rfl
  rw [wp_bind, when_neg (by decide), wp_ret, wp_ret]

end

end Client

/-! ### The two ways to get the message -/

/-- What `IOCTL_GET_MSG` stores when the device has just been opened. -/
def GetMsgAfterOpen (d : Device) (u : UserMem) (b : U64) (out : List (U64 × U8)) : Prop :=
  ∃ d₁ t₁ d₂ t₂, (⟨u, .open⟩ : Call).Returns { d with deviceOpen := 0 } SUCCESS d₁ t₁ ∧
    (⟨u, .ioctl IOCTL_GET_MSG b⟩ : Call).Returns d₁ SUCCESS d₂ t₂ ∧ stores t₂ = out

/-- The client returns, has not asked for a byte outside `Message`, and has printed the bytes that
`IOCTL_GET_MSG` gives with their terminator, before it ends the line. -/
def RetrievalAgrees (d : Device) : Prop :=
  ∀ u u' b, u'.WritableAt b (d.text.length + 1) → ∃ s' t bs,
    Client.ioctlGetNthByte.Ends ⟨d, u⟩ .returned s' t ∧
    (∀ num p, Client.Event.ioctl num p ∈ t → p.toNat < BUF_LEN) ∧
    GetMsgAfterOpen d u' b (placed b (bs ++ [0])) ∧ Client.putchars t = bs ++ [0] ++ [10]

section
variable {d : Device} {u : UserMem} {b : U64}

/-- After a fresh open, `IOCTL_GET_MSG` gives the whole message. -/
theorem getMsgAfterOpen_text (hnul : ∃ o : U64, o.toNat < BUF_LEN ∧ d.mem o = 0)
    (hw : u.WritableAt b (d.text.length + 1)) :
    GetMsgAfterOpen d u b (placed b (d.text ++ [0])) := by
  obtain ⟨t₁, h₁, -⟩ := (returns_iff (c := ⟨u, .open⟩) (d := { d with deviceOpen := 0 })).mpr rfl
  obtain ⟨d₁, hd₁⟩ : ∃ d₁ : Device, d₁ = { d with deviceOpen := 0 + 1, messagePtr := some 0 } :=
    ⟨_, rfl⟩
  obtain ⟨t₂, h₂, hst⟩ := (returns_iff (c := ⟨u, .ioctl IOCTL_GET_MSG b⟩) (d := d₁)).mpr
    (outcome_getMsg.trans (Option.map_eq_some_iff.mpr ⟨0, by rw [hd₁], rfl⟩))
  have hall : d₁.unread 0 99 = d.text := by
    have hlen := text_length_lt hnul
    unfold BUF_LEN at hlen
    have hun := unread_eq_drop (k := 0) hnul (Nat.zero_le _) 99
    have hz : (0 : U64).toNat = 0 := rfl
    rw [hz, List.drop_zero, List.take_of_length_le (by omega)] at hun
    rw [hd₁]
    exact hun
  refine ⟨d₁, t₁, _, t₂, hd₁ ▸ h₁, h₂, ?_⟩
  rw [hst, hall, stored_of_writableAt hw (by simp)]

/-- With a negative byte in the message, they do not agree. -/
theorem not_retrievalAgrees (hnul : ∃ o : U64, o.toNat < BUF_LEN ∧ d.mem o = 0)
    (h : ∃ c ∈ d.text, 128 ≤ c.toNat) : ¬ RetrievalAgrees d := by
  intro hagree
  obtain ⟨s', t, bs, hends, -⟩ := hagree letters letters 0 fun _ _ => rfl
  have hexit := (Client.ioctlGetNthByte_exits (u := letters) hnul h).of_ends hends
  cases hexit

/-- **The two ways to get the message agree** exactly if no byte of it is negative as a `char`. -/
theorem nthByte_agrees_iff (hnul : ∃ o : U64, o.toNat < BUF_LEN ∧ d.mem o = 0) :
    RetrievalAgrees d ↔ ∀ c ∈ d.text, c.toNat < 128 := by
  constructor
  · intro h
    by_contra hneg
    push Not at hneg
    exact not_retrievalAgrees hnul hneg h
  · intro h u u' b hw
    obtain ⟨e, s', t, hends, rfl, -, hask, hput⟩ :=
      Client.ioctlGetNthByte_returns (u := u) hnul h
    exact ⟨s', t, d.text, hends, hask, getMsgAfterOpen_text hnul hw, hput⟩

end

theorem nthByte_agrees_letters : RetrievalAgrees (lettered 5) :=
  (nthByte_agrees_iff ⟨5, by decide, rfl⟩).mpr (by decide)

/-- The device after the one byte 200 and a NUL have been written to it. -/
def highByte : Device := (⟨1, fun _ => 0, some 0⟩ : Device).written (stringMem [200, 0]) 0 2

theorem highByte_reachable : Reachable highByte := by
  obtain ⟨t₁, h₁, -⟩ := (returns_iff (c := ⟨letters, .open⟩) (d := freshDevice)).mpr rfl
  obtain ⟨t₂, h₂, -⟩ := (returns_iff (c := ⟨stringMem [200, 0], .write 0 2⟩)
    (d := ⟨1, fun _ => 0, some 0⟩)).mpr rfl
  have hrun : Run freshDevice [⟨letters, .open⟩, ⟨stringMem [200, 0], .write 0 2⟩] highByte :=
    .cons trivial h₁ (.cons (show (1 : ℤ) ≠ 0 by decide) h₂ (.nil _))
  exact ⟨freshDevice, _, freshDevice_loaded, hrun⟩

/-- **A message with a byte above 127 is not printed**: the client exits at this byte, while
`IOCTL_GET_MSG` gives it. -/
theorem nthByte_exits_highByte : Reachable highByte ∧ highByte.mem 1 = 0 ∧
    highByte.text = [200] ∧ GetMsgAfterOpen highByte letters 0 (placed 0 [200, 0]) ∧
    (Client.ioctlGetNthByte.wp ⟨highByte, letters⟩ fun e _ _ => e = .exited) ∧
    ¬ RetrievalAgrees highByte := by
  have hnul : ∃ o : U64, o.toNat < BUF_LEN ∧ highByte.mem o = 0 := ⟨1, by decide, by decide⟩
  have hhigh : ∃ c ∈ highByte.text, 128 ≤ c.toNat := ⟨200, by decide, by decide⟩
  exact ⟨highByte_reachable, by decide, by decide, getMsgAfterOpen_text hnul fun _ _ => rfl,
    Client.ioctlGetNthByte_exits hnul hhigh, not_retrievalAgrees hnul hhigh⟩

end KernelHacking.CharDev
