import KernelHacking.CharDev.Cursor

/-! # What is written and what is read

`IOCTL_SET_MSG` followed by `IOCTL_GET_MSG` gives back a string of up to 79 bytes, whatever the
device held before (`setMsg_getMsg`), except for the empty string, which replaces nothing
(`setMsg_replaces_iff`).  A write stores no terminator, so reading gives back what was written
only where the old message happens to end at the same place (`write_read_iff`).
`IOCTL_GET_MSG` gives the rest of the message behind the cursor, so it gives the whole message only
as long as nothing has been read of it (`getMsg_whole_iff`). -/

namespace KernelHacking.CharDev

open TraceProg Prog Word Uaccess CString

section
variable {d d' d₁ : Device} {u u' : UserMem} {k a b : U64} {s bs : List U8}

/-! ### Strings in memory -/

/-- A string in the memory of the process, as `get_user` gives it. -/
theorem holds_userFrom (h : u.HoldsBytes a (s ++ [0])) (h0 : (0 : U8) ∉ s) :
    Holds (userFrom u a) s := by
  have hval : ∀ i, (hi : i < (s ++ [0]).length) → userFrom u a i = (s ++ [0])[i] := by
    intro i hi
    rw [userFrom, h.getUser hi]
  refine ⟨?_, ?_, h0⟩
  · intro i hi
    rw [hval i (by simp; omega), List.getElem_append_left hi]
  · rw [hval s.length (by simp)]
    simp

theorem from_start (d : Device) (i : ℕ) : d.from 0 i = d.mem (BitVec.ofNat 64 i) := by
  simp [Device.from]

theorem from_written {n i : ℕ} (hi : i < n) (hn : n ≤ BUF_LEN) :
    (d.written u a n).from 0 i = userFrom u a i := by
  unfold BUF_LEN at hn
  have hnat : (BitVec.ofNat 64 i).toNat = i := toNat_ofNat_of_lt (by omega)
  rw [from_start]
  show overwrite u a n d.mem _ = _
  rw [overwrite_of_lt (by omega), hnat]

/-- What a write leaves behind the bytes it stores. -/
theorem from_written_of_le {n i : ℕ} (hi : n ≤ i) (hlt : i < 2 ^ 64) :
    (d.written u a n).from 0 i = d.from 0 i := by
  have hnat : (BitVec.ofNat 64 i).toNat = i := toNat_ofNat_of_lt hlt
  rw [from_start, from_start]
  show overwrite u a n d.mem _ = _
  rw [overwrite, if_neg (by omega)]

theorem from_advance (d : Device) (k : U64) (n : ℕ) :
    (d.advance k n).from (k + BitVec.ofNat 64 n) = fun i => d.from k (n + i) := by
  funext i
  show d.mem _ = d.mem _
  rw [add_ofNat_add]

/-! ### Setting and getting the message -/

theorem setMsgLength_eq (h : u.HoldsBytes a (s ++ [0])) (h0 : (0 : U8) ∉ s) (hs : s ≠ [])
    (hlen : s.length ≤ 79) : setMsgLength u a = s.length + 1 := by
  have hh := holds_userFrom h h0
  have hpos : 0 < s.length := List.length_pos_iff.mpr hs
  unfold setMsgLength
  rw [if_neg (hh.ne_zero hpos), hh.upTo_eq, List.length_take]
  unfold BUF_LEN
  omega

/-- The message after `IOCTL_SET_MSG`. -/
theorem holds_setMsg (h : u.HoldsBytes a (s ++ [0])) (h0 : (0 : U8) ∉ s) (hs : s ≠ [])
    (hlen : s.length ≤ 79) : Holds ((d.written u a (setMsgLength u a)).from 0) s := by
  have hh := holds_userFrom h h0
  rw [setMsgLength_eq h h0 hs hlen]
  refine ⟨?_, ?_, h0⟩
  · intro i hi
    rw [from_written (by omega) (by unfold BUF_LEN; omega), hh.value i hi]
  · rw [from_written (by omega) (by unfold BUF_LEN; omega), hh.nul]

/-- `IOCTL_SET_MSG` followed by `IOCTL_GET_MSG`, and the bytes they store. -/
def SetGet (d : Device) (u : UserMem) (a : U64) (u' : UserMem) (b : U64) (out : List (U64 × U8)) :
    Prop :=
  ∃ d₁ t₁ d₂ t₂, (⟨u, .ioctl IOCTL_SET_MSG a⟩ : Call).Returns d SUCCESS d₁ t₁ ∧
    (⟨u', .ioctl IOCTL_GET_MSG b⟩ : Call).Returns d₁ SUCCESS d₂ t₂ ∧
    stores t₁ ++ stores t₂ = out

theorem setGet_iff {out : List (U64 × U8)} : SetGet d u a u' b out ↔
    stored u' b ((d.written u a (setMsgLength u a)).unread 0 99 ++ [0]) = out := by
  constructor
  · intro hall
    obtain ⟨d₁, t₁, d₂, t₂, h₁, h₂, e⟩ := hall
    have ho₁ := h₁.outcome
    have ho₂ := h₂.outcome
    rw [outcome_setMsg, Option.some.injEq, Prod.mk.injEq, Prod.mk.injEq] at ho₁
    obtain ⟨-, rfl, ht₁⟩ := ho₁
    rw [outcome_getMsg, show (d.written u a _).messagePtr = some 0 from rfl, Option.map_some,
      Option.some.injEq, Prod.mk.injEq, Prod.mk.injEq] at ho₂
    rw [← e, ← ht₁, ← ho₂.2.2, List.nil_append]
  · intro e
    obtain ⟨t₁, h₁, hs₁⟩ := (returns_iff (c := ⟨u, .ioctl IOCTL_SET_MSG a⟩)).mpr
      (outcome_setMsg (d := d))
    obtain ⟨t₂, h₂, hs₂⟩ := (returns_iff (d := d.written u a (setMsgLength u a))
      (c := ⟨u', .ioctl IOCTL_GET_MSG b⟩)).mpr (outcome_getMsg.trans (Option.map_eq_some_iff.mpr ⟨0, rfl, rfl⟩))
    exact ⟨_, t₁, _, t₂, h₁, h₂, by rw [hs₁, hs₂, List.nil_append, e]⟩

/-- What the two calls store, for a string that is not empty. -/
theorem setGet_string (h : u.HoldsBytes a (s ++ [0])) (h0 : (0 : U8) ∉ s) (hs : s ≠ [])
    (hlen : s.length ≤ 79) : SetGet d u a u' b (stored u' b (s ++ [0])) := by
  rw [setGet_iff]
  unfold Device.unread
  rw [(holds_setMsg h h0 hs hlen).upTo_eq, List.take_of_length_le (by omega)]

/-- **The round trip through the two commands.**  A string of 1 to 79 bytes comes back with its
terminator and nothing else, whatever the device was like. -/
theorem setMsg_getMsg (h : u.HoldsBytes a (s ++ [0])) (h0 : (0 : U8) ∉ s) (hpos : 1 ≤ s.length)
    (hlen : s.length ≤ 79) (hw : ∀ i ≤ s.length, u'.writable (b + BitVec.ofNat 64 i) = true) :
    SetGet d u a u' b (placed b (s ++ [0])) ∧ (placed b (s ++ [0])).length ≤ 100 := by
  have hst : stored u' b (s ++ [0]) = placed b (s ++ [0]) := by
    rw [stored_eq_placed_iff]
    intro i hi
    rw [List.length_append, List.length_singleton] at hi
    exact hw i (Nat.le_of_lt_succ hi)
  rw [← hst]
  refine ⟨setGet_string h h0 (List.length_pos_iff.mp hpos) hlen, ?_⟩
  rw [hst, length_placed, List.length_append, List.length_singleton]
  omega

/-- A process with a string at address 0, and zeros behind it. -/
def stringMem (s : List U8) : UserMem := ⟨fun a => s.getD a.toNat 0, fun _ => true, fun _ => true⟩

theorem stringMem_holds (s : List U8) (hlen : s.length < 2 ^ 64) : (stringMem s).HoldsBytes 0 s := by
  refine ⟨fun _ _ => rfl, ?_⟩
  intro i hi
  have hz : (0 : U64).toNat = 0 := rfl
  show s.getD ((0 : U64) + BitVec.ofNat 64 i).toNat 0 = _
  rw [toNat_add_ofNat (by omega), hz, Nat.zero_add, List.getD_eq_getElem?_getD,
    List.getElem?_eq_getElem hi, Option.getD_some]

theorem setMsg_getMsg_hi : (stringMem [104, 105, 0]).HoldsBytes 0 ([104, 105] ++ [0]) ∧
    SetGet (lettered 80) (stringMem [104, 105, 0]) 0 letters 0 (placed 0 ([104, 105] ++ [0])) := by
  have hmem : (stringMem [104, 105, 0]).HoldsBytes 0 ([104, 105] ++ [0]) :=
    stringMem_holds _ (by decide)
  exact ⟨hmem, (setMsg_getMsg hmem (by decide) (by decide) (by decide) (fun _ _ => rfl)).1⟩

/-! ### Replacing the message -/

/-- After `IOCTL_SET_MSG` of this string, what `IOCTL_GET_MSG` stores depends on the string only,
wherever the caller's memory can be written. -/
def ReplacesMessage (s : List U8) : Prop :=
  ∀ u a u' b, u.HoldsBytes a (s ++ [0]) → ∀ d₁ d₂, Reachable d₁ → Reachable d₂ →
    ∀ out, SetGet d₁ u a u' b out → SetGet d₂ u a u' b out

theorem lettered_reachable (n : ℕ) (hn : n ≤ BUF_LEN) : Reachable (lettered n) := by
  have hmin : min (BitVec.ofNat 64 n).toNat BUF_LEN = n := by
    unfold BUF_LEN at hn ⊢
    rw [toNat_ofNat_of_lt (by omega), Nat.min_eq_left hn]
  have hrun := lettered_run (BitVec.ofNat 64 n)
  rw [hmin] at hrun
  exact ⟨freshDevice, _, freshDevice_loaded, hrun⟩

/-- The empty string leaves the message as it is. -/
theorem setGet_empty (n : ℕ) (hn : n < BUF_LEN) {out : List (U64 × U8)} :
    SetGet (lettered n) (stringMem [0]) 0 letters 0 out ↔
      placed 0 (List.replicate n 97 ++ [0]) = out := by
  have hlen : setMsgLength (stringMem [0]) 0 = 0 := rfl
  have hh : Holds ((lettered n).from 0) (List.replicate n 97) := by
    unfold BUF_LEN at hn
    have hz : (0 : U64).toNat = 0 := rfl
    have hfrom : ∀ i < 2 ^ 64, (lettered n).from 0 i = if i < n then 97 else 0 := by
      intro i hi
      unfold Device.from
      rw [lettered_mem, toNat_add_ofNat (by omega), hz, Nat.zero_add]
    refine ⟨?_, ?_, ?_⟩
    · intro i hi
      rw [List.length_replicate] at hi
      rw [hfrom i (by omega), if_pos hi, List.getElem_replicate]
    · rw [List.length_replicate, hfrom n (by omega), if_neg (Nat.lt_irrefl n)]
    · intro h
      exact absurd (List.eq_of_mem_replicate h) (by decide)
  have hdev : ((lettered n).written (stringMem [0]) 0 0).from 0 = (lettered n).from 0 := by
    unfold Device.written
    rw [overwrite_zero]
    rfl
  unfold BUF_LEN at hn
  rw [setGet_iff, hlen]
  unfold Device.unread
  rw [hdev, hh.upTo_eq, List.take_of_length_le (by simp; omega),
    stored_eq_placed_iff.mpr fun _ _ => rfl]

/-- **`IOCTL_SET_MSG` replaces the message**, if the string is not empty. -/
theorem setMsg_replaces_iff (h0 : (0 : U8) ∉ s) (hlen : s.length ≤ 79) :
    ReplacesMessage s ↔ s ≠ [] := by
  constructor
  · intro h hs
    subst hs
    have hget := h (stringMem [0]) 0 letters 0 (stringMem_holds [0] (by decide))
      (lettered 0) (lettered 1) (lettered_reachable 0 (by decide))
      (lettered_reachable 1 (by decide)) _ ((setGet_empty 0 (by decide)).mpr rfl)
    rw [setGet_empty 1 (by decide)] at hget
    exact absurd hget (by decide)
  · intro hs u a u' b hu d₁ d₂ _ _ out hget
    have hgot : SetGet d₁ u a u' b (stored u' b (s ++ [0])) := setGet_string hu h0 hs hlen
    rw [setGet_iff] at hget hgot
    rw [← hget, hgot]
    exact setGet_string hu h0 hs hlen

theorem setMsg_replaces_hi : ReplacesMessage [104, 105] :=
  (setMsg_replaces_iff (by decide) (by decide)).mpr (by decide)

/-- **The empty string does not replace the message.** -/
theorem setMsg_keeps_old : Reachable (lettered 0) ∧ Reachable (lettered 5) ∧
    (stringMem [0]).HoldsBytes 0 ([] ++ [0]) ∧
    SetGet (lettered 0) (stringMem [0]) 0 letters 0 (placed 0 [0]) ∧
    SetGet (lettered 5) (stringMem [0]) 0 letters 0 (placed 0 [97, 97, 97, 97, 97, 0]) ∧
    ¬ SetGet (lettered 5) (stringMem [0]) 0 letters 0 (placed 0 [0]) := by
  refine ⟨lettered_reachable 0 (by decide), lettered_reachable 5 (by decide),
    stringMem_holds [0] (by decide), (setGet_empty 0 (by decide)).mpr rfl,
    (setGet_empty 5 (by decide)).mpr rfl, ?_⟩
  rw [setGet_empty 5 (by decide)]
  decide

/-! ### Writing and reading -/

/-- Reads, one after the other, until one returns 0, and the bytes they deliver. -/
inductive Drains : Device → (ℕ → Call) → List U8 → Prop where
  | stop {d d' : Device} {rs : ℕ → Call} {t : List Access} :
      (rs 0).Returns d 0 d' t → Drains d rs ((stores t).map Prod.snd)
  | more {d d' : Device} {rs : ℕ → Call} {v : ℤ} {t : List Access} {bs : List U8} :
      (rs 0).Returns d v d' t → v ≠ 0 → Drains d' (fun i => rs (i + 1)) bs →
      Drains d rs ((stores t).map Prod.snd ++ bs)

/-- Reads of positive lengths into buffers that can be written. -/
def PositiveReads (rs : ℕ → Call) : Prop :=
  ∀ i, ∃ u buffer length, rs i = ⟨u, .read buffer length⟩ ∧ length ≠ 0 ∧
    u.WritableAt buffer length.toNat

theorem Drains.unique {rs : ℕ → Call} {cs : List U8} (h : Drains d rs bs) (h' : Drains d rs cs) :
    bs = cs := by
  induction h generalizing cs with
  | stop hr =>
      cases h' with
      | stop hr' =>
          obtain ⟨-, -, rfl⟩ := hr.unique hr'
          rfl
      | more hr' hv _ =>
          obtain ⟨rfl, -, -⟩ := hr.unique hr'
          exact absurd rfl hv
  | more hr hv _ ih =>
      cases h' with
      | stop hr' =>
          obtain ⟨rfl, -, -⟩ := hr.unique hr'
          exact absurd rfl hv
      | more hr' _ h' =>
          obtain ⟨-, rfl, rfl⟩ := hr.unique hr'
          rw [ih h']

theorem map_snd_placed (a : U64) (bs : List U8) : (placed a bs).map Prod.snd = bs := by
  induction bs generalizing a with
  | nil => rfl
  | cons b bs ih => rw [placed, List.map_cons, ih]

/-- A read into a buffer that can be written. -/
theorem read_returns (hk : d.messagePtr = some k) (buffer length : U64)
    (hw : u.WritableAt buffer length.toNat) : ∃ t, (⟨u, .read buffer length⟩ : Call).Returns d
      (intOf (d.unread k length.toNat).length) (d.advance k (d.unread k length.toNat).length) t ∧
      (stores t).map Prod.snd = d.unread k length.toNat := by
  obtain ⟨t, hr, hst⟩ := (returns_iff (c := ⟨u, .read buffer length⟩)).mpr
    (Option.map_eq_some_iff.mpr ⟨k, hk, rfl⟩)
  refine ⟨t, hr, ?_⟩
  have hroom : (d.unread k length.toNat).length ≤ length.toNat := length_upTo_le _ _
  rw [hst, stored_of_writableAt hw hroom, map_snd_placed]

/-- The reads deliver the string at the cursor, however they cut it. -/
theorem drains_of_holds (n : ℕ) : ∀ {d : Device} {k : U64} {s : List U8} {rs : ℕ → Call},
    s.length ≤ n → n < 2 ^ 31 → d.messagePtr = some k → Holds (d.from k) s → PositiveReads rs →
    Drains d rs s := by
  induction n with
  | zero =>
      intro d k s rs hn _ hk hs hrs
      obtain rfl : s = [] := List.length_eq_zero_iff.mp (Nat.le_zero.mp hn)
      obtain ⟨u, buffer, length, e, -, hw⟩ := hrs 0
      obtain ⟨t, hr, hst⟩ := read_returns hk buffer length hw
      have hnil : d.unread k length.toNat = [] := by
        unfold Device.unread
        rw [hs.upTo_eq, List.take_nil]
      rw [hnil] at hr hst
      rw [← hst]
      exact .stop (e ▸ hr)
  | succ n ih =>
      intro d k s rs hn hlt hk hs hrs
      obtain ⟨u, buffer, length, e, hlen, hw⟩ := hrs 0
      obtain ⟨t, hr, hst⟩ := read_returns hk buffer length hw
      have htake : d.unread k length.toNat = s.take length.toNat := hs.upTo_eq _
      rw [htake] at hr hst
      by_cases hnil : s = []
      · subst hnil
        rw [List.take_nil] at hr hst
        rw [← hst]
        exact .stop (e ▸ hr)
      · -- something is delivered, and the rest is a shorter string
        have hpos : 0 < s.length := List.length_pos_iff.mpr hnil
        have hL : 0 < length.toNat := BitVec.toNat_pos_of_ne_zero hlen
        obtain ⟨m, hm⟩ : ∃ m, m = (s.take length.toNat).length := ⟨_, rfl⟩
        have hm' : m = min length.toNat s.length := by rw [hm, List.length_take]
        rw [← hm] at hr
        have hv : intOf m ≠ 0 := by
          rw [intOf_of_lt (by omega)]
          omega
        have hrest : Drains (d.advance k m) (fun i => rs (i + 1)) (s.drop m) := by
          refine ih (by rw [List.length_drop]; omega) (by omega) rfl ?_ fun i => hrs (i + 1)
          rw [from_advance]
          exact hs.drop (by omega)
        have hall := Drains.more (e ▸ hr) hv hrest
        have hcut : s.take length.toNat ++ s.drop m = s := by
          by_cases hle : length.toNat ≤ s.length
          · rw [hm', Nat.min_eq_left hle, List.take_append_drop]
          · rw [hm', Nat.min_eq_right (by omega), List.take_of_length_le (by omega),
              List.drop_length, List.append_nil]
        rw [hst, hcut] at hall
        exact hall

/-- Reads of one byte each stop only at a NUL. -/
theorem Drains.nul {rs : ℕ → Call} (h : Drains d rs bs)
    (hrs : ∀ i, rs i = ⟨letters, .read 0 1⟩) (hk : d.messagePtr = some k) :
    d.from k bs.length = 0 := by
  have hone : ∀ (d : Device) (k : U64), d.unread k (1 : U64).toNat =
      if d.mem k = 0 then [] else [d.mem k] := by
    intro d k
    show upTo (d.from k) 1 = _
    by_cases h0 : d.mem k = 0
    · rw [if_pos h0, upTo_of_zero (by simpa using h0)]
    · rw [if_neg h0, upTo_succ_of_ne (by simpa using h0), from_zero, upTo_zero]
  induction h generalizing k with
  | @stop d d' rs t hr =>
      rw [hrs 0] at hr
      obtain ⟨t', hr', hst⟩ := read_returns (u := letters) hk 0 1 fun _ _ => rfl
      obtain ⟨hv, -, rfl⟩ := hr.unique hr'
      rw [hst]
      rw [hone] at hv ⊢
      by_cases h0 : d.mem k = 0
      · rw [if_pos h0, List.length_nil, from_zero]
        exact h0
      · rw [if_neg h0] at hv
        exact absurd hv (show (0 : ℤ) ≠ intOf 1 by decide)
  | @more d d' rs v t bs hr hv _ ih =>
      rw [hrs 0] at hr
      obtain ⟨t', hr', hst⟩ := read_returns (u := letters) hk 0 1 fun _ _ => rfl
      obtain ⟨rfl, rfl, rfl⟩ := hr.unique hr'
      have hrest := ih (fun i => hrs (i + 1)) rfl
      rw [from_advance] at hrest
      rw [List.length_append, hst]
      exact hrest

/-- What a round trip through `device_write` and `device_read` is. -/
def WriteReads (d : Device) (s : List U8) : Prop :=
  ∀ u a, u.HoldsBytes a s →
    ∃ d' t, (⟨u, .write a (BitVec.ofNat 64 s.length)⟩ : Call).Returns d s.length d' t ∧
      ∀ rs, PositiveReads rs → ∀ bs, Drains d' rs bs ↔ bs = s

theorem write_returns (hlen : s.length ≤ 79) (u : UserMem) (a : U64) :
    ∃ t, (⟨u, .write a (BitVec.ofNat 64 s.length)⟩ : Call).Returns d s.length
      (d.written u a s.length) t := by
  have hmin : min (BitVec.ofNat 64 s.length).toNat BUF_LEN = s.length := by
    unfold BUF_LEN
    rw [toNat_ofNat_of_lt (by omega), Nat.min_eq_left (by omega)]
  obtain ⟨t, hr, -⟩ := (returns_iff (c := ⟨u, .write a (BitVec.ofNat 64 s.length)⟩)
    (d := d)).mpr rfl
  rw [hmin] at hr
  exact ⟨t, hr⟩

/-- A write does not reach the byte behind what it stores. -/
theorem from_written_end (hlen : s.length ≤ 79) (u : UserMem) (a : U64) :
    (d.written u a s.length).from 0 s.length = d.mem (BitVec.ofNat 64 s.length) := by
  rw [from_written_of_le (Nat.le_refl _) (by omega), Device.from]
  simp

theorem WriteReads.nul (h : WriteReads d s) (hlen : s.length ≤ 79) :
    d.mem (BitVec.ofNat 64 s.length) = 0 := by
  obtain ⟨d', t, hr, hall⟩ := h (stringMem s) 0 (stringMem_holds s (by omega))
  obtain ⟨t', hr'⟩ := write_returns (d := d) hlen (stringMem s) 0
  obtain ⟨-, rfl, -⟩ := hr.unique hr'
  have hpos : PositiveReads fun _ => ⟨letters, .read 0 1⟩ := fun _ =>
    ⟨letters, 0, 1, rfl, by decide, fun _ _ => rfl⟩
  have hnul := ((hall _ hpos s).mpr rfl).nul (fun _ => rfl) rfl
  rw [from_written_end hlen] at hnul
  exact hnul

/-- **What is read is what was written**, exactly if the old message has a NUL where the new one
ends. -/
theorem write_read_iff (h0 : (0 : U8) ∉ s) (hlen : s.length ≤ 79) :
    WriteReads d s ↔ d.mem (BitVec.ofNat 64 s.length) = 0 := by
  constructor
  · intro h
    exact h.nul hlen
  · intro hnul u a hu
    obtain ⟨t, hr⟩ := write_returns (d := d) hlen u a
    refine ⟨_, t, hr, ?_⟩
    have hs : Holds ((d.written u a s.length).from 0) s := by
      refine ⟨?_, ?_, h0⟩
      · intro i hi
        rw [from_written hi (by unfold BUF_LEN; omega), userFrom, hu.getUser hi]
      · rw [from_written_end hlen, hnul]
    intro rs hrs bs
    have hdrains := drains_of_holds s.length (Nat.le_refl _) (by omega) rfl hs hrs
    constructor
    · intro h; exact h.unique hdrains
    · intro h; rw [h]; exact hdrains

theorem write_read_fresh : WriteReads (lettered 0) [104, 105] :=
  (write_read_iff (by decide) (by decide)).mpr rfl

/-- **A shorter message is read back with the end of the longer one before it.** -/
theorem write_read_leftover : Reachable (lettered 5) ∧ ¬ WriteReads (lettered 5) [104, 105] ∧
    (stringMem [104, 105]).HoldsBytes 0 [104, 105] ∧
    ∃ d t t', (⟨stringMem [104, 105], .write 0 2⟩ : Call).Returns (lettered 5) 2 d t ∧
      (⟨letters, .read 0 80⟩ : Call).Returns d 5 (d.advance 0 5) t' ∧
      (stores t').map Prod.snd = [104, 105, 97, 97, 97] := by
  obtain ⟨t, hr, -⟩ := (returns_iff (c := ⟨stringMem [104, 105], .write 0 2⟩)
    (d := lettered 5)).mpr rfl
  obtain ⟨t', hr', hst⟩ := read_returns (u := letters)
    (d := (lettered 5).written (stringMem [104, 105]) 0 2) (k := 0) rfl 0 80 fun _ _ => rfl
  have hread : ((lettered 5).written (stringMem [104, 105]) 0 2).unread 0 (80 : U64).toNat =
      [104, 105, 97, 97, 97] := by decide
  rw [hread] at hr' hst
  have hnot : ¬ WriteReads (lettered 5) [104, 105] := by
    intro h
    exact absurd (h.nul (by decide)) (by decide)
  exact ⟨lettered_reachable 5 (by decide), hnot, stringMem_holds _ (by decide), _, t, t', hr, hr',
    hst⟩

/-! ### Getting the whole message -/

/-- The message: `Message` up to its first NUL. -/
def Device.text (d : Device) : List U8 := upTo (d.from 0) BUF_LEN

/-- Every NUL of `Message` is at or after the cursor. -/
def BeforeNul (d : Device) : Prop :=
  ∀ k, d.messagePtr = some k → ∀ o : U64, o.toNat < BUF_LEN → d.mem o = 0 → k.toNat ≤ o.toNat

theorem BeforeNul.advance (h : BeforeNul d) (hk : d.messagePtr = some k) (n : ℕ) :
    BeforeNul (d.advance k (d.unread k n).length) := by
  intro k' hk' o ho (h0 : d.mem o = 0)
  cases hk'
  have hle := h k hk o ho h0
  have hlen := length_unread_le hle h0 n
  have := o.isLt
  rw [toNat_add_ofNat (by omega)]
  omega

theorem DeviceStep.beforeNul (h : DeviceStep u d d') (hd : BeforeNul d) : BeforeNul d' := by
  have hstart : ∀ {d : Device}, d.messagePtr = some 0 → BeforeNul d := by
    intro d hd k hk o _ _
    rw [hd] at hk
    cases hk
    exact Nat.zero_le _
  cases h with
  | keeps hm hp =>
      intro k hk o ho h0
      rw [hp] at hk
      rw [hm] at h0
      exact hd k hk o ho h0
  | opens _ hp => exact hstart hp
  | reads n hk => exact hd.advance hk n
  | writes a _ => exact hstart rfl

theorem Run.beforeNul {cs : List Call} (h : Run d cs d') (hd : BeforeNul d) : BeforeNul d' := by
  induction h with
  | nil d => exact hd
  | cons _ hr _ ih => exact ih ((Op.deviceStep hr.outcome).beforeNul hd)

theorem Reachable.beforeNul (h : Reachable d) : BeforeNul d := by
  obtain ⟨d₀, cs, hl, hrun⟩ := h
  refine hrun.beforeNul ?_
  intro k hk
  rw [hl.ptr] at hk
  cases hk

/-- A message with a NUL within the buffer. -/
theorem holds_text (h : ∃ o : U64, o.toNat < BUF_LEN ∧ d.mem o = 0) : Holds (d.from 0) d.text := by
  obtain ⟨o, ho, h0⟩ := h
  apply holds_upTo
  have hlen := length_unread_le (k := 0) (d := d) (Nat.zero_le _) h0 BUF_LEN
  unfold Device.unread at hlen
  omega

theorem text_length_lt (hnul : ∃ o : U64, o.toNat < BUF_LEN ∧ d.mem o = 0) :
    d.text.length < BUF_LEN := by
  have hs := holds_text hnul
  by_contra hge
  obtain ⟨o, ho, h0⟩ := hnul
  have hz : (0 : U64).toNat = 0 := rfl
  have e := from_sub (d := d) (k := 0) (o := o) (Nat.zero_le _)
  rw [hz, Nat.sub_zero, h0] at e
  exact hs.ne_zero (by omega) e

/-- The cursor is not beyond the end of the message. -/
theorem BeforeNul.le_length (h : BeforeNul d) (hk : d.messagePtr = some k)
    (hnul : ∃ o : U64, o.toNat < BUF_LEN ∧ d.mem o = 0) : k.toNat ≤ d.text.length := by
  have hs := holds_text hnul
  have hlt := text_length_lt hnul
  unfold BUF_LEN at hlt
  have hz : (0 : U64).toNat = 0 := rfl
  have hnat : ((0 : U64) + BitVec.ofNat 64 d.text.length).toNat = d.text.length := by
    rw [toNat_add_ofNat (by omega)]
    omega
  have hle := h k hk ((0 : U64) + BitVec.ofNat 64 d.text.length)
    (by unfold BUF_LEN; omega) hs.nul
  rwa [hnat] at hle

/-- What is left to read, with room for all of it. -/
theorem unread_eq_drop (hnul : ∃ o : U64, o.toNat < BUF_LEN ∧ d.mem o = 0)
    (hle : k.toNat ≤ d.text.length) (n : ℕ) : d.unread k n = (d.text.drop k.toNat).take n := by
  have hs := (holds_text hnul).drop hle
  have hfrom : (fun i => d.from 0 (k.toNat + i)) = d.from k := by
    funext i
    show d.mem _ = d.mem _
    rw [← add_ofNat_add]
    simp
  rw [hfrom] at hs
  exact hs.upTo_eq n

/-- How many bytes an operation that reads asks for. -/
def Op.readLength : Op → ℕ
  | .read _ length => length.toNat
  | _ => 99

theorem Op.Reads.outcome {op : Op} {v : ℤ} {out : List (U64 × U8)} (h : op.Reads)
    (hk : d.messagePtr = some k) (ho : op.outcome d u = some (v, d', out)) :
    d' = d.advance k (d.unread k op.readLength).length := by
  cases op with
  | read buffer length =>
      rw [Op.outcome, hk, Option.map_some, Option.some.injEq, Prod.mk.injEq, Prod.mk.injEq] at ho
      exact ho.2.1.symm
  | ioctl num param =>
      cases h
      rw [outcome_getMsg, hk, Option.map_some, Option.some.injEq, Prod.mk.injEq,
        Prod.mk.injEq] at ho
      exact ho.2.1.symm
  | «open» => exact absurd h id
  | release => exact absurd h id
  | write buffer length => exact absurd h id

/-- Reading keeps the message.  The cursor is at its start afterwards only if it was before, and
nothing could be delivered or nothing was asked for. -/
theorem Run.reads {cs : List Call} (h : Run d cs d') (hreads : ∀ c ∈ cs, c.op.Reads)
    (hd : BeforeNul d) (hk : d.messagePtr = some k)
    (hnul : ∃ o : U64, o.toNat < BUF_LEN ∧ d.mem o = 0) :
    d'.mem = d.mem ∧ BeforeNul d' ∧ ∃ k', d'.messagePtr = some k' ∧
      (k' = 0 ↔ k = 0 ∧ (d.text = [] ∨ ∀ c ∈ cs, c.op.readLength = 0)) := by
  induction h generalizing k with
  | nil d => exact ⟨rfl, hd, k, hk, by simp⟩
  | @cons c cs d d₁ d' v t _ hr _ ih =>
      have hle := hd.le_length hk hnul
      have hd₁ := (Op.deviceStep hr.outcome).beforeNul hd
      obtain rfl := (hreads c List.mem_cons_self).outcome hk hr.outcome
      obtain ⟨n, hn⟩ : ∃ n, n = (d.unread k c.op.readLength).length := ⟨_, rfl⟩
      rw [← hn] at ih hd₁
      obtain ⟨hmem, hbefore, k', hk', hiff⟩ :=
        ih (fun c' hc' => hreads c' (List.mem_cons_of_mem c hc')) hd₁ rfl hnul
      refine ⟨hmem, hbefore, k', hk', ?_⟩
      have htext : (d.advance k n).text = d.text := rfl
      rw [hiff, htext]
      rw [unread_eq_drop hnul hle, List.length_take, List.length_drop] at hn
      have hbuf : d.text.length ≤ BUF_LEN := length_upTo_le _ _
      unfold BUF_LEN at hbuf
      have hzero : k + BitVec.ofNat 64 n = 0 ↔ k = 0 ∧ n = 0 := by
        rw [← BitVec.toNat_inj, ← BitVec.toNat_inj, toNat_add_ofNat (by omega)]
        show k.toNat + n = 0 ↔ k.toNat = 0 ∧ n = 0
        omega
      have hnil : d.text = [] ↔ d.text.length = 0 := List.length_eq_zero_iff.symm
      rw [hzero, List.forall_mem_cons, hnil]
      constructor
      · intro hall
        obtain ⟨⟨hk0, hn0⟩, hrest⟩ := hall
        refine ⟨hk0, ?_⟩
        rw [hk0] at hn
        have hz : (0 : U64).toNat = 0 := rfl
        rcases hrest with h | h
        · exact .inl h
        · by_cases hl : d.text.length = 0
          · exact .inl hl
          · exact .inr ⟨by omega, h⟩
      · intro hall
        obtain ⟨hk0, hrest⟩ := hall
        rcases hrest with h | h
        · exact ⟨⟨hk0, by omega⟩, .inl h⟩
        · exact ⟨⟨hk0, by omega⟩, .inr h.2⟩

/-- **`IOCTL_GET_MSG` gives the whole message**, after any number of reads, exactly if the message is
empty, or the cursor was at its start and none of the reads asked for anything. -/
theorem getMsg_whole_iff {cs : List Call} (hd : Reachable d) (hk : d.messagePtr = some k)
    (hnul : ∃ o : U64, o.toNat < BUF_LEN ∧ d.mem o = 0) (h : Run d cs d')
    (hreads : ∀ c ∈ cs, c.op.Reads) (hw : u.WritableAt b (d.text.length + 1)) :
    (∃ v d'' t, (⟨u, .ioctl IOCTL_GET_MSG b⟩ : Call).Returns d' v d'' t ∧
      stores t = placed b (d.text ++ [0])) ↔
      d.text = [] ∨ k = 0 ∧ ∀ c ∈ cs, c.op.readLength = 0 := by
  obtain ⟨hmem, hbefore, k', hk', hiff⟩ := h.reads hreads hd.beforeNul hk hnul
  have htext : d'.text = d.text := by
    unfold Device.text Device.from
    rw [hmem]
  have hnul' : ∃ o : U64, o.toNat < BUF_LEN ∧ d'.mem o = 0 := by rw [hmem]; exact hnul
  have hle := hbefore.le_length hk' hnul'
  have hle₀ := hd.beforeNul.le_length hk hnul
  have hbuf : d.text.length ≤ BUF_LEN := length_upTo_le _ _
  unfold BUF_LEN at hbuf
  rw [htext] at hle
  -- the bytes that are stored are the rest of the message
  have hrest : d'.unread k' 99 = d.text.drop k'.toNat := by
    rw [unread_eq_drop hnul' (by rw [htext]; exact hle), htext,
      List.take_of_length_le (by rw [List.length_drop]; omega)]
  have hall : stored u b (d.text.drop k'.toNat ++ [0]) = placed b (d.text.drop k'.toNat ++ [0]) := by
    apply stored_of_writableAt hw
    rw [List.length_append, List.length_drop, List.length_singleton]
    omega
  have hgives : (∃ v d'' t, (⟨u, .ioctl IOCTL_GET_MSG b⟩ : Call).Returns d' v d'' t ∧
      stores t = placed b (d.text ++ [0])) ↔ k' = 0 := by
    have hz : (0 : U64).toNat = 0 := rfl
    constructor
    · intro hall
      obtain ⟨v, d'', t, hr, hst⟩ := hall
      have ho := hr.outcome
      rw [outcome_getMsg, hk', Option.map_some, Option.some.injEq, Prod.mk.injEq,
        Prod.mk.injEq, hst, hrest, hall] at ho
      have hlen := congrArg List.length ho.2.2
      simp only [length_placed, List.length_append, List.length_drop, List.length_singleton] at hlen
      apply BitVec.eq_of_toNat_eq
      omega
    · intro e
      obtain ⟨t, hr, hst⟩ := (returns_iff (c := ⟨u, .ioctl IOCTL_GET_MSG b⟩) (d := d')).mpr
        (outcome_getMsg.trans (Option.map_eq_some_iff.mpr ⟨k', hk', rfl⟩))
      refine ⟨_, _, t, hr, ?_⟩
      rw [hst, hrest, hall, e, hz, List.drop_zero]
  rw [hgives, hiff]
  constructor
  · intro hall
    obtain ⟨hk0, hc⟩ := hall
    rcases hc with hc | hc
    · exact .inl hc
    · exact .inr ⟨hk0, hc⟩
  · intro hc
    rcases hc with hc | ⟨hk0, hc⟩
    · refine ⟨BitVec.eq_of_toNat_eq ?_, .inl hc⟩
      rw [hc, List.length_nil] at hle₀
      exact Nat.le_zero.mp hle₀
    · exact ⟨hk0, .inr hc⟩

/-- A `device_read` of no bytes before it does no harm. -/
theorem getMsg_whole_first : Reachable (lettered 5) ∧
    ∃ d', Run (lettered 5) [⟨letters, .read 0 0⟩] d' ∧ ∃ v d'' t,
      (⟨letters, .ioctl IOCTL_GET_MSG 0⟩ : Call).Returns d' v d'' t ∧
        stores t = placed 0 ((lettered 5).text ++ [0]) := by
  obtain ⟨t, hr, -⟩ := read_returns (u := letters) (d := lettered 5) (k := 0) rfl 0 0 fun _ _ => rfl
  have hrun : Run (lettered 5) [⟨letters, .read 0 0⟩] _ :=
    .cons (show (1 : ℤ) ≠ 0 by decide) hr (.nil _)
  exact ⟨lettered_reachable 5 (by decide), _, hrun,
    (getMsg_whole_iff (lettered_reachable 5 (by decide)) rfl ⟨5, by decide, rfl⟩ hrun
      (by simp [Op.Reads]) fun _ _ => rfl).mpr (.inr ⟨rfl, by simp [Op.readLength]⟩)⟩

/-- **The second `IOCTL_GET_MSG` gives nothing** of a message the first one has given. -/
theorem getMsg_twice : Reachable (lettered 5) ∧ (lettered 5).text = [97, 97, 97, 97, 97] ∧
    ∃ d t t', (⟨letters, .ioctl IOCTL_GET_MSG 0⟩ : Call).Returns (lettered 5) 0 d t ∧
      stores t = placed 0 [97, 97, 97, 97, 97, 0] ∧
      (⟨letters, .ioctl IOCTL_GET_MSG 0⟩ : Call).Returns d 0 d t' ∧ stores t' = placed 0 [0] := by
  have hfirst : (lettered 5).unread 0 99 = [97, 97, 97, 97, 97] := by decide
  obtain ⟨d, hd⟩ : ∃ d, d = (lettered 5).advance 0 5 := ⟨_, rfl⟩
  have hsecond : d.unread 5 99 = [] := by rw [hd]; decide
  obtain ⟨t, hr, hst⟩ := (returns_iff (c := ⟨letters, .ioctl IOCTL_GET_MSG 0⟩)
    (d := lettered 5)).mpr (outcome_getMsg.trans (Option.map_eq_some_iff.mpr ⟨0, rfl, rfl⟩))
  obtain ⟨t', hr', hst'⟩ := (returns_iff (c := ⟨letters, .ioctl IOCTL_GET_MSG 0⟩)
    (d := d)).mpr (outcome_getMsg.trans (Option.map_eq_some_iff.mpr ⟨5, by rw [hd]; rfl, rfl⟩))
  rw [hfirst] at hr hst
  rw [hsecond] at hr' hst'
  refine ⟨lettered_reachable 5 (by decide), by decide, d, t, t', by rw [hd]; exact hr, ?_, ?_, ?_⟩
  · rw [hst]; decide
  · have hsame : d.advance 5 ([] : List U8).length = d := by rw [hd]; rfl
    rwa [hsame] at hr'
  · rw [hst']; decide

end

end KernelHacking.CharDev
