import KernelHacking.CharDev.RoundTrip

/-! # Reading in pieces

`device_read` keeps its place in `Message_Ptr`, so a caller may read the message in pieces of any
length.  `chunked_reads` says that the pieces are those of one read of the sum of the lengths: the
same bytes, the same count and the same place afterwards; and that at the NUL there is nothing left
to read. -/

namespace KernelHacking.CharDev

open TraceProg Prog Word Uaccess CString

/-! ### Sequences of reads -/

/-- A call of `device_read`. -/
structure ReadCall where
  user : UserMem
  buffer : U64
  length : U64

def ReadCall.call (r : ReadCall) : Call := ⟨r.user, .read r.buffer r.length⟩

/-- The buffer can be written. -/
def ReadCall.Writable (r : ReadCall) : Prop :=
  ∀ i < r.length.toNat, r.user.writable (r.buffer + BitVec.ofNat 64 i) = true

/-- The reads are made one after the other: the values they return, the bytes they deliver, each to
the start of its buffer, and the device afterwards. -/
inductive ReadSeq : Device → List ReadCall → List ℤ → List U8 → Device → Prop where
  | nil (d : Device) : ReadSeq d [] [] [] d
  | cons {r : ReadCall} {rs : List ReadCall} {d d₁ d' : Device} {v : ℤ} {vs : List ℤ}
      {bs bs' : List U8} {t : List Access} : r.call.Returns d v d₁ t →
      stores t = placed r.buffer bs → ReadSeq d₁ rs vs bs' d' →
      ReadSeq d (r :: rs) (v :: vs) (bs ++ bs') d'

theorem placed_inj {a : U64} {bs cs : List U8} (h : placed a bs = placed a cs) : bs = cs := by
  rw [← map_snd_placed a bs, h, map_snd_placed]

section
variable {d d' d₁ : Device} {k : U64} {r : ReadCall} {rs : List ReadCall} {vs ws : List ℤ}
  {bs cs : List U8}

theorem ReadSeq.unique (h : ReadSeq d rs vs bs d') (h' : ReadSeq d rs ws cs d₁) :
    vs = ws ∧ bs = cs ∧ d' = d₁ := by
  induction h generalizing ws cs with
  | nil d =>
      cases h'
      exact ⟨rfl, rfl, rfl⟩
  | cons hr hst _ ih =>
      cases h' with
      | cons hr' hst' hrest' =>
          obtain ⟨rfl, rfl, rfl⟩ := hr.unique hr'
          obtain ⟨rfl, rfl, rfl⟩ := ih hrest'
          obtain rfl := placed_inj (hst.symm.trans hst')
          exact ⟨rfl, rfl, rfl⟩

/-! ### The pieces of a read -/

/-- What is left after a read, and before it. -/
theorem unread_add (d : Device) (k : U64) (n m : ℕ) : d.unread k (n + m) = d.unread k n ++
    (d.advance k (d.unread k n).length).unread (k + BitVec.ofNat 64 (d.unread k n).length) m := by
  unfold Device.unread
  rw [upTo_add, from_advance]

theorem advance_advance (d : Device) (k : U64) (n m : ℕ) :
    (d.advance k n).advance (k + BitVec.ofNat 64 n) m = d.advance k (n + m) := by
  unfold Device.advance
  rw [add_ofNat_add]

/-- One read. -/
theorem ReadCall.returns (hk : d.messagePtr = some k) (hw : r.Writable) :
    ∃ t, r.call.Returns d (intOf (d.unread k r.length.toNat).length)
      (d.advance k (d.unread k r.length.toNat).length) t ∧
      stores t = placed r.buffer (d.unread k r.length.toNat) := by
  obtain ⟨t, hr, hst⟩ := (returns_iff (c := r.call) (d := d)).mpr
    (Option.map_eq_some_iff.mpr ⟨k, hk, rfl⟩)
  refine ⟨t, hr, ?_⟩
  rw [hst]
  refine stored_eq_placed_iff.mpr fun i hi => hw i ?_
  have hle : (d.unread k r.length.toNat).length ≤ r.length.toNat := length_upTo_le _ _
  omega

/-- A sequence of reads, as long as the counts fit into an `int`: each takes up where the last one
has stopped. -/
theorem readSeq_spec (rs : List ReadCall) (hk : d.messagePtr = some k)
    (hfit : ∀ n, (d.unread k n).length < 2 ^ 31) (hw : ∀ r ∈ rs, r.Writable) :
    ∃ vs, ReadSeq d rs vs (d.unread k (rs.map (·.length.toNat)).sum)
        (d.advance k (d.unread k (rs.map (·.length.toNat)).sum).length) ∧
      vs.sum = (d.unread k (rs.map (·.length.toNat)).sum).length := by
  induction rs generalizing d k with
  | nil =>
      refine ⟨[], ?_, rfl⟩
      have hd : d.advance k (d.unread k 0).length = d := advance_zero hk
      rw [List.map_nil, List.sum_nil, hd]
      exact .nil d
  | cons r rs ih =>
      obtain ⟨t, hr, hst⟩ := ReadCall.returns hk (hw r List.mem_cons_self)
      obtain ⟨m, hm⟩ : ∃ m, m = (d.unread k r.length.toNat).length := ⟨_, rfl⟩
      have hadd := unread_add d k r.length.toNat
      rw [← hm] at hr hadd
      obtain ⟨vs, hseq, hsum⟩ := ih (d := d.advance k m) (k := k + BitVec.ofNat 64 m) rfl
        (by
          intro n
          have hn := hfit (r.length.toNat + n)
          rw [hadd, List.length_append] at hn
          omega)
        fun r' hr' => hw r' (List.mem_cons_of_mem r hr')
      have hlen := congrArg List.length (hadd (rs.map (·.length.toNat)).sum)
      rw [List.length_append, ← hm] at hlen
      rw [List.map_cons, List.sum_cons, hlen]
      refine ⟨intOf m :: vs, ?_, ?_⟩
      · rw [hadd, ← advance_advance]
        exact .cons hr hst hseq
      · rw [List.sum_cons, hsum, intOf_of_lt (hm ▸ hfit _)]
        push_cast
        rfl

/-- At the NUL a read returns 0 and changes nothing, whatever the length and the buffer are. -/
theorem readSeq_at_nul (hk : d.messagePtr = some k) (h0 : d.mem k = 0) (rs : List ReadCall) :
    ReadSeq d rs (List.replicate rs.length 0) [] d := by
  induction rs with
  | nil => exact .nil d
  | cons r rs ih =>
      have hnil : d.unread k r.length.toNat = [] := unread_of_zero h0 _
      obtain ⟨t, hr, hst⟩ := (returns_iff (c := r.call) (d := d)).mpr
        (Option.map_eq_some_iff.mpr ⟨k, hk, rfl⟩)
      have hd : d.advance k ([] : List U8).length = d := advance_zero hk
      rw [hnil, hd] at hr
      rw [hnil] at hst
      have hnone : stores t = placed r.buffer [] := hst
      exact ReadSeq.cons hr hnone ih

/-- **Reads in pieces are one read.**  With a NUL at or after the cursor and writable buffers, reads
of any lengths all return; they deliver what one read of the sum of the lengths delivers, return
counts that add up to its count, and leave the device as it does.  Once the cursor is at the NUL,
every further read returns 0 and changes nothing. -/
theorem chunked_reads (hk : d.messagePtr = some k)
    (hnul : ∃ o : U64, k.toNat ≤ o.toNat ∧ o.toNat < BUF_LEN ∧ d.mem o = 0)
    (hw : ∀ r ∈ rs, r.Writable) (hr : r.Writable)
    (hlen : r.length.toNat = (rs.map (·.length.toNat)).sum) :
    (∃ vs bs d', ReadSeq d rs vs bs d') ∧ ∀ vs bs d', ReadSeq d rs vs bs d' →
      ReadSeq d [r] [vs.sum] bs d' ∧
      (∀ k', d'.messagePtr = some k' → d'.mem k' = 0 →
        ∀ qs, ReadSeq d' qs (List.replicate qs.length 0) [] d') := by
  obtain ⟨o, hle, hlt, h0⟩ := hnul
  have hfit : ∀ n, (d.unread k n).length < 2 ^ 31 := by
    intro n
    have hstop := length_unread_le hle h0 n
    unfold BUF_LEN at hlt
    omega
  obtain ⟨ws, hseq, hsum⟩ := readSeq_spec rs hk hfit hw
  obtain ⟨t, hret, hst⟩ := ReadCall.returns hk hr
  refine ⟨⟨ws, _, _, hseq⟩, ?_⟩
  intro vs bs d' h
  obtain ⟨rfl, rfl, rfl⟩ := h.unique hseq
  refine ⟨?_, fun k' hk' hnul' qs => readSeq_at_nul hk' hnul' qs⟩
  rw [hlen, intOf_of_lt (hfit _)] at hret
  rw [hlen] at hst
  rw [hsum]
  have hone := ReadSeq.cons hret hst (.nil _)
  rwa [List.append_nil] at hone

end

/-- Five letters in reads of 2, 0 and 9 bytes. -/
theorem chunked_reads_letters : ∃ vs bs d',
    ReadSeq (lettered 5) [⟨letters, 0, 2⟩, ⟨letters, 2, 0⟩, ⟨letters, 2, 9⟩] vs bs d' ∧
      ReadSeq (lettered 5) [⟨letters, 0, 11⟩] [vs.sum] bs d' := by
  have hw : ∀ r ∈ [(⟨letters, 0, 2⟩ : ReadCall), ⟨letters, 2, 0⟩, ⟨letters, 2, 9⟩], r.Writable := by
    intro r hr
    simp only [List.mem_cons, List.not_mem_nil, or_false] at hr
    rcases hr with rfl | rfl | rfl <;> exact fun _ _ => rfl
  have hone : (⟨letters, 0, 11⟩ : ReadCall).Writable := fun _ _ => rfl
  obtain ⟨⟨vs, bs, d', hseq⟩, hall⟩ :=
    chunked_reads (d := lettered 5) rfl ⟨5, by decide, by decide, rfl⟩ hw hone rfl
  exact ⟨vs, bs, d', hseq, (hall vs bs d' hseq).1⟩

end KernelHacking.CharDev
