import KernelHacking.Lib.Prog
import KernelHacking.Lib.UserMem

/-! # The character device

The file operations of `char-dev.c`.  Kernel memory is addressed by the offset from `Message`, as a
64-bit value, so the first `BUF_LEN` offsets are the message and the others are whatever lies around
it; `Message_Ptr` is such an offset, or null as it is when the module is loaded.  All of kernel
memory can be read here, and what is outside `Message` is what it is.

A trace records the reads of kernel memory that the caller may come to know (through `Message_Ptr`,
and `Message[ioctl_param]`) and the bytes that are stored into user memory.  Messages to the kernel log and
the use count of the module are left out. -/

namespace KernelHacking.CharDev

open TraceProg Prog Word Uaccess

def SUCCESS : ℤ := 0
def EBUSY : ℤ := 16

/-- `BUF_LEN`. -/
def BUF_LEN : ℕ := 80

/-! ### The commands of `device_ioctl` -/

def MAJOR_NUM : ℕ := 100

/-- `_IOC`, with the direction bits first. -/
def ioc (dir type nr size : ℕ) : BitVec 32 :=
  BitVec.ofNat 32 (dir * 2 ^ 30 + size * 2 ^ 16 + type * 2 ^ 8 + nr)

/-- `_IOR(MAJOR_NUM, 0, char *)`. -/
def IOCTL_SET_MSG : BitVec 32 := ioc 2 MAJOR_NUM 0 8

/-- `_IOR(MAJOR_NUM, 1, char *)`. -/
def IOCTL_GET_MSG : BitVec 32 := ioc 2 MAJOR_NUM 1 8

/-- `_IOWR(MAJOR_NUM, 2, int)`. -/
def IOCTL_GET_NTH_BYTE : BitVec 32 := ioc 3 MAJOR_NUM 2 4

/-! ### State -/

/-- The static variables of the module, and the memory around `Message`. -/
structure Device where
  deviceOpen : ℤ
  mem : U64 → U8
  messagePtr : Option U64

/-- The module as it is loaded: its variables are zeroed, the memory around them is not. -/
structure Loaded (d : Device) : Prop where
  closed : d.deviceOpen = 0
  message : ∀ o : U64, o.toNat < BUF_LEN → d.mem o = 0
  ptr : d.messagePtr = none

/-- The device and the memory of the calling process. -/
structure Sys where
  dev : Device
  user : UserMem

/-- What a trace records. -/
inductive Access where
  | load (o : U64)
  | put (a : U64) (b : U8)
deriving DecidableEq, Repr

/-- Code of the device. -/
abbrev DevM := Prog Sys Access

/-- `Message[o]`. -/
def load (o : U64) : DevM U8 := do
  emit (.load o)
  let s ← get
  pure (s.dev.mem o)

/-- `*Message_Ptr`. -/
def loadPtr : DevM U8 := do
  let s ← get
  let k ← deref s.dev.messagePtr
  load k

/-- `Message_Ptr++`. -/
def advancePtr : DevM Unit :=
  modify fun s => { s with dev := { s.dev with messagePtr := s.dev.messagePtr.map (· + 1) } }

/-- `Message_Ptr = Message`. -/
def resetPtr : DevM Unit := modify fun s => { s with dev := { s.dev with messagePtr := some 0 } }

/-- `Message[i] = b`. -/
def storeMessage (i : ℕ) (b : U8) : DevM Unit := modify fun s =>
  { s with dev := { s.dev with mem := Function.update s.dev.mem (BitVec.ofNat 64 i) b } }

/-- `get_user`. -/
def getUser (a : U64) : DevM (ℤ × U8) := do
  let s ← get
  pure (s.user.getUser a)

/-- `put_user`. -/
def putUser (b : U8) (a : U64) : DevM ℤ := do
  let s ← get
  when (s.user.writable a) (emit (.put a b))
  modify fun s => { s with user := (s.user.putUser b a).2 }
  pure (s.user.putUser b a).1

/-- A value of type `int`. -/
def intOf (n : ℕ) : ℤ := (BitVec.ofNat 32 n).toInt

/-! ### The file operations -/

/-- `device_open`. -/
def deviceOpen : DevM ℤ := do
  let s ← get
  if s.dev.deviceOpen ≠ 0 then pure (-EBUSY)
  else do
    modify fun s => { s with dev := { s.dev with deviceOpen := s.dev.deviceOpen + 1 } }
    resetPtr
    pure SUCCESS

/-- `device_release`. -/
def deviceRelease : DevM ℤ := do
  modify fun s => { s with dev := { s.dev with deviceOpen := s.dev.deviceOpen - 1 } }
  pure SUCCESS

/-- The loop of `device_read`; the result of `put_user` is not looked at. -/
def readLoop : ℕ → U64 → ℕ → DevM ℕ
  | 0, _, bytesRead => pure bytesRead
  | length + 1, buffer, bytesRead => do
      let ch ← loadPtr
      if ch = 0 then pure bytesRead
      else do
        let c ← loadPtr
        advancePtr
        let _ ← putUser c buffer
        readLoop length (buffer + 1) (bytesRead + 1)

/-- `device_read`. -/
def deviceRead (buffer length : U64) : DevM ℤ := do
  let ch ← loadPtr
  if ch = 0 then pure 0
  else do
    let bytesRead ← readLoop length.toNat buffer 0
    pure (intOf bytesRead)

/-- The loop of `device_write`, with `n` for `BUF_LEN - i`; a failure of `get_user` is only
logged. -/
def writeLoop (buffer length : U64) : ℕ → ℕ → DevM ℕ
  | 0, i => pure i
  | n + 1, i =>
      if i < length.toNat then do
        let r ← getUser (buffer + BitVec.ofNat 64 i)
        storeMessage i r.2
        writeLoop buffer length n (i + 1)
      else pure i

/-- `device_write`. -/
def deviceWrite (buffer length : U64) : DevM ℤ := do
  let i ← writeLoop buffer length BUF_LEN 0
  resetPtr
  pure i

/-- The loop of `IOCTL_SET_MSG` that looks for the length of the message, with `n` for
`BUF_LEN - i`: `ch` is the character read last. -/
def lengthLoop : ℕ → U64 → U8 → ℕ → DevM ℕ
  | 0, _, _, i => pure i
  | n + 1, temp, ch, i =>
      if ch = 0 then pure i
      else do
        let r ← getUser temp
        lengthLoop n (temp + 1) r.2 (i + 1)

/-- The case `IOCTL_SET_MSG`. -/
def ioctlSetMsg (param : U64) : DevM ℤ := do
  let r ← getUser param
  let i ← lengthLoop BUF_LEN param r.2 0
  let _ ← deviceWrite param (BitVec.ofNat 64 i)
  pure SUCCESS

/-- The case `IOCTL_GET_MSG`. -/
def ioctlGetMsg (param : U64) : DevM ℤ := do
  let i ← deviceRead param 99
  let _ ← putUser 0 (param + BitVec.ofInt 64 i)
  pure SUCCESS

/-- The case `IOCTL_GET_NTH_BYTE`: `char` is signed. -/
def ioctlGetNthByte (param : U64) : DevM ℤ := do
  let b ← load param
  pure b.toInt

/-- `device_ioctl`. -/
def deviceIoctl (num : BitVec 32) (param : U64) : DevM ℤ :=
  if num = IOCTL_SET_MSG then ioctlSetMsg param
  else if num = IOCTL_GET_MSG then ioctlGetMsg param
  else if num = IOCTL_GET_NTH_BYTE then ioctlGetNthByte param
  else pure SUCCESS

/-! ### Calls -/

/-- The entries of `fops`, with their arguments. -/
inductive Op where
  | open
  | release
  | read (buffer length : U64)
  | write (buffer length : U64)
  | ioctl (num : BitVec 32) (param : U64)
deriving DecidableEq, Repr

/-- The code of an operation. -/
def Op.prog : Op → DevM ℤ
  | .open => CharDev.deviceOpen
  | .release => deviceRelease
  | .read buffer length => deviceRead buffer length
  | .write buffer length => deviceWrite buffer length
  | .ioctl num param => deviceIoctl num param

/-- A call: the operation, and the memory of the process at the time of the call. -/
structure Call where
  user : UserMem
  op : Op

/-- The call returns `v`, leaves the device in state `d'`, and has the trace `t`. -/
def Call.Returns (c : Call) (d : Device) (v : ℤ) (d' : Device) (t : List Access) : Prop :=
  ∃ u', c.op.prog.Ends ⟨d, c.user⟩ v ⟨d', u'⟩ t

/-- The bytes a trace stores into user memory, with their addresses. -/
def stores (t : List Access) : List (U64 × U8) :=
  t.filterMap fun e => match e with
    | .put a b => some (a, b)
    | .load _ => none

/-- All operations but opening need an open file. -/
def Op.Enabled (d : Device) : Op → Prop
  | .open => True
  | _ => d.deviceOpen ≠ 0

end KernelHacking.CharDev
