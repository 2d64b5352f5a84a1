import KernelHacking.Lib.CString
import KernelHacking.Lib.UserMem

/-! # `/proc/helloworld`

The handlers of `procfs1.c`.  `file_read` is meant to be called until it returns 0, as the library's
`read` does, and tells the first call from the others by the file position; but it does not advance
the position, and does not look at the length of the caller's buffer.  So every call starts from the
beginning again, stores the 14 bytes of the message with its terminator where they can be written
and returns 14, and the reader never comes to an end (`read_never_ends`).

`file_write` copies what the caller passes into `write_buffer` and logs it as a string.  It adds the
file position to the caller's pointer and stores no terminator; `writes_good_iff` says which
sequences of writes are stored and logged as they were passed. -/

namespace KernelHacking.Procfs

open Word Uaccess CString

/-- `"Hello World!\n"`. -/
def msg : List U8 := [72, 101, 108, 108, 111, 32, 87, 111, 114, 108, 100, 33, 10]

/-- What a call of `file_read` returns, the file position it leaves, the memory of the process
afterwards, and the bytes stored there. -/
structure ReadResult where
  ret : ℤ
  offset : Option ℤ
  user : UserMem
  stored : List (U64 × U8)

/-- `file_read`; `offset` is `none` for a null pointer.  The length is only logged. -/
def fileRead (u : UserMem) (buff _length : U64) (offset : Option ℤ) : ReadResult :=
  if ∃ o ∈ offset, 0 < o then ⟨0, offset, u, []⟩
  else
    let r := u.copyToUser buff (msg ++ [0])
    ⟨if r.1 ≠ 0 then 0 else msg.length + 1, offset, r.2, copied u buff (msg ++ [0])⟩

/-! ### The protocol of a reader -/

/-- A call of `read`: a buffer of positive length that can be written. -/
structure ReadCall where
  user : UserMem
  buff : U64
  length : U64
  positive : length ≠ 0
  writable : user.WritableAt buff length.toNat

/-- Reads on one open file: its position starts at 0, is passed by pointer, and what the handler
leaves in it is stored back. -/
def reads (rs : ℕ → ReadCall) : ℕ → ReadResult
  | 0 => fileRead (rs 0).user (rs 0).buff (rs 0).length (some 0)
  | i + 1 => fileRead (rs (i + 1)).user (rs (i + 1)).buff (rs (i + 1)).length (reads rs i).offset

/-- The bytes delivered by the first `n` reads. -/
def delivered (rs : ℕ → ReadCall) (n : ℕ) : List U8 :=
  (List.range n).flatMap fun i => (reads rs i).stored.map Prod.snd

/-- The protocol: no read stores or returns more than its length, what has been delivered is always
a prefix of the message, and after finitely many reads one returns 0, when all of it has been. -/
structure Protocol (message : List U8) (rs : ℕ → ReadCall) : Prop where
  stores : ∀ i, (reads rs i).stored.length ≤ (rs i).length.toNat
  returns : ∀ i, (reads rs i).ret ≤ (rs i).length.toNat
  inOrder : ∀ n, delivered rs n <+: message
  ends : ∃ n, (reads rs n).ret = 0 ∧ delivered rs n = message

/-- A call at position 0 stores as much as can be written, whatever the length of the buffer, and
leaves the position as it is. -/
theorem fileRead_start (u : UserMem) (buff length : U64) :
    fileRead u buff length (some 0) =
      ⟨if (u.copyToUser buff (msg ++ [0])).1 ≠ 0 then 0 else 14, some 0,
        (u.copyToUser buff (msg ++ [0])).2, copied u buff (msg ++ [0])⟩ := by
  have hpos : ¬ ∃ o ∈ some (0 : ℤ), 0 < o := by simp
  unfold fileRead
  rw [if_neg hpos]
  rfl

/-- Every read is at position 0. -/
theorem reads_eq (rs : ℕ → ReadCall) (n : ℕ) :
    reads rs n = fileRead (rs n).user (rs n).buff (rs n).length (some 0) := by
  induction n with
  | zero => rfl
  | succ n ih =>
      unfold reads
      rw [ih, fileRead_start]

/-- Where there is room for the message, a read returns 14. -/
theorem ret_reads {rs : ℕ → ReadCall} {n : ℕ} (h : (rs n).user.WritableAt (rs n).buff 14) :
    (reads rs n).ret = 14 := by
  have hall : ((rs n).user.copyToUser (rs n).buff (msg ++ [0])).1 = 0 := copyToUser_eq_zero_iff.mpr h
  rw [reads_eq, fileRead_start]
  exact if_neg (not_not.mpr hall)

/-- Every read delivers something: the first byte of its buffer can be written. -/
theorem stored_reads (rs : ℕ → ReadCall) (n : ℕ) : 0 < (reads rs n).stored.length := by
  have hlen : 0 < (rs n).length.toNat := BitVec.toNat_pos_of_ne_zero (rs n).positive
  have hfirst : (rs n).user.writable (rs n).buff = true := by
    simpa using (rs n).writable 0 hlen
  rw [reads_eq, fileRead_start]
  show 0 < (copied (rs n).user (rs n).buff (72 :: (msg ++ [0]).tail)).length
  rw [copied, placed, List.takeWhile_cons, if_pos hfirst]
  exact Nat.succ_pos _

theorem length_delivered (rs : ℕ → ReadCall) (n : ℕ) : n ≤ (delivered rs n).length := by
  induction n with
  | zero => exact Nat.zero_le _
  | succ n ih =>
      have hnext := stored_reads rs n
      unfold delivered at ih ⊢
      rw [List.range_succ, List.flatMap_append, List.length_append, List.flatMap_singleton,
        List.length_map]
      omega

/-- **The reader never comes to an end**: a read into a buffer with room for the message returns 14,
never 0, and no sequence of reads follows the protocol, whatever the message is taken to be: what
is delivered grows with every read. -/
theorem read_never_ends (rs : ℕ → ReadCall) :
    (∀ n, (rs n).user.WritableAt (rs n).buff 14 → (reads rs n).ret = 14) ∧
      ∀ message, ¬ Protocol message rs := by
  refine ⟨fun n => ret_reads, ?_⟩
  intro message h
  have hle := (h.inOrder (message.length + 1)).length_le
  have := length_delivered rs (message.length + 1)
  omega

/-- A process with writable memory. -/
def plainMem : UserMem := ⟨fun _ => 0, fun _ => true, fun _ => true⟩

/-- Reads with a buffer of 4 bytes. -/
def fourBytes : ℕ → ReadCall := fun _ => ⟨plainMem, 4096, 4, by decide, fun _ _ => rfl⟩

/-- **A buffer of 4 bytes gets 14**, on every read, and the message comes again and again. -/
theorem read_overflows : (reads fourBytes 0).ret = 14 ∧ (reads fourBytes 0).stored.length = 14 ∧
    delivered fourBytes 2 = msg ++ [0] ++ (msg ++ [0]) ∧
    ¬ Protocol msg fourBytes ∧ ¬ Protocol (msg ++ [0]) fourBytes := by
  have hno : ∀ message, ¬ Protocol message fourBytes := by
    intro message h
    have := h.returns 0
    rw [ret_reads fun _ _ => rfl] at this
    exact absurd this (by decide)
  exact ⟨rfl, rfl, by decide, hno msg, hno (msg ++ [0])⟩

/-! ### Writing -/

def ENOMEM : ℤ := 12

/-- `WRITE_BUFFER_SIZE`. -/
def WRITE_BUFFER_SIZE : ℕ := 4096

/-- What a call of `file_write` logs: the string at `write_buffer`, with the memory as it is then, or
that the copy has failed. -/
inductive Logged where
  | contents (mem : ℕ → U8)
  | failed (err : ℕ)

/-- What a call of `file_write` returns, the memory from `write_buffer` on, the user addresses it
reads, and what it logs. -/
structure WriteResult where
  ret : ℤ
  mem : ℕ → U8
  asked : List U64
  logged : Logged

/-- `file_write`, with kernel memory addressed by the offset from `write_buffer`. -/
def fileWrite (u : UserMem) (mem : ℕ → U8) (buff length offset : U64) : WriteResult :=
  let wrlen := if WRITE_BUFFER_SIZE < length.toNat then WRITE_BUFFER_SIZE else length.toNat
  let r := u.copyFromUser (buff + offset) wrlen
  let mem := fun i => r.2.getD i (mem i)
  let asked := (List.range wrlen).map fun i => buff + offset + BitVec.ofNat 64 i
  if r.1 = 0 then ⟨wrlen, mem, asked, .contents mem⟩
  else ⟨-ENOMEM, mem, asked, .failed r.1⟩

/-- A call of `write` or `pwrite`: the caller's buffer is what can be read of its memory. -/
structure WriteCall where
  user : UserMem
  buff : U64
  length : U64
  offset : U64
  readable : ∀ a, user.readable a = true ↔ (a - buff).toNat < length.toNat

namespace WriteCall

/-- The bytes of the caller's buffer. -/
def byte (c : WriteCall) (i : ℕ) : U8 := c.user.byte (c.buff + BitVec.ofNat 64 i)

/-- How many of them are to be stored. -/
def count (c : WriteCall) : ℕ := min c.length.toNat WRITE_BUFFER_SIZE

def result (c : WriteCall) (mem : ℕ → U8) : WriteResult :=
  fileWrite c.user mem c.buff c.length c.offset

end WriteCall

/-- What `%s` prints. -/
def Logged.Prints : Logged → List U8 → Prop
  | .contents mem, s => Holds mem s
  | .failed _, _ => False

/-- The call reads the caller's buffer only, returns the number of bytes stored, stores the first
bytes of the buffer and logs them up to the first NUL. -/
structure WriteCall.Good (c : WriteCall) (mem : ℕ → U8) : Prop where
  inside : ∀ a ∈ (c.result mem).asked, (a - c.buff).toNat < c.length.toNat
  returns : (c.result mem).ret = c.count
  stored : ∀ i < c.count, (c.result mem).mem i = c.byte i
  logged : (c.result mem).logged.Prints (upTo c.byte c.count)

/-- What a call has to see to: the bytes at the file position are in the caller's buffer and are the
same as its first bytes; and there is a NUL among them, or behind them already. -/
structure WriteCall.Fits (c : WriteCall) (mem : ℕ → U8) : Prop where
  inside : ∀ i < c.count, (c.offset + BitVec.ofNat 64 i).toNat < c.length.toNat
  same : ∀ i < c.count, c.user.byte (c.buff + c.offset + BitVec.ofNat 64 i) = c.byte i
  ends : (∃ i < c.count, c.byte i = 0) ∨ mem c.count = 0

/-- The first bytes of the caller's buffer over what is in memory. -/
def WriteCall.laidOver (c : WriteCall) (mem : ℕ → U8) : ℕ → U8 :=
  fun i => if i < c.count then c.byte i else mem i

/-- Every call of a sequence is good. -/
def AllGood (mem : ℕ → U8) : List WriteCall → Prop
  | [] => True
  | c :: cs => c.Good mem ∧ AllGood (c.result mem).mem cs

/-- Every call of a sequence sees to what it has to, where the callers' bytes are laid over each
other in memory. -/
def AllFit (mem : ℕ → U8) : List WriteCall → Prop
  | [] => True
  | c :: cs => c.Fits mem ∧ AllFit (c.laidOver mem) cs

section
variable {c : WriteCall} {mem : ℕ → U8}

/-- The code in one equation. -/
theorem WriteCall.result_eq (c : WriteCall) (mem : ℕ → U8) : c.result mem =
    ⟨if (c.user.copyFromUser (c.buff + c.offset) c.count).1 = 0 then c.count else -ENOMEM,
      fun i => (c.user.copyFromUser (c.buff + c.offset) c.count).2.getD i (mem i),
      (List.range c.count).map fun i => c.buff + c.offset + BitVec.ofNat 64 i,
      if (c.user.copyFromUser (c.buff + c.offset) c.count).1 = 0 then
        .contents fun i => (c.user.copyFromUser (c.buff + c.offset) c.count).2.getD i (mem i)
      else .failed (c.user.copyFromUser (c.buff + c.offset) c.count).1⟩ := by
  have hlen : (if WRITE_BUFFER_SIZE < c.length.toNat then WRITE_BUFFER_SIZE else c.length.toNat) =
      c.count := by
    unfold count
    split <;> omega
  unfold result fileWrite
  rw [hlen]
  dsimp only
  split
  · rfl
  · rfl

/-- Nothing behind the bytes to be stored is written, also by a call that fails. -/
theorem WriteCall.result_frame {i : ℕ} (hi : c.count ≤ i) : (c.result mem).mem i = mem i := by
  rw [result_eq]
  refine List.getD_eq_default _ _ ?_
  rw [length_copyFromUser]
  exact hi

theorem WriteCall.inside_iff : (∀ a ∈ (c.result mem).asked, (a - c.buff).toNat < c.length.toNat) ↔
    ∀ i < c.count, (c.offset + BitVec.ofNat 64 i).toNat < c.length.toNat := by
  rw [result_eq]
  simp only [List.mem_map, List.mem_range, forall_exists_index, and_imp,
    forall_apply_eq_imp_iff₂, BitVec.add_assoc, add_sub_cancel_left]

/-- A call whose bytes are in the caller's buffer. -/
theorem WriteCall.result_inside (mem : ℕ → U8)
    (h : ∀ i < c.count, (c.offset + BitVec.ofNat 64 i).toNat < c.length.toNat) :
    (c.result mem).ret = c.count ∧ (c.result mem).logged = .contents (c.result mem).mem ∧
      ∀ i, (c.result mem).mem i =
        if i < c.count then c.user.byte (c.buff + c.offset + BitVec.ofNat 64 i) else mem i := by
  have hread : ∀ i < c.count, c.user.readable (c.buff + c.offset + BitVec.ofNat 64 i) = true := by
    intro i hi
    rw [c.readable, BitVec.add_assoc, add_sub_cancel_left]
    exact h i hi
  have hzero := copyFromUser_eq_zero_iff.mpr hread
  refine ⟨?_, ?_, ?_⟩
  · rw [result_eq, if_pos hzero]
  · rw [result_eq]
    exact if_pos hzero
  · intro i
    by_cases hi : i < c.count
    · rw [if_pos hi, result_eq, copyFromUser_bytes hread]
      simp [List.getD_eq_getElem?_getD, hi]
    · rw [if_neg hi]
      exact result_frame (by omega)

/-- One call is good exactly if it sees to what it has to. -/
theorem WriteCall.good_iff : c.Good mem ↔ c.Fits mem := by
  constructor
  · intro h
    have hin := inside_iff.mp h.inside
    obtain ⟨-, hlog, hmem⟩ := result_inside mem hin
    have hsame : ∀ i < c.count,
        c.user.byte (c.buff + c.offset + BitVec.ofNat 64 i) = c.byte i := by
      intro i hi
      rw [← h.stored i hi, hmem i, if_pos hi]
    refine ⟨hin, hsame, ?_⟩
    have hholds : Holds (c.result mem).mem (upTo c.byte c.count) := by
      have hl := h.logged
      rwa [hlog] at hl
    have hiff := (holds_upTo_iff h.stored).mp hholds
    rwa [hmem, if_neg (Nat.lt_irrefl _)] at hiff
  · intro h
    obtain ⟨hret, hlog, hmem⟩ := result_inside mem h.inside
    have hstored : ∀ i < c.count, (c.result mem).mem i = c.byte i := by
      intro i hi
      rw [hmem i, if_pos hi, h.same i hi]
    refine ⟨inside_iff.mpr h.inside, hret, hstored, ?_⟩
    rw [hlog]
    refine (holds_upTo_iff hstored).mpr ?_
    rw [hmem, if_neg (Nat.lt_irrefl _)]
    exact h.ends

/-- What a good call leaves in memory. -/
theorem WriteCall.Good.mem_eq (h : c.Good mem) : (c.result mem).mem = c.laidOver mem := by
  obtain ⟨-, -, hmem⟩ := result_inside mem (inside_iff.mp h.inside)
  funext i
  unfold laidOver
  by_cases hi : i < c.count
  · rw [if_pos hi, h.stored i hi]
  · rw [if_neg hi, hmem i, if_neg hi]

/-- **Writes are stored and logged as they were passed** exactly if each of them finds its bytes at
the file position, and a NUL among them or behind them. -/
theorem writes_good_iff (mem : ℕ → U8) (cs : List WriteCall) : AllGood mem cs ↔ AllFit mem cs := by
  induction cs generalizing mem with
  | nil => exact Iff.rfl
  | cons c cs ih =>
      constructor
      · intro h
        obtain ⟨hc, hcs⟩ := h
        rw [hc.mem_eq] at hcs
        exact ⟨WriteCall.good_iff.mp hc, (ih _).mp hcs⟩
      · intro h
        obtain ⟨hc, hcs⟩ := h
        have hgood := WriteCall.good_iff.mpr hc
        refine ⟨hgood, ?_⟩
        rw [hgood.mem_eq]
        exact (ih _).mpr hcs

end

/-- A write of these bytes, from address 4096 of a process that has nothing else to read. -/
def writeOf (bs : List U8) (h : bs.length < 2 ^ 64) (offset : U64) : WriteCall where
  user := ⟨fun a => bs.getD (a - 4096).toNat 0, fun a => decide ((a - 4096).toNat < bs.length),
    fun _ => true⟩
  buff := 4096
  length := BitVec.ofNat 64 bs.length
  offset := offset
  readable := by
    intro a
    rw [toNat_ofNat_of_lt h]
    exact decide_eq_true_iff

/-- `"hello"`, `"hi"` and `"h"`. -/
def hello (offset : U64) : WriteCall := writeOf [104, 101, 108, 108, 111] (by decide) offset
def hi (offset : U64) : WriteCall := writeOf [104, 105] (by decide) offset
def oneByte (offset : U64) : WriteCall := writeOf [104] (by decide) offset

/-- **A write after a longer one is logged with the end of the longer one**, and a write at position 1
fails, both on the module as it is loaded, with zeros in `write_buffer`. -/
theorem writes_not_good :
    ((hi 0).result ((hello 0).result fun _ => 0).mem).logged.Prints [104, 105, 108, 108, 111] ∧
    ¬ AllGood (fun _ => 0) [hello 0, hi 0] ∧ ((oneByte 1).result fun _ => 0).ret = -ENOMEM ∧
    ¬ AllGood (fun _ => 0) [oneByte 1] := by
  refine ⟨?_, ?_, by decide, ?_⟩
  · refine ⟨?_, rfl, by decide⟩
    decide
  · intro h
    have hfit := WriteCall.good_iff.mp h.2.1
    rcases hfit.ends with ⟨i, hi, h0⟩ | h0
    · revert h0
      revert i
      decide
    · revert h0
      decide
  · intro h
    have hret := h.1.returns
    revert hret
    decide

end KernelHacking.Procfs
