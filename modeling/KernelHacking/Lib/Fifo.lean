import KernelHacking.Lib.Monitor

/-! # Queues without overtaking

A queue is a list, served from the front.  Three things happen to it: an element joins at the end,
an element leaves from wherever it is, and the server takes the front element (or finds nothing).
`fifo` is the monitor of such histories: its ghost is the queue, and a server that takes anything
but the front element is not admissible.

The position of a waiting element never grows, and drops by one whenever another element is taken
(`idxOf_step_le`, `idxOf_take`); an element that is behind it, or not in the queue at all, stays
behind it and is not taken before it (`Ahead.step`).  The results about whole histories are
`waits` and `Ahead.after`. -/

namespace FifoQueue

open TraceProg

variable {α : Type} [DecidableEq α]

/-- What happens to a queue. -/
inductive Op (α : Type) where
  | push (p : α)
  | drop (p : α)
  | take (r : Option α)
deriving DecidableEq

/-- The queue afterwards. -/
def Op.step (xs : List α) : Op α → List α
  | .push p => xs ++ [p]
  | .drop p => xs.erase p
  | .take none => xs
  | .take (some p) => xs.erase p

/-- The server takes the front element, if there is one. -/
def Op.Ok (xs : List α) : Op α → Prop
  | .take r => xs.head? = r
  | _ => True

/-- The monitor of a queue. -/
def fifo : Monitor (Op α) (List α) := ⟨Op.step, Op.Ok⟩

/-- The element is neither removed nor taken. -/
def Op.Spares (a : α) (o : Op α) : Prop := o ≠ .drop a ∧ o ≠ .take (some a)

/-- The server comes. -/
def Op.isTake : Op α → Bool
  | .take _ => true
  | _ => false

/-- `a` is in the queue, and `b` is behind it or not in the queue. -/
def Ahead (xs : List α) (a b : α) : Prop := a ∈ xs ∧ xs.idxOf a < xs.idxOf b

variable {xs : List α} {a b p : α} {o : Op α}

/-! ### Positions -/

theorem idxOf_le_push (xs : List α) (b p : α) : xs.idxOf b ≤ (xs ++ [p]).idxOf b := by
  by_cases hb : b ∈ xs
  · rw [List.idxOf_append_of_mem hb]
  · rw [List.idxOf_append_of_notMem hb, List.idxOf_of_notMem hb]
    omega

/-- Only the head is at position 0. -/
theorem ne_of_lt_idxOf_cons {n : ℕ} {x b : α} (h : n < (x :: xs).idxOf b) : x ≠ b := by
  rintro rfl
  rw [List.idxOf_cons_self] at h
  omega

/-- Removing an element moves the others forward, and keeps their order. -/
theorem idxOf_erase (hp : p ≠ a) : ∀ xs : List α, a ∈ xs →
    (xs.erase p).idxOf a ≤ xs.idxOf a ∧
      ∀ b, xs.idxOf a < xs.idxOf b → (xs.erase p).idxOf a < (xs.erase p).idxOf b := by
  intro xs
  induction xs with
  | nil => intro ha; cases ha
  | cons x xs ih =>
      intro ha
      by_cases hx : x = p
      · subst hx
        rw [List.erase_cons_head, List.idxOf_cons_ne _ hp]
        refine ⟨by omega, ?_⟩
        intro b hb
        rw [List.idxOf_cons_ne _ (ne_of_lt_idxOf_cons hb)] at hb
        omega
      · rw [List.erase_cons_tail (by simpa using hx)]
        by_cases hxa : x = a
        · subst hxa
          rw [List.idxOf_cons_self, List.idxOf_cons_self]
          refine ⟨le_rfl, ?_⟩
          intro b hb
          rw [List.idxOf_cons_ne _ (ne_of_lt_idxOf_cons hb)]
          omega
        · have ha' : a ∈ xs := (List.mem_cons.mp ha).resolve_left (Ne.symm hxa)
          obtain ⟨hle, hlt⟩ := ih ha'
          rw [List.idxOf_cons_ne _ hxa, List.idxOf_cons_ne _ hxa]
          refine ⟨by omega, ?_⟩
          intro b hb
          have hb' := ne_of_lt_idxOf_cons hb
          rw [List.idxOf_cons_ne _ hb'] at hb ⊢
          have := hlt b (by omega)
          omega

/-! ### One step -/

theorem mem_step (ha : a ∈ xs) (hs : o.Spares a) : a ∈ o.step xs := by
  cases o with
  | push p => exact List.mem_append_left _ ha
  | drop p => exact (List.mem_erase_of_ne fun e => hs.1 (by rw [e])).mpr ha
  | take r =>
      cases r with
      | none => exact ha
      | some p => exact (List.mem_erase_of_ne fun e => hs.2 (by rw [e])).mpr ha

/-- When another element is taken, the position drops by exactly one; and while an element waits,
the server takes something. -/
theorem idxOf_take {r : Option α} (ha : a ∈ xs) (hs : (Op.take r).Spares a)
    (hok : (Op.take r).Ok xs) : ∃ p, r = some p ∧
      xs = p :: (Op.take r).step xs ∧ ((Op.take r).step xs).idxOf a + 1 = xs.idxOf a := by
  have hhead : xs.head? = r := hok
  cases xs with
  | nil => cases ha
  | cons x xs =>
      have hr : r = some x := hhead.symm
      have hx : x ≠ a := by
        intro e
        exact hs.2 (by rw [hr, e])
      have hstep : (Op.take r).step (x :: xs) = xs := by
        rw [hr]
        show (x :: xs).erase x = xs
        rw [List.erase_cons_head]
      rw [hstep, List.idxOf_cons_ne _ hx]
      exact ⟨x, hr, rfl, rfl⟩

/-- The position never grows. -/
theorem idxOf_step_le (ha : a ∈ xs) (hs : o.Spares a) (hok : o.Ok xs) :
    (o.step xs).idxOf a ≤ xs.idxOf a := by
  cases o with
  | push p =>
      show (xs ++ [p]).idxOf a ≤ xs.idxOf a
      rw [List.idxOf_append_of_mem ha]
  | drop p => exact (idxOf_erase (fun e => hs.1 (by rw [e])) xs ha).1
  | take r =>
      obtain ⟨-, -, -, h⟩ := idxOf_take ha hs hok
      omega

/-- Who is behind stays behind, and is not taken. -/
theorem Ahead.step (h : Ahead xs a b) (hs : o.Spares a) (hok : o.Ok xs) :
    Ahead (o.step xs) a b ∧ o ≠ .take (some b) := by
  obtain ⟨ha, hlt⟩ := h
  refine ⟨⟨mem_step ha hs, ?_⟩, ?_⟩
  · cases o with
    | push p =>
        show (xs ++ [p]).idxOf a < (xs ++ [p]).idxOf b
        rw [List.idxOf_append_of_mem ha]
        have := idxOf_le_push xs b p
        omega
    | drop p => exact (idxOf_erase (fun e => hs.1 (by rw [e])) xs ha).2 b hlt
    | take r =>
        obtain ⟨p, hr, hxs, h⟩ := idxOf_take ha hs hok
        by_cases hb : p = b
        · rw [hxs, hb, List.idxOf_cons_self] at hlt
          omega
        · have hb' : xs.idxOf b = ((Op.take r).step xs).idxOf b + 1 := by
            conv_lhs => rw [hxs]
            exact List.idxOf_cons_ne _ hb
          omega
  · intro e
    subst e
    obtain ⟨p, hr, hxs, -⟩ := idxOf_take ha hs hok
    cases hr
    rw [hxs, List.idxOf_cons_self] at hlt
    omega

/-! ### Whole histories -/

/-- An element that is spared waits, and every visit of the server brings it forward. -/
theorem waits : ∀ (ops : List (Op α)) {xs : List α}, fifo.Accepts xs ops → a ∈ xs →
    (∀ o ∈ ops, o.Spares a) →
    a ∈ fifo.after xs ops ∧
      (fifo.after xs ops).idxOf a + ops.countP Op.isTake ≤ xs.idxOf a := by
  intro ops
  induction ops with
  | nil => intro xs _ ha _; exact ⟨ha, le_rfl⟩
  | cons o ops ih =>
      intro xs hacc ha hs
      have hso : o.Spares a := hs o List.mem_cons_self
      obtain ⟨hmem, hle⟩ := ih hacc.2 (mem_step ha hso)
        fun o' ho' => hs o' (List.mem_cons_of_mem _ ho')
      refine ⟨hmem, ?_⟩
      show (fifo.after (o.step xs) ops).idxOf a + _ ≤ _
      have hstep : (o.step xs).idxOf a + (if o.isTake then 1 else 0) ≤ xs.idxOf a := by
        cases o with
        | push p => exact idxOf_step_le ha hso hacc.1
        | drop p => exact idxOf_step_le ha hso hacc.1
        | take r =>
            obtain ⟨-, -, -, h⟩ := idxOf_take ha hso hacc.1
            exact h.le
      rw [List.countP_cons]
      change (fifo.after (o.step xs) ops).idxOf a + ops.countP Op.isTake ≤ (o.step xs).idxOf a at hle
      omega

/-- Who is behind a waiting element is not taken before it. -/
theorem Ahead.after : ∀ (ops : List (Op α)) {xs : List α}, fifo.Accepts xs ops → Ahead xs a b →
    (∀ o ∈ ops, o.Spares a) → Ahead (fifo.after xs ops) a b ∧ Op.take (some b) ∉ ops := by
  intro ops
  induction ops with
  | nil => intro xs _ h _; exact ⟨h, List.not_mem_nil⟩
  | cons o ops ih =>
      intro xs hacc h hs
      obtain ⟨hstep, hne⟩ := h.step (hs o List.mem_cons_self) hacc.1
      obtain ⟨hafter, hnot⟩ := ih hacc.2 hstep fun o' ho' => hs o' (List.mem_cons_of_mem _ ho')
      refine ⟨hafter, ?_⟩
      rw [List.mem_cons, not_or]
      exact ⟨Ne.symm hne, hnot⟩

end FifoQueue
