import KernelHacking.Lib.Monitor
import KernelHacking.Sched.Core

/-! # The run-queue invariant

`Sane T a c s xs` says that the run-queue `s` is consistent: `xs` is the sequence the ring of the
circular class stands for, `c` says which tasks the run-queue points at, and the account `a` says
for every task the class it is queued in, if any.  The account is what a core function changes
step by step: between steps it is `home T`, read off `p->on_rq` and `p->sched_class`, but in the
middle of a class change the task in flight is on no account.

`ringMonitor` watches the calls of the list functions: its ghost is the sequence of the ring, and
an event is admissible when the call meets the precondition of the list function, when no counter
is lowered below zero, and when a pick of the circular class does what it should (`PickOk`). -/

namespace KernelHacking.Sched

open TraceProg PtrRing Word

variable {α : Type} [DecidableEq α] [Fintype α] {K : Kernel α}

/-! ### Who runs, and who is queued where -/

/-- The tasks the run-queue points at. -/
structure Ctx (α : Type) where
  curr : α
  idle : α
  stop : Option α
  circCurr : Option α

/-- `rq->curr`, `rq->idle`, `rq->stop` and `circ_rq->curr`. -/
def Cpu.ctx (s : Cpu K) : Ctx α := ⟨s.rq.curr, s.rq.idle, s.rq.stop, s.rq.circ.curr⟩

/-- The class every task is queued in. -/
abbrev Account (α : Type) := α → Option SchedClass

/-- The account of the tasks between steps. -/
def home (T : α → TaskStruct) : Account α := fun p =>
  if taskOnRqQueued (T p) then some (T p).schedClass else none

/-- The tasks queued in a class. -/
def onClass (a : Account α) (c : SchedClass) : Finset α := Finset.univ.filter fun p => a p = some c

/-- What `circ_rq->curr` is while `p` runs. -/
def currOf (T : α → TaskStruct) (p : α) : Option α :=
  if (T p).schedClass = .circular then some p else none

/-! ### The invariant -/

/-- The circular run-queue: the queued tasks are those with `se.on_rq` set, and they are in the
ring except for `circ_rq->curr`. -/
structure CircSane (a : Account α) (s : Cpu K) (xs : List α) : Prop where
  rep : Represents s.node s.rq.circ.circList xs
  onRq : ∀ p, (s.se p).onRq = true ↔ a p = some .circular
  mem : ∀ p, p ∈ xs ↔ a p = some .circular ∧ s.rq.circ.curr ≠ some p
  nr : s.rq.circ.nrRunning = (onClass a .circular).card
  hNr : s.rq.circ.hNrRunning = (onClass a .circular).card

/-- The real-time run-queue: every queued task is in the queue of its priority, once. -/
structure RtSane (T : α → TaskStruct) (a : Account α) (rt : RtRq α) : Prop where
  mem : ∀ p i, p ∈ rt.active.queue i ↔ a p = some .rt ∧ (i : ℤ) = (T p).prio
  prio : ∀ p, a p = some .rt → 0 ≤ (T p).prio ∧ (T p).prio < MAX_RT_PRIO
  nodup : ∀ i, (rt.active.queue i).Nodup
  bitmap : ∀ i, rt.active.bitmap i = true ↔ rt.active.queue i ≠ []
  nr : rt.rtNrRunning = (onClass a .rt).card
  queued : rt.rtQueued = true → 0 < rt.rtNrRunning

/-- What the real-time class has added to `rq->nr_running`. -/
def RtRq.added (rt : RtRq α) : ℕ := if rt.rtQueued then rt.rtNrRunning else 0

/-- **The run-queue invariant.** -/
structure Sane (T : α → TaskStruct) (a : Account α) (c : Ctx α) (s : Cpu K) (xs : List α) :
    Prop where
  ctx : s.ctx = c
  circ : CircSane a s xs
  rt : RtSane T a s.rq.rt
  foreign : ∀ f p, p ∈ s.rq.queued f → a p = some f.schedClass
  nr : s.rq.nrRunning = s.rq.circ.nrRunning + s.rq.rt.added +
    (s.rq.queued .stop).card + (s.rq.queued .dl).card
  cfs : s.rq.cfs.hNrRunning = 0

/-! ### The monitor -/

/-- What `put_prev_task` puts back into the ring. -/
def putBack (T : α → TaskStruct) (s : Cpu K) (prev : α) : List α :=
  if (T prev).schedClass = .circular ∧ (s.se prev).onRq then [prev] else []

/-- A pick of the circular class finds nothing only if nothing is queued, and then changes nothing;
otherwise the head of the ring, with the previous task put back at its end, becomes
`circ_rq->curr`, and the ring holds the other queued tasks.  `g` is the ring that the pick finds, the
previous task put back. -/
def PickOk (g : List α) (T : α → TaskStruct) (s : Cpu K) (prev : α) (r : Option α) (s' : Cpu K) :
    Prop :=
  match r with
  | none => g = [] ∧ (∀ q, (s.se q).onRq = false) ∧ s' = s
  | some p =>
      ∃ xs ys, Represents s.node s.rq.circ.circList xs ∧
        Represents s'.node s'.rq.circ.circList ys ∧ g = xs ++ putBack T s prev ∧ g = p :: ys ∧
        p ∉ ys ∧ s'.rq.circ.curr = some p ∧ (∀ q, (s.se q).onRq = true ↔ q = p ∨ q ∈ ys) ∧
        ∀ q, (s'.se q).onRq = (s.se q).onRq

/-- The ring after an event. -/
def ringStep (xs : List α) : Event K → List α
  | .insert _ _ _ p => xs ++ [p]
  | .dequeued p => xs.erase p
  | .pick _ _ _ (some p) _ => xs.erase p
  | _ => xs

/-- The precondition of every list call, no counter below zero, and sound picks. -/
def Event.Ok (g : List α) : Event K → Prop
  | .insert h l after p => ∃ xs, Represents h l xs ∧ p ∉ xs ∧ after = xs.head?
  | .remove h l p => ∃ xs, Represents h l xs ∧ p ∈ xs
  | .traverse h l => ∃ xs, Represents h l xs
  | .sub counter amount => amount ≤ counter
  | .pick T s prev r s' => PickOk g T s prev r s'
  | .fallback => False
  | _ => True

/-- The monitor of the ring. -/
def ringMonitor : Monitor (Event K) (List α) := ⟨ringStep, Event.Ok⟩

/-! ### Counting -/

section counting
variable {T T' : α → TaskStruct} {a : Account α} {c : Ctx α} {s : Cpu K} {xs : List α}

omit [DecidableEq α] in
theorem mem_onClass {k : SchedClass} {p : α} : p ∈ onClass a k ↔ a p = some k := by
  simp [onClass]

/-- Queueing a task adds it to its class. -/
theorem onClass_update_self {k : SchedClass} {p : α} :
    onClass (Function.update a p (some k)) k = insert p (onClass a k) := by
  ext q
  by_cases e : q = p
  · subst e; simp [onClass]
  · simp [onClass, e]

/-- A task that was not queued in a class and is not now makes no difference to it. -/
theorem onClass_update_of_ne {k : SchedClass} {p : α} {v : Option SchedClass}
    (hp : a p ≠ some k) (hv : v ≠ some k) : onClass (Function.update a p v) k = onClass a k := by
  ext q
  by_cases e : q = p
  · subst e; simp [onClass, hp, hv]
  · simp [onClass, e]

omit [Fintype α] in
/-- Moving a task in or out of one class makes no difference to the accounts of the others. -/
theorem account_update_iff {k₀ : SchedClass} {p : α} {v : Option SchedClass}
    (hp : a p = none ∨ a p = some k₀) (hv : v = none ∨ v = some k₀) (q : α) (k : SchedClass)
    (hk : k ≠ k₀) : Function.update a p v q = some k ↔ a q = some k := by
  by_cases e : q = p
  · subst e
    rw [Function.update_self]
    have hk' : ¬ k₀ = k := fun e => hk e.symm
    rcases hp with hp | hp <;> rcases hv with hv | hv <;> simp [hp, hv, hk']
  · rw [Function.update_of_ne e]

/-- Taking a task off the account takes it off its class. -/
theorem onClass_update_none {k : SchedClass} {p : α} :
    onClass (Function.update a p none) k = (onClass a k).erase p := by
  ext q
  by_cases e : q = p
  · subst e; simp [onClass]
  · simp [onClass, e]

omit [DecidableEq α] in
theorem disjoint_onClass {k k' : SchedClass} (h : k ≠ k') :
    Disjoint (onClass a k) (onClass a k') := by
  rw [Finset.disjoint_left]
  intro p hp hp'
  rw [mem_onClass] at hp hp'
  rw [hp] at hp'
  exact h (Option.some.inj hp')

/-- The classes share the tasks. -/
theorem card_classes_le : (onClass a .circular).card + (onClass a .rt).card +
    (onClass a .stop).card + (onClass a .dl).card ≤ Fintype.card α := by
  have d₁ : Disjoint (onClass a .circular) (onClass a .rt) := disjoint_onClass (by decide)
  have d₂ : Disjoint (onClass a .stop) (onClass a .dl) := disjoint_onClass (by decide)
  have h₁ := Finset.card_union_of_disjoint d₁
  have h₂ := Finset.card_union_of_disjoint d₂
  have h₃ : Disjoint (onClass a .circular ∪ onClass a .rt) (onClass a .stop ∪ onClass a .dl) := by
    rw [Finset.disjoint_union_left, Finset.disjoint_union_right, Finset.disjoint_union_right]
    exact ⟨⟨disjoint_onClass (by decide), disjoint_onClass (by decide)⟩,
      disjoint_onClass (by decide), disjoint_onClass (by decide)⟩
  have h₄ := Finset.card_union_of_disjoint h₃
  have h₅ := Finset.card_le_univ
    ((onClass a .circular ∪ onClass a .rt) ∪ (onClass a .stop ∪ onClass a .dl))
  omega

theorem Sane.card_queued_le (h : Sane T a c s xs) (f : Foreign) :
    (s.rq.queued f).card ≤ (onClass a f.schedClass).card :=
  Finset.card_le_card fun p hp => mem_onClass.mpr (h.foreign f p hp)

omit [DecidableEq α] in
theorem RtSane.added_le {rt : RtRq α} (h : RtSane T a rt) : rt.added ≤ (onClass a .rt).card := by
  unfold RtRq.added
  split
  · exact h.nr.le
  · exact Nat.zero_le _

/-- `rq->nr_running` counts tasks. -/
theorem Sane.nrRunning_le (h : Sane T a c s xs) : s.rq.nrRunning ≤ Fintype.card α := by
  have h₁ := h.card_queued_le .stop
  have h₂ := h.card_queued_le .dl
  have h₃ := h.rt.added_le
  have h₄ : (onClass a .circular).card + (onClass a .rt).card + (onClass a .stop).card +
    (onClass a .dl).card ≤ Fintype.card α := card_classes_le
  have h₅ := h.nr
  have h₆ := h.circ.nr
  simp only [Foreign.schedClass] at h₁ h₂
  omega

theorem Sane.curr_eq (h : Sane T a c s xs) : s.rq.curr = c.curr := by rw [← h.ctx]; rfl

theorem Sane.idle_eq (h : Sane T a c s xs) : s.rq.idle = c.idle := by rw [← h.ctx]; rfl

theorem Sane.circCurr_eq (h : Sane T a c s xs) : s.rq.circ.curr = c.circCurr := by
  rw [← h.ctx]; rfl

/-- As long as some task is not queued, there is room for one more. -/
theorem Sane.nrRunning_succ_lt (h : Sane T a c s xs) {p : α} (hp : a p = none) :
    s.rq.nrRunning + 1 < 2 ^ 32 ∧ (onClass a .circular).card + 1 < 2 ^ 32 := by
  have hk := K.card_lt
  have h₁ := h.card_queued_le .stop
  have h₂ := h.card_queued_le .dl
  have h₃ := h.rt.added_le
  have h₄ : (onClass (Function.update a p (some .circular)) .circular).card +
    (onClass (Function.update a p (some .circular)) .rt).card +
    (onClass (Function.update a p (some .circular)) .stop).card +
    (onClass (Function.update a p (some .circular)) .dl).card ≤ Fintype.card α := card_classes_le
  have hne : ∀ k, a p ≠ some k := fun k e => by rw [hp] at e; cases e
  rw [onClass_update_self, Finset.card_insert_of_notMem (fun e => hne _ (mem_onClass.mp e)),
    onClass_update_of_ne (hne _) (by decide), onClass_update_of_ne (hne _) (by decide),
    onClass_update_of_ne (hne _) (by decide)] at h₄
  have h₅ := h.nr
  have h₆ := h.circ.nr
  simp only [Foreign.schedClass] at h₁ h₂
  omega

omit [DecidableEq α] in
theorem RtSane.congr_account {rt : RtRq α} (h : RtSane T a rt) {a' : Account α}
    (ha : ∀ q, a' q = some .rt ↔ a q = some .rt) : RtSane T a' rt := by
  have hc : onClass a' .rt = onClass a .rt := by
    ext q
    rw [mem_onClass, mem_onClass, ha]
  refine ⟨?_, ?_, h.nodup, h.bitmap, by rw [hc]; exact h.nr, h.queued⟩
  · intro q i
    rw [h.mem, ha]
  · intro q hq
    exact h.prio q ((ha q).mp hq)

/-- A change of one account that does not concern the real-time class. -/
theorem RtSane.update {rt : RtRq α} (h : RtSane T a rt) {p : α} {v : Option SchedClass}
    (hp : a p ≠ some .rt) (hv : v ≠ some .rt) : RtSane T (Function.update a p v) rt := by
  apply h.congr_account
  intro q
  by_cases e : q = p
  · subst e; simp [hp, hv]
  · simp [e]

/-- Parts of the state that the invariant does not look at may change. -/
theorem Sane.congr_state (h : Sane T a c s xs) {s' : Cpu K} (hctx : s'.ctx = s.ctx)
    (hnode : ∀ q ∈ xs, s'.node q = s.node q) (hse : ∀ p, (s'.se p).onRq = (s.se p).onRq)
    (hcirc : s'.rq.circ = s.rq.circ) (hrt : s'.rq.rt = s.rq.rt)
    (hforeign : s'.rq.foreign = s.rq.foreign) (hnr : s'.rq.nrRunning = s.rq.nrRunning)
    (hcfs : s'.rq.cfs = s.rq.cfs) : Sane T a c s' xs := by
  have hq : ∀ f, s'.rq.queued f = s.rq.queued f := fun f => by unfold Rq.queued; rw [hforeign]
  refine ⟨hctx.trans h.ctx, ⟨?_, ?_, ?_, ?_, ?_⟩, ?_, ?_, ?_, ?_⟩
  · rw [hcirc]; exact h.circ.rep.frame hnode
  · intro p; rw [hse]; exact h.circ.onRq p
  · intro p; rw [hcirc]; exact h.circ.mem p
  · rw [hcirc]; exact h.circ.nr
  · rw [hcirc]; exact h.circ.hNr
  · rw [hrt]; exact h.rt
  · intro f p; rw [hq]; exact h.foreign f p
  · rw [hnr, hcirc, hrt, hq, hq]; exact h.nr
  · rw [hcfs]; exact h.cfs

/-- Only the priorities of the queued real-time tasks matter. -/
theorem Sane.congr_tasks (h : Sane T a c s xs)
    (hT : ∀ p, a p = some .rt → (T' p).prio = (T p).prio) : Sane T' a c s xs := by
  refine ⟨h.ctx, h.circ, ⟨?_, ?_, h.rt.nodup, h.rt.bitmap, h.rt.nr, h.rt.queued⟩, h.foreign, h.nr,
    h.cfs⟩
  · intro p i
    rw [h.rt.mem]
    constructor
    · intro hp; exact ⟨hp.1, by rw [hT p hp.1]; exact hp.2⟩
    · intro hp; exact ⟨hp.1, by rw [← hT p hp.1]; exact hp.2⟩
  · intro p hp
    rw [hT p hp]
    exact h.rt.prio p hp

end counting

end KernelHacking.Sched
