import KernelHacking.Sched.Normalize

/-! # Taking a task off and putting it back

`rt_mutex_setprio`, `__sched_setscheduler` and `sched_move_task` change a task between
`dequeue_task`, `put_prev_task` and `set_curr_task`, `enqueue_task`; `set_user_nice` changes it
between `dequeue_task` and `enqueue_task` only.  For a circular task that stays one, the callbacks of
the class are followed on the part of the run-queue they write (`RingView`): a running task is never
linked on the way, and at the end everything is as it was; a task that waits in the ring goes to its
end (`save_restore_neutral`). -/

namespace KernelHacking.Sched

open TraceProg PtrRing Word Prog

variable {α : Type} [DecidableEq α] [Fintype α] {K : Kernel α}

/-! ### The ring with its counters -/

/-- The representation invariant of the circular run-queue: the ring is in order (`RingInv`),
`se.on_rq` is set for the runnable circular tasks, and the counters agree with them. -/
structure RunqueueInv (m : Machine K) (xs : List α) : Prop extends RingInv m xs where
  runnable : ∀ p, (m.cpu.se p).onRq = true ↔
    taskOnRqQueued (m.task p) = true ∧ (m.task p).schedClass = .circular
  nr : m.cpu.rq.circ.nrRunning = (Finset.univ.filter fun p => (m.cpu.se p).onRq = true).card
  hNr : m.cpu.rq.circ.hNrRunning = m.cpu.rq.circ.nrRunning
  total : m.cpu.rq.circ.nrRunning ≤ m.cpu.rq.nrRunning
  word : m.cpu.rq.nrRunning < 2 ^ 32

/-- Every run keeps it. -/
theorem Inv.runqueueInv {m : Machine K} {xs : List α} (h : Inv m xs) : RunqueueInv m xs := by
  have hcard : (Finset.univ.filter fun p => (m.cpu.se p).onRq = true) =
      onClass (home m.task) .circular := by
    ext p
    rw [Finset.mem_filter, mem_onClass, h.sane.circ.onRq]
    exact ⟨fun hp => hp.2, fun hp => ⟨Finset.mem_univ p, hp⟩⟩
  refine ⟨h.ringInv, ?_, ?_, ?_, ?_, ?_⟩
  · intro p
    rw [h.sane.circ.onRq, home_eq_some]
  · rw [hcard]
    exact h.sane.circ.nr
  · rw [h.sane.circ.hNr, h.sane.circ.nr]
  · have hnr := h.sane.nr
    omega
  · exact lt_of_le_of_lt h.sane.nrRunning_le K.card_lt

/-! ### What the callbacks write -/

/-- The part of the run-queue that the circular class writes. -/
structure RingView (α : Type) where
  node : Heap α
  circ : CircRq α
  onRq : α → Bool
  nrRunning : ℕ
  curr : α

/-- The nodes, `rq->circ`, `se.on_rq`, `rq->nr_running` and `rq->curr`. -/
def Cpu.ringView (s : Cpu K) : RingView α :=
  ⟨s.node, s.rq.circ, fun p => (s.se p).onRq, s.rq.nrRunning, s.rq.curr⟩

namespace RingView

variable (v : RingView α) (p : α)

/-- Another list. -/
def setList (r : Heap α × CircularList α) : RingView α :=
  { v with node := r.1, circ := { v.circ with circList := r.2 } }

/-- What a dequeue does besides unlinking. -/
def dequeue : RingView α :=
  { v with
    circ := { v.circ with
      nrRunning := u32Sub v.circ.nrRunning 1, hNrRunning := u32Sub v.circ.hNrRunning 1 }
    onRq := Function.update v.onRq p false
    nrRunning := u32Sub v.nrRunning 1 }

/-- What an enqueue does besides linking. -/
def enqueue : RingView α :=
  { v with
    circ := { v.circ with
      nrRunning := u32Add v.circ.nrRunning 1, hNrRunning := u32Add v.circ.hNrRunning 1 }
    onRq := Function.update v.onRq p true
    nrRunning := u32Add v.nrRunning 1 }

/-- Another `circ_rq->curr`. -/
def setCurr (q : Option α) : RingView α := { v with circ := { v.circ with curr := q } }

omit [Fintype α] in
theorem dequeue_onRq : (v.dequeue p).onRq p = false := by
  unfold dequeue
  exact Function.update_self p false v.onRq

end RingView

omit [Fintype α] in
/-- An enqueue after a dequeue restores the counters and the flag. -/
theorem RingView.enqueue_dequeue {v : RingView α} {p : α} (hon : v.onRq p = true)
    (hc : v.circ.nrRunning < 2 ^ 32) (hh : v.circ.hNrRunning < 2 ^ 32) (hn : v.nrRunning < 2 ^ 32) :
    (v.dequeue p).enqueue p = v := by
  have hupd : Function.update (Function.update v.onRq p false) p true = v.onRq := by
    rw [Function.update_idem, ← hon, Function.update_eq_self]
  unfold dequeue enqueue
  simp only [u32Add_u32Sub hc, u32Add_u32Sub hh, u32Add_u32Sub hn, hupd]

/-! ### The callbacks

Each is specified from any state with the given view. -/

section callbacks
variable {v : RingView α} {s : Cpu K} {xs g : List α} {p : α} {T : α → TaskStruct} {flags : ℕ}

/-- No counter is zero. -/
def RingView.Positive (v : RingView α) : Prop :=
  1 ≤ v.circ.nrRunning ∧ 1 ≤ v.circ.hNrRunning ∧ 1 ≤ v.nrRunning

theorem updateRqClock_view {Q : Unit → Cpu K → List α → Prop} (hv : s.ringView = v)
    (hQ : ∀ s', s'.ringView = v → Q () s' g) : updateRqClock.mwp ringMonitor s g Q := by
  subst hv
  apply updateRqClock_runs
  intro _ _ _
  exact hQ _ rfl

omit [Fintype α] in
/-- Writing one `on_rq` flag. -/
theorem onRq_update (se : α → SchedEntity) (b : Bool) :
    (fun q => (Function.update se p { se p with onRq := b } q).onRq) =
      Function.update (fun q => (se q).onRq) p b := by
  funext q
  by_cases e : q = p
  · subst e; simp
  · simp [e]

/-- `dequeue_task` and `enqueue_task` of a circular task read the clock, which is not in the view, and
call the class. -/
theorem dequeueTask_of_circular {Q : Unit → Cpu K → List α → Prop} (hv : s.ringView = v)
    (hT : (T p).schedClass = .circular)
    (h : ∀ s', s'.ringView = v → (dequeueTaskCircular p).mwp ringMonitor s' g Q) :
    (dequeueTask T p flags).mwp ringMonitor s g Q := by
  unfold dequeueTask classDequeue
  rw [mwp_bind, hT]
  exact updateRqClock_view hv h

theorem enqueueTask_of_circular {Q : Unit → Cpu K → List α → Prop} (hv : s.ringView = v)
    (hT : (T p).schedClass = .circular)
    (h : ∀ s', s'.ringView = v → (enqueueTaskCircular p).mwp ringMonitor s' g Q) :
    (enqueueTask T p flags).mwp ringMonitor s g Q := by
  unfold enqueueTask classEnqueue
  rw [mwp_bind, hT]
  exact updateRqClock_view hv h

/-- `dequeue_task` of `circ_rq->curr` leaves the list alone. -/
theorem dequeueTask_curr (hv : s.ringView = v) (hT : (T p).schedClass = .circular)
    (hr : Represents v.node v.circ.circList xs) (hc : v.circ.curr = some p) (hpos : v.Positive) :
    (dequeueTask T p flags).mwp ringMonitor s g (fun _ s' _ => s'.ringView = v.dequeue p) := by
  apply dequeueTask_of_circular hv hT
  intro s₁ h₁
  subst h₁
  have hc₁ : s₁.rq.circ.curr = some p := hc
  unfold dequeueTaskCircular
  rw [mwp_bind]
  apply listTraverse_runs hr
  unfold dequeueEntity modifyCirc modifySe subNrRunning modifyRq
  simp only [mwp_bind, mwp_modify, mwp_get]
  rw [when_neg (by simp [hc₁]), mwp_ret]
  simp only [mwp_emit]
  refine ⟨⟨⟨?_, hpos.2.2⟩, hpos.2.1⟩, hpos.1⟩
  apply listTraverse_runs
  · exact hr
  · refine ⟨?_, trivial⟩
    simp only [Cpu.ringView, RingView.dequeue, onRq_update]

/-- Another list for the same tasks: the nodes outside and `last_chosen` are not written. -/
structure RingView.Relinked (v : RingView α) (xs ys : List α) (r : Heap α × CircularList α) :
    Prop where
  rep : Represents r.1 r.2 ys
  last : r.2.lastChosen = v.circ.circList.lastChosen
  frame : ∀ q, q ∉ xs → r.1 q = v.node q

/-- `dequeue_task` of a task in the ring. -/
theorem dequeueTask_linked (hv : s.ringView = v) (hT : (T p).schedClass = .circular)
    (hr : Represents v.node v.circ.circList xs) (hp : p ∈ xs) (hc : v.circ.curr ≠ some p)
    (hpos : v.Positive) :
    (dequeueTask T p flags).mwp ringMonitor s g (fun _ s' _ => ∃ r,
      v.Relinked xs (xs.erase p) r ∧ s'.ringView = (v.setList r).dequeue p) := by
  apply dequeueTask_of_circular hv hT
  intro s₁ h₁
  subst h₁
  have hc₁ : s₁.rq.circ.curr ≠ some p := hc
  unfold dequeueTaskCircular
  rw [mwp_bind]
  apply listTraverse_runs hr
  unfold dequeueEntity modifyCirc modifySe subNrRunning modifyRq
  simp only [mwp_bind, mwp_modify, mwp_get]
  rw [when_pos hc₁]
  unfold __dequeueEntity
  refine listRemove_frame hr hp ?_
  intro h l hrep hlast hframe
  simp only [mwp_emit]
  refine ⟨⟨⟨?_, hpos.2.2⟩, hpos.2.1⟩, hpos.1⟩
  apply listTraverse_runs
  · exact hrep
  · refine ⟨⟨(h, l), ⟨hrep, hlast, hframe⟩, ?_⟩, trivial⟩
    simp only [Cpu.ringView, RingView.dequeue, RingView.setList, Cpu.setList, onRq_update]

/-- `put_prev_task` of a task that is off the run-queue links nothing. -/
theorem putPrevTask_off (hv : s.ringView = v) (hT : (T p).schedClass = .circular)
    (hon : v.onRq p = false) :
    (putPrevTask T p).mwp ringMonitor s g (fun _ s' _ => s'.ringView = v.setCurr none) := by
  subst hv
  have hon' : (s.se p).onRq = false := hon
  unfold putPrevTask putPrevTaskCircular putPrevEntity modifyCirc
  rw [hT]
  simp only [mwp_bind, mwp_get]
  rw [when_neg (by simp [hon']), mwp_ret, mwp_modify]
  rfl

/-- `set_curr_task` of a task that is off the run-queue unlinks nothing. -/
theorem setCurrTask_off (hv : s.ringView = v) (hT : (T p).schedClass = .circular)
    (hcurr : v.curr = p) (hon : v.onRq p = false) :
    (setCurrTask T p).mwp ringMonitor s g (fun _ s' _ => s'.ringView = v.setCurr (some p)) := by
  subst hv
  have hcurr' : s.rq.curr = p := hcurr
  have hon' : (s.se p).onRq = false := hon
  unfold setCurrTask setCurrTaskCircular setNextEntity modifyCirc
  rw [hT]
  simp only [mwp_bind, mwp_get]
  rw [hcurr', when_neg (by simp [hon']), mwp_ret, mwp_modify]
  rfl

/-- `enqueue_task` of `circ_rq->curr` leaves the list alone. -/
theorem enqueueTask_curr (hv : s.ringView = v) (hT : (T p).schedClass = .circular)
    (hr : Represents v.node v.circ.circList xs) (hc : v.circ.curr = some p)
    (hon : v.onRq p = false) :
    (enqueueTask T p flags).mwp ringMonitor s g (fun _ s' _ => s'.ringView = v.enqueue p) := by
  apply enqueueTask_of_circular hv hT
  intro s₁ h₁
  subst h₁
  have hc₁ : s₁.rq.circ.curr = some p := hc
  have hon₁ : (s₁.se p).onRq = false := hon
  unfold enqueueTaskCircular
  rw [mwp_bind]
  apply listTraverse_runs hr
  rw [mwp_bind, mwp_get, mwp_bind, when_pos (by simp [hon₁])]
  unfold enqueueEntity modifyCirc modifySe addNrRunning modifyRq
  simp only [mwp_bind, mwp_modify, mwp_get]
  rw [when_neg (by simp [hc₁]), mwp_ret]
  apply listTraverse_runs
  · exact hr
  · simp only [Cpu.ringView, RingView.enqueue, onRq_update]

/-- `enqueue_task` of any other task links it at the end of the ring. -/
theorem enqueueTask_linked (hv : s.ringView = v) (hT : (T p).schedClass = .circular)
    (hr : Represents v.node v.circ.circList xs) (hp : p ∉ xs) (hc : v.circ.curr ≠ some p)
    (hon : v.onRq p = false) :
    (enqueueTask T p flags).mwp ringMonitor s g (fun _ s' _ => ∃ r,
      v.Relinked (xs ++ [p]) (xs ++ [p]) r ∧ s'.ringView = (v.setList r).enqueue p) := by
  apply enqueueTask_of_circular hv hT
  intro s₁ h₁
  subst h₁
  have hc₁ : s₁.rq.circ.curr ≠ some p := hc
  have hon₁ : (s₁.se p).onRq = false := hon
  unfold enqueueTaskCircular
  rw [mwp_bind]
  apply listTraverse_runs hr
  rw [mwp_bind, mwp_get, mwp_bind, when_pos (by simp [hon₁])]
  unfold enqueueEntity modifyCirc modifySe addNrRunning modifyRq
  simp only [mwp_bind, mwp_modify, mwp_get]
  rw [when_pos (by simp [hc₁])]
  unfold __enqueueEntity
  rw [mwp_bind, mwp_get]
  refine listInsert_frame ?_ hp ?_
  · exact hr
  intro h l hrep hlast hframe
  apply listTraverse_runs
  · exact hrep
  · refine ⟨(h, l), ⟨hrep, hlast, ?_⟩, ?_⟩
    · intro q hq
      rw [List.mem_append, List.mem_singleton, not_or] at hq
      exact hframe q hq.1 hq.2
    · simp only [Cpu.ringView, RingView.enqueue, RingView.setList, Cpu.setList, onRq_update]

/-! ### Off and on again -/

/-- Where a queued circular task is: `circ_rq->curr` if it runs, in the ring if not. -/
structure RingView.Placed (v : RingView α) (xs : List α) (p : α) : Prop where
  rep : Represents v.node v.circ.circList xs
  onRq : v.onRq p = true
  running : v.curr = p → v.circ.curr = some p
  waiting : v.curr ≠ p → p ∈ xs ∧ v.circ.curr ≠ some p
  pos : v.Positive
  circWord : v.circ.nrRunning < 2 ^ 32
  hWord : v.circ.hNrRunning < 2 ^ 32
  word : v.nrRunning < 2 ^ 32

theorem RunqueueInv.placed {m : Machine K} (h : RunqueueInv m xs)
    (hq : taskOnRqQueued (m.task p) = true) (hp : (m.task p).schedClass = .circular) :
    m.cpu.ringView.Placed xs p := by
  have hon : (m.cpu.se p).onRq = true := (h.runnable p).mpr ⟨hq, hp⟩
  have hpos : 1 ≤ m.cpu.rq.circ.nrRunning := by
    rw [h.nr, Nat.one_le_iff_ne_zero, Finset.card_ne_zero]
    exact ⟨p, Finset.mem_filter.mpr ⟨Finset.mem_univ p, hon⟩⟩
  have hnr := h.hNr
  have htotal := h.total
  have hword := h.word
  refine ⟨h.rep, hon, ?_, ?_, ⟨hpos, ?_, ?_⟩, ?_, ?_, hword⟩
  · intro e
    have e' : m.cpu.rq.curr = p := e
    have hc := h.running
    rw [e'] at hc
    exact hc hp hon
  · intro e
    have hc : m.cpu.rq.circ.curr ≠ some p := by
      intro hc
      rcases h.curr with hcurr | hcurr
      · rw [hcurr] at hc; cases hc
      · rw [hcurr] at hc
        exact e (Option.some.inj hc)
    rcases h.place p hon with hpl | hpl
    · exact absurd hpl.1 hc
    · exact ⟨List.count_pos_iff.mp (by omega), hc⟩
  · show 1 ≤ m.cpu.rq.circ.hNrRunning
    omega
  · show 1 ≤ m.cpu.rq.nrRunning
    omega
  · show m.cpu.rq.circ.nrRunning < 2 ^ 32
    omega
  · show m.cpu.rq.circ.hNrRunning < 2 ^ 32
    omega

/-- The view between the dequeue and the enqueue. -/
def RingView.Saved (v : RingView α) (xs : List α) (p : α) (v' : RingView α) : Prop :=
  (v.curr = p → v' = v.dequeue p) ∧
    (v.curr ≠ p → ∃ r, v.Relinked xs (xs.erase p) r ∧ v' = (v.setList r).dequeue p)

/-- The view at the end: a running task has left no trace, a waiting one has gone to the end of the
ring, and nothing else has changed. -/
def RingView.Restored (v : RingView α) (xs : List α) (p : α) (v' : RingView α) : Prop :=
  (v.curr = p → v' = v) ∧
    (v.curr ≠ p → ∃ r, v.Relinked xs (xs.erase p ++ [p]) r ∧ v' = v.setList r)

theorem RingView.Placed.dequeue (h : v.Placed xs p) (hv : s.ringView = v)
    (hT : (T p).schedClass = .circular) :
    (dequeueTask T p flags).mwp ringMonitor s g (fun _ s' _ => v.Saved xs p s'.ringView) := by
  by_cases e : v.curr = p
  · refine (dequeueTask_curr hv hT h.rep (h.running e) h.pos).mono ?_
    intro _ s' _ hs'
    exact ⟨fun _ => hs', fun e' => absurd e e'⟩
  · obtain ⟨hp, hc⟩ := h.waiting e
    refine (dequeueTask_linked hv hT h.rep hp hc h.pos).mono ?_
    intro _ s' _ hs'
    exact ⟨fun e' => absurd e' e, fun _ => hs'⟩

theorem RingView.Placed.enqueue (h : v.Placed xs p) (hs : v.Saved xs p s.ringView)
    (hT : (T p).schedClass = .circular) :
    (enqueueTask T p flags).mwp ringMonitor s g (fun _ s' _ => v.Restored xs p s'.ringView) := by
  by_cases e : v.curr = p
  · refine (enqueueTask_curr (hs.1 e) hT h.rep (h.running e) (v.dequeue_onRq p)).mono ?_
    intro _ s' _ hs'
    rw [RingView.enqueue_dequeue h.onRq h.circWord h.hWord h.word] at hs'
    exact ⟨fun _ => hs', fun e' => absurd e e'⟩
  · obtain ⟨hp, hc⟩ := h.waiting e
    obtain ⟨r, hr, hv⟩ := hs.2 e
    refine (enqueueTask_linked hv hT hr.rep h.rep.nodup.not_mem_erase hc
      ((v.setList r).dequeue_onRq p)).mono ?_
    intro _ s' _ hs'
    obtain ⟨r', hr', hv'⟩ := hs'
    refine ⟨fun e' => absurd e' e, fun _ => ⟨r', ⟨hr'.rep, ?_, ?_⟩, ?_⟩⟩
    · exact hr'.last.trans hr.last
    · intro q hq
      have hq' : q ∉ xs.erase p ++ [p] := by
        rw [List.mem_append, List.mem_singleton, not_or]
        exact ⟨fun hm => hq (List.mem_of_mem_erase hm), fun hm => hq (hm ▸ hp)⟩
      exact (hr'.frame q hq').trans (hr.frame q hq)
    · rw [hv']
      exact RingView.enqueue_dequeue (v := v.setList r') h.onRq h.circWord h.hWord h.word

end callbacks

/-! ### The frames of the core functions -/

section frames
variable {m : Machine K} {xs g : List α} {p : α} {t : TaskStruct}
  {change : TaskStruct → Option TaskStruct}

/-- The shorter frame, of `set_user_nice`: the task is changed between `dequeue_task` and
`enqueue_task`. -/
def requeueTask (p : α) (change : TaskStruct → Option TaskStruct) (flags : ℕ) : CoreM K Unit := do
  let m ← get
  let queued := taskOnRqQueued (m.task p)
  when (queued) (onCpu fun T => dequeueTask T p 0)
  updateTask p change
  when (queued) (onCpu fun T => enqueueTask T p flags)

theorem requeueTask_restores (h : RunqueueInv m xs) (hq : taskOnRqQueued (m.task p) = true)
    (hp : (m.task p).schedClass = .circular) (hch : change (m.task p) = some t)
    (ht : t.schedClass = .circular) (flags : ℕ) :
    (requeueTask p change flags).mwp ringMonitor m g (fun _ m' _ =>
      m.cpu.ringView.Restored xs p m'.cpu.ringView ∧ m'.task = Function.update m.task p t) := by
  have hpl := h.placed hq hp
  unfold requeueTask
  rw [mwp_bind, mwp_get, mwp_bind, when_pos hq, mwp_onCpu]
  refine (hpl.dequeue rfl hp).mono ?_
  intro _ s₁ _ h₁
  rw [mwp_bind, mwp_updateTask (by exact hch), when_pos hq, mwp_onCpu]
  refine (hpl.enqueue h₁ ?_).mono ?_
  · show (Function.update m.task p t p).schedClass = _
    rw [Function.update_self]
    exact ht
  · intro _ s₂ _ h₂
    exact ⟨h₂, rfl⟩

omit [Fintype α] in
/-- `put_prev_task` and `set_curr_task` around the change undo each other. -/
theorem RingView.setCurr_dequeue {v : RingView α} (hc : v.circ.curr = some p) :
    ((v.dequeue p).setCurr none).setCurr (some p) = v.dequeue p := by
  unfold setCurr dequeue
  rw [← hc]

theorem changeTask_restores (h : RunqueueInv m xs) (hq : taskOnRqQueued (m.task p) = true)
    (hp : (m.task p).schedClass = .circular) (hch : change (m.task p) = some t)
    (ht : t.schedClass = .circular) (flags : TaskStruct → TaskStruct → ℕ) :
    (changeTask p change flags).mwp ringMonitor m g (fun _ m' _ =>
      m.cpu.ringView.Restored xs p m'.cpu.ringView ∧ m'.task = Function.update m.task p t) := by
  have hpl := h.placed hq hp
  have hcls : (Function.update m.task p t p).schedClass = .circular := by
    rw [Function.update_self]
    exact ht
  unfold changeTask
  rw [mwp_bind, mwp_get, mwp_bind, when_pos hq, mwp_onCpu]
  refine (hpl.dequeue rfl hp).mono ?_
  intro _ s₁ _ h₁
  by_cases hr : m.cpu.rq.curr = p
  · -- the running task: `circ_rq->curr` is given up and taken again while the task is off
    have hr' : decide (m.cpu.rq.curr = p) = true := decide_eq_true hr
    have hoff := m.cpu.ringView.dequeue_onRq p
    rw [mwp_bind, when_pos hr', mwp_onCpu]
    refine (putPrevTask_off (h₁.1 hr) hp hoff).mono ?_
    intro _ s₂ _ h₂
    rw [mwp_bind, mwp_updateTask (by exact hch), mwp_bind, when_pos hr', mwp_onCpu]
    refine (setCurrTask_off h₂ hcls hr hoff).mono ?_
    intro _ s₃ _ h₃
    rw [RingView.setCurr_dequeue (hpl.running hr)] at h₃
    rw [mwp_bind, mwp_get, when_pos hq, mwp_onCpu]
    refine (hpl.enqueue ⟨fun _ => h₃, fun e => absurd hr e⟩ hcls).mono ?_
    intro _ s₄ _ h₄
    exact ⟨h₄, rfl⟩
  · have hr' : ¬ decide (m.cpu.rq.curr = p) = true := by simp [hr]
    rw [mwp_bind, when_neg hr', mwp_ret, mwp_bind, mwp_updateTask (by exact hch), mwp_bind,
      when_neg hr', mwp_ret, mwp_bind, mwp_get, when_pos hq, mwp_onCpu]
    refine (hpl.enqueue h₁ hcls).mono ?_
    intro _ s₄ _ h₄
    exact ⟨h₄, rfl⟩

theorem niceTask_class {nice : ℤ} (hn : MIN_NICE ≤ nice ∧ nice ≤ MAX_NICE) :
    ∃ t', niceTask nice t = some t' ∧ t'.schedClass = t.schedClass := by
  have hs : StaticOk ({ t with staticPrio := niceToPrio nice } : TaskStruct).staticPrio :=
    staticOk_nice hn
  obtain ⟨w, hw⟩ := setLoadWeight_of_static hs
  refine ⟨effectivePrio { t with staticPrio := niceToPrio nice, load := w }, ?_, rfl⟩
  rw [niceTask, hw]
  rfl

/-- `set_user_nice` is the shorter frame and a resched flag. -/
theorem setUserNice_restores (h : RunqueueInv m xs) (hq : taskOnRqQueued (m.task p) = true)
    (hp : (m.task p).schedClass = .circular) {nice : ℤ}
    (hn : ¬ (taskNice (m.task p) = nice ∨ nice < MIN_NICE ∨ MAX_NICE < nice))
    (hpol : ¬ (dlPolicy (m.task p).policy = true ∨ rtPolicy (m.task p).policy = true)) :
    (setUserNice p nice).mwp ringMonitor m g (fun _ m' _ =>
      m.cpu.ringView.Restored xs p m'.cpu.ringView) := by
  have hpl := h.placed hq hp
  have hn' : MIN_NICE ≤ nice ∧ nice ≤ MAX_NICE := by
    rw [not_or, not_or] at hn
    exact ⟨not_lt.mp hn.2.1, not_lt.mp hn.2.2⟩
  obtain ⟨t, hnt, ht⟩ := niceTask_class (t := m.task p) hn'
  unfold setUserNice
  rw [mwp_bind, mwp_get, when_pos hn, if_neg hpol, mwp_bind, when_pos hq, mwp_onCpu]
  refine (hpl.dequeue rfl hp).mono ?_
  intro _ s₁ _ h₁
  rw [mwp_bind, mwp_updateTask (by exact hnt), mwp_bind, mwp_get, when_pos hq, mwp_bind, mwp_onCpu]
  refine (hpl.enqueue h₁ ?_).mono ?_
  · show (Function.update m.task p t p).schedClass = _
    rw [Function.update_self, ht]
    exact hp
  intro _ s₂ _ h₂
  apply mwp_when
  · intro _
    unfold reschedCurr
    rw [mwp_onCpu, mwp_modify]
    exact h₂
  · intro _
    exact h₂

end frames

/-- What is expected of a frame around a change of `p`: if `p` runs, the ring, `circ_rq->curr`, the
`on_rq` flags and the counters are as before; if it waits, it has gone to the end of the ring, and
nothing else has changed. -/
def Neutral (m m' : Machine K) (xs : List α) (p : α) : Prop :=
  (m.cpu.rq.curr = p →
    m'.cpu.node = m.cpu.node ∧ m'.cpu.rq.circ = m.cpu.rq.circ ∧
    (∀ q, (m'.cpu.se q).onRq = (m.cpu.se q).onRq) ∧
    m'.cpu.rq.nrRunning = m.cpu.rq.nrRunning) ∧
  (m.cpu.rq.curr ≠ p →
    Represents m'.cpu.node m'.cpu.rq.circ.circList (xs.erase p ++ [p]) ∧
    (∀ q, q ∉ xs → m'.cpu.node q = m.cpu.node q) ∧
    m'.cpu.rq.circ = { m.cpu.rq.circ with
      circList := { m.cpu.rq.circ.circList with head := (xs.erase p ++ [p]).head? } } ∧
    (∀ q, (m'.cpu.se q).onRq = (m.cpu.se q).onRq) ∧
    m'.cpu.rq.nrRunning = m.cpu.rq.nrRunning)

theorem RingView.Restored.neutral {m m' : Machine K} {xs : List α} {p : α}
    (h : m.cpu.ringView.Restored xs p m'.cpu.ringView) (hpl : m.cpu.ringView.Placed xs p) :
    Neutral m m' xs p := by
  refine ⟨?_, ?_⟩
  · intro e
    have hv := h.1 e
    exact ⟨congrArg RingView.node hv, congrArg RingView.circ hv,
      fun q => congrFun (congrArg RingView.onRq hv) q, congrArg RingView.nrRunning hv⟩
  · intro e
    obtain ⟨⟨h', l'⟩, hr, hv⟩ := h.2 e
    have hnode : m'.cpu.node = h' := congrArg RingView.node hv
    have hcirc : m'.cpu.rq.circ = { m.cpu.rq.circ with circList := l' } :=
      congrArg RingView.circ hv
    have hlist : l' = { m.cpu.rq.circ.circList with head := (xs.erase p ++ [p]).head? } := by
      have hcount : l'.count = m.cpu.rq.circ.circList.count := by
        have hlen := hr.rep.count
        have hlen' : m.cpu.rq.circ.circList.count = xs.length := hpl.rep.count
        have hpos := List.length_pos_of_mem (hpl.waiting e).1
        rw [List.length_append, List.length_erase_of_mem (hpl.waiting e).1,
          List.length_singleton] at hlen
        simp only at hlen
        omega
      have hhead := hr.rep.head
      have hlast := hr.last
      cases l'
      simp_all [Cpu.ringView]
    refine ⟨?_, ?_, ?_, fun q => congrFun (congrArg RingView.onRq hv) q,
      congrArg RingView.nrRunning hv⟩
    · rw [hnode, hcirc]
      exact hr.rep
    · rw [hnode]
      exact hr.frame
    · rw [hcirc, ← hlist]

/-- **Saving and restoring is neutral.**  For every consistent run-queue and every queued circular
task that stays circular, both frames end and do what is expected of them. -/
theorem save_restore_neutral {m : Machine K} {xs : List α} {p : α} {t : TaskStruct}
    {change : TaskStruct → Option TaskStruct} (h : RunqueueInv m xs)
    (hq : taskOnRqQueued (m.task p) = true) (hp : (m.task p).schedClass = .circular)
    (hch : change (m.task p) = some t) (ht : t.schedClass = .circular)
    (flags : TaskStruct → TaskStruct → ℕ) (flags' : ℕ) :
    (∃ m' u, (changeTask p change flags).Ends m () m' u ∧ Neutral m m' xs p) ∧
    ∃ m' u, (requeueTask p change flags').Ends m () m' u ∧ Neutral m m' xs p := by
  have hpl := h.placed hq hp
  have hlong := changeTask_restores (g := xs) h hq hp hch ht flags
  have hshort := requeueTask_restores (g := xs) h hq hp hch ht flags'
  refine ⟨?_, ?_⟩
  · obtain ⟨⟨⟩, m', u, hends⟩ := hlong.exists_ends
    exact ⟨m', u, hends, (hlong.ends hends).1.1.neutral hpl⟩
  · obtain ⟨⟨⟩, m', u, hends⟩ := hshort.exists_ends
    exact ⟨m', u, hends, (hshort.ends hends).1.1.neutral hpl⟩

/-- The first of two circular tasks runs and the second waits; both are moved to another group. -/
theorem save_restore_neutral_small : ∃ xs, RunqueueInv smallRunning xs ∧
    smallRunning.cpu.rq.curr = 1 ∧ (2 : Fin 4) ∈ xs ∧
    (∃ m' u, (changeTask 1 some fun _ _ => 0).Ends smallRunning () m' u ∧
      Neutral smallRunning m' xs 1) ∧
    ∃ m' u, (requeueTask 2 some 0).Ends smallRunning () m' u ∧ Neutral smallRunning m' xs 2 := by
  obtain ⟨u, hrun, -⟩ := smallRunning_run
  obtain ⟨hinv, -⟩ := hrun.inv smallBoot_boot.inv
  refine ⟨_, hinv.runqueueInv, rfl, ?_, ?_, ?_⟩
  · exact (hinv.sane.circ.mem 2).mpr ⟨rfl, by decide⟩
  · exact (save_restore_neutral hinv.runqueueInv rfl rfl rfl rfl (fun _ _ => 0) 0).1
  · exact (save_restore_neutral hinv.runqueueInv rfl rfl rfl rfl (fun _ _ => 0) 0).2

end KernelHacking.Sched
