import KernelHacking.Sched.Rt

/-! # Calls through `struct sched_class`

The indirect calls of `core.c` and `sched.h`, resolved by the class of the task, and the code
built on them: preemption checks, class changes, and `pick_next_task` with the picks of all
classes.  The pick of the circular class is here because it calls `put_prev_task`.

Callbacks the idle class does not have are null pointers.  The fair class is no longer in the
class chain and its code is not part of the source; a call into it is a fault. -/

namespace KernelHacking.Sched

open TraceProg PtrRing Word Prog

variable {α : Type} [DecidableEq α] [Fintype α] {K : Kernel α}

/-! ### The foreign classes -/

/-- The tasks a foreign class has queued. -/
def Rq.queued (rq : Rq K) (f : Foreign) : Finset α := (K.foreign f).queued (rq.foreign f)

/-- Call a foreign class; what it adds to and takes off `rq->nr_running` follows its queue. -/
def foreignCall (f : Foreign) (c : ClassCall) (T : α → TaskStruct) (p : α) : SchedM K Unit := do
  let s ← get
  let r := (K.foreign f).call c T s.rq.clock (s.rq.foreign f) p
  let old := (s.rq.queued f).card
  let new := ((K.foreign f).queued r.1).card
  modifyRq fun rq => { rq with foreign := Function.update rq.foreign f r.1 }
  when (old < new) (addNrRunning (new - old))
  when (new < old) (subNrRunning (old - new))
  when (r.2) reschedCurr

/-! ### Dispatch -/

/-- `p->sched_class->enqueue_task(rq, p, flags)`. -/
def classEnqueue (T : α → TaskStruct) (p : α) (flags : ℕ) : SchedM K Unit :=
  match (T p).schedClass with
  | .stop => foreignCall .stop (.enqueue flags) T p
  | .dl => foreignCall .dl (.enqueue flags) T p
  | .rt => enqueueTaskRt T p flags
  | .fair => fail .bug
  | .circular => enqueueTaskCircular p
  | .idle => fail .nullDeref

/-- `p->sched_class->dequeue_task(rq, p, flags)`; the idle class only prints a message. -/
def classDequeue (T : α → TaskStruct) (p : α) (flags : ℕ) : SchedM K Unit :=
  match (T p).schedClass with
  | .stop => foreignCall .stop (.dequeue flags) T p
  | .dl => foreignCall .dl (.dequeue flags) T p
  | .rt => dequeueTaskRt T p
  | .fair => fail .bug
  | .circular => dequeueTaskCircular p
  | .idle => pure ()

/-- `put_prev_task`. -/
def putPrevTask (T : α → TaskStruct) (prev : α) : SchedM K Unit :=
  match (T prev).schedClass with
  | .stop => foreignCall .stop .putPrev T prev
  | .dl => foreignCall .dl .putPrev T prev
  | .rt => putPrevTaskRt T
  | .fair => fail .bug
  | .circular => putPrevTaskCircular prev
  | .idle => pure ()

/-- `p->sched_class->set_curr_task(rq)`. -/
def setCurrTask (T : α → TaskStruct) (p : α) : SchedM K Unit :=
  match (T p).schedClass with
  | .stop => foreignCall .stop .setCurr T p
  | .dl => foreignCall .dl .setCurr T p
  | .rt => setCurrTaskRt
  | .fair => fail .bug
  | .circular => setCurrTaskCircular
  | .idle => pure ()

/-- `p->sched_class->update_curr(rq)`. -/
def updateCurr (T : α → TaskStruct) (p : α) : SchedM K Unit :=
  match (T p).schedClass with
  | .stop => foreignCall .stop .update T p
  | .dl => foreignCall .dl .update T p
  | .rt => updateCurrRt T
  | .fair => fail .bug
  | .circular => updateCurrCircular
  | .idle => pure ()

/-- `p->sched_class->yield_task(rq)` of the running task. -/
def yieldTask (T : α → TaskStruct) (p : α) : SchedM K Unit :=
  match (T p).schedClass with
  | .stop => foreignCall .stop .yield T p
  | .dl => foreignCall .dl .yield T p
  | .rt => yieldTaskRt T
  | .fair => fail .bug
  | .circular => yieldTaskCircular T
  | .idle => fail .nullDeref

/-- `curr->sched_class->yield_to_task(rq, p, preempt)`, where there is one. -/
def yieldToTask (T : α → TaskStruct) (curr p : α) (preempt : Bool) : SchedM K Bool :=
  match (T curr).schedClass with
  | .stop | .dl | .rt | .idle => pure false
  | .fair => fail .bug
  | .circular => yieldToTaskCircular T p preempt

/-- `enqueue_task`. -/
def enqueueTask (T : α → TaskStruct) (p : α) (flags : ℕ) : SchedM K Unit := do
  updateRqClock
  classEnqueue T p flags

/-- `dequeue_task`. -/
def dequeueTask (T : α → TaskStruct) (p : α) (flags : ℕ) : SchedM K Unit := do
  updateRqClock
  classDequeue T p flags

/-! ### Preemption -/

/-- The loop of `check_preempt_curr`: a class before that of the running task preempts. -/
def checkPreemptWalk (currClass pClass : SchedClass) : List SchedClass → SchedM K Unit
  | [] => pure ()
  | c :: cs =>
      if c = currClass then pure ()
      else if c = pClass then reschedCurr
      else checkPreemptWalk currClass pClass cs

/-- `check_preempt_curr` of the class of both tasks. -/
def classCheckPreempt (T : α → TaskStruct) (p : α) (flags : ℕ) : SchedM K Unit :=
  match (T p).schedClass with
  | .stop => foreignCall .stop (.checkPreempt flags) T p
  | .dl => foreignCall .dl (.checkPreempt flags) T p
  | .rt => checkPreemptCurrRt T p
  | .fair => fail .bug
  | .circular => checkPreemptWakeup T p
  | .idle => reschedCurr

/-- Does the task preempt the running one: within the class, or by the order of the classes. -/
def checkPreempt (T : α → TaskStruct) (curr p : α) (flags : ℕ) : SchedM K Unit :=
  if (T p).schedClass = (T curr).schedClass then classCheckPreempt T p flags
  else checkPreemptWalk (T curr).schedClass (T p).schedClass classChain

/-- `check_preempt_curr`: when the running task is to be preempted, the next update of the clock
is saved. -/
def checkPreemptCurr (T : α → TaskStruct) (p : α) (flags : ℕ) : SchedM K Unit := do
  let s ← get
  checkPreempt T s.rq.curr p flags
  let s ← get
  when (taskOnRqQueued (T s.rq.curr) ∧ s.needResched s.rq.curr) (
    modifyRq fun rq => { rq with skipClockUpdate := 1 })

/-- `prio_changed_circular`. -/
def prioChangedCircular (T : α → TaskStruct) (p : α) (oldprio : ℤ) : SchedM K Unit := do
  let s ← get
  if s.rq.curr = p then when (oldprio < (T p).prio) reschedCurr
  else checkPreemptCurr T p 0

/-- `switched_to_circular`. -/
def switchedToCircular (T : α → TaskStruct) (p : α) : SchedM K Unit := do
  let s ← get
  when (taskOnRqQueued (T p)) (
    if s.rq.curr = p then reschedCurr else checkPreemptCurr T p 0)

/-- `prev_class->switched_from`, where there is one. -/
def switchedFrom (T : α → TaskStruct) (p : α) (prevClass : SchedClass) : SchedM K Unit :=
  match prevClass with
  | .stop => foreignCall .stop .switchedFrom T p
  | .dl => foreignCall .dl .switchedFrom T p
  | .fair => fail .bug
  | .rt | .circular | .idle => pure ()

/-- `p->sched_class->switched_to(rq, p)`. -/
def switchedTo (T : α → TaskStruct) (p : α) : SchedM K Unit :=
  match (T p).schedClass with
  | .stop => foreignCall .stop .switchedTo T p
  | .dl => foreignCall .dl .switchedTo T p
  | .rt => switchedToRt T p
  | .fair | .idle => fail .bug
  | .circular => switchedToCircular T p

/-- `p->sched_class->prio_changed(rq, p, oldprio)`. -/
def prioChanged (T : α → TaskStruct) (p : α) (oldprio : ℤ) : SchedM K Unit :=
  match (T p).schedClass with
  | .stop => foreignCall .stop (.prioChanged oldprio) T p
  | .dl => foreignCall .dl (.prioChanged oldprio) T p
  | .rt => prioChangedRt T p oldprio
  | .fair | .idle => fail .bug
  | .circular => prioChangedCircular T p oldprio

/-- `check_class_changed`. -/
def checkClassChanged (T : α → TaskStruct) (p : α) (prevClass : SchedClass) (oldprio : ℤ) :
    SchedM K Unit :=
  if prevClass ≠ (T p).schedClass then do
    switchedFrom T p prevClass
    switchedTo T p
  else when (oldprio ≠ (T p).prio ∨ dlPrio (T p).prio) (prioChanged T p oldprio)

/-! ### Picking the next task -/

/-- The entity `pick_next_task_circular` goes on with: the head of the ring, which leaves the
ring, or `circ_rq->curr` when the ring is empty. -/
def chooseEntity : SchedM K (Option α) := do
  let se ← pickNextEntity
  match se with
  | none => do
      emit .fallback
      let s ← get
      pure s.rq.circ.curr
  | some p => do
      setNextEntity p
      pure (some p)

/-- `pick_next_task_circular`. -/
def pickNextTaskCircular (T : α → TaskStruct) (prev : α) : SchedM K (Option α) := do
  let s ← get
  if s.rq.circ.nrRunning = 0 then do
    emit (.pick T s prev none s)
    pure none
  else do
    putPrevTask T prev
    let se ← chooseEntity
    listTraverse
    let p ← deref se
    let s' ← get
    emit (.pick T s prev (some p) s')
    pure (some p)

/-- `pick_next_task_rt`, which on one processor has nothing to pull. -/
def pickNextTaskRt (T : α → TaskStruct) (prev : α) : SchedM K (Option α) := do
  when ((T prev).schedClass = .rt) (updateCurrRt T)
  let s ← get
  if s.rq.rt.rtQueued then do
    putPrevTask T prev
    let p ← _pickNextTaskRt
    pure (some p)
  else pure none

/-- `pick_next_task` of a foreign class. -/
def pickNextTaskForeign (f : Foreign) (T : α → TaskStruct) (prev : α) : SchedM K (Option α) := do
  when ((T prev).schedClass = f.schedClass) (foreignCall f .update T prev)
  let s ← get
  match (K.foreign f).pick T s.rq.clock (s.rq.foreign f) with
  | none => pure none
  | some p => do
      putPrevTask T prev
      foreignCall f .picked T p
      pure (some p)

/-- `pick_next_task_idle`. -/
def pickNextTaskIdle (T : α → TaskStruct) (prev : α) : SchedM K α := do
  putPrevTask T prev
  let s ← get
  pure s.rq.idle

/-- `class->pick_next_task(rq, prev)`. -/
def classPick (T : α → TaskStruct) (prev : α) : SchedClass → SchedM K (Option α)
  | .stop => pickNextTaskForeign .stop T prev
  | .dl => pickNextTaskForeign .dl T prev
  | .rt => pickNextTaskRt T prev
  | .fair => fail .bug
  | .circular => pickNextTaskCircular T prev
  | .idle => do
      let p ← pickNextTaskIdle T prev
      pure (some p)

/-- The loop of `pick_next_task` over the classes. -/
def pickWalk (T : α → TaskStruct) (prev : α) : List SchedClass → SchedM K α
  | [] => fail .bug
  | c :: cs => do
      let p ← classPick T prev c
      match p with
      | some p => pure p
      | none => pickWalk T prev cs

/-- The shortcut of `pick_next_task`: the circular class, else the idle class. -/
def pickShortcut (T : α → TaskStruct) (prev : α) : SchedM K α := do
  let p ← pickNextTaskCircular T prev
  match p with
  | some p => pure p
  | none => pickNextTaskIdle T prev

/-- The condition of the shortcut: `rq->nr_running` is compared with the count of the fair
class. -/
def shortcutTaken (T : α → TaskStruct) (prev : α) (rq : Rq K) : Prop :=
  (T prev).schedClass = .circular ∧ rq.nrRunning = rq.cfs.hNrRunning

instance (T : α → TaskStruct) (prev : α) (rq : Rq K) : Decidable (shortcutTaken T prev rq) :=
  inferInstanceAs (Decidable (_ ∧ _))

/-- `pick_next_task`. -/
def pickNextTask (T : α → TaskStruct) (prev : α) : SchedM K α := do
  let s ← get
  if shortcutTaken T prev s.rq then pickShortcut T prev else pickWalk T prev classChain

end KernelHacking.Sched
