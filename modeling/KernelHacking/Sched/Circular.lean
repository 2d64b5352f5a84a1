import KernelHacking.Sched.Types

/-! # The circular class

The functions of `circular.c` that work on the run-queue of the class alone.  Every call of the
list functions is recorded in the trace together with the list it finds; the pick, which calls
`put_prev_task` of the previous task's class, is in `Classes.lean`. -/

namespace KernelHacking.Sched

open TraceProg PtrRing Word Prog

variable {α : Type} [DecidableEq α] [Fintype α] {K : Kernel α}

/-! ### Calls into `circlist.c` -/

/-- Store a list structure and its nodes. -/
def Cpu.setList (s : Cpu K) (r : Heap α × CircularList α) : Cpu K :=
  { s with node := r.1, rq := { s.rq with circ := { s.rq.circ with circList := r.2 } } }

/-- `circularlist_insert(&circ_rq->circList, after, new)`. -/
def listInsert (after : Option α) (new : α) : SchedM K Unit := do
  let s ← get
  emit (.insert s.node s.rq.circ.circList after new)
  budgeted (fun _ s =>
    (circularlistInsert s.node s.rq.circ.circList after (some new)).map s.setList) (fun _ _ _ _ _ h => h)

theorem listRemove_budget (node : α) (n k : ℕ) (s s' : Cpu K) (hnk : n ≤ k)
    (h : (circularlistRemove n s.node s.rq.circ.circList node).map s.setList = .ok s') :
    (circularlistRemove k s.node s.rq.circ.circList node).map s.setList = .ok s' := by
  cases hr : circularlistRemove n s.node s.rq.circ.circList node with
  | error e => simp [hr, Except.map] at h
  | ok r => rw [circularlistRemove_mono hnk hr]; rw [hr] at h; exact h

/-- `circularlist_remove(&circ_rq->circList, node)`. -/
def listRemove (node : α) : SchedM K Unit := do
  let s ← get
  emit (.remove s.node s.rq.circ.circList node)
  budgeted (fun n s => (circularlistRemove n s.node s.rq.circ.circList node).map s.setList)
    (listRemove_budget node)

theorem listTraverse_budget (n k : ℕ) (s s' : Cpu K) (hnk : n ≤ k)
    (h : ((circularlistTraverseDebug n s.node s.rq.circ.circList).map fun _ => s) = .ok s') :
    ((circularlistTraverseDebug k s.node s.rq.circ.circList).map fun _ => s) = .ok s' := by
  cases hr : circularlistTraverseDebug n s.node s.rq.circ.circList with
  | error e => simp [hr, Except.map] at h
  | ok r => rw [circularlistTraverseDebug_mono hnk hr]; rw [hr] at h; exact h

/-- `circularlist_traverse_debug(&circ_rq->circList)`. -/
def listTraverse : SchedM K Unit := do
  let s ← get
  emit (.traverse s.node s.rq.circ.circList)
  budgeted (fun n s => (circularlistTraverseDebug n s.node s.rq.circ.circList).map fun _ => s)
    listTraverse_budget

/-! ### Entities -/

/-- `pick_next_entity`: the head of the ring. -/
def pickNextEntity : SchedM K (Option α) := do
  let s ← get
  pure s.rq.circ.circList.head

/-- `__enqueue_entity`: insert before the head. -/
def __enqueueEntity (se : α) : SchedM K Unit := do
  let s ← get
  listInsert s.rq.circ.circList.head se

/-- `__dequeue_entity`. -/
def __dequeueEntity (se : α) : SchedM K Unit := listRemove se

/-- `put_prev_entity`: put the running entity back into the ring if it is still runnable. -/
def putPrevEntity (prev : α) : SchedM K Unit := do
  let s ← get
  when ((s.se prev).onRq) (__enqueueEntity prev)
  modifyCirc fun c => { c with curr := none }

/-- `put_prev_task_circular`. -/
def putPrevTaskCircular (prev : α) : SchedM K Unit := putPrevEntity prev

/-- `enqueue_entity`. -/
def enqueueEntity (se : α) : SchedM K Unit := do
  modifyCirc fun c => { c with nrRunning := u32Add c.nrRunning 1 }
  let s ← get
  when (s.rq.circ.curr ≠ some se) (__enqueueEntity se)
  modifySe se fun e => { e with onRq := true }

/-- `enqueue_task_circular`: `rq->nr_running` is raised whether or not the entity was queued. -/
def enqueueTaskCircular (p : α) : SchedM K Unit := do
  listTraverse
  let s ← get
  when (¬ (s.se p).onRq) (do
    enqueueEntity p
    modifyCirc fun c => { c with hNrRunning := u32Add c.hNrRunning 1 })
  addNrRunning 1
  listTraverse

/-- `dequeue_entity`. -/
def dequeueEntity (se : α) : SchedM K Unit := do
  let s ← get
  when (s.rq.circ.curr ≠ some se) (__dequeueEntity se)
  modifySe se fun e => { e with onRq := false }
  emit (.sub s.rq.circ.nrRunning 1)
  modifyCirc fun c => { c with nrRunning := u32Sub c.nrRunning 1 }

/-- `dequeue_task_circular`. -/
def dequeueTaskCircular (p : α) : SchedM K Unit := do
  listTraverse
  dequeueEntity p
  let s ← get
  emit (.sub s.rq.circ.hNrRunning 1)
  modifyCirc fun c => { c with hNrRunning := u32Sub c.hNrRunning 1 }
  subNrRunning 1
  listTraverse
  emit (.dequeued p)

/-- `set_next_entity`: the running entity is not kept in the ring. -/
def setNextEntity (se : α) : SchedM K Unit := do
  let s ← get
  when ((s.se se).onRq) (__dequeueEntity se)
  modifyCirc fun c => { c with curr := some se }

/-- `set_curr_task_circular`. -/
def setCurrTaskCircular : SchedM K Unit := do
  let s ← get
  setNextEntity s.rq.curr

/-! ### Time accounting -/

/-- `update_rq_clock`, with the next reading of `sched_clock_cpu`. -/
def updateRqClock : SchedM K Unit := do
  let s ← get
  when (¬ 0 < s.rq.skipClockUpdate) (do
    let delta := K.schedClockCpu s.reads - s.rq.clock
    modify fun s => { s with reads := s.reads + 1 }
    when (s64Neg delta = false) (do
      emit (.clock s.rq.curr s.rq.clockTask (s.rq.clockTask + delta))
      modifyRq fun rq =>
        { rq with clock := rq.clock + delta, clockTask := rq.clockTask + delta }))

/-- What a charge of `delta` at clock value `now` does to an entity. -/
def SchedEntity.charge (e : SchedEntity) (now : U64) : SchedEntity :=
  { e with
    execStart := now
    execMax := if e.execMax < now - e.execStart then now - e.execStart else e.execMax
    sumExecRuntime := e.sumExecRuntime + (now - e.execStart) }

/-- `update_curr_circular`: charge the running task, whatever its class, with the time since its
`exec_start`. -/
def updateCurrCircular : SchedM K Unit := do
  let s ← get
  let curr := s.rq.curr
  let now := s.rq.clockTask
  when (s64NonPos (now - (s.se curr).execStart) = false) (do
    emit (.charge curr (s.se curr).execStart now)
    modifySe curr fun e => e.charge now)

/-! ### Preemption and yielding -/

/-- `check_preempt_wakeup`. -/
def checkPreemptWakeup (T : α → TaskStruct) (p : α) : SchedM K Unit := do
  let s ← get
  let curr := s.rq.curr
  if curr = p then pure ()
  else if (T curr).policy = SCHED_IDLE ∧ (T p).policy ≠ SCHED_IDLE then reschedCurr
  else if (T p).policy ≠ SCHED_NORMAL ∨ K.wakeupPreemption = false then pure ()
  else do
    updateCurrCircular
    reschedCurr

/-- `yield_task_circular`: bring the accounting up to date; the order of the ring is left to the
next pick. -/
def yieldTaskCircular (T : α → TaskStruct) : SchedM K Unit := do
  let s ← get
  when (s.rq.nrRunning ≠ 1 ∧ (T s.rq.curr).policy ≠ SCHED_BATCH) (do
    updateRqClock
    updateCurrCircular
    modifyRq fun rq => { rq with skipClockUpdate := 1 })

/-- `yield_to_task_circular`: whether `p` is runnable; it is not moved in the ring. -/
def yieldToTaskCircular (T : α → TaskStruct) (p : α) (_preempt : Bool) : SchedM K Bool := do
  let s ← get
  if ¬ (s.se p).onRq then pure false
  else do
    yieldTaskCircular T
    pure true

end KernelHacking.Sched
