import KernelHacking.Sched.Circular

/-! # The real-time class

The functions of `rt.c` of a uniprocessor build without real-time groups: the priority array,
the contribution of the class to `rq->nr_running` (all of its tasks or, while throttled, none),
and the runtime accounting that throttles it.  A run list is a list of tasks; an index outside the
priority array is a fault. -/

namespace KernelHacking.Sched

open TraceProg PtrRing Word Prog

variable {α : Type} [DecidableEq α] [Fintype α] {K : Kernel α}

/-- `on_rt_rq`: the entity is linked in some queue of the array. -/
def onRtRq (a : RtPrioArray α) (p : α) : Prop :=
  ∃ i ∈ List.range MAX_RT_PRIO.toNat, p ∈ a.queue i

instance (a : RtPrioArray α) (p : α) : Decidable (onRtRq a p) :=
  inferInstanceAs (Decidable (∃ i ∈ List.range MAX_RT_PRIO.toNat, p ∈ a.queue i))

/-- `dequeue_top_rt_rq`. -/
def dequeueTopRtRq : SchedM K Unit := do
  let s ← get
  when (s.rq.rt.rtQueued) (do
    when (s.rq.nrRunning = 0) (fail .bug)
    subNrRunning s.rq.rt.rtNrRunning
    modifyRt fun rt => { rt with rtQueued := false })

/-- `enqueue_top_rt_rq`. -/
def enqueueTopRtRq : SchedM K Unit := do
  let s ← get
  when (s.rq.rt.rtQueued = false ∧ s.rq.rt.rtThrottled = false ∧ s.rq.rt.rtNrRunning ≠ 0) (do
    addNrRunning s.rq.rt.rtNrRunning
    modifyRt fun rt => { rt with rtQueued := true })

/-- The index of a task's queue in the priority array. -/
def rtSePrio (T : α → TaskStruct) (p : α) : SchedM K ℕ :=
  if 0 ≤ (T p).prio ∧ (T p).prio < MAX_RT_PRIO then pure (T p).prio.toNat else fail .bug

/-- `__enqueue_rt_entity`, with `inc_rt_tasks`. -/
def __enqueueRtEntity (T : α → TaskStruct) (p : α) (head : Bool) : SchedM K Unit := do
  let i ← rtSePrio T p
  modifyRt fun rt => { rt with
    active :=
      { bitmap := Function.update rt.active.bitmap i true
        queue := Function.update rt.active.queue i
          (if head then p :: rt.active.queue i else rt.active.queue i ++ [p]) }
    rtNrRunning := u32Add rt.rtNrRunning 1 }

/-- `__dequeue_rt_entity`, with `dec_rt_tasks`: unlink from whichever queue holds the entity,
then look at the queue of its priority. -/
def __dequeueRtEntity (T : α → TaskStruct) (p : α) : SchedM K Unit := do
  let i ← rtSePrio T p
  let s ← get
  emit (.sub s.rq.rt.rtNrRunning 1)
  modifyRt fun rt =>
    let queue : ℕ → List α := fun j => (rt.active.queue j).erase p
    { rt with
      active :=
        { bitmap := if queue i = [] then Function.update rt.active.bitmap i false
                    else rt.active.bitmap
          queue := queue }
      rtNrRunning := u32Sub rt.rtNrRunning 1 }

/-- `dequeue_rt_stack`, of depth one. -/
def dequeueRtStack (T : α → TaskStruct) (p : α) : SchedM K Unit := do
  dequeueTopRtRq
  let s ← get
  when (onRtRq s.rq.rt.active p) (__dequeueRtEntity T p)

/-- `enqueue_rt_entity`. -/
def enqueueRtEntity (T : α → TaskStruct) (p : α) (head : Bool) : SchedM K Unit := do
  dequeueRtStack T p
  __enqueueRtEntity T p head
  enqueueTopRtRq

/-- `dequeue_rt_entity`. -/
def dequeueRtEntity (T : α → TaskStruct) (p : α) : SchedM K Unit := do
  dequeueRtStack T p
  enqueueTopRtRq

/-- `sched_rt_runtime_exceeded`: throttle the class when it has used up its runtime. -/
def schedRtRuntimeExceeded : SchedM K Bool := do
  let s ← get
  let rt := s.rq.rt
  if rt.rtThrottled then pure true
  else if ¬ rt.rtRuntime < K.rtPeriod then pure false
  else if rt.rtRuntime = RUNTIME_INF then pure false
  else if ¬ rt.rtRuntime < rt.rtTime then pure false
  else if K.rtBandwidthRuntime ≠ 0 then do
    modifyRt fun rt => { rt with rtThrottled := true }
    dequeueTopRtRq
    pure true
  else do
    modifyRt fun rt => { rt with rtTime := 0 }
    pure false

/-- `update_curr_rt`: charge the running task if it is a real-time task. -/
def updateCurrRt (T : α → TaskStruct) : SchedM K Unit := do
  let s ← get
  let curr := s.rq.curr
  let now := s.rq.clockTask
  let delta := now - (s.se curr).execStart
  when ((T curr).schedClass = .rt ∧ s64NonPos delta = false) (do
    emit (.charge curr (s.se curr).execStart now)
    modifySe curr fun e => e.charge now
    when (0 ≤ K.sysctlSchedRtRuntime ∧ s.rq.rt.rtRuntime ≠ RUNTIME_INF) (do
      modifyRt fun rt => { rt with rtTime := rt.rtTime + delta }
      let exceeded ← schedRtRuntimeExceeded
      when (exceeded) reschedCurr))

/-- `enqueue_task_rt`. -/
def enqueueTaskRt (T : α → TaskStruct) (p : α) (flags : ℕ) : SchedM K Unit := do
  when (flags &&& ENQUEUE_WAKEUP ≠ 0) (modify fun s =>
    { s with rtSe := Function.update s.rtSe p { s.rtSe p with timeout := 0 } })
  enqueueRtEntity T p (decide (flags &&& ENQUEUE_HEAD ≠ 0))

/-- `dequeue_task_rt`. -/
def dequeueTaskRt (T : α → TaskStruct) (p : α) : SchedM K Unit := do
  updateCurrRt T
  dequeueRtEntity T p

/-- `put_prev_task_rt`. -/
def putPrevTaskRt (T : α → TaskStruct) : SchedM K Unit := updateCurrRt T

/-- `set_curr_task_rt`. -/
def setCurrTaskRt : SchedM K Unit := do
  let s ← get
  modifySe s.rq.curr fun e => { e with execStart := s.rq.clockTask }

/-- `yield_task_rt`: requeue the running task at the tail of its queue. -/
def yieldTaskRt (T : α → TaskStruct) : SchedM K Unit := do
  let s ← get
  let p := s.rq.curr
  when (onRtRq s.rq.rt.active p) (do
    let i ← rtSePrio T p
    modifyRt fun rt => { rt with active := { rt.active with
      queue := Function.update (fun j => (rt.active.queue j).erase p) i
        ((rt.active.queue i).erase p ++ [p]) } })

/-- `check_preempt_curr_rt`. -/
def checkPreemptCurrRt (T : α → TaskStruct) (p : α) : SchedM K Unit := do
  let s ← get
  when ((T p).prio < (T s.rq.curr).prio) reschedCurr

/-- `sched_find_first_bit` on the bitmap of the array. -/
def schedFindFirstBit (a : RtPrioArray α) : Option ℕ :=
  (List.range MAX_RT_PRIO.toNat).find? a.bitmap

/-- `_pick_next_task_rt` (with `pick_next_rt_entity`): the first task of the highest priority
queue, whose `exec_start` is set. -/
def _pickNextTaskRt : SchedM K α := do
  let s ← get
  match schedFindFirstBit s.rq.rt.active with
  | none => fail .bug
  | some idx =>
      match (s.rq.rt.active.queue idx).head? with
      | none => fail .bug
      | some p => do
          modifySe p fun e => { e with execStart := s.rq.clockTask }
          pure p

/-- `switched_to_rt`. -/
def switchedToRt (T : α → TaskStruct) (p : α) : SchedM K Unit := do
  let s ← get
  when (taskOnRqQueued (T p) ∧ s.rq.curr ≠ p ∧ (T p).prio < (T s.rq.curr).prio) reschedCurr

/-- `prio_changed_rt`. -/
def prioChangedRt (T : α → TaskStruct) (p : α) (oldprio : ℤ) : SchedM K Unit := do
  let s ← get
  when (taskOnRqQueued (T p)) (
    if s.rq.curr = p then when (oldprio < (T p).prio) reschedCurr
    else when ((T p).prio < (T s.rq.curr).prio) reschedCurr)

end KernelHacking.Sched
