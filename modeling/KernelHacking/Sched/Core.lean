import KernelHacking.Sched.Classes

/-! # The core scheduler

The functions of `core.c` that move tasks on and off the run-queue or change their class and
priority.  What they do to a `task_struct` is written as functions on `TaskStruct`; the programs
interleave these with the calls into the classes in the order of the source.

Locks, statistics nothing reads (`nr_uninterruptible`, `nr_switches`, `sched_info`, the run-queue
load averages), tracing and cgroup bookkeeping are left out.  Answers of code outside the source
(permission checks, pending signals, priority inheritance, the workqueue code) are arguments. -/

namespace KernelHacking.Sched

open TraceProg PtrRing Word Prog

variable {α : Type} [DecidableEq α] [Fintype α] {K : Kernel α}

/-! ### Priorities and weights -/

/-- `prio_to_weight`. -/
def prioToWeight : List ℕ :=
  [88761, 71755, 56483, 46273, 36291, 29154, 23254, 18705, 14949, 11916,
    9548, 7620, 6100, 4904, 3906, 3121, 2501, 1991, 1586, 1277,
    1024, 820, 655, 526, 423, 335, 272, 215, 172, 137,
    110, 87, 70, 56, 45, 36, 29, 23, 18, 15]

/-- `prio_to_wmult`. -/
def prioToWmult : List ℕ :=
  [48388, 59856, 76040, 92818, 118348, 147320, 184698, 229616, 287308, 360437,
    449829, 563644, 704093, 875809, 1099582, 1376151, 1717300, 2157191, 2708050, 3363326,
    4194304, 5237765, 6557202, 8165337, 10153587, 12820798, 15790321, 19976592, 24970740, 31350126,
    39045157, 49367440, 61356676, 76695844, 95443717, 119304647, 148102320, 186737708, 238609294,
    286331153]

/-- The weight of a task; `none` when the tables are read out of bounds. -/
def loadWeight (t : TaskStruct) : Option LoadWeight :=
  let prio := t.staticPrio - MAX_RT_PRIO
  if t.policy = SCHED_IDLE then some ⟨3, 1431655765⟩
  else if 0 ≤ prio then
    match prioToWeight[prio.toNat]?, prioToWmult[prio.toNat]? with
    | some w, some i => some ⟨w, i⟩
    | _, _ => none
  else none

/-- `set_load_weight`. -/
def setLoadWeight (t : TaskStruct) : Option TaskStruct :=
  (loadWeight t).map fun w => { t with load := w }

/-- Change a task by code that may read a table out of bounds. -/
def updateTask (p : α) (f : TaskStruct → Option TaskStruct) : CoreM K Unit := do
  let m ← get
  match f (m.task p) with
  | none => fail .bug
  | some t => modifyTask p fun _ => t

/-- `__normal_prio`. -/
def __normalPrio (t : TaskStruct) : ℤ := t.staticPrio

/-- `normal_prio`. -/
def normalPrio (t : TaskStruct) : ℤ :=
  if dlPolicy t.policy then MAX_DL_PRIO - 1
  else if rtPolicy t.policy then MAX_RT_PRIO - 1 - t.rtPriority
  else __normalPrio t

/-- `p->prio = effective_prio(p)`, which also sets `normal_prio`. -/
def effectivePrio (t : TaskStruct) : TaskStruct :=
  { t with
    normalPrio := normalPrio t
    prio := if rtPrio t.prio then t.prio else normalPrio t }

/-! ### Waking up -/

/-- `activate_task`. -/
def activateTask (p : α) (flags : ℕ) : CoreM K Unit := onCpu fun T => enqueueTask T p flags

/-- `deactivate_task`. -/
def deactivateTask (p : α) (flags : ℕ) : CoreM K Unit := onCpu fun T => dequeueTask T p flags

/-- `ttwu_activate`. -/
def ttwuActivate (p : α) (flags : ℕ) : CoreM K Unit := do
  activateTask p flags
  modifyTask p fun t => { t with onRq := TASK_ON_RQ_QUEUED }

/-- `ttwu_do_wakeup`. -/
def ttwuDoWakeup (p : α) (wakeFlags : ℕ) : CoreM K Unit := do
  onCpu fun T => checkPreemptCurr T p wakeFlags
  modifyTask p fun t => { t with state := TASK_RUNNING }

/-- `ttwu_do_activate`. -/
def ttwuDoActivate (p : α) (wakeFlags : ℕ) : CoreM K Unit := do
  ttwuActivate p (ENQUEUE_WAKEUP ||| ENQUEUE_WAKING)
  ttwuDoWakeup p wakeFlags

/-- `ttwu_remote`: the task is still on the run-queue. -/
def ttwuRemote (p : α) (wakeFlags : ℕ) : CoreM K Bool := do
  let m ← get
  if taskOnRqQueued (m.task p) then do
    onCpu fun _ => updateRqClock
    ttwuDoWakeup p wakeFlags
    pure true
  else pure false

/-- `try_to_wake_up`, and whether it changed the state. -/
def tryToWakeUp (p : α) (state wakeFlags : ℕ) : CoreM K Bool := do
  let m ← get
  if (m.task p).state &&& state = 0 then pure false
  else if (m.task p).onRq ≠ 0 then do
    let done ← ttwuRemote p wakeFlags
    when (done = false) (ttwuDoActivate p 0)
    pure true
  else do
    ttwuDoActivate p 0
    pure true

/-- `try_to_wake_up_local`, called from `__schedule`. -/
def tryToWakeUpLocal (p : α) : CoreM K Unit := do
  let m ← get
  when (p ≠ m.cpu.rq.curr ∧ (m.task p).state &&& TASK_NORMAL ≠ 0) (do
    when (taskOnRqQueued (m.task p) = false) (ttwuActivate p ENQUEUE_WAKEUP)
    ttwuDoWakeup p 0)

/-- `WF_FORK`. -/
def WF_FORK : ℕ := 2

/-- `wake_up_new_task`. -/
def wakeUpNewTask (p : α) : CoreM K Unit := do
  activateTask p 0
  modifyTask p fun t => { t with onRq := TASK_ON_RQ_QUEUED }
  onCpu fun T => checkPreemptCurr T p WF_FORK

/-! ### Fork -/

/-- The copy of the running task that `sched_fork` finds in the child: everything, its ring node
included, but not the resched flag nor the role of a workqueue worker. -/
def dupTaskStruct (p : α) (mm kthread : Bool) : CoreM K Unit :=
  modify fun m =>
    let curr := m.cpu.rq.curr
    { m with
      task := Function.update m.task p
        { m.task curr with mm := mm, kthread := kthread, wqWorker := false }
      cpu := { m.cpu with
        se := Function.update m.cpu.se p (m.cpu.se curr)
        rtSe := Function.update m.cpu.rtSe p (m.cpu.rtSe curr)
        node := Function.update m.cpu.node p (m.cpu.node curr)
        needResched := Function.update m.cpu.needResched p false } }

/-- `__dl_clear_params`. -/
def __dlClearParams (d : SchedDlEntity) : SchedDlEntity :=
  { d with dlRuntime := 0, dlDeadline := 0, dlPeriod := 0, flags := 0, dlBw := 0 }

/-- `__sched_fork`. -/
def __schedFork (p : α) : CoreM K Unit := do
  modifyTask p fun t => { t with onRq := 0, dl := __dlClearParams t.dl }
  onCpu fun _ => modifySe p fun _ =>
    { onRq := false, execStart := 0, sumExecRuntime := 0, vruntime := 0, execMax := 0 }
  emit (.forked p)

/-- The policy a child is reset to. -/
def resetPolicy (t : TaskStruct) : TaskStruct :=
  if dlPolicy t.policy ∨ rtPolicy t.policy then
    { t with policy := SCHED_NORMAL, staticPrio := niceToPrio 0, rtPriority := 0 }
  else if prioToNice t.staticPrio < 0 then { t with staticPrio := niceToPrio 0 }
  else t

/-- What `sched_reset_on_fork` does to the child. -/
def resetOnFork (t : TaskStruct) : Option TaskStruct :=
  let t := resetPolicy t
  (setLoadWeight { t with prio := __normalPrio t, normalPrio := __normalPrio t }).map fun t =>
    { t with schedResetOnFork := false }

/-- `task_fork_circular`. -/
def taskForkCircular (p : α) : SchedM K Unit := do
  updateRqClock
  when (K.sysctlSchedChildRunsFirst) (do
    let s ← get
    let curr := s.rq.curr
    modifySe curr fun e => { e with vruntime := (s.se p).vruntime }
    modifySe p fun e => { e with vruntime := (s.se curr).vruntime }
    reschedCurr)

/-- The last part of `sched_fork`: the class follows the priority. -/
def schedForkClass (p : α) : CoreM K ℤ := do
  let m ← get
  if dlPrio (m.task p).prio then pure (-EAGAIN)
  else if rtPrio (m.task p).prio then do
    modifyTask p fun t => { t with schedClass := .rt }
    pure 0
  else do
    modifyTask p fun t => { t with schedClass := .circular }
    onCpu fun _ => taskForkCircular p
    pure 0

/-- `sched_fork`, for a child `p` of the running task. -/
def schedFork (p : α) : CoreM K ℤ := do
  __schedFork p
  let m ← get
  modifyTask p fun t =>
    { t with state := TASK_RUNNING, prio := (m.task m.cpu.rq.curr).normalPrio }
  when ((m.task p).schedResetOnFork) (updateTask p resetOnFork)
  schedForkClass p

/-- Fork: the child is a copy of the running task, set up by `sched_fork`. -/
def fork (p : α) (mm kthread : Bool) : CoreM K ℤ := do
  dupTaskStruct p mm kthread
  schedFork p

/-! ### `__schedule` -/

/-- The first half of `__schedule`: a task that is not runnable any more leaves the run-queue,
and a workqueue worker may have another one woken up in its place. -/
def schedulePrev (prev : α) (signalPending preemptActive : Bool) (toWakeup : Option α) :
    CoreM K Unit := do
  let m ← get
  when ((m.task prev).state ≠ TASK_RUNNING ∧ preemptActive = false) (
    if signalPending then modifyTask prev fun t => { t with state := TASK_RUNNING }
    else do
      deactivateTask prev DEQUEUE_SLEEP
      modifyTask prev fun t => { t with onRq := 0 }
      when ((m.task prev).wqWorker) (
        match toWakeup with
        | none => pure ()
        | some p => tryToWakeUpLocal p))

/-- `__schedule` up to the call of `pick_next_task`; it returns the task that was running. -/
def scheduleEnter (signalPending preemptActive : Bool) (toWakeup : Option α) : CoreM K α := do
  let m ← get
  let prev := m.cpu.rq.curr
  schedulePrev prev signalPending preemptActive toWakeup
  let m ← get
  when (taskOnRqQueued (m.task prev) ∨ m.cpu.rq.skipClockUpdate < 0)
    (onCpu fun _ => updateRqClock)
  pure prev

/-- `__schedule`, once through. -/
def __schedule (signalPending preemptActive : Bool) (toWakeup : Option α) : CoreM K Unit := do
  let prev ← scheduleEnter signalPending preemptActive toWakeup
  let next ← onCpu fun T => pickNextTask T prev
  onCpu fun _ => modify fun s =>
    { s with
      needResched := Function.update s.needResched prev false
      rq := { s.rq with skipClockUpdate := 0, curr := next } }

/-- `sched_yield`, under the run-queue lock; the `schedule()` that follows is a step of its
own. -/
def schedYield : CoreM K Unit := onCpu fun T => do
  let s ← get
  yieldTask T s.rq.curr

/-- `yield_to`, on one run-queue: the `resched_curr` of another one never applies. -/
def yieldTo (p : α) (preempt signalPending : Bool) : CoreM K ℤ := do
  let m ← get
  let curr := m.cpu.rq.curr
  if m.cpu.rq.nrRunning = 1 then pure (-ESRCH)
  else if (m.task curr).schedClass ≠ (m.task p).schedClass then pure 0
  else if curr = p ∨ (m.task p).state ≠ 0 then pure 0
  else do
    let yielded ← onCpu fun T => yieldToTask T curr p preempt
    when (yielded) (__schedule signalPending false none)
    pure (if yielded then 1 else 0)

/-- `task_sched_runtime`. -/
def taskSchedRuntime (p : α) : CoreM K U64 := do
  let m ← get
  when (m.cpu.rq.curr = p ∧ taskOnRqQueued (m.task p)) (onCpu fun T => do
    updateRqClock
    updateCurr T p)
  let m ← get
  pure (m.cpu.se p).sumExecRuntime

/-! ### Changing class and priority -/

/-- The frame of `rt_mutex_setprio`, `__sched_setscheduler` and `sched_move_task`: take the task
off its class as far as it is on, change it, and put it back the same way. -/
def changeTask (p : α) (change : TaskStruct → Option TaskStruct)
    (flags : TaskStruct → TaskStruct → ℕ) : CoreM K Unit := do
  let m ← get
  let queued := taskOnRqQueued (m.task p)
  let running := decide (m.cpu.rq.curr = p)
  when (queued) (onCpu fun T => dequeueTask T p 0)
  when (running) (onCpu fun T => putPrevTask T p)
  updateTask p change
  when (running) (onCpu fun T => setCurrTask T p)
  let m' ← get
  when (queued) (onCpu fun T => enqueueTask T p (flags (m.task p) (m'.task p)))

/-- The class that `core.c` gives to a priority. -/
def classOfPrio (prio : ℤ) : SchedClass :=
  if dlPrio prio then .dl else if rtPrio prio then .rt else .circular

/-- What `rt_mutex_setprio` writes, with the flags of the enqueue: `piPreempts` is whether the top
waiter would preempt the task as a deadline task. -/
def setprioTask (prio : ℤ) (piPreempts : Bool) (t : TaskStruct) : ℕ × TaskStruct :=
  if dlPrio prio then
    if dlPrio t.normalPrio = false ∨ piPreempts then
      (ENQUEUE_REPLENISH,
        { t with dl := { t.dl with dlBoosted := true, dlThrottled := false }, schedClass := .dl,
                 prio := prio })
    else
      (0, { t with dl := { t.dl with dlBoosted := false }, schedClass := .dl, prio := prio })
  else if rtPrio prio then
    (if t.prio < prio then ENQUEUE_HEAD else 0,
      { t with dl := { t.dl with dlBoosted := if dlPrio t.prio then false else t.dl.dlBoosted },
               schedClass := .rt, prio := prio })
  else
    (0, { t with dl := { t.dl with dlBoosted := if dlPrio t.prio then false else t.dl.dlBoosted },
                 schedClass := .circular, prio := prio })

/-- `rt_mutex_setprio`. -/
def rtMutexSetprio (p : α) (prio : ℤ) (piPreempts : Bool) : CoreM K Unit := do
  when (prio > MAX_PRIO) (fail .bug)
  let m ← get
  when (p ≠ m.cpu.rq.idle) (do
    changeTask p (fun t => some (setprioTask prio piPreempts t).2)
      (fun t _ => (setprioTask prio piPreempts t).1)
    onCpu fun T => checkClassChanged T p (m.task p).schedClass (m.task p).prio)

/-- What `set_user_nice` writes to a task without a real-time or deadline policy. -/
def niceTask (nice : ℤ) (t : TaskStruct) : Option TaskStruct :=
  (setLoadWeight { t with staticPrio := niceToPrio nice }).map effectivePrio

/-- `set_user_nice`. -/
def setUserNice (p : α) (nice : ℤ) : CoreM K Unit := do
  let m ← get
  when (¬ (taskNice (m.task p) = nice ∨ nice < MIN_NICE ∨ MAX_NICE < nice)) (
    if dlPolicy (m.task p).policy ∨ rtPolicy (m.task p).policy then
      modifyTask p fun t => { t with staticPrio := niceToPrio nice }
    else do
      let queued := taskOnRqQueued (m.task p)
      when (queued) (onCpu fun T => dequeueTask T p 0)
      updateTask p (niceTask nice)
      let m' ← get
      let delta := (m'.task p).prio - (m.task p).prio
      when (queued) (do
        onCpu fun T => enqueueTask T p 0
        when (delta < 0 ∨ 0 < delta ∧ m.cpu.rq.curr = p) (onCpu fun _ => reschedCurr)))

/-- `struct sched_attr`. -/
structure SchedAttr where
  schedPolicy : ℤ
  schedFlags : ℕ
  schedNice : ℤ
  schedPriority : ℕ
  schedRuntime : U64
  schedDeadline : U64
  schedPeriod : U64
deriving DecidableEq, Repr

/-- `to_ratio`. -/
def toRatio (period runtime : U64) : U64 :=
  if runtime = RUNTIME_INF then 1 <<< 20
  else if period = 0 then 0
  else (runtime <<< 20) / period

/-- `attr->sched_period ?: attr->sched_deadline`. -/
def SchedAttr.period (attr : SchedAttr) : U64 :=
  if attr.schedPeriod ≠ 0 then attr.schedPeriod else attr.schedDeadline

/-- `__setparam_dl`. -/
def __setparamDl (attr : SchedAttr) (d : SchedDlEntity) : SchedDlEntity :=
  { d with
    dlRuntime := attr.schedRuntime
    dlDeadline := attr.schedDeadline
    dlPeriod := attr.period
    flags := attr.schedFlags
    dlBw := toRatio attr.period attr.schedRuntime
    dlThrottled := false
    dlNew := true
    dlYielded := false }

/-- `SETPARAM_POLICY`. -/
def SETPARAM_POLICY : ℤ := -1

/-- The policy and its parameters. -/
def setPolicy (attr : SchedAttr) (t : TaskStruct) : TaskStruct :=
  let policy := if attr.schedPolicy = SETPARAM_POLICY then t.policy else attr.schedPolicy
  if dlPolicy policy then { t with policy := policy, dl := __setparamDl attr t.dl }
  else if fairPolicy policy then
    { t with policy := policy, staticPrio := niceToPrio attr.schedNice }
  else { t with policy := policy }

/-- `__setscheduler_params`. -/
def __setschedulerParams (attr : SchedAttr) (t : TaskStruct) : Option TaskStruct :=
  let t := { setPolicy attr t with rtPriority := attr.schedPriority }
  setLoadWeight { t with normalPrio := normalPrio t }

/-- `__setscheduler`. -/
def __setscheduler (attr : SchedAttr) (t : TaskStruct) : Option TaskStruct :=
  (__setschedulerParams attr t).map fun t =>
    { t with prio := normalPrio t, schedClass := classOfPrio (normalPrio t) }

/-- `DL_SCALE`. -/
def DL_SCALE : ℕ := 10

/-- `__checkparam_dl`. -/
def __checkparamDl (attr : SchedAttr) : Bool :=
  if attr.schedDeadline = 0 then false
  else if attr.schedRuntime < (1 <<< DL_SCALE : U64) then false
  else if attr.schedDeadline &&& (1 <<< 63 : U64) ≠ 0 ∨ attr.schedPeriod &&& (1 <<< 63 : U64) ≠ 0 then
    false
  else if attr.schedPeriod ≠ 0 ∧ attr.schedPeriod < attr.schedDeadline ∨
      attr.schedDeadline < attr.schedRuntime then false
  else true

/-- `__dl_overflow`, on one processor. -/
def __dlOverflow (b : DlBw) (oldBw newBw : U64) : Bool :=
  decide (b.bw ≠ BitVec.allOnes 64 ∧ b.bw < b.totalBw - oldBw + newBw)

/-- The new total of `dl_overflow`, or `none` when the bandwidth does not suffice. -/
def dlBwAfter (b : DlBw) (t : TaskStruct) (policy : ℤ) (attr : SchedAttr) : Option DlBw :=
  let newBw := if dlPolicy policy then toRatio attr.period attr.schedRuntime else 0
  if newBw = t.dl.dlBw then some b
  else if dlPolicy policy ∧ dlPolicy t.policy = false ∧ __dlOverflow b 0 newBw = false then
    some { b with totalBw := b.totalBw + newBw }
  else if dlPolicy policy ∧ dlPolicy t.policy ∧ __dlOverflow b t.dl.dlBw newBw = false then
    some { b with totalBw := b.totalBw - t.dl.dlBw + newBw }
  else if dlPolicy policy = false ∧ dlPolicy t.policy then
    some { b with totalBw := b.totalBw - t.dl.dlBw }
  else none

/-- What `__sched_setscheduler` asks of code outside the source: whether the caller checks
permissions, `capable(CAP_SYS_NICE)`, `can_nice`, the real-time priority limit, `check_same_owner`,
the answer of the security module, and `rt_mutex_check_prio`. -/
structure SetschedEnv where
  user : Bool
  capable : Bool
  canNice : ℤ → Bool
  rlimRtprio : ℕ
  sameOwner : Bool
  security : ℤ
  rtMutexCheckPrio : Bool

/-- `SCHED_FLAG_RESET_ON_FORK`. -/
def SCHED_FLAG_RESET_ON_FORK : ℕ := 1

/-- The policy `__sched_setscheduler` works with. -/
def SchedAttr.policyFor (attr : SchedAttr) (t : TaskStruct) : ℤ :=
  if attr.schedPolicy < 0 then t.policy else attr.schedPolicy

/-- The value of `sched_reset_on_fork` it would store. -/
def SchedAttr.resetFor (attr : SchedAttr) (t : TaskStruct) : Bool :=
  if attr.schedPolicy < 0 then t.schedResetOnFork
  else decide (attr.schedFlags &&& SCHED_FLAG_RESET_ON_FORK ≠ 0)

/-- The checks of the arguments. -/
def SchedAttr.valid (attr : SchedAttr) (t : TaskStruct) : Bool :=
  let policy := attr.policyFor t
  if ¬ attr.schedPolicy < 0 ∧ policy ≠ SCHED_DEADLINE ∧ policy ≠ SCHED_FIFO ∧ policy ≠ SCHED_RR ∧
      policy ≠ SCHED_NORMAL ∧ policy ≠ SCHED_BATCH ∧ policy ≠ SCHED_IDLE then false
  else if attr.schedFlags ≠ 0 ∧ attr.schedFlags ≠ SCHED_FLAG_RESET_ON_FORK then false
  else if t.mm ∧ MAX_USER_RT_PRIO - 1 < attr.schedPriority ∨
      t.mm = false ∧ MAX_RT_PRIO - 1 < attr.schedPriority then false
  else if dlPolicy policy ∧ __checkparamDl attr = false ∨
      rtPolicy policy ≠ decide (attr.schedPriority ≠ 0) then false
  else true

/-- The checks of the caller's permissions. -/
def SchedAttr.permitted (attr : SchedAttr) (env : SetschedEnv) (t : TaskStruct) : Bool :=
  let policy := attr.policyFor t
  if env.user ∧ env.capable = false then
    if fairPolicy policy ∧ attr.schedNice < taskNice t ∧ env.canNice attr.schedNice = false then
      false
    else if rtPolicy policy ∧ policy ≠ t.policy ∧ env.rlimRtprio = 0 then false
    else if rtPolicy policy ∧ t.rtPriority < attr.schedPriority ∧
        env.rlimRtprio < attr.schedPriority then false
    else if dlPolicy policy then false
    else if t.policy = SCHED_IDLE ∧ policy ≠ SCHED_IDLE ∧ env.canNice (taskNice t) = false then
      false
    else if env.sameOwner = false then false
    else if t.schedResetOnFork ∧ attr.resetFor t = false then false
    else true
  else true

/-- Nothing but `sched_reset_on_fork` would change. -/
def SchedAttr.unchanged (attr : SchedAttr) (t : TaskStruct) : Bool :=
  let policy := attr.policyFor t
  decide (policy = t.policy) && !(fairPolicy policy && decide (attr.schedNice ≠ taskNice t)) &&
    !(rtPolicy policy && decide (attr.schedPriority ≠ t.rtPriority)) && !(dlPolicy policy)

/-- The last part of `__sched_setscheduler`, after all checks: a boosted task only gets its
parameters, any other one is taken off its class, changed, and put back. -/
def schedSetschedulerChange (p : α) (attr : SchedAttr) (boosted : Bool) : CoreM K ℤ := do
  let m ← get
  modifyTask p fun t => { t with schedResetOnFork := attr.resetFor t }
  if boosted then do
    updateTask p (__setschedulerParams attr)
    pure 0
  else do
    changeTask p (__setscheduler attr)
      (fun t t' => if t.prio ≤ t'.prio then ENQUEUE_HEAD else 0)
    onCpu fun T => checkClassChanged T p (m.task p).schedClass (m.task p).prio
    pure 0

/-- `__sched_setscheduler`.  The run-queue lock is taken once here, so the second look at the
policy never differs from the first. -/
def __schedSetscheduler (p : α) (attr : SchedAttr) (env : SetschedEnv) : CoreM K ℤ := do
  let m ← get
  let t := m.task p
  let policy := attr.policyFor t
  if attr.valid t = false then pure (-EINVAL)
  else if attr.permitted env t = false then pure (-EPERM)
  else if env.user ∧ env.security ≠ 0 then pure env.security
  else if m.cpu.rq.stop = some p then pure (-EINVAL)
  else if attr.unchanged t then do
    modifyTask p fun t => { t with schedResetOnFork := attr.resetFor t }
    pure 0
  else if dlPolicy policy ∨ dlPrio t.prio then
    match dlBwAfter m.cpu.rq.dlBw t policy attr with
    | none => pure (-EBUSY)
    | some b => do
        onCpu fun _ => modifyRq fun rq => { rq with dlBw := b }
        schedSetschedulerChange p attr env.rtMutexCheckPrio
  else schedSetschedulerChange p attr env.rtMutexCheckPrio

/-- `sched_move_task`, for the scheduler: only the group changes. -/
def schedMoveTask (p : α) : CoreM K Unit := changeTask p some (fun _ _ => 0)

/-- `cpu_cgroup_can_attach`, over the tasks of `cgroup_taskset_for_each`. -/
def cpuCgroupCanAttach : List TaskStruct → ℤ
  | [] => 0
  | t :: ts => if t.schedClass ≠ .fair then -EINVAL else cpuCgroupCanAttach ts

/-! ### Back to normal -/

/-- The `attr` of `normalize_task`. -/
def normalAttr : SchedAttr :=
  { schedPolicy := SCHED_NORMAL, schedFlags := 0, schedNice := 0, schedPriority := 0,
    schedRuntime := 0, schedDeadline := 0, schedPeriod := 0 }

/-- `normalize_task`: dequeued and enqueued like the others, but neither put back as the previous
task nor set as the running one. -/
def normalizeTask (p : α) : CoreM K Unit := do
  let m ← get
  let queued := taskOnRqQueued (m.task p)
  when (queued) (onCpu fun T => dequeueTask T p 0)
  updateTask p (__setscheduler normalAttr)
  when (queued) (do
    onCpu fun T => enqueueTask T p 0
    onCpu fun _ => reschedCurr)
  onCpu fun T => checkClassChanged T p (m.task p).schedClass (m.task p).prio

/-- The body of the loop of `normalize_rt_tasks`. -/
def normalizeRtTask (p : α) : CoreM K Unit := do
  let m ← get
  when ((m.task p).kthread = false) (do
    onCpu fun _ => modifySe p fun e => { e with execStart := 0 }
    if dlPrio (m.task p).prio = false ∧ rtPrio (m.task p).prio = false then
      when (taskNice (m.task p) < 0) (setUserNice p 0)
    else normalizeTask p)

/-- `normalize_rt_tasks`, over the tasks in the order of `for_each_process_thread`. -/
def normalizeRtTasks : List α → CoreM K Unit
  | [] => pure ()
  | p :: ps => do
      normalizeRtTask p
      normalizeRtTasks ps

end KernelHacking.Sched
