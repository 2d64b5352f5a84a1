import KernelHacking.Circlist

/-! # The data of the scheduler

`sched.h` and the parts of `struct task_struct` the scheduler works on, for one run-queue of a
uniprocessor build, with `CONFIG_RT_GROUP_SCHED` and `CONFIG_IRQ_TIME_ACCOUNTING` off.  The
configurations in the repository have these two off, but `CONFIG_SMP` set; they are for other kernel
versions, and with `CONFIG_SMP` the file `circular.c` would refer to a function that is static in `rt.c`,
and the class would have no `select_task_rq`.

Objects are addressed by the task they belong to: `&p->se`, `&p->rt` and the ring node
`&p->se.run_circular_node` are all written `p`, so `container_of` is the identity.  The state is
split by owner.  `TaskStruct` holds what only `core.c` writes; `Cpu` holds what the scheduling
classes write: the run-queue, the entities, the ring nodes and the resched flags.  A class
function gets the `TaskStruct`s as a read-only argument.

The stop and deadline classes are not part of the source.  They are a `ForeignClass`: a state of
their own, callbacks on it, and what the core relies on, as fields. -/

namespace KernelHacking.Sched

open TraceProg PtrRing Word

/-! ### Constants -/

def MAX_DL_PRIO : ℤ := 0
def MAX_USER_RT_PRIO : ℤ := 100
def MAX_RT_PRIO : ℤ := 100
def MAX_PRIO : ℤ := 140
def DEFAULT_PRIO : ℤ := 120
def MIN_NICE : ℤ := -20
def MAX_NICE : ℤ := 19

def SCHED_NORMAL : ℤ := 0
def SCHED_FIFO : ℤ := 1
def SCHED_RR : ℤ := 2
def SCHED_BATCH : ℤ := 3
def SCHED_IDLE : ℤ := 5
def SCHED_DEADLINE : ℤ := 6

def TASK_RUNNING : ℕ := 0
def TASK_NORMAL : ℕ := 3
def TASK_ON_RQ_QUEUED : ℕ := 1

def ENQUEUE_WAKEUP : ℕ := 1
def ENQUEUE_HEAD : ℕ := 2
def ENQUEUE_WAKING : ℕ := 0
def ENQUEUE_REPLENISH : ℕ := 8
def DEQUEUE_SLEEP : ℕ := 1

def EPERM : ℤ := 1
def ESRCH : ℤ := 3
def EAGAIN : ℤ := 11
def EBUSY : ℤ := 16
def EINVAL : ℤ := 22

/-- `RUNTIME_INF`. -/
def RUNTIME_INF : U64 := BitVec.allOnes 64

def niceToPrio (nice : ℤ) : ℤ := nice + DEFAULT_PRIO
def prioToNice (prio : ℤ) : ℤ := prio - DEFAULT_PRIO

def dlPrio (prio : ℤ) : Bool := decide (prio < MAX_DL_PRIO)
def rtPrio (prio : ℤ) : Bool := decide (prio < MAX_RT_PRIO)

def fairPolicy (policy : ℤ) : Bool := decide (policy = SCHED_NORMAL ∨ policy = SCHED_BATCH)
def rtPolicy (policy : ℤ) : Bool := decide (policy = SCHED_FIFO ∨ policy = SCHED_RR)
def dlPolicy (policy : ℤ) : Bool := decide (policy = SCHED_DEADLINE)

/-! ### Tasks -/

/-- The scheduling classes, by their `struct sched_class`. -/
inductive SchedClass where
  | stop | dl | rt | fair | circular | idle
deriving DecidableEq, Repr

/-- The order of `for_each_class`; the fair class is no longer in the chain. -/
def classChain : List SchedClass := [.stop, .dl, .rt, .circular, .idle]

/-- `struct load_weight`. -/
structure LoadWeight where
  weight : ℕ
  invWeight : ℕ
deriving DecidableEq, Repr

/-- The static parameters and flags of `struct sched_dl_entity` that `core.c` writes. -/
structure SchedDlEntity where
  dlRuntime : U64
  dlDeadline : U64
  dlPeriod : U64
  dlBw : U64
  flags : ℕ
  dlThrottled : Bool
  dlNew : Bool
  dlBoosted : Bool
  dlYielded : Bool
  deadline : U64
deriving DecidableEq, Repr

/-- `struct task_struct`, what `core.c` writes of it (`load` is `se.load`). -/
structure TaskStruct where
  state : ℕ
  onRq : ℕ
  prio : ℤ
  staticPrio : ℤ
  normalPrio : ℤ
  rtPriority : ℕ
  policy : ℤ
  schedClass : SchedClass
  schedResetOnFork : Bool
  mm : Bool
  wqWorker : Bool
  kthread : Bool
  load : LoadWeight
  dl : SchedDlEntity
deriving DecidableEq, Repr

/-- `task_on_rq_queued`. -/
def taskOnRqQueued (t : TaskStruct) : Bool := decide (t.onRq = TASK_ON_RQ_QUEUED)

/-- `task_nice`. -/
def taskNice (t : TaskStruct) : ℤ := prioToNice t.staticPrio

/-- `struct sched_entity`, what the classes write of it. -/
structure SchedEntity where
  onRq : Bool
  execStart : U64
  sumExecRuntime : U64
  vruntime : U64
  execMax : U64
deriving DecidableEq, Repr

/-- `struct sched_rt_entity`; being linked in a queue is read off the queues. -/
structure SchedRtEntity where
  timeout : ℕ
deriving DecidableEq, Repr

/-! ### The classes outside the source -/

/-- The callbacks of `struct sched_class` that change a class's own state: `update` stands for the
bookkeeping a pick does when the previous task is of its own class, `picked` for what it does once
`put_prev_task` has run. -/
inductive ClassCall where
  | enqueue (flags : ℕ)
  | dequeue (flags : ℕ)
  | putPrev
  | setCurr
  | update
  | picked
  | checkPreempt (flags : ℕ)
  | yield
  | switchedFrom
  | switchedTo
  | prioChanged (oldprio : ℤ)
deriving DecidableEq, Repr

/-- A class whose code is elsewhere: its run-queue state, the tasks it has queued (and added to
`rq->nr_running`), its callbacks (with: did it call `resched_curr`), and the task its pick would
return.  Callbacks may read the tasks and the clock.  Enqueueing queues at most the given task,
dequeueing takes it out, every other callback adds nothing, and a pick returns a queued task. -/
structure ForeignClass (α : Type) [DecidableEq α] where
  State : Type
  queued : State → Finset α
  call : ClassCall → (α → TaskStruct) → U64 → State → α → State × Bool
  pick : (α → TaskStruct) → U64 → State → Option α
  queued_enqueue : ∀ flags T now s p,
    queued (call (.enqueue flags) T now s p).1 ⊆ insert p (queued s)
  queued_dequeue : ∀ flags T now s p,
    queued (call (.dequeue flags) T now s p).1 ⊆ (queued s).erase p
  queued_call : ∀ c T now s p, (∀ flags, c ≠ .enqueue flags) →
    queued (call c T now s p).1 ⊆ queued s
  pick_mem : ∀ T now s p, pick T now s = some p → p ∈ queued s

/-- The classes whose code is elsewhere. -/
inductive Foreign where
  | stop | dl
deriving DecidableEq, Repr

/-- Their `struct sched_class`. -/
def Foreign.schedClass : Foreign → SchedClass
  | .stop => .stop
  | .dl => .dl

/-- What the scheduler takes from its surroundings: the foreign classes, the readings of the
hardware clock in the order they are taken, the sysctl settings, and that there are fewer than
`2 ^ 32` tasks. -/
structure Kernel (α : Type) [DecidableEq α] [Fintype α] where
  foreign : Foreign → ForeignClass α
  schedClockCpu : ℕ → U64
  sysctlSchedChildRunsFirst : Bool
  wakeupPreemption : Bool
  sysctlSchedRtRuntime : ℤ
  rtPeriod : U64
  rtBandwidthRuntime : U64
  card_lt : Fintype.card α < 2 ^ 32

variable {α : Type} [DecidableEq α] [Fintype α]

/-! ### The run-queue -/

/-- `struct circ_rq`. -/
structure CircRq (α : Type) where
  circList : CircularList α
  curr : Option α
  nrRunning : ℕ
  hNrRunning : ℕ

/-- `struct rt_prio_array`: a bit and a queue for each priority. -/
structure RtPrioArray (α : Type) where
  bitmap : ℕ → Bool
  queue : ℕ → List α

/-- `struct rt_rq`. -/
structure RtRq (α : Type) where
  active : RtPrioArray α
  rtNrRunning : ℕ
  rtQueued : Bool
  rtThrottled : Bool
  rtTime : U64
  rtRuntime : U64

/-- `struct cfs_rq`, what the modelled code reads of it. -/
structure CfsRq where
  hNrRunning : ℕ

/-- `struct dl_bw`. -/
structure DlBw where
  bw : U64
  totalBw : U64

/-- `struct rq`. -/
structure Rq (K : Kernel α) where
  nrRunning : ℕ
  skipClockUpdate : ℤ
  cfs : CfsRq
  rt : RtRq α
  dlBw : DlBw
  circ : CircRq α
  foreign : (f : Foreign) → (K.foreign f).State
  curr : α
  idle : α
  stop : Option α
  clock : U64
  clockTask : U64

/-- What the scheduling classes write: the run-queue, the entities of every task and its ring
node, the resched flags, and how many readings of the hardware clock have been taken. -/
structure Cpu (K : Kernel α) where
  rq : Rq K
  se : α → SchedEntity
  rtSe : α → SchedRtEntity
  node : Heap α
  needResched : α → Bool
  reads : ℕ

/-- The whole state. -/
structure Machine (K : Kernel α) where
  task : α → TaskStruct
  cpu : Cpu K

/-- What a trace records: the calls of the list functions with the list as it is at the call,
the tasks that `dequeue_task_circular` has taken off, subtractions from unsigned counters, the
advances of `rq->clock_task` with the task that is running, the tasks `__sched_fork` has set up, the
charges of CPU time, and the picks of the circular class with the states at entry and exit (and its
branch that falls back on `circ_rq->curr`). -/
inductive Event (K : Kernel α) where
  | insert (h : Heap α) (l : CircularList α) (after : Option α) (new : α)
  | remove (h : Heap α) (l : CircularList α) (node : α)
  | traverse (h : Heap α) (l : CircularList α)
  | dequeued (p : α)
  | sub (counter amount : ℕ)
  | clock (curr : α) (old new : U64)
  | forked (p : α)
  | charge (p : α) (execStart now : U64)
  | pick (T : α → TaskStruct) (s : Cpu K) (prev : α) (r : Option α) (s' : Cpu K)
  | fallback

/-- Code of the scheduling classes. -/
abbrev SchedM (K : Kernel α) := Prog (Cpu K) (Event K)

/-- Code of `core.c`. -/
abbrev CoreM (K : Kernel α) := Prog (Machine K) (Event K)

/-! ### Field updates -/

section updates
variable {K : Kernel α}

/-- Change the run-queue. -/
def modifyRq (f : Rq K → Rq K) : SchedM K Unit := Prog.modify fun s => { s with rq := f s.rq }

/-- Change the circular run-queue. -/
def modifyCirc (f : CircRq α → CircRq α) : SchedM K Unit :=
  Prog.modify fun s => { s with rq := { s.rq with circ := f s.rq.circ } }

/-- Change the real-time run-queue. -/
def modifyRt (f : RtRq α → RtRq α) : SchedM K Unit :=
  Prog.modify fun s => { s with rq := { s.rq with rt := f s.rq.rt } }

/-- Change a scheduling entity. -/
def modifySe (p : α) (f : SchedEntity → SchedEntity) : SchedM K Unit :=
  Prog.modify fun s => { s with se := Function.update s.se p (f (s.se p)) }

/-- Change a task. -/
def modifyTask (p : α) (f : TaskStruct → TaskStruct) : CoreM K Unit :=
  Prog.modify fun m => { m with task := Function.update m.task p (f (m.task p)) }

/-- Run class code, which reads the tasks and writes the rest. -/
def onCpu {β : Type} (f : (α → TaskStruct) → SchedM K β) : CoreM K β := do
  let m ← Prog.get
  Prog.zoom Machine.cpu (fun c m => { m with cpu := c }) (f m.task)

/-- `add_nr_running`. -/
def addNrRunning (count : ℕ) : SchedM K Unit :=
  modifyRq fun rq => { rq with nrRunning := u32Add rq.nrRunning count }

/-- `sub_nr_running`. -/
def subNrRunning (count : ℕ) : SchedM K Unit := do
  let s ← Prog.get
  Prog.emit (.sub s.rq.nrRunning count)
  modifyRq fun rq => { rq with nrRunning := u32Sub rq.nrRunning count }

/-- `resched_curr`: mark the running task. -/
def reschedCurr : SchedM K Unit :=
  Prog.modify fun s => { s with needResched := Function.update s.needResched s.rq.curr true }

end updates

end KernelHacking.Sched
