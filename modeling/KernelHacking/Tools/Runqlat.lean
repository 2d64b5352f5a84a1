import KernelHacking.Lib.BoundedMap
import KernelHacking.Lib.Word
import KernelHacking.Sched.Types

/-! # The run-queue latency tool

`runqlat` stamps a task when it is woken up, or switched out while it could go on, and counts the time up
to its next turn in a histogram of powers of two.  The probes are state transformers on the two maps of
the tool.  They find the tasks at fixed positions among the arguments of the traced function; what the
kernel passes there is not their business.  The readings of the clock are arguments; the logarithm and
the sizes of the maps come from the tracing library. -/

namespace KernelHacking.Runqlat

open Word

/-- What the tool takes from the tracing library. -/
structure Bpf where
  log2l : U64 → U64
  startSize : ℕ
  distSize : ℕ

/-- The command line. -/
structure Args where
  milliseconds : Bool
  pids : Bool
  pidnss : Bool
  tids : Bool
  pid : Option (BitVec 32)

/-- What the tool reads of a task besides its state: `p->tgid`, `p->pid`, and the number of the namespace
`p->nsproxy->pid_ns_for_children`. -/
structure Ids where
  tgid : BitVec 32
  pid : BitVec 32
  pidns : BitVec 32
deriving DecidableEq

/-- What a probe reads where it expects a task: the identifiers and `p->state`. -/
structure TaskFields where
  ids : Ids
  state : ℕ

/-- The arguments of a traced function, each of them read as a task. -/
abbrev Ctx := ℕ → TaskFields

/-- `pid_key_t` and `pidns_key_t`; the plain histogram has a slot only. -/
structure Key where
  id : Option U64
  slot : U64
deriving DecidableEq

/-- The maps `start` and `dist`. -/
structure Maps (B : Bpf) where
  start : BoundedMap (BitVec 32) U64 B.startSize
  dist : BoundedMap Key U64 B.distSize

variable {B : Bpf} (args : Args)

/-- The maps when the program is loaded. -/
def Maps.empty : Maps B := ⟨.empty, .empty⟩

/-- `FILTER || pid == 0`. -/
def Args.skips (tgid pid : BitVec 32) : Bool :=
  (match args.pid with
    | some want => decide (tgid ≠ want)
    | none => false) || decide (pid = 0)

/-- `FACTOR`. -/
def Args.factor : U64 := if args.milliseconds then 1000000 else 1000

/-- The key of `STORE`. -/
def Args.key (prev : Ids) (tgid pid : BitVec 32) (slot : U64) : Key :=
  if args.pids ∨ args.tids then
    { id := some ((if args.tids then pid else tgid).setWidth 64), slot := slot }
  else if args.pidnss then { id := some (prev.pidns.setWidth 64), slot := slot }
  else { id := none, slot := slot }

/-- The plain histogram is an array of `distSize` counters, the others are hash tables. -/
def Key.inRange (B : Bpf) (key : Key) : Bool := key.id.isSome || decide (key.slot.toNat < B.distSize)

/-- `trace_enqueue`. -/
def traceEnqueue (tgid pid : BitVec 32) (ts : U64) (maps : Maps B) : Maps B :=
  if args.skips tgid pid then maps else { maps with start := maps.start.update pid ts }

/-- `STORE`. -/
def store (key : Key) (maps : Maps B) : Maps B :=
  if key.inRange B then { maps with dist := maps.dist.increment key } else maps

/-- The task that runs now is charged with its wait: the second half of both probes. -/
def account (prev : Ids) (tgid pid : BitVec 32) (now : U64) (maps : Maps B) : Maps B :=
  if args.skips tgid pid then maps
  else match maps.start.lookup pid with
    | none => maps
    | some tsp =>
        let delta := (now - tsp) / args.factor
        let maps := store (args.key prev tgid pid (B.log2l delta)) maps
        { maps with start := maps.start.delete pid }

/-- `trace_enqueue(p->tgid, p->pid)` for the `i`-th argument. -/
def traceEnqueueAt (i : ℕ) (ctx : Ctx) (ts : U64) (maps : Maps B) : Maps B :=
  let p := (ctx i).ids
  traceEnqueue args p.tgid p.pid ts maps

/-- `trace_wake_up_new_task(ctx, p)`. -/
def traceWakeUpNewTask (ctx : Ctx) (ts : U64) (maps : Maps B) : Maps B :=
  traceEnqueueAt args 0 ctx ts maps

/-- `trace_ttwu_do_wakeup(ctx, rq, p, wake_flags)`. -/
def traceTtwuDoWakeup (ctx : Ctx) (ts : U64) (maps : Maps B) : Maps B :=
  traceEnqueueAt args 1 ctx ts maps

/-- The probe of the raw tracepoint `sched_wakeup(p)`. -/
def schedWakeup (ctx : Ctx) (ts : U64) (maps : Maps B) : Maps B := traceEnqueueAt args 0 ctx ts maps

/-- The probe of the raw tracepoint `sched_wakeup_new(p)`. -/
def schedWakeupNew (ctx : Ctx) (ts : U64) (maps : Maps B) : Maps B := traceEnqueueAt args 0 ctx ts maps

/-- The probe of the raw tracepoint `sched_switch(preempt, prev, next)`. -/
def schedSwitch (ctx : Ctx) (ts now : U64) (maps : Maps B) : Maps B :=
  let prev := ctx 1
  let next := (ctx 2).ids
  let maps := if prev.state = Sched.TASK_RUNNING then traceEnqueue args prev.ids.tgid prev.ids.pid ts maps
    else maps
  account args prev.ids next.tgid next.pid now maps

/-- `bpf_get_current_pid_tgid`. -/
def bpfGetCurrentPidTgid (current : Ids) : U64 := current.tgid ++ current.pid

/-- `trace_run(ctx, prev)`, the probe of `finish_task_switch`: it runs on behalf of the next task. -/
def traceRun (ctx : Ctx) (current : Ids) (ts now : U64) (maps : Maps B) : Maps B :=
  let prev := ctx 0
  let maps := if prev.state = Sched.TASK_RUNNING then traceEnqueue args prev.ids.tgid prev.ids.pid ts maps
    else maps
  let tgid := (bpfGetCurrentPidTgid current >>> 32).setWidth 32
  let pid := (bpfGetCurrentPidTgid current).setWidth 32
  account args prev.ids tgid pid now maps

/-- Both ways of attaching the tool are the same, if each finds the tasks where it looks for them. -/
theorem traceRun_eq_schedSwitch {ctx ctx' : Ctx} (hprev : ctx 0 = ctx' 1) (ts now : U64)
    (maps : Maps B) :
    traceRun args ctx (ctx' 2).ids ts now maps = schedSwitch args ctx' ts now maps := by
  have htgid : (bpfGetCurrentPidTgid (ctx' 2).ids >>> 32).setWidth 32 = (ctx' 2).ids.tgid := by
    ext i hi
    have happ : (bpfGetCurrentPidTgid (ctx' 2).ids).getLsbD (32 + i) = (ctx' 2).ids.tgid.getLsbD i :=
      BitVec.getLsbD_append.trans (by simp)
    simpa [hi] using happ
  have hpid : (bpfGetCurrentPidTgid (ctx' 2).ids).setWidth 32 = (ctx' 2).ids.pid := by
    ext i hi
    have happ : (bpfGetCurrentPidTgid (ctx' 2).ids).getLsbD i = (ctx' 2).ids.pid.getLsbD i :=
      BitVec.getLsbD_append.trans (by simp [hi])
    simpa [hi] using happ
  unfold traceRun schedSwitch
  rw [htgid, hpid, hprev]

/-! ### What the probes do to the maps -/

variable {args} {maps : Maps B} {tgid pid : BitVec 32} {k : BitVec 32} {prev : Ids} {ts now : U64}

@[simp]
theorem store_start (key : Key) : (store key maps).start = maps.start := by
  unfold store
  split <;> rfl

@[simp]
theorem traceEnqueue_dist : (traceEnqueue args tgid pid ts maps).dist = maps.dist := by
  unfold traceEnqueue
  split <;> rfl

theorem traceEnqueue_lookup_of_ne (h : k ≠ pid) :
    (traceEnqueue args tgid pid ts maps).start.lookup k = maps.start.lookup k := by
  unfold traceEnqueue
  split
  · rfl
  · exact BoundedMap.lookup_update_of_ne h ts

theorem traceEnqueue_lookup_self (hs : args.skips tgid pid = false) (h : maps.start.Admits pid) :
    (traceEnqueue args tgid pid ts maps).start.lookup pid = some ts := by
  unfold traceEnqueue
  rw [hs]
  exact BoundedMap.lookup_update_of_admits h ts

theorem traceEnqueue_mem (h : k ∈ (traceEnqueue args tgid pid ts maps).start.entries.keys) :
    k = pid ∨ k ∈ maps.start.entries.keys := by
  unfold traceEnqueue at h
  split at h
  · exact .inr h
  · exact BoundedMap.mem_update h

theorem account_lookup_of_ne (h : k ≠ pid) :
    (account args prev tgid pid now maps).start.lookup k = maps.start.lookup k := by
  unfold account
  split
  · rfl
  split
  · rfl
  · dsimp only
    rw [store_start]
    exact BoundedMap.lookup_delete_of_ne h

theorem account_mem (h : k ∈ (account args prev tgid pid now maps).start.entries.keys) :
    k ∈ maps.start.entries.keys := by
  unfold account at h
  split at h
  · exact h
  split at h
  · exact h
  · dsimp only at h
    rw [store_start] at h
    exact BoundedMap.mem_delete h

/-- The histogram after a switch: nothing is counted for a task that is skipped or has no stamp. -/
theorem account_dist : (account args prev tgid pid now maps).dist =
    if args.skips tgid pid then maps.dist
    else match maps.start.lookup pid with
      | none => maps.dist
      | some tsp => (store (args.key prev tgid pid (B.log2l ((now - tsp) / args.factor))) maps).dist := by
  unfold account
  split
  · rfl
  split <;> rfl

end KernelHacking.Runqlat
