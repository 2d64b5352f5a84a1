import KernelHacking.Lib.Plist
import KernelHacking.Sched.Core

/-! # Real-time run-queues of several CPUs

What `CONFIG_SMP` adds to the real-time run-queues: the best priorities of a queue, the tasks that may be
pushed to another CPU, sorted by priority, and the mask of the CPUs with more real-time tasks than
they can run.  A `BUG_ON` or `WARN_ON` that fires is `none`.  What concerns time, `rq->nr_running` and
`cpupri` is left out: nothing here reads them. -/

namespace KernelHacking.Push

open KernelHacking.Sched

/-- `TASK_ON_RQ_MIGRATING`. -/
def TASK_ON_RQ_MIGRATING : ℕ := 2

/-- `struct task_struct`, what the balancing code reads of it. -/
structure Task (n : ℕ) where
  cpu : Fin n
  onRq : ℕ
  prio : ℤ
  schedClass : SchedClass
  cpusAllowed : Finset (Fin n)

/-- `nr_cpus_allowed`. -/
def Task.nrCpusAllowed {n : ℕ} (t : Task n) : ℕ := t.cpusAllowed.card

/-- `task_on_rq_queued`. -/
def Task.queued {n : ℕ} (t : Task n) : Bool := decide (t.onRq = TASK_ON_RQ_QUEUED)

/-- `rt_rq->highest_prio`. -/
structure HighestPrio where
  curr : ℤ
  next : ℤ

/-- `struct rt_rq`. -/
structure RtRq (α : Type) where
  active : RtPrioArray α
  rtNrRunning : ℕ
  highestPrio : HighestPrio
  rtNrMigratory : ℕ
  rtNrTotal : ℕ
  overloaded : Bool
  pushableTasks : Plist ℤ α

/-- The run-queues of a root domain, with its mask of overloaded CPUs. -/
structure RootDomain (n : ℕ) (α : Type) where
  rt : Fin n → RtRq α
  online : Fin n → Bool
  rtoMask : Finset (Fin n)
  rtoCount : ℤ

variable {n : ℕ} {α : Type} [DecidableEq α]

def RootDomain.setRt (rd : RootDomain n α) (c : Fin n) (rt : RtRq α) : RootDomain n α :=
  { rd with rt := Function.update rd.rt c rt }

/-! ### Overload -/

/-- `rt_set_overload`. -/
def rtSetOverload (c : Fin n) (rd : RootDomain n α) : RootDomain n α :=
  if rd.online c then { rd with rtoMask := insert c rd.rtoMask, rtoCount := rd.rtoCount + 1 } else rd

/-- `rt_clear_overload`. -/
def rtClearOverload (c : Fin n) (rd : RootDomain n α) : RootDomain n α :=
  if rd.online c then { rd with rtoMask := rd.rtoMask.erase c, rtoCount := rd.rtoCount - 1 } else rd

/-- `update_rt_migration`. -/
def updateRtMigration (c : Fin n) (rd : RootDomain n α) : RootDomain n α :=
  let rt := rd.rt c
  if rt.rtNrMigratory ≠ 0 ∧ 1 < rt.rtNrTotal then
    if rt.overloaded = false then (rtSetOverload c rd).setRt c { rt with overloaded := true } else rd
  else if rt.overloaded then (rtClearOverload c rd).setRt c { rt with overloaded := false } else rd

/-- What a task counts in `rt_nr_migratory`. -/
def Task.migratory (t : Task n) : ℕ := if 1 < t.nrCpusAllowed then 1 else 0

/-- `inc_rt_migration`. -/
def incRtMigration (t : Task n) (c : Fin n) (rd : RootDomain n α) : RootDomain n α :=
  let rt := rd.rt c
  updateRtMigration c (rd.setRt c { rt with
    rtNrTotal := rt.rtNrTotal + 1, rtNrMigratory := rt.rtNrMigratory + t.migratory })

/-- `dec_rt_migration`. -/
def decRtMigration (t : Task n) (c : Fin n) (rd : RootDomain n α) : RootDomain n α :=
  let rt := rd.rt c
  updateRtMigration c (rd.setRt c { rt with
    rtNrTotal := rt.rtNrTotal - 1, rtNrMigratory := rt.rtNrMigratory - t.migratory })

/-! ### The priority array -/

/-- `inc_rt_prio`. -/
def incRtPrio (prio : ℤ) (rt : RtRq α) : RtRq α :=
  if prio < rt.highestPrio.curr then
    { rt with highestPrio := { rt.highestPrio with curr := prio } }
  else rt

/-- The priority of the first bit, or that of the delimiter behind the last one. -/
def firstPrio (a : RtPrioArray α) : ℤ :=
  match schedFindFirstBit a with
  | some i => i
  | none => MAX_RT_PRIO

/-- `dec_rt_prio`. -/
def decRtPrio (prio : ℤ) (rt : RtRq α) : Option (RtRq α) :=
  if rt.rtNrRunning ≠ 0 then
    if prio < rt.highestPrio.curr then none
    else if prio = rt.highestPrio.curr then
      some { rt with highestPrio := { rt.highestPrio with curr := firstPrio rt.active } }
    else some rt
  else some { rt with highestPrio := { rt.highestPrio with curr := MAX_RT_PRIO } }

/-- The priority has a queue. -/
def RtRange (prio : ℤ) : Prop := 0 ≤ prio ∧ prio < MAX_RT_PRIO

instance (prio : ℤ) : Decidable (RtRange prio) := inferInstanceAs (Decidable (_ ∧ _))

/-- `list_add` or `list_add_tail`, and `__set_bit`. -/
def linkEntity (prio : ℤ) (p : α) (head : Bool) (a : RtPrioArray α) : RtPrioArray α where
  bitmap := Function.update a.bitmap prio.toNat true
  queue := Function.update a.queue prio.toNat
    (if head then p :: a.queue prio.toNat else a.queue prio.toNat ++ [p])

/-- `list_del_init`, and `__clear_bit` for a queue that becomes empty. -/
def unlinkEntity (prio : ℤ) (p : α) (a : RtPrioArray α) : RtPrioArray α where
  bitmap :=
    if (a.queue prio.toNat).erase p = [] then Function.update a.bitmap prio.toNat false else a.bitmap
  queue i := (a.queue i).erase p

/-- `__enqueue_rt_entity`, with `inc_rt_tasks`. -/
def __enqueueRtEntity (t : Task n) (p : α) (head : Bool) (c : Fin n) (rd : RootDomain n α) :
    Option (RootDomain n α) :=
  if RtRange t.prio then
    let rt := rd.rt c
    let rt := { rt with
      active := linkEntity t.prio p head rt.active
      rtNrRunning := rt.rtNrRunning + 1 }
    some (incRtMigration t c (rd.setRt c (incRtPrio t.prio rt)))
  else none

/-- `__dequeue_rt_entity`, with `dec_rt_tasks`. -/
def __dequeueRtEntity (t : Task n) (p : α) (c : Fin n) (rd : RootDomain n α) :
    Option (RootDomain n α) :=
  if RtRange t.prio ∧ (rd.rt c).rtNrRunning ≠ 0 then
    let rt := rd.rt c
    let rt := { rt with
      active := unlinkEntity t.prio p rt.active
      rtNrRunning := rt.rtNrRunning - 1 }
    (decRtPrio t.prio rt).map fun rt => decRtMigration t c (rd.setRt c rt)
  else none

/-- `enqueue_rt_entity`. -/
def enqueueRtEntity (t : Task n) (p : α) (head : Bool) (c : Fin n) (rd : RootDomain n α) :
    Option (RootDomain n α) :=
  (if onRtRq (rd.rt c).active p then __dequeueRtEntity t p c rd else some rd).bind
    (__enqueueRtEntity t p head c)

/-- `dequeue_rt_entity`. -/
def dequeueRtEntity (t : Task n) (p : α) (c : Fin n) (rd : RootDomain n α) :
    Option (RootDomain n α) :=
  if onRtRq (rd.rt c).active p then __dequeueRtEntity t p c rd else some rd

/-- `requeue_rt_entity`. -/
def requeueRtEntity (t : Task n) (p : α) (head : Bool) (rt : RtRq α) : RtRq α :=
  if onRtRq rt.active p then
    let queue i := (rt.active.queue i).erase p
    let i := t.prio.toNat
    { rt with active := { rt.active with
      queue := Function.update queue i (if head then p :: queue i else queue i ++ [p]) } }
  else rt

/-! ### Pushable tasks -/

/-- `enqueue_pushable_task`. -/
def enqueuePushableTask (prio : ℤ) (p : α) (rt : RtRq α) : RtRq α :=
  let rt := { rt with pushableTasks := rt.pushableTasks.add prio p }
  if prio < rt.highestPrio.next then
    { rt with highestPrio := { rt.highestPrio with next := prio } }
  else rt

/-- `dequeue_pushable_task`. -/
def dequeuePushableTask (task : α → Task n) (p : α) (rt : RtRq α) : RtRq α :=
  let rt := { rt with pushableTasks := rt.pushableTasks.del p }
  match rt.pushableTasks.nodes.head? with
  | some first => { rt with highestPrio := { rt.highestPrio with next := (task first.2).prio } }
  | none => { rt with highestPrio := { rt.highestPrio with next := MAX_RT_PRIO } }

/-! ### The callbacks of the class -/

variable (task : α → Task n) (curr : Fin n → α)

/-- `enqueue_task_rt`. -/
def enqueueTaskRt (p : α) (head : Bool) (c : Fin n) (rd : RootDomain n α) :
    Option (RootDomain n α) :=
  (enqueueRtEntity (task p) p head c rd).map fun rd =>
    if curr c ≠ p ∧ 1 < (task p).nrCpusAllowed then
      rd.setRt c (enqueuePushableTask (task p).prio p (rd.rt c))
    else rd

/-- `dequeue_task_rt`. -/
def dequeueTaskRt (p : α) (c : Fin n) (rd : RootDomain n α) : Option (RootDomain n α) :=
  (dequeueRtEntity (task p) p c rd).map fun rd => rd.setRt c (dequeuePushableTask task p (rd.rt c))

/-- `put_prev_task_rt`. -/
def putPrevTaskRt (p : α) (c : Fin n) (rd : RootDomain n α) : RootDomain n α :=
  if onRtRq (rd.rt c).active p ∧ 1 < (task p).nrCpusAllowed then
    rd.setRt c (enqueuePushableTask (task p).prio p (rd.rt c))
  else rd

/-- `set_curr_task_rt`. -/
def setCurrTaskRt (p : α) (c : Fin n) (rd : RootDomain n α) : RootDomain n α :=
  rd.setRt c (dequeuePushableTask task p (rd.rt c))

/-- `set_cpus_allowed_rt`. -/
def setCpusAllowedRt (p : α) (newMask : Finset (Fin n)) (rd : RootDomain n α) :
    Option (RootDomain n α) :=
  let t := task p
  let c := t.cpu
  let rt := rd.rt c
  if ¬ t.prio < MAX_RT_PRIO then none
  else if t.queued = false then some rd
  else if (1 < t.nrCpusAllowed ↔ 1 < newMask.card) then some rd
  else if newMask.card ≤ 1 then
    let rt := if curr c ≠ p then dequeuePushableTask task p rt else rt
    if rt.rtNrMigratory = 0 then none
    else some (updateRtMigration c (rd.setRt c { rt with rtNrMigratory := rt.rtNrMigratory - 1 }))
  else
    let rt := if curr c ≠ p then enqueuePushableTask t.prio p rt else rt
    some (updateRtMigration c (rd.setRt c { rt with rtNrMigratory := rt.rtNrMigratory + 1 }))

end KernelHacking.Push
