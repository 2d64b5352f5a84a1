import KernelHacking.Smp.PushQueue

/-! # Balancing real-time tasks between CPUs

The steps that change the real-time run-queues of several CPUs, each of them what one CPU does while it holds
the locks of the run-queues concerned: wake-ups, switches, changes of priority and affinity, the
migration of a queued task in two halves, and `push_rt_task` and `pull_rt_task`, which may have to
drop a lock on their way.  What they read without a lock and which class provides the next task is left
open: an unlocked test of `pull_rt_task` only skips a CPU, and throttling may hold back the real-time
tasks.  What `cpupri_find` answers is a parameter of `find_lowest_rq`. -/

namespace KernelHacking.Push

open KernelHacking.Sched

/-- The tasks, those that run, and the run-queues. -/
structure State (n : ℕ) (α : Type) where
  task : α → Task n
  curr : Fin n → α
  rd : RootDomain n α

variable {n : ℕ} {α : Type} [DecidableEq α]

/-! ### `find_lowest_rq` -/

/-- `struct sched_domain`: the flag `SD_WAKE_AFFINE` and `sched_domain_span`. -/
structure SchedDomain (n : ℕ) where
  wakeAffine : Bool
  span : Finset (Fin n)

/-- What `find_lowest_rq` finds: the CPU it runs on, whether there is a `local_cpu_mask`, what
`cpupri_find` fills it with if it finds CPUs, and the domains of the CPU of the task. -/
structure Surroundings (n : ℕ) where
  thisCpu : Fin n
  localCpuMask : Bool
  cpupriFind : Option (Finset (Fin n))
  domains : List (SchedDomain n)

/-- `cpumask_first_and`. -/
def cpumaskFirstAnd (a b : Finset (Fin n)) : Option (Fin n) :=
  (List.finRange n).find? fun c => decide (c ∈ a ∧ c ∈ b)

/-- `cpumask_any`. -/
def cpumaskAny (a : Finset (Fin n)) : Option (Fin n) := cpumaskFirstAnd a a

/-- The loop of `find_lowest_rq` over the domains. -/
def closestInDomain (thisCpu : Option (Fin n)) (lowestMask : Finset (Fin n)) :
    List (SchedDomain n) → Option (Fin n)
  | [] => none
  | sd :: domains =>
      if sd.wakeAffine then
        if thisCpu.any (fun c => decide (c ∈ sd.span)) then thisCpu
        else
          match cpumaskFirstAnd lowestMask sd.span with
          | some bestCpu => some bestCpu
          | none => closestInDomain thisCpu lowestMask domains
      else closestInDomain thisCpu lowestMask domains

/-- `find_lowest_rq`; `none` is `-1`. -/
def findLowestRq (t : Task n) (sur : Surroundings n) : Option (Fin n) :=
  if sur.localCpuMask = false then none
  else if t.nrCpusAllowed = 1 then none
  else
    match sur.cpupriFind with
    | none => none
    | some lowestMask =>
        if t.cpu ∈ lowestMask then some t.cpu
        else
          let thisCpu := if sur.thisCpu ∈ lowestMask then some sur.thisCpu else none
          match closestInDomain thisCpu lowestMask sur.domains with
          | some cpu => some cpu
          | none =>
              match thisCpu with
              | some cpu => some cpu
              | none => cpumaskAny lowestMask

theorem cpumaskFirstAnd_mem {a b : Finset (Fin n)} {c : Fin n} (h : cpumaskFirstAnd a b = some c) :
    c ∈ a := by
  have hc := List.find?_some h
  exact (of_decide_eq_true hc).1

theorem closestInDomain_mem {thisCpu : Option (Fin n)} {lowestMask : Finset (Fin n)}
    {domains : List (SchedDomain n)} {c : Fin n} (hthis : ∀ c, thisCpu = some c → c ∈ lowestMask)
    (h : closestInDomain thisCpu lowestMask domains = some c) : c ∈ lowestMask := by
  induction domains with
  | nil => cases h
  | cons sd domains ih =>
      unfold closestInDomain at h
      split at h
      · split at h
        · exact hthis c h
        · split at h
          · rename_i hbest
            cases h
            exact cpumaskFirstAnd_mem hbest
          · exact ih h
      · exact ih h

/-- **The answer is one of the CPUs that `cpupri_find` has found**, whatever the domains. -/
theorem findLowestRq_mem {t : Task n} {sur : Surroundings n} {c : Fin n}
    (h : findLowestRq t sur = some c) : ∃ mask, sur.cpupriFind = some mask ∧ c ∈ mask := by
  unfold findLowestRq at h
  split at h
  · cases h
  split at h
  · cases h
  split at h
  · cases h
  rename_i lowestMask hfind
  refine ⟨lowestMask, hfind, ?_⟩
  split at h
  · rename_i hcpu
    cases h
    exact hcpu
  have hthis : ∀ c, (if sur.thisCpu ∈ lowestMask then some sur.thisCpu else none) = some c →
      c ∈ lowestMask := by
    intro c hc
    split at hc
    · rename_i hmem
      cases hc
      exact hmem
    · cases hc
  dsimp only at h
  split at h
  · rename_i hclosest
    cases h
    exact closestInDomain_mem hthis hclosest
  split at h
  · rename_i hsome
    cases h
    exact hthis c hsome
  · exact cpumaskFirstAnd_mem h

namespace State

def setTask (s : State n α) (p : α) (t : Task n) : State n α :=
  { s with task := Function.update s.task p t }

/-! ### Callbacks by class -/

/-- `enqueue_task`; the queues of the other classes are left out. -/
def enqueueTask (p : α) (head : Bool) (c : Fin n) (s : State n α) : Option (State n α) :=
  if (s.task p).schedClass = .rt then
    (enqueueTaskRt s.task s.curr p head c s.rd).map fun rd => { s with rd := rd }
  else some s

/-- `dequeue_task`. -/
def dequeueTask (p : α) (c : Fin n) (s : State n α) : Option (State n α) :=
  if (s.task p).schedClass = .rt then
    (dequeueTaskRt s.task p c s.rd).map fun rd => { s with rd := rd }
  else some s

/-- `put_prev_task`. -/
def putPrevTask (p : α) (c : Fin n) (s : State n α) : State n α :=
  if (s.task p).schedClass = .rt then { s with rd := putPrevTaskRt s.task p c s.rd } else s

/-- `p->sched_class->set_curr_task`, and the end of `pick_next_task` for the task it has chosen. -/
def setCurrTask (p : α) (c : Fin n) (s : State n α) : State n α :=
  if (s.task p).schedClass = .rt then { s with rd := setCurrTaskRt s.task p c s.rd } else s

/-! ### The core -/

/-- `set_task_cpu`. -/
def setTaskCpu (p : α) (c : Fin n) (s : State n α) : State n α :=
  s.setTask p { s.task p with cpu := c }

def setOnRq (p : α) (onRq : ℕ) (s : State n α) : State n α :=
  s.setTask p { s.task p with onRq := onRq }

/-- `ttwu_activate` on the CPU that was selected, or `wake_up_new_task`. -/
def ttwuActivate (p : α) (c : Fin n) (s : State n α) : Option (State n α) :=
  (enqueueTask p false c (setTaskCpu p c s)).map (setOnRq p TASK_ON_RQ_QUEUED)

/-- `__schedule`, where the task that runs blocks. -/
def deactivateCurr (c : Fin n) (s : State n α) : Option (State n α) :=
  (dequeueTask (s.curr c) c s).map (setOnRq (s.curr c) 0)

/-- `pick_next_task` and the switch. -/
def switchTo (c : Fin n) (next : α) (s : State n α) : State n α :=
  let s := setCurrTask next c (putPrevTask (s.curr c) c s)
  { s with curr := Function.update s.curr c next }

/-- `rt_mutex_setprio` and `__sched_setscheduler`: another priority and class. -/
def setprio (p : α) (prio : ℤ) (schedClass : SchedClass) (head : Bool) (s : State n α) :
    Option (State n α) :=
  let c := (s.task p).cpu
  let queued := (s.task p).queued
  let running := decide (s.curr c = p)
  (if queued then dequeueTask p c s else some s).bind fun s =>
    let s := if running then putPrevTask p c s else s
    let s := s.setTask p { s.task p with prio := prio, schedClass := schedClass }
    let s := if running then setCurrTask p c s else s
    if queued then enqueueTask p head c s else some s

/-- `do_set_cpus_allowed`. -/
def doSetCpusAllowed (p : α) (newMask : Finset (Fin n)) (s : State n α) : Option (State n α) :=
  (if (s.task p).schedClass = .rt then
    (setCpusAllowedRt s.task s.curr p newMask s.rd).map fun rd => { s with rd := rd }
  else some s).map fun s => s.setTask p { s.task p with cpusAllowed := newMask }

/-- `move_queued_task` up to the release of the first lock. -/
def leaveQueue (p : α) (newCpu : Fin n) (s : State n α) : Option (State n α) :=
  (dequeueTask p (s.task p).cpu s).map fun s =>
    setTaskCpu p newCpu (setOnRq p TASK_ON_RQ_MIGRATING s)

/-- `move_queued_task` with the lock of the new run-queue. -/
def arriveQueue (p : α) (s : State n α) : Option (State n α) :=
  enqueueTask p false (s.task p).cpu (setOnRq p TASK_ON_RQ_QUEUED s)

/-- `requeue_task_rt`. -/
def requeueTaskRt (p : α) (head : Bool) (s : State n α) : State n α :=
  let c := (s.task p).cpu
  { s with rd := s.rd.setRt c (requeueRtEntity (s.task p) p head (s.rd.rt c)) }

/-- `set_rq_online`, with `rq_online_rt`. -/
def setRqOnline (c : Fin n) (s : State n α) : State n α :=
  if s.rd.online c then s
  else
    let rd := { s.rd with online := Function.update s.rd.online c true }
    { s with rd := if (rd.rt c).overloaded then rtSetOverload c rd else rd }

/-- `set_rq_offline`, with `rq_offline_rt`. -/
def setRqOffline (c : Fin n) (s : State n α) : State n α :=
  if s.rd.online c then
    let rd := if (s.rd.rt c).overloaded then rtClearOverload c s.rd else s.rd
    { s with rd := { rd with online := Function.update rd.online c false } }
  else s

/-! ### Push -/

/-- `deactivate_task`, `set_task_cpu` and `activate_task` with both locks. -/
def moveTask (p : α) (src dst : Fin n) (s : State n α) : Option (State n α) :=
  (dequeueTask p src s).bind fun s => enqueueTask p false dst (setTaskCpu p dst s)

/-- `pick_next_pushable_task`. -/
def pickNextPushableTask (c : Fin n) (s : State n α) : Option (Option α) :=
  match (s.rd.rt c).pushableTasks.nodes.head? with
  | none => some none
  | some (_, p) =>
      let t := s.task p
      if t.cpu = c ∧ s.curr c ≠ p ∧ 1 < t.nrCpusAllowed ∧ t.queued = true ∧ t.prio < MAX_RT_PRIO then
        some (some p)
      else none

/-- `push_rt_task` up to `find_lock_lowest_rq`, from the start or from `retry`: the task to be pushed. -/
def nextTask (c : Fin n) (retry : Bool) (s : State n α) : Option (Option α) :=
  if (s.rd.rt c).overloaded = false ∧ retry = false then some none
  else
    (pickNextPushableTask c s).bind fun
      | none => some none
      | some p =>
          if p = s.curr c then none
          else if (s.task p).prio < (s.task (s.curr c)).prio then some none
          else some (some p)

/-- `push_rt_task` without a run-queue to push to: it looks at the pushable tasks again. -/
def pushNowhere (c : Fin n) (s : State n α) : Option (State n α) :=
  (pickNextPushableTask c s).map fun _ => s

/-- The end of `find_lock_lowest_rq` and of `push_rt_task` with both locks. -/
def pushTo (p : α) (c lowest : Fin n) (s : State n α) : Option (State n α) :=
  if (s.task p).prio < (s.rd.rt lowest).highestPrio.curr then moveTask p c lowest s
  else pushNowhere c s

/-- `push_rt_task` where no lock is dropped. -/
def pushRtTask (c : Fin n) (retry : Bool) (sur : Surroundings n) (s : State n α) :
    Option (State n α) :=
  (nextTask c retry s).bind fun
    | none => some s
    | some p =>
        match findLowestRq (s.task p) sur with
        | none => pushNowhere c s
        | some cpu => if cpu = c then pushNowhere c s else pushTo p c cpu s

/-- `task_running`: the task runs, or it has just been switched out and `on_cpu` is still set. -/
def taskRunning (leaving : Finset α) (p : α) (c : Fin n) (s : State n α) : Prop :=
  s.curr c = p ∨ p ∈ leaving

instance (leaving : Finset α) (p : α) (c : Fin n) (s : State n α) :
    Decidable (taskRunning leaving p c s) := inferInstanceAs (Decidable (_ ∨ _))

/-- `push_rt_task` from `double_lock_balance` on, which had dropped the lock after the task was picked. -/
def pushAgain (p : α) (c lowest : Fin n) (leaving : Finset α) (s : State n α) : Option (State n α) :=
  if (s.task p).cpu ≠ c ∨ lowest ∉ (s.task p).cpusAllowed ∨ taskRunning leaving p c s ∨
      (s.task p).queued = false then
    pushNowhere c s
  else pushTo p c lowest s

/-! ### Pull -/

/-- `pick_rt_task`. -/
def pickRtTask (leaving : Finset α) (src c : Fin n) (s : State n α) (p : α) : Prop :=
  ¬ taskRunning leaving p src s ∧ c ∈ (s.task p).cpusAllowed

instance (leaving : Finset α) (src c : Fin n) (s : State n α) (p : α) :
    Decidable (pickRtTask leaving src c s p) := inferInstanceAs (Decidable (_ ∧ _))

/-- `pick_highest_pushable_task`. -/
def pickHighestPushableTask (leaving : Finset α) (src c : Fin n) (s : State n α) : Option α :=
  ((s.rd.rt src).pushableTasks.nodes.find? fun x => decide (pickRtTask leaving src c s x.2)).map
    Prod.snd

/-- One round of `pull_rt_task`, with both locks. -/
def pullRtTask (c src : Fin n) (leaving : Finset α) (s : State n α) : Option (State n α) :=
  match pickHighestPushableTask leaving src c s with
  | none => some s
  | some p =>
      if (s.task p).prio < (s.rd.rt c).highestPrio.curr then
        if p = s.curr src ∨ (s.task p).queued = false then none
        else if (s.task p).prio < (s.task (s.curr src)).prio then some s
        else moveTask p src c s
      else some s

end State

/-! ### Steps -/

/-- What the CPUs do, in any order. -/
inductive Step (n : ℕ) (α : Type) where
  | ttwuActivate (p : α) (c : Fin n)
  | deactivateCurr (c : Fin n)
  | switchTo (c : Fin n) (next : α)
  | setprio (p : α) (prio : ℤ) (schedClass : SchedClass) (head : Bool)
  | setCpusAllowed (p : α) (newMask : Finset (Fin n))
  | leaveQueue (p : α) (newCpu : Fin n)
  | arriveQueue (p : α)
  | requeue (p : α) (head : Bool)
  | setRqOnline (c : Fin n)
  | setRqOffline (c : Fin n)
  | push (c : Fin n) (retry : Bool) (sur : Surroundings n)
  | pushAgain (p : α) (c lowest : Fin n) (leaving : Finset α)
  | pull (c src : Fin n) (leaving : Finset α)

/-- The step; `none` if a `BUG_ON` or a `WARN_ON` fires. -/
def Step.apply (s : State n α) : Step n α → Option (State n α)
  | .ttwuActivate p c => s.ttwuActivate p c
  | .deactivateCurr c => s.deactivateCurr c
  | .switchTo c next => some (s.switchTo c next)
  | .setprio p prio schedClass head => s.setprio p prio schedClass head
  | .setCpusAllowed p newMask => s.doSetCpusAllowed p newMask
  | .leaveQueue p newCpu => s.leaveQueue p newCpu
  | .arriveQueue p => s.arriveQueue p
  | .requeue p head => some (s.requeueTaskRt p head)
  | .setRqOnline c => some (s.setRqOnline c)
  | .setRqOffline c => some (s.setRqOffline c)
  | .push c retry sur => s.pushRtTask c retry sur
  | .pushAgain p c lowest leaving => s.pushAgain p c lowest leaving
  | .pull c src leaving => s.pullRtTask c src leaving

/-- What the callers see to.  A task that sleeps is woken up when no CPU runs it any more; the next task is
a queued one of that CPU; `task_rq_lock` waits for a task that migrates; the stopper moves no task that
runs; and `cpupri_find` finds only CPUs that the task may use.  The task that was picked before a lock was
dropped, and the CPU that was found for it, may be any, since anything may have happened since. -/
def Step.Enabled (s : State n α) : Step n α → Prop
  | .ttwuActivate p _ => (s.task p).onRq = 0 ∧ ∀ d, s.curr d ≠ p
  | .deactivateCurr c => (s.task (s.curr c)).queued = true
  | .switchTo c next => (s.task next).queued = true ∧ (s.task next).cpu = c
  | .setprio p prio schedClass _ =>
      (s.task p).onRq ≠ TASK_ON_RQ_MIGRATING ∧ (schedClass = .rt → RtRange prio)
  | .setCpusAllowed p _ => (s.task p).onRq ≠ TASK_ON_RQ_MIGRATING
  | .leaveQueue p _ => (s.task p).queued = true ∧ s.curr (s.task p).cpu ≠ p
  | .arriveQueue p => (s.task p).onRq = TASK_ON_RQ_MIGRATING
  | .push c retry sur => ∀ p, s.nextTask c retry = some (some p) →
      ∀ mask, sur.cpupriFind = some mask → mask ⊆ (s.task p).cpusAllowed
  | .pushAgain _ c lowest _ => lowest ≠ c
  | .pull c src _ => src ≠ c
  | _ => True

/-- `init_rt_rq`. -/
def initRtRq : RtRq α where
  active := ⟨fun _ => false, fun _ => []⟩
  rtNrRunning := 0
  highestPrio := { curr := MAX_RT_PRIO, next := MAX_RT_PRIO }
  rtNrMigratory := 0
  rtNrTotal := 0
  overloaded := false
  pushableTasks := .empty

/-- At boot nothing is queued on a real-time run-queue. -/
structure Boot (s : State n α) : Prop where
  cpu : ∀ c, (s.task (s.curr c)).cpu = c
  range : ∀ p, (s.task p).schedClass = .rt → RtRange (s.task p).prio
  off : ∀ p, (s.task p).schedClass = .rt → (s.task p).queued = false
  rt : ∀ c, s.rd.rt c = initRtRq
  rtoMask : s.rd.rtoMask = ∅
  rtoCount : s.rd.rtoCount = 0

/-- The runs. -/
inductive Reaches (s₀ : State n α) : State n α → Prop where
  | boot : Reaches s₀ s₀
  | step {s s' : State n α} (e : Step n α) :
      Reaches s₀ s → e.Enabled s → e.apply s = some s' → Reaches s₀ s'

end KernelHacking.Push
