import KernelHacking.Sched.StepSpec

/-! # Runs of the scheduler

A run starts on a machine as it boots, with the idle task running and nothing queued, and takes
steps in any order and number: wake-ups, forks, `__schedule`, and the functions that change class
and priority.  `Run.inv` carries the invariant through a run, together with the monitor of the
ring; `Step.exists_ends` says that no step of a run faults or hangs.  The rest of the module reads
off them what holds in every run: where the runnable tasks are, what the circular pick returns,
that the counters agree, and that every call of the list functions meets its precondition. -/

namespace KernelHacking.Sched

open TraceProg PtrRing Word Prog

variable {α : Type} [DecidableEq α] [Fintype α] {K : Kernel α}

/-! ### Steps -/

/-- The steps of a run.  `setState` is a task's own `set_current_state`. -/
inductive Step (α : Type) where
  | setState (p : α) (state : ℕ)
  | tryToWakeUp (p : α) (state wakeFlags : ℕ)
  | wakeUpNewTask (p : α)
  | fork (p : α) (mm kthread : Bool)
  | schedule (signalPending preemptActive : Bool) (toWakeup : Option α)
  | setUserNice (p : α) (nice : ℤ)
  | rtMutexSetprio (p : α) (prio : ℤ) (piPreempts : Bool)
  | schedSetscheduler (p : α) (attr : SchedAttr) (env : SetschedEnv)
  | schedMoveTask (p : α)
  | schedYield
  | taskSchedRuntime (p : α)

/-- Run a step for its effect. -/
def completed {β : Type} (x : CoreM K β) : CoreM K Bool := do
  let _ ← x
  pure true

/-- The code of a step, and whether the run goes on with its outcome: the task of a fork that
fails is freed. -/
def Step.prog : Step α → CoreM K Bool
  | .setState p state => completed (modifyTask p fun t => { t with state := state })
  | .tryToWakeUp p state wakeFlags => completed (Sched.tryToWakeUp p state wakeFlags)
  | .wakeUpNewTask p => completed (Sched.wakeUpNewTask p)
  | .fork p mm kthread => do
      let r ← Sched.fork p mm kthread
      pure (decide (r = 0))
  | .schedule signalPending preemptActive toWakeup =>
      completed (__schedule signalPending preemptActive toWakeup)
  | .setUserNice p nice => completed (Sched.setUserNice p nice)
  | .rtMutexSetprio p prio piPreempts => completed (Sched.rtMutexSetprio p prio piPreempts)
  | .schedSetscheduler p attr env => completed (__schedSetscheduler p attr env)
  | .schedMoveTask p => completed (Sched.schedMoveTask p)
  | .schedYield => completed Sched.schedYield
  | .taskSchedRuntime p => completed (Sched.taskSchedRuntime p)

/-- What the callers see to.  Only a task that is off the run-queue is woken as a new one or set up
by a fork; the idle task is not put to sleep, reniced or moved, and does not yield; priorities
and nice values are in their range. -/
def Step.Enabled (m : Machine K) : Step α → Prop
  | .setState p _ => p ≠ m.cpu.rq.idle
  | .wakeUpNewTask p => taskOnRqQueued (m.task p) = false
  | .fork p _ _ => taskOnRqQueued (m.task p) = false
  | .setUserNice p _ => p ≠ m.cpu.rq.idle
  | .rtMutexSetprio _ prio _ => prio ≤ MAX_PRIO
  | .schedSetscheduler p attr _ =>
      p ≠ m.cpu.rq.idle ∧ MIN_NICE ≤ attr.schedNice ∧ attr.schedNice ≤ MAX_NICE
  | .schedMoveTask p => p ≠ m.cpu.rq.idle
  | .schedYield => m.cpu.rq.curr ≠ m.cpu.rq.idle
  | .tryToWakeUp .. | .schedule .. | .taskSchedRuntime _ => True

/-- The machine as it boots: a zeroed `circ_rq`, no task queued anywhere, the idle task running. -/
structure Boot (m : Machine K) : Prop where
  circ : m.cpu.rq.circ = ⟨⟨none, none, 0⟩, none, 0, 0⟩
  se : ∀ p, (m.cpu.se p).onRq = false
  rtQueue : ∀ i, m.cpu.rq.rt.active.queue i = []
  rtBitmap : ∀ i, m.cpu.rq.rt.active.bitmap i = false
  rtNr : m.cpu.rq.rt.rtNrRunning = 0
  rtQueued : m.cpu.rq.rt.rtQueued = false
  foreign : ∀ f, m.cpu.rq.queued f = ∅
  nr : m.cpu.rq.nrRunning = 0
  cfs : m.cpu.rq.cfs.hNrRunning = 0
  curr : m.cpu.rq.curr = m.cpu.rq.idle
  tasks : TasksOk m.task m.cpu.rq.idle m.cpu.rq.stop
  off : ∀ p, p ≠ m.cpu.rq.idle → (m.task p).onRq = 0

/-- Runs, with the trace of all their steps. -/
inductive Run (m₀ : Machine K) : List (Event K) → Machine K → Prop where
  | refl : Run m₀ [] m₀
  | step {t t' : List (Event K)} {m m' : Machine K} (e : Step α) : Run m₀ t m → e.Enabled m →
      e.prog.Ends m true m' t' → Run m₀ (t ++ t') m'

/-! ### The invariant of a run -/

section
variable {m₀ m m' : Machine K} {t : List (Event K)} {xs : List α}

theorem completed_spec {β : Type} {x : CoreM K β} {g : List α}
    {Q : Machine K → List α → Prop}
    (h : x.mwp ringMonitor m g (fun _ m' xs' => Q m' xs')) :
    (completed x).mwp ringMonitor m g (fun b m' xs' => b = true → Q m' xs') := by
  refine mwp.seq h ?_
  intro _ m' xs' hQ
  exact mwp_ret.mpr fun _ => hQ

/-- **Every step keeps the invariant**, and every event it causes is admissible. -/
theorem Step.prog_spec (h : Inv m xs) {e : Step α} (he : e.Enabled m) :
    e.prog.mwp ringMonitor m xs (fun b m' xs' => b = true → Inv m' xs') := by
  have hdrop : ∀ {β : Type} {x : CoreM K β},
      x.mwp ringMonitor m xs (fun _ m' xs' => Inv m' xs' ∧ SameRq m m') →
      (completed x).mwp ringMonitor m xs (fun b m' xs' => b = true → Inv m' xs') := by
    intro β x hx
    exact completed_spec (hx.mono fun _ _ _ hQ => hQ.1)
  cases e with
  | setState p state =>
      apply completed_spec
      rw [mwp_modifyTask]
      exact h.of_task he rfl rfl rfl (h.tasks.static p)
  | tryToWakeUp p state wakeFlags => exact hdrop (tryToWakeUp_spec h state wakeFlags)
  | wakeUpNewTask p => exact hdrop (wakeUpNewTask_spec h he)
  | fork p mm kthread =>
      refine mwp.seq (fork_spec h he mm kthread) ?_
      intro r m' xs' hr
      rw [mwp_ret]
      intro hb
      exact (hr (of_decide_eq_true hb)).1
  | schedule signalPending preemptActive toWakeup =>
      exact completed_spec (__schedule_spec h signalPending preemptActive toWakeup)
  | setUserNice p nice => exact hdrop (setUserNice_spec h he nice)
  | rtMutexSetprio p prio piPreempts => exact hdrop (rtMutexSetprio_spec h he piPreempts)
  | schedSetscheduler p attr env => exact hdrop (__schedSetscheduler_spec h he.1 he.2 env)
  | schedMoveTask p => exact hdrop (schedMoveTask_spec h he)
  | schedYield => exact hdrop (schedYield_spec h he)
  | taskSchedRuntime p => exact hdrop (taskSchedRuntime_spec h)

/-- No step faults, and none runs for ever. -/
theorem Step.exists_ends (h : Inv m xs) {e : Step α} (he : e.Enabled m) :
    ∃ b m' t, e.prog.Ends m b m' t := (Step.prog_spec h he).exists_ends

theorem Boot.off_queued (h : Boot m) {p : α} (hp : p ≠ m.cpu.rq.idle) :
    taskOnRqQueued (m.task p) = false := by
  unfold taskOnRqQueued
  rw [h.off p hp]
  rfl

/-- At boot only the idle task is on an account, that of its own class. -/
theorem Boot.home_ne (h : Boot m) {k : SchedClass} (hk : k ≠ .idle) (p : α) :
    home m.task p ≠ some k := by
  intro e
  obtain ⟨hq, hc⟩ := home_eq_some.mp e
  by_cases hp : p = m.cpu.rq.idle
  · rw [hp, h.tasks.idleClass] at hc
    exact hk hc.symm
  · rw [h.off_queued hp] at hq
    cases hq

theorem Boot.onClass_eq (h : Boot m) {k : SchedClass} (hk : k ≠ .idle) :
    onClass (home m.task) k = ∅ := by
  rw [Finset.eq_empty_iff_forall_notMem]
  intro p hp
  exact h.home_ne hk p (mem_onClass.mp hp)

/-- The invariant holds at boot, with an empty ring. -/
theorem Boot.inv (h : Boot m) : Inv m [] := by
  have hcirc : ∀ p, home m.task p ≠ some .circular := h.home_ne (by decide)
  have hrt : ∀ p, home m.task p ≠ some .rt := h.home_ne (by decide)
  have hadded : m.cpu.rq.rt.added = 0 := by unfold RtRq.added; rw [h.rtQueued]; rfl
  refine ⟨⟨⟨rfl, ⟨?_, ?_, ?_, ?_, ?_⟩, ⟨?_, ?_, ?_, ?_, ?_, ?_⟩, ?_, ?_, h.cfs⟩, ?_, h.tasks⟩, ?_⟩
  · rw [h.circ]; exact Represents.nil _ rfl rfl
  · intro p; simp [h.se p, hcirc p]
  · intro p; simp [hcirc p]
  · rw [h.circ, h.onClass_eq (by decide)]; rfl
  · rw [h.circ, h.onClass_eq (by decide)]; rfl
  · intro p i; simp [h.rtQueue i, hrt p]
  · intro p hp; exact absurd hp (hrt p)
  · intro i; rw [h.rtQueue i]; exact List.nodup_nil
  · intro i; simp [h.rtQueue i, h.rtBitmap i]
  · rw [h.rtNr, h.onClass_eq (by decide)]; rfl
  · intro hq; rw [h.rtQueued] at hq; cases hq
  · intro f p hp; rw [h.foreign f] at hp; cases hp
  · rw [h.nr, h.circ, hadded, h.foreign, h.foreign]; rfl
  · rw [h.circ]
    unfold currOf
    rw [h.curr, h.tasks.idleClass]
    rfl
  · rw [h.curr]; exact h.tasks.idleQueued

/-- **The run lemma**: the invariant at the end, with the ring that the trace leads to, and an
accepted trace. -/
theorem Run.inv (h : Inv m₀ xs) (hr : Run m₀ t m) :
    Inv m (ringMonitor.after xs t) ∧ ringMonitor.Accepts xs t := by
  induction hr with
  | refl => exact ⟨h, trivial⟩
  | step e hr he hends ih =>
      obtain ⟨hinv, hacc⟩ := (Step.prog_spec ih.1 he).ends hends
      rw [Monitor.after_append, Monitor.accepts_append]
      exact ⟨hinv rfl, ih.2, hacc⟩

end

/-! ### A small machine -/

/-- A class without tasks. -/
def emptyClass (α : Type) [DecidableEq α] : ForeignClass α where
  State := Unit
  queued _ := ∅
  call _ _ _ _ _ := ((), false)
  pick _ _ _ := none
  queued_enqueue _ _ _ _ _ := Finset.empty_subset _
  queued_dequeue _ _ _ _ _ := Finset.empty_subset _
  queued_call _ _ _ _ _ _ := Finset.empty_subset _
  pick_mem _ _ _ _ h := by cases h

/-- A class that runs its tasks in the order in which they were queued. -/
def fifoClass (α : Type) [DecidableEq α] : ForeignClass α where
  State := List α
  queued := List.toFinset
  call c _ _ s p :=
    match c with
    | .enqueue _ => (s ++ [p], true)
    | .dequeue _ => (s.filter (· ≠ p), false)
    | _ => (s, false)
  pick _ _ s := s.head?
  queued_enqueue _ _ _ s p := by
    intro q hq
    have hmem : q ∈ s ++ [p] := List.mem_toFinset.mp hq
    rcases List.mem_append.mp hmem with hs | hp
    · exact Finset.mem_insert_of_mem (List.mem_toFinset.mpr hs)
    · rw [List.mem_singleton.mp hp]
      exact Finset.mem_insert_self p _
  queued_dequeue _ _ _ s p := by
    intro q hq
    obtain ⟨hs, hne⟩ := List.mem_filter.mp (List.mem_toFinset.mp hq)
    exact Finset.mem_erase.mpr ⟨of_decide_eq_true hne, List.mem_toFinset.mpr hs⟩
  queued_call c _ _ s p hc := by
    cases c with
    | enqueue flags => exact absurd rfl (hc flags)
    | dequeue flags => exact fun q hq =>
        List.mem_toFinset.mpr (List.mem_filter.mp (List.mem_toFinset.mp hq)).1
    | _ => exact Finset.Subset.refl _
  pick_mem _ _ _ _ h := List.mem_toFinset.mpr (List.mem_of_mem_head? h)

theorem card_fin_four : Fintype.card (Fin 4) < 2 ^ 32 := by simp

/-- Four tasks, none of them in the stop or deadline class, and a clock that advances by ten
between two readings. -/
def smallKernel : Kernel (Fin 4) where
  foreign _ := emptyClass (Fin 4)
  schedClockCpu n := BitVec.ofNat 64 (10 * (n + 1))
  sysctlSchedChildRunsFirst := false
  wakeupPreemption := true
  sysctlSchedRtRuntime := 950000
  rtPeriod := 1000000
  rtBandwidthRuntime := 950000
  card_lt := card_fin_four

/-- A sleeping task of nice level 0. -/
def sleepingTask : TaskStruct where
  state := 1
  onRq := 0
  prio := DEFAULT_PRIO
  staticPrio := DEFAULT_PRIO
  normalPrio := DEFAULT_PRIO
  rtPriority := 0
  policy := SCHED_NORMAL
  schedClass := .circular
  schedResetOnFork := false
  mm := true
  wqWorker := false
  kthread := false
  load := ⟨1024, 4194304⟩
  dl := ⟨0, 0, 0, 0, 0, false, false, false, false, 0⟩

/-- The idle task, two normal tasks, and a real-time task of priority 50. -/
def smallTasks : Fin 4 → TaskStruct
  | 0 => { sleepingTask with
      state := TASK_RUNNING, onRq := TASK_ON_RQ_QUEUED, schedClass := .idle, mm := false,
      kthread := true }
  | 1 => sleepingTask
  | 2 => sleepingTask
  | 3 => { sleepingTask with
      prio := 50, normalPrio := 50, rtPriority := 49, policy := SCHED_FIFO, schedClass := .rt }

/-- The run-queue and the entities as the machine boots. -/
def bootCpu (K : Kernel (Fin 4)) (foreign : ∀ f, (K.foreign f).State) : Cpu K where
  rq :=
    { nrRunning := 0, skipClockUpdate := 0, cfs := ⟨0⟩
      rt := ⟨⟨fun _ => false, fun _ => []⟩, 0, false, false, 0, 950000⟩
      dlBw := ⟨0, 0⟩, circ := ⟨⟨none, none, 0⟩, none, 0, 0⟩, foreign := foreign
      curr := 0, idle := 0, stop := none, clock := 0, clockTask := 0 }
  se := fun _ => ⟨false, 0, 0, 0, 0⟩
  rtSe := fun _ => ⟨0⟩
  node := fun _ => ⟨none, none⟩
  needResched := fun _ => false
  reads := 0

/-- The machine with these tasks as it boots. -/
def smallBoot : Machine smallKernel := ⟨smallTasks, bootCpu smallKernel fun _ => ()⟩

theorem smallBoot_boot : Boot smallBoot := by
  refine ⟨rfl, fun _ => rfl, fun _ => rfl, fun _ => rfl, rfl, rfl, fun _ => rfl, rfl, rfl, rfl,
    ⟨?_, rfl, rfl, rfl, ⟨by decide, by decide⟩⟩, by decide⟩
  intro p hp
  have h : p = 1 ∨ p = 2 ∨ p = 3 := by revert p; decide
  rcases h with rfl | rfl | rfl
  · exact ⟨.inl rfl, by decide, by decide⟩
  · exact ⟨.inl rfl, by decide, by decide⟩
  · exact ⟨.inl rfl, by decide, by decide⟩

/-- The same with a class for deadline tasks, of which task 3 is one. -/
def deadlineKernel : Kernel (Fin 4) :=
  { smallKernel with foreign := fun _ => fifoClass (Fin 4), card_lt := card_fin_four }

def deadlineBoot : Machine deadlineKernel where
  task p := if p = 3 then
      { sleepingTask with prio := -1, normalPrio := -1, policy := SCHED_DEADLINE, schedClass := .dl }
    else smallTasks p
  cpu := bootCpu deadlineKernel fun _ => []

theorem deadlineBoot_boot : Boot deadlineBoot := by
  refine ⟨rfl, fun _ => rfl, fun _ => rfl, fun _ => rfl, rfl, rfl, fun _ => rfl, rfl, rfl, rfl,
    ⟨?_, rfl, rfl, rfl, ⟨by decide, by decide⟩⟩, by decide⟩
  intro p hp
  have h : p = 1 ∨ p = 2 ∨ p = 3 := by revert p; decide
  rcases h with rfl | rfl | rfl
  · exact ⟨.inl rfl, by decide, by decide⟩
  · exact ⟨.inl rfl, by decide, by decide⟩
  · exact ⟨.inl rfl, by decide, by decide⟩

/-- The machine after a step, with budget `n` for every loop; a fault leaves it as it is. -/
def Step.exec (n : ℕ) (m : Machine K) (e : Step α) : Machine K :=
  match e.prog.run n m with
  | .error _ => m
  | .ok (_, m', _) => m'

/-- Both normal tasks have been woken up, and the first of them runs. -/
def smallRunning : Machine smallKernel :=
  [.tryToWakeUp 1 TASK_NORMAL 0, .tryToWakeUp 2 TASK_NORMAL 0,
    .schedule false false none].foldl (Step.exec 3) smallBoot

theorem smallRunning_run : ∃ t, Run smallBoot t smallRunning ∧
    (∃ T s s', Event.pick T s 0 (some 1) s' ∈ t) ∧ ∃ h l, Event.remove h l 1 ∈ t := by
  have h₀ : Run smallBoot [] smallBoot := .refl
  have h₁ := Run.step (.tryToWakeUp 1 TASK_NORMAL 0) h₀ trivial ⟨3, rfl⟩
  have h₂ := Run.step (.tryToWakeUp 2 TASK_NORMAL 0) h₁ trivial ⟨3, rfl⟩
  have h₃ := Run.step (.schedule false false none) h₂ trivial ⟨3, rfl⟩
  exact ⟨_, h₃, ⟨_, _, _, List.mem_of_getElem? (i := 9) rfl⟩, _, _,
    List.mem_of_getElem? (i := 7) rfl⟩

/-- A deadline task runs before the normal one that was woken up first, and stays queued in its class. -/
theorem deadlineBoot_run : ∃ (t : List (Event deadlineKernel)) (m : Machine deadlineKernel),
    Run deadlineBoot t m ∧ m.cpu.rq.curr = 3 ∧ m.cpu.rq.queued .dl = {3} := by
  have h₀ : Run deadlineBoot [] deadlineBoot := .refl
  have h₁ := Run.step (.tryToWakeUp 1 TASK_NORMAL 0) h₀ trivial ⟨3, rfl⟩
  have h₂ := Run.step (.tryToWakeUp 3 TASK_NORMAL 0) h₁ trivial ⟨3, rfl⟩
  have h₃ := Run.step (.schedule false false none) h₂ trivial ⟨3, rfl⟩
  exact ⟨_, _, h₃, rfl, rfl⟩

theorem smallRunning_onRq : ∀ p, (smallRunning.cpu.se p).onRq = decide (p = 1 ∨ p = 2) := by decide

/-- The third task made a normal one, all three woken up, and the first of them running. -/
def threeRunning : Machine smallKernel :=
  [.rtMutexSetprio 3 120 false, .tryToWakeUp 1 TASK_NORMAL 0, .tryToWakeUp 2 TASK_NORMAL 0,
    .tryToWakeUp 3 TASK_NORMAL 0, .schedule false false none].foldl (Step.exec 4) smallBoot

theorem threeRunning_run : ∃ t, Run smallBoot t threeRunning := by
  have h₀ : Run smallBoot [] smallBoot := .refl
  have h₁ := Run.step (.rtMutexSetprio 3 120 false) h₀ (show (120 : ℤ) ≤ MAX_PRIO by decide) ⟨4, rfl⟩
  have h₂ := Run.step (.tryToWakeUp 1 TASK_NORMAL 0) h₁ trivial ⟨4, rfl⟩
  have h₃ := Run.step (.tryToWakeUp 2 TASK_NORMAL 0) h₂ trivial ⟨4, rfl⟩
  have h₄ := Run.step (.tryToWakeUp 3 TASK_NORMAL 0) h₃ trivial ⟨4, rfl⟩
  have h₅ := Run.step (.schedule false false none) h₄ trivial ⟨4, rfl⟩
  exact ⟨_, h₅⟩

section
variable {m₀ m m' : Machine K} {t : List (Event K)} {xs : List α}

/-! ### Where the runnable tasks are -/

/-- The queued circular tasks are those in the ring and the running one. -/
theorem Inv.onClass_eq (h : Inv m xs) : onClass (home m.task) .circular =
    xs.toFinset ∪ m.cpu.rq.circ.curr.toFinset := by
  ext p
  rw [mem_onClass, Finset.mem_union, List.mem_toFinset, Option.mem_toFinset, Option.mem_def,
    h.sane.circ.mem p]
  constructor
  · intro hp
    by_cases e : m.cpu.rq.circ.curr = some p
    · exact .inr e
    · exact .inl ⟨hp, e⟩
  · intro hp
    rcases hp with hp | hp
    · exact hp.1
    · rw [h.curr] at hp
      unfold currOf at hp
      split at hp
      · rename_i hc
        cases hp
        rw [home_of_queued h.running, hc]
      · cases hp

/-- The ring and `circ_rq->curr` share no task. -/
theorem Inv.disjoint_curr (h : Inv m xs) :
    Disjoint xs.toFinset m.cpu.rq.circ.curr.toFinset := by
  rw [Finset.disjoint_left]
  intro p hp hc
  rw [List.mem_toFinset, h.sane.circ.mem p] at hp
  rw [Option.mem_toFinset, Option.mem_def] at hc
  exact hp.2 hc

theorem Inv.onRq_iff (h : Inv m xs) (p : α) : (m.cpu.se p).onRq = true ↔
    (m.task p).schedClass = .circular ∧ taskOnRqQueued (m.task p) = true := by
  rw [h.sane.circ.onRq, home_eq_some, and_comm]

/-- A task with `se.on_rq` set is `circ_rq->curr` or in the ring, and not both. -/
theorem Inv.place (h : Inv m xs) (p : α) (hp : (m.cpu.se p).onRq = true) :
    m.cpu.rq.circ.curr = some p ∧ xs.count p = 0 ∨
      m.cpu.rq.circ.curr ≠ some p ∧ xs.count p = 1 := by
  have hcirc := h.sane.circ
  rw [hcirc.onRq] at hp
  by_cases e : m.cpu.rq.circ.curr = some p
  · refine .inl ⟨e, List.count_eq_zero.mpr ?_⟩
    intro hmem
    exact ((hcirc.mem p).mp hmem).2 e
  · exact .inr ⟨e, List.count_eq_one_of_mem hcirc.rep.nodup ((hcirc.mem p).mpr ⟨hp, e⟩)⟩

theorem Inv.onRq_of_mem (h : Inv m xs) (p : α) (hp : p ∈ xs) : (m.cpu.se p).onRq = true := by
  rw [h.sane.circ.onRq]
  exact ((h.sane.circ.mem p).mp hp).1

theorem Inv.curr_cases (h : Inv m xs) :
    m.cpu.rq.circ.curr = none ∨ m.cpu.rq.circ.curr = some m.cpu.rq.curr := by
  rw [h.curr]
  unfold currOf
  split
  · exact .inr rfl
  · exact .inl rfl

/-- **The representation invariant.**  After every run: `se.on_rq` is set for exactly the queued
circular tasks; each of them is `circ_rq->curr` and not in the ring, or another task and in the ring
once; the ring holds no other task; `circ_rq->curr` is null or the running task.  And the run can
go on with any step. -/
theorem run_representation (hb : Boot m₀) (h : Run m₀ t m) :
    ∃ xs, Represents m.cpu.node m.cpu.rq.circ.circList xs ∧
      (∀ p, p ≠ m.cpu.rq.idle → ((m.cpu.se p).onRq = true ↔
        (m.task p).schedClass = .circular ∧ taskOnRqQueued (m.task p) = true)) ∧
      (∀ p, (m.cpu.se p).onRq = true →
        m.cpu.rq.circ.curr = some p ∧ xs.count p = 0 ∨
          m.cpu.rq.circ.curr ≠ some p ∧ xs.count p = 1) ∧
      (∀ p ∈ xs, (m.cpu.se p).onRq = true) ∧
      (m.cpu.rq.circ.curr = none ∨ m.cpu.rq.circ.curr = some m.cpu.rq.curr) ∧
      ∀ e : Step α, e.Enabled m → ∃ b m' t', e.prog.Ends m b m' t' := by
  obtain ⟨hinv, -⟩ := h.inv hb.inv
  exact ⟨_, hinv.sane.circ.rep, fun p _ => hinv.onRq_iff p, hinv.place, hinv.onRq_of_mem,
    hinv.curr_cases, fun e he => Step.exists_ends hinv he⟩

theorem run_representation_small : ∃ (t : List (Event smallKernel)) (xs : List (Fin 4)),
    Boot smallBoot ∧ Run smallBoot t smallRunning ∧
      Represents smallRunning.cpu.node smallRunning.cpu.rq.circ.circList xs ∧ xs.count 1 = 0 ∧
      xs.count 2 = 1 := by
  obtain ⟨t, hrun, -⟩ := smallRunning_run
  obtain ⟨xs, hrep, -, hplace, -⟩ := run_representation smallBoot_boot hrun
  refine ⟨t, xs, smallBoot_boot, hrun, hrep, ?_, ?_⟩
  · rcases hplace 1 (smallRunning_onRq 1) with h | h
    · exact h.2
    · exact absurd rfl h.1
  · rcases hplace 2 (smallRunning_onRq 2) with h | h
    · exact absurd h.1 (by decide)
    · exact h.2

/-! ### What the circular pick returns -/

/-- **The circular pick is sound and work conserving.**  Whenever it is called in a run, it finds
nothing exactly when no task has `se.on_rq` set, and then changes nothing; otherwise it returns a
task with `se.on_rq` set, which becomes `circ_rq->curr` and is not in the ring, while all the other
tasks with `se.on_rq` set are.  Its fallback on `circ_rq->curr` is never reached. -/
theorem run_pick_sound (hb : Boot m₀) (h : Run m₀ t m) :
    (∀ T s prev r s', Event.pick T s prev r s' ∈ t →
      (r = none ↔ ∀ q, (s.se q).onRq = false) ∧ (r = none → s' = s) ∧
      ∀ p, r = some p → (s.se p).onRq = true ∧ s'.rq.circ.curr = some p ∧
        ∃ ys, Represents s'.node s'.rq.circ.circList ys ∧ p ∉ ys ∧
          (∀ q, (s.se q).onRq = true ∧ q ≠ p ↔ q ∈ ys) ∧ ∀ q, (s'.se q).onRq = (s.se q).onRq) ∧
      Event.fallback ∉ t ∧
      ∀ e : Step α, e.Enabled m → ∃ b m' t', e.prog.Ends m b m' t' := by
  obtain ⟨hinv, hacc⟩ := h.inv hb.inv
  refine ⟨?_, ?_, fun e he => Step.exists_ends hinv he⟩
  · intro T s prev r s' hmem
    obtain ⟨g, hpick⟩ := hacc.exists_ok hmem
    cases r with
    | none =>
        exact ⟨⟨fun _ => hpick.2.1, fun _ => rfl⟩, fun _ => hpick.2.2, fun p e => by cases e⟩
    | some p =>
        obtain ⟨xs, ys, -, hrep, -, -, hnotin, hcurr, hon, hon'⟩ := hpick
        have hp : (s.se p).onRq = true := (hon p).mpr (.inl rfl)
        refine ⟨⟨?_, ?_⟩, ?_, ?_⟩
        · intro e; cases e
        · intro hall
          rw [hall p] at hp
          cases hp
        · intro e; cases e
        · intro p' e
          cases e
          refine ⟨hp, hcurr, ys, hrep, hnotin, ?_, hon'⟩
          intro q
          rw [hon]
          constructor
          · intro hq; exact hq.1.resolve_left hq.2
          · intro hq
            refine ⟨.inr hq, ?_⟩
            intro e
            exact hnotin (e ▸ hq)
  · intro hmem
    obtain ⟨g, hfalse⟩ := hacc.exists_ok hmem
    exact hfalse

theorem run_pick_sound_small : ∃ (t : List (Event smallKernel)) (s s' : Cpu smallKernel),
    Boot smallBoot ∧ Run smallBoot t smallRunning ∧
      (∃ T, Event.pick T s 0 (some 1) s' ∈ t) ∧ (s.se 1).onRq = true ∧
      s'.rq.circ.curr = some 1 := by
  obtain ⟨t, hrun, ⟨T, s, s', hpick⟩, -⟩ := smallRunning_run
  obtain ⟨hall, -⟩ := run_pick_sound smallBoot_boot hrun
  obtain ⟨-, -, hsome⟩ := hall T s 0 (some 1) s' hpick
  obtain ⟨hon, hcurr, -⟩ := hsome 1 rfl
  exact ⟨t, s, s', smallBoot_boot, hrun, ⟨T, hpick⟩, hon, hcurr⟩

/-! ### The counters -/

/-- **The counters agree** after every run, and none is lowered below zero on the way. -/
theorem run_counters (hb : Boot m₀) (h : Run m₀ t m) :
    m.cpu.rq.circ.nrRunning = (Finset.univ.filter fun p => (m.cpu.se p).onRq = true).card ∧
      m.cpu.rq.circ.hNrRunning = m.cpu.rq.circ.nrRunning ∧
      m.cpu.rq.circ.nrRunning =
        m.cpu.rq.circ.circList.count + (if m.cpu.rq.circ.curr ≠ none then 1 else 0) ∧
      m.cpu.rq.nrRunning = m.cpu.rq.circ.nrRunning +
        (if m.cpu.rq.rt.rtQueued then m.cpu.rq.rt.rtNrRunning else 0) +
        (m.cpu.rq.queued .stop).card + (m.cpu.rq.queued .dl).card ∧
      (∀ counter amount, Event.sub counter amount ∈ t → amount ≤ counter) ∧
      ∀ h l p, Event.remove h l p ∈ t → 1 ≤ l.count := by
  obtain ⟨hinv, hacc⟩ := h.inv hb.inv
  have hcirc := hinv.sane.circ
  refine ⟨?_, ?_, ?_, hinv.sane.nr, ?_, ?_⟩
  · rw [hcirc.nr]
    congr 1
    ext p
    simp only [onClass, Finset.mem_filter, Finset.mem_univ, true_and, hcirc.onRq]
  · rw [hcirc.hNr, hcirc.nr]
  · rw [hcirc.nr, hinv.onClass_eq, Finset.card_union_of_disjoint hinv.disjoint_curr,
      List.toFinset_card_of_nodup hcirc.rep.nodup, hcirc.rep.count]
    cases m.cpu.rq.circ.curr with
    | none => rfl
    | some p => rfl
  · intro counter amount hmem
    obtain ⟨g, hle⟩ := hacc.exists_ok hmem
    exact hle
  · intro h l p hmem
    obtain ⟨g, xs, hrep, hp⟩ := hacc.exists_ok hmem
    rw [hrep.count]
    exact List.length_pos_of_mem hp

theorem run_counters_small : ∃ t : List (Event smallKernel), Boot smallBoot ∧
    Run smallBoot t smallRunning ∧ smallRunning.cpu.rq.circ.nrRunning = 2 ∧
      smallRunning.cpu.rq.circ.circList.count = 1 := by
  obtain ⟨t, hrun, -⟩ := smallRunning_run
  obtain ⟨hnr, -, hcount, -⟩ := run_counters smallBoot_boot hrun
  have htwo : smallRunning.cpu.rq.circ.nrRunning = 2 := by
    rw [hnr]
    simp only [smallRunning_onRq]
    decide
  rw [htwo] at hcount
  exact ⟨t, smallBoot_boot, hrun, htwo, (Nat.succ.inj hcount).symm⟩

/-! ### The calls of the list functions -/

/-- **Every call of the list functions meets its precondition**, also in the middle of a step: an
insertion gets a node that is not in the list and the head of the list, a removal gets a node of
the list.  So the loops of the removal and of the traversal end after at most `count` steps. -/
theorem run_list_calls (hb : Boot m₀) (h : Run m₀ t m) :
    (∀ h l after p, Event.insert h l after p ∈ t → after = l.head ∧ (after = none → l.count = 0) ∧
      ∃ xs, Represents h l xs ∧ p ∉ xs) ∧
      (∀ h l p, Event.remove h l p ∈ t → (∃ xs, Represents h l xs ∧ p ∈ xs) ∧
        ∃ r, circularlistRemove l.count h l p = .ok r) ∧
      (∀ h l, Event.traverse h l ∈ t → circularlistTraverseDebug l.count h l = .ok ()) ∧
      ∀ e : Step α, e.Enabled m → ∃ b m' t', e.prog.Ends m b m' t' := by
  obtain ⟨hinv, hacc⟩ := h.inv hb.inv
  refine ⟨?_, ?_, ?_, fun e he => Step.exists_ends hinv he⟩
  · intro h l after p hmem
    obtain ⟨g, xs, hrep, hp, hafter⟩ := hacc.exists_ok hmem
    refine ⟨by rw [hafter, hrep.head], ?_, xs, hrep, hp⟩
    intro e
    rw [hafter, List.head?_eq_none_iff] at e
    rw [hrep.count, e]
    rfl
  · intro h l p hmem
    obtain ⟨g, xs, hrep, hp⟩ := hacc.exists_ok hmem
    have hlen : xs.length < 2 ^ 32 := lt_of_le_of_lt hrep.nodup.length_le_card K.card_lt
    obtain ⟨h', l', hrem, -⟩ := circularlistRemove_spec hrep hp hlen
    refine ⟨⟨xs, hrep, hp⟩, _, hrem _ ?_⟩
    rw [hrep.count]
    exact List.idxOf_le_length
  · intro h l hmem
    obtain ⟨g, xs, hrep⟩ := hacc.exists_ok hmem
    exact circularlistTraverseDebug_spec hrep hrep.count.ge

theorem run_list_calls_small : ∃ (t : List (Event smallKernel)) (h : Heap (Fin 4))
    (l : CircularList (Fin 4)), Boot smallBoot ∧ Run smallBoot t smallRunning ∧
      Event.remove h l 1 ∈ t ∧ ∃ r, circularlistRemove l.count h l 1 = .ok r := by
  obtain ⟨t, hrun, -, h, l, hrem⟩ := smallRunning_run
  obtain ⟨-, hcalls, -⟩ := run_list_calls smallBoot_boot hrun
  exact ⟨t, h, l, smallBoot_boot, hrun, hrem, (hcalls h l 1 hrem).2⟩

end

end KernelHacking.Sched
