import KernelHacking.Sched.Run

/-! # The timers of the scheduler

`scheduler_tick` with the tick of each class, and the timer of the real-time bandwidth, for one
processor.  The time slices of the real-time tasks are the only state they have of their own; they
are passed explicitly.  The tick of the circular class does nothing, and so does that of the idle
class.  What `watchdog` decides from the clock and the resource limits is an argument.

`RtRun` extends the runs of the scheduler by both timers; `RtRun.inv` carries the run-queue invariant
through them. -/

namespace KernelHacking.Sched

open TraceProg PtrRing Word Prog

variable {α : Type} [DecidableEq α] [Fintype α] {K : Kernel α}

/-! ### The tick -/

/-- `watchdog`: `counts` is whether the task has a limit on its real-time runtime and this is the
first tick of the jiffy. -/
def watchdog (counts : Bool) (p : α) : SchedM K Unit :=
  when (counts) (modify fun s =>
    { s with rtSe := Function.update s.rtSe p { s.rtSe p with timeout := (s.rtSe p).timeout + 1 } })

/-- The task shares its queue: the neighbours in the run list differ. -/
def sharesQueue (a : RtPrioArray α) (p : α) : Prop :=
  ∃ i ∈ List.range MAX_RT_PRIO.toNat, p ∈ a.queue i ∧ a.queue i ≠ [p]

instance (a : RtPrioArray α) (p : α) : Decidable (sharesQueue a p) :=
  inferInstanceAs (Decidable (∃ i ∈ List.range MAX_RT_PRIO.toNat, p ∈ a.queue i ∧ a.queue i ≠ [p]))

/-- `task_tick_rt` of the running task, with the time slices it leaves: the `requeue_task_rt` is that
of `yield_task_rt`. -/
def taskTickRt (T : α → TaskStruct) (p : α) (counts : Bool) (schedRrTimeslice : ℕ)
    (timeSlice : α → ℕ) : SchedM K (α → ℕ) := do
  updateCurrRt T
  watchdog counts p
  if (T p).policy ≠ SCHED_RR then pure timeSlice
  else if u32Sub (timeSlice p) 1 ≠ 0 then
    pure (Function.update timeSlice p (u32Sub (timeSlice p) 1))
  else do
    let s ← get
    when (sharesQueue s.rq.rt.active p) (do
      yieldTaskRt T
      reschedCurr)
    pure (Function.update timeSlice p schedRrTimeslice)

/-- `scheduler_tick`. -/
def schedulerTick (counts : Bool) (schedRrTimeslice : ℕ) (timeSlice : α → ℕ) :
    CoreM K (α → ℕ) := onCpu fun T => do
  let s ← get
  let curr := s.rq.curr
  updateRqClock
  match (T curr).schedClass with
  | .stop => do foreignCall .stop .update T curr; pure timeSlice
  | .dl => do foreignCall .dl .update T curr; pure timeSlice
  | .rt => taskTickRt T curr counts schedRrTimeslice timeSlice
  | .fair => fail .bug
  | .circular => pure timeSlice
  | .idle => pure timeSlice

/-! ### The bandwidth timer -/

/-- `sched_rt_rq_enqueue`. -/
def schedRtRqEnqueue : SchedM K Unit := do
  let s ← get
  when (s.rq.rt.rtNrRunning ≠ 0) (do
    enqueueTopRtRq
    reschedCurr)

/-- `do_sched_rt_period_timer`, on one processor; its result only decides whether the timer goes
on. -/
def doSchedRtPeriodTimer (overrun : U64) : CoreM K Unit := onCpu fun _ => do
  let s ← get
  let rt := s.rq.rt
  if rt.rtTime ≠ 0 then do
    let refill := overrun * rt.rtRuntime
    let left := rt.rtTime - if rt.rtTime < refill then rt.rtTime else refill
    modifyRt fun rt => { rt with rtTime := left }
    when (rt.rtThrottled ∧ left < rt.rtRuntime) (do
      modifyRt fun rt => { rt with rtThrottled := false }
      when (rt.rtNrRunning ≠ 0 ∧ s.rq.curr = s.rq.idle) (modifyRq fun rq =>
        { rq with skipClockUpdate := -1 })
      schedRtRqEnqueue)
  else when (rt.rtNrRunning ≠ 0 ∧ rt.rtThrottled = false) schedRtRqEnqueue

/-! ### Runs with timers -/

/-- The step makes no task a deadline task: no priority of that class is inherited, and no policy of
it is asked for. -/
def Step.Plain : Step α → Prop
  | .rtMutexSetprio _ prio _ => 0 ≤ prio
  | .schedSetscheduler _ attr _ => attr.schedPolicy ≠ SCHED_DEADLINE
  | _ => True

/-- The time slices after a step: a child is a copy of the running task. -/
def Step.timeSlice (m : Machine K) (ts : α → ℕ) : Step α → α → ℕ
  | .fork p _ _ => Function.update ts p (ts m.cpu.rq.curr)
  | _ => ts

/-- Runs of the scheduler without deadline tasks in which the timers fire. -/
inductive RtRun (m₀ : Machine K) (timeSlice₀ : α → ℕ) : Machine K → (α → ℕ) → Prop where
  | refl : RtRun m₀ timeSlice₀ m₀ timeSlice₀
  | step {m m' : Machine K} {ts : α → ℕ} {t : List (Event K)} (e : Step α) :
      RtRun m₀ timeSlice₀ m ts → e.Enabled m → e.Plain → e.prog.Ends m true m' t →
      RtRun m₀ timeSlice₀ m' (e.timeSlice m ts)
  | tick {m m' : Machine K} {ts ts' : α → ℕ} {t : List (Event K)} (counts : Bool)
      (schedRrTimeslice : ℕ) : RtRun m₀ timeSlice₀ m ts →
      (schedulerTick counts schedRrTimeslice ts).Ends m ts' m' t → RtRun m₀ timeSlice₀ m' ts'
  | timer {m m' : Machine K} {ts : α → ℕ} {t : List (Event K)} (overrun : U64) :
      RtRun m₀ timeSlice₀ m ts → (doSchedRtPeriodTimer overrun).Ends m () m' t →
      RtRun m₀ timeSlice₀ m' ts

section
variable {m m' m₀ : Machine K} {xs g : List α} {T : α → TaskStruct} {a : Account α} {c : Ctx α}
  {s : Cpu K}

theorem watchdog_spec (h : Sane T a c s xs) (counts : Bool) (p : α) :
    (watchdog counts p).mwp ringMonitor s g (fun _ s' g' => g' = g ∧ Sane T a c s' xs) := by
  unfold watchdog
  apply mwp_when
  · intro _
    rw [mwp_modify]
    exact ⟨rfl, h.congr_state rfl (fun _ _ => rfl) (fun _ => rfl) rfl rfl rfl rfl rfl⟩
  · intro _; exact ⟨rfl, h⟩

theorem taskTickRt_spec (h : Sane T a c s xs) (p : α) (counts : Bool) (slice : ℕ) (ts : α → ℕ) :
    (taskTickRt T p counts slice ts).mwp ringMonitor s g
      (fun _ s' g' => g' = g ∧ Sane T a c s' xs) := by
  unfold taskTickRt
  refine mwp.seq (updateCurrRt_spec h) ?_
  rintro _ s₁ g₁ ⟨rfl, h₁⟩
  refine mwp.seq (watchdog_spec h₁ counts p) ?_
  rintro _ s₂ g₂ ⟨rfl, h₂⟩
  split
  · exact mwp_ret.mpr ⟨rfl, h₂⟩
  split
  · exact mwp_ret.mpr ⟨rfl, h₂⟩
  rw [mwp_bind, mwp_get]
  refine mwp.seq (P := fun _ s' g' => g' = g₂ ∧ Sane T a c s' xs)
    (mwp_when ?_ fun _ => ⟨rfl, h₂⟩) ?_
  · intro _
    refine mwp.seq (yieldTaskRt_spec h₂) ?_
    rintro _ s₃ g₃ ⟨rfl, h₃⟩
    exact reschedCurr_spec h₃
  · rintro _ s₃ g₃ ⟨rfl, h₃⟩
    exact mwp_ret.mpr ⟨rfl, h₃⟩

theorem schedulerTick_spec (h : Inv m xs) (counts : Bool) (slice : ℕ) (ts : α → ℕ) :
    (schedulerTick counts slice ts).mwp ringMonitor m xs (fun _ m' xs' => Inv m' xs') := by
  unfold schedulerTick
  rw [mwp_onCpu, mwp_bind, mwp_get]
  refine mwp.seq (updateRqClock_spec h.sane) ?_
  rintro _ s₁ g₁ ⟨rfl, h₁⟩
  have hkeep : ∀ {s : Cpu K}, Sane m.task (home m.task) m.cpu.ctx s g₁ →
      (pure ts : SchedM K (α → ℕ)).mwp ringMonitor s g₁
        (fun _ s' g' => Inv { m with cpu := s' } g') := fun hs => mwp_ret.mpr (h.of_cpu hs)
  have hforeign : ∀ f, (foreignCall f .update m.task m.cpu.rq.curr >>= fun _ => pure ts).mwp ringMonitor
      s₁ g₁ (fun _ s' g' => Inv { m with cpu := s' } g') := by
    intro f
    refine mwp.seq (foreignCall_spec h₁ (by simp)) ?_
    rintro _ s₂ g₂ ⟨rfl, h₂⟩
    exact hkeep h₂
  cases hcls : (m.task m.cpu.rq.curr).schedClass with
  | stop => exact hforeign .stop
  | dl => exact hforeign .dl
  | rt =>
      refine (taskTickRt_spec h₁ _ counts slice ts).mono ?_
      rintro _ s₂ g₂ ⟨rfl, h₂⟩
      exact h.of_cpu h₂
  | fair => exact absurd hcls (h.tasks.ne_fair _)
  | circular => exact hkeep h₁
  | idle => exact hkeep h₁

theorem schedRtRqEnqueue_spec (h : Sane T a c s xs) :
    schedRtRqEnqueue.mwp ringMonitor s g (fun _ s' g' => g' = g ∧ Sane T a c s' xs) := by
  unfold schedRtRqEnqueue
  rw [mwp_bind, mwp_get]
  apply mwp_when
  · intro _
    refine mwp.seq (enqueueTopRtRq_spec h) ?_
    rintro _ s₁ g₁ ⟨rfl, h₁⟩
    exact reschedCurr_spec h₁
  · intro _; exact ⟨rfl, h⟩

theorem doSchedRtPeriodTimer_spec (h : Inv m xs) (overrun : U64) :
    (doSchedRtPeriodTimer overrun).mwp ringMonitor m xs (fun _ m' xs' => Inv m' xs') := by
  have hdone : ∀ {s : Cpu K} {g : List α}, g = xs ∧ Sane m.task (home m.task) m.cpu.ctx s xs →
      Inv { m with cpu := s } g := by
    rintro s g ⟨rfl, hs⟩
    exact h.of_cpu hs
  unfold doSchedRtPeriodTimer
  rw [mwp_onCpu, mwp_bind, mwp_get]
  dsimp only
  split
  · refine mwp.seq (modifyRt_spec h.sane (fun _ => rfl) (fun _ => rfl) fun _ => rfl) ?_
    rintro _ s₁ g₁ ⟨rfl, h₁⟩
    apply mwp_when
    swap
    · intro _; exact hdone ⟨rfl, h₁⟩
    intro _
    refine mwp.seq (modifyRt_spec h₁ (fun _ => rfl) (fun _ => rfl) fun _ => rfl) ?_
    rintro _ s₂ g₂ ⟨rfl, h₂⟩
    refine mwp.seq (P := fun _ s' g' => g' = g₂ ∧ Sane m.task (home m.task) m.cpu.ctx s' g₂)
      (mwp_when ?_ fun _ => ⟨rfl, h₂⟩) ?_
    · intro _
      unfold modifyRq
      rw [mwp_modify]
      exact ⟨rfl, h₂.congr_state rfl (fun _ _ => rfl) (fun _ => rfl) rfl rfl rfl rfl rfl⟩
    · rintro _ s₃ g₃ ⟨rfl, h₃⟩
      exact (schedRtRqEnqueue_spec h₃).mono fun _ _ _ => hdone
  · apply mwp_when
    · intro _; exact (schedRtRqEnqueue_spec h.sane).mono fun _ _ _ => hdone
    · intro _; exact h

/-- The run-queue invariant in every run with timers. -/
theorem RtRun.inv {ts₀ ts : α → ℕ} (h : ∃ xs, Inv m₀ xs) (hr : RtRun m₀ ts₀ m ts) :
    ∃ xs, Inv m xs := by
  induction hr with
  | refl => exact h
  | step e _ he _ hends ih =>
      obtain ⟨xs, hinv⟩ := ih
      exact ⟨_, ((Step.prog_spec hinv he).ends hends).1 rfl⟩
  | tick counts slice _ hends ih =>
      obtain ⟨xs, hinv⟩ := ih
      exact ⟨_, ((schedulerTick_spec hinv counts slice _).ends hends).1⟩
  | timer overrun _ hends ih =>
      obtain ⟨xs, hinv⟩ := ih
      exact ⟨_, ((doSchedRtPeriodTimer_spec hinv overrun).ends hends).1⟩

end

end KernelHacking.Sched
