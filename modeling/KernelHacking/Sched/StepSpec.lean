import KernelHacking.Sched.CoreSpec

/-! # Wake-ups, forks and `__schedule` keep the invariant

The functions that put tasks on the run-queue and take them off for good.  A wake-up may happen in
the middle of `__schedule`, when the running task is not queued any more, so it is specified on
settled machines; a fork is specified from the copy of the running task to the new task in its own
class; `__schedule` ends with another task running. -/

namespace KernelHacking.Sched

open TraceProg PtrRing Word Prog

variable {α : Type} [DecidableEq α] [Fintype α] {K : Kernel α}
variable {m m' : Machine K} {xs xs' g : List α} {p : α} {t : TaskStruct}

/-- Nobody leaves the run-queue. -/
def StillQueued (m m' : Machine K) : Prop :=
  ∀ q, taskOnRqQueued (m.task q) = true → taskOnRqQueued (m'.task q) = true

theorem Inv.of_settled (h : Inv m xs) (h' : Settled m' xs') (hsame : SameRq m m')
    (hq : StillQueued m m') : Inv m' xs' := by
  refine ⟨h', ?_⟩
  rw [hsame.curr]
  exact hq _ h.running

theorem Settled.ne_idle_of_state (h : Settled m xs) (hst : (m.task p).state ≠ TASK_RUNNING) :
    p ≠ m.cpu.rq.idle := by
  intro e
  rw [e] at hst
  exact hst h.tasks.idleState

theorem Settled.ne_idle_of_off (h : Settled m xs) (hq : taskOnRqQueued (m.task p) = false) :
    p ≠ m.cpu.rq.idle := by
  intro e
  rw [e, h.tasks.idleQueued] at hq
  cases hq

/-- A task whose class and priorities stay is moved on or off the account of its class. -/
theorem Settled.of_sane (h : Settled m xs) (hp : p ≠ m.cpu.rq.idle) {t : TaskStruct} {s : Cpu K}
    {ys : List α} (hcls : t.schedClass = (m.task p).schedClass)
    (hok : TaskOk (m.cpu.rq.stop = some p) t)
    (hs : Sane (Function.update m.task p t) (home (Function.update m.task p t)) m.cpu.ctx s ys) :
    Settled ⟨Function.update m.task p t, s⟩ ys ∧ SameRq m ⟨Function.update m.task p t, s⟩ := by
  have hcurr : s.rq.curr = m.cpu.rq.curr := hs.curr_eq
  have hidle : s.rq.idle = m.cpu.rq.idle := hs.idle_eq
  have hstop : s.rq.stop = m.cpu.rq.stop := congrArg Ctx.stop hs.ctx
  refine ⟨⟨?_, ?_, ?_⟩, ⟨hcurr, hidle, hstop⟩⟩
  · show Sane (Function.update m.task p t) (home (Function.update m.task p t)) s.ctx s ys
    rw [hs.ctx]
    exact hs
  · show s.rq.circ.curr = currOf (Function.update m.task p t) s.rq.curr
    rw [currOf_update_of_class hcls, hcurr, ← h.curr]
    exact hs.circCurr_eq
  · show TasksOk (Function.update m.task p t) s.rq.idle s.rq.stop
    rw [hidle, hstop]
    exact h.tasks.update hp hok

/-! ### Wake-ups -/

/-- `activate_task` and `p->on_rq = TASK_ON_RQ_QUEUED`. -/
theorem activate_spec (h : Settled m xs) (hq : taskOnRqQueued (m.task p) = false) (flags : ℕ) :
    (activateTask p flags >>= fun _ =>
      modifyTask p fun t => { t with onRq := TASK_ON_RQ_QUEUED }).mwp ringMonitor m xs
      (fun _ m' xs' => Settled m' xs' ∧ SameRq m m' ∧ StillQueued m m' ∧
        taskOnRqQueued (m'.task p) = true) := by
  have hp : p ≠ m.cpu.rq.idle := h.ne_idle_of_off hq
  have hok := h.tasks.task p hp
  unfold activateTask
  rw [mwp_bind, mwp_onCpu]
  refine (enqueueTask_spec h.sane (home_eq_none.mpr hq) hok.ne_fair hok.ne_idle hok.rt_range
    flags).mono ?_
  intro _ s₁ xs₁ hs₁
  rw [mwp_modifyTask]
  obtain ⟨t, ht⟩ : ∃ t : TaskStruct, { m.task p with onRq := TASK_ON_RQ_QUEUED } = t := ⟨_, rfl⟩
  have hcls : t.schedClass = (m.task p).schedClass := by rw [← ht]
  have htq : taskOnRqQueued t = true := by rw [← ht]; rfl
  have htok : TaskOk (m.cpu.rq.stop = some p) t := by
    rw [← ht]
    exact ⟨hok.cls, hok.static⟩
  have hsane : Sane (Function.update m.task p t) (home (Function.update m.task p t)) m.cpu.ctx s₁
      xs₁ := by
    rw [home_update, htq, hcls]
    refine hs₁.congr_tasks ?_
    intro q _
    by_cases e : q = p
    · subst e; rw [Function.update_self, ← ht]
    · rw [Function.update_of_ne e]
  dsimp only
  rw [ht]
  obtain ⟨hsettled, hsame⟩ := h.of_sane hp hcls htok hsane
  refine ⟨hsettled, hsame, ?_, ?_⟩
  · intro q hq'
    show taskOnRqQueued (Function.update m.task p t q) = true
    by_cases e : q = p
    · subst e; rw [Function.update_self]; exact htq
    · rw [Function.update_of_ne e]; exact hq'
  · show taskOnRqQueued (Function.update m.task p t p) = true
    rw [Function.update_self]
    exact htq

/-- `ttwu_do_wakeup`. -/
theorem ttwuDoWakeup_spec (h : Settled m xs) (hp : p ≠ m.cpu.rq.idle) (wakeFlags : ℕ) :
    (ttwuDoWakeup p wakeFlags).mwp ringMonitor m xs
      (fun _ m' xs' => Settled m' xs' ∧ SameRq m m' ∧ StillQueued m m') := by
  unfold ttwuDoWakeup
  rw [mwp_bind, mwp_onCpu]
  refine (checkPreemptCurr_spec h.sane (h.tasks.ne_fair p) wakeFlags).mono ?_
  rintro _ s₁ g₁ ⟨rfl, hs₁⟩
  obtain ⟨h₁, hsame⟩ := h.of_cpu hs₁
  rw [mwp_modifyTask]
  refine ⟨h₁.of_task (by rw [hsame.idle]; exact hp) rfl rfl rfl (h.tasks.static p),
    hsame.trans .of_task, ?_⟩
  intro q hq
  show taskOnRqQueued (Function.update m.task p _ q) = true
  by_cases e : q = p
  · subst e; rw [Function.update_self]; exact hq
  · rw [Function.update_of_ne e]; exact hq

/-- `ttwu_activate` and `ttwu_do_wakeup`. -/
theorem ttwuDoActivate_spec (h : Settled m xs) (hq : taskOnRqQueued (m.task p) = false)
    (flags wakeFlags : ℕ) :
    (ttwuActivate p flags >>= fun _ => ttwuDoWakeup p wakeFlags).mwp ringMonitor m xs
      (fun _ m' xs' => Settled m' xs' ∧ SameRq m m' ∧ StillQueued m m') := by
  refine mwp.seq (activate_spec h hq flags) ?_
  rintro _ m₁ xs₁ ⟨h₁, hsame₁, hstill₁, -⟩
  have hp₁ : p ≠ m₁.cpu.rq.idle := by rw [hsame₁.idle]; exact h.ne_idle_of_off hq
  refine (ttwuDoWakeup_spec h₁ hp₁ wakeFlags).mono ?_
  rintro _ m₂ xs₂ ⟨h₂, hsame₂, hstill₂⟩
  exact ⟨h₂, hsame₁.trans hsame₂, fun q hq => hstill₂ q (hstill₁ q hq)⟩

/-- **`try_to_wake_up`**, of a sleeping or of a queued task. -/
theorem tryToWakeUp_spec (h : Inv m xs) (state wakeFlags : ℕ) :
    (tryToWakeUp p state wakeFlags).mwp ringMonitor m xs
      (fun _ m' xs' => Inv m' xs' ∧ SameRq m m') := by
  have hactivate : taskOnRqQueued (m.task p) = false →
      (ttwuDoActivate p 0 >>= fun _ => pure true : CoreM K Bool).mwp ringMonitor m xs
        (fun _ m' xs' => Inv m' xs' ∧ SameRq m m') := by
    intro hq
    refine mwp.seq (ttwuDoActivate_spec h.toSettled hq _ _) ?_
    rintro _ m₁ xs₁ ⟨h₁, hsame, hstill⟩
    exact mwp_ret.mpr ⟨h.of_settled h₁ hsame hstill, hsame⟩
  unfold tryToWakeUp
  rw [mwp_bind, mwp_get]
  split
  · exact mwp_ret.mpr ⟨h, .refl m⟩
  rename_i hst
  have hp : p ≠ m.cpu.rq.idle := by
    apply h.toSettled.ne_idle_of_state
    intro e
    rw [e] at hst
    exact hst (Nat.zero_and _)
  split
  · unfold ttwuRemote
    rw [mwp_bind, mwp_bind, mwp_get]
    split
    · rw [mwp_bind, mwp_onCpu]
      refine (updateRqClock_spec h.sane).mono ?_
      rintro _ s₁ g₁ ⟨rfl, hs₁⟩
      obtain ⟨h₁, hsame₁⟩ := h.toSettled.of_cpu hs₁
      refine mwp.seq (ttwuDoWakeup_spec h₁ (by rw [hsame₁.idle]; exact hp) wakeFlags) ?_
      rintro _ m₂ xs₂ ⟨h₂, hsame₂, hstill⟩
      rw [mwp_ret, mwp_bind, when_neg (by decide), mwp_ret, mwp_ret]
      exact ⟨h.of_settled h₂ (hsame₁.trans hsame₂) hstill, hsame₁.trans hsame₂⟩
    · rename_i hq
      rw [mwp_ret, mwp_bind, when_pos rfl, ← mwp_bind]
      exact hactivate (by simpa using hq)
  · rename_i hon
    refine hactivate ?_
    have e0 : (m.task p).onRq = 0 := not_not.mp hon
    unfold taskOnRqQueued
    rw [e0]
    rfl

/-- `try_to_wake_up_local`, in the middle of `__schedule`. -/
theorem tryToWakeUpLocal_spec (h : Settled m xs) :
    (tryToWakeUpLocal p).mwp ringMonitor m xs
      (fun _ m' xs' => Settled m' xs' ∧ SameRq m m') := by
  unfold tryToWakeUpLocal
  rw [mwp_bind, mwp_get]
  apply mwp_when
  · rintro ⟨-, hst⟩
    have hp : p ≠ m.cpu.rq.idle := by
      apply h.ne_idle_of_state
      intro e
      rw [e] at hst
      exact hst (Nat.zero_and _)
    by_cases hq : taskOnRqQueued (m.task p) = false
    · rw [when_pos hq]
      refine (ttwuDoActivate_spec h hq _ _).mono ?_
      rintro _ m₁ xs₁ ⟨h₁, hsame, -⟩
      exact ⟨h₁, hsame⟩
    · rw [when_neg hq, mwp_bind, mwp_ret]
      refine (ttwuDoWakeup_spec h hp 0).mono ?_
      rintro _ m₁ xs₁ ⟨h₁, hsame, -⟩
      exact ⟨h₁, hsame⟩
  · intro _; exact ⟨h, .refl m⟩

/-- **`wake_up_new_task`.** -/
theorem wakeUpNewTask_spec (h : Inv m xs) (hq : taskOnRqQueued (m.task p) = false) :
    (wakeUpNewTask p).mwp ringMonitor m xs (fun _ m' xs' => Inv m' xs' ∧ SameRq m m') := by
  have hact := activate_spec h.toSettled hq 0
  rw [mwp_bind] at hact
  unfold wakeUpNewTask
  rw [mwp_bind]
  refine hact.mono ?_
  intro _ m₀ xs₀ hm₀
  refine mwp.seq hm₀ ?_
  rintro _ m₁ xs₁ ⟨h₁, hsame, hstill, -⟩
  have hinv := h.of_settled h₁ hsame hstill
  rw [mwp_onCpu]
  refine (checkPreemptCurr_spec h₁.sane (h₁.tasks.ne_fair p) WF_FORK).mono ?_
  rintro _ s₂ g₂ ⟨rfl, hs₂⟩
  exact ⟨hinv.of_cpu hs₂, hsame.trans (h₁.of_cpu hs₂).2⟩

/-! ### Fork -/

/-- The child in the making: a task on no account, everything else as before. -/
structure Newborn (m : Machine K) (p : α) (xs : List α) (t : TaskStruct) (m' : Machine K) : Prop where
  task : m'.task = Function.update m.task p t
  sane : Sane m'.task (home m.task) m.cpu.ctx m'.cpu xs
  onRq : t.onRq = 0
  static : StaticOk t.staticPrio

theorem Newborn.update (h : Newborn m p xs t m') (hq : taskOnRqQueued (m.task p) = false)
    (t' : TaskStruct) (hon : t'.onRq = 0) (hst : StaticOk t'.staticPrio) :
    Newborn m p xs t' { m' with task := Function.update m'.task p t' } := by
  refine ⟨?_, ?_, hon, hst⟩
  · show Function.update m'.task p t' = Function.update m.task p t'
    rw [h.task, Function.update_idem]
  · refine h.sane.congr_tasks ?_
    intro q hrt
    by_cases e : q = p
    · subst e
      rw [home_eq_none.mpr hq] at hrt
      cases hrt
    · show (Function.update m'.task p t' q).prio = _
      rw [Function.update_of_ne e]

/-- Once the child is in the class of its priority, the machine is settled. -/
theorem Newborn.inv (h : Newborn m p xs t m') (hi : Inv m xs)
    (hq : taskOnRqQueued (m.task p) = false) (hc : t.schedClass = classOfPrio t.prio) :
    Inv m' xs ∧ SameRq m m' := by
  have hp : p ≠ m.cpu.rq.idle := hi.toSettled.ne_idle_of_off hq
  have hcurr : m'.cpu.rq.curr = m.cpu.rq.curr := h.sane.curr_eq
  have hidle : m'.cpu.rq.idle = m.cpu.rq.idle := h.sane.idle_eq
  have hstop : m'.cpu.rq.stop = m.cpu.rq.stop := congrArg Ctx.stop h.sane.ctx
  have hne : m.cpu.rq.curr ≠ p := by
    intro e
    have := hi.running
    rw [e, hq] at this
    cases this
  have htq : taskOnRqQueued t = false := by unfold taskOnRqQueued; rw [h.onRq]; rfl
  have hhome : home m'.task = home m.task := by
    rw [h.task, home_update, htq]
    show Function.update (home m.task) p none = _
    rw [← home_eq_none.mpr hq]
    exact Function.update_eq_self p _
  refine ⟨⟨⟨?_, ?_, ?_⟩, ?_⟩, ⟨hcurr, hidle, hstop⟩⟩
  · rw [hhome, h.sane.ctx]; exact h.sane
  · rw [hcurr, h.task, currOf_update_of_ne hne, ← hi.curr]
    exact h.sane.circCurr_eq
  · rw [h.task, hidle, hstop]
    exact hi.tasks.update hp ⟨.inl hc, h.static⟩
  · rw [hcurr, h.task, Function.update_of_ne hne]
    exact hi.running

/-- The copy and `__sched_fork`: the child is off the run-queue, and its ring node, copied from the
running task, is in no ring. -/
theorem dup_spec (h : Inv m xs) (hq : taskOnRqQueued (m.task p) = false) (mm kthread : Bool) :
    (dupTaskStruct p mm kthread >>= fun _ => __schedFork p).mwp ringMonitor m xs
      (fun _ m' xs' => xs' = xs ∧ ∃ t, Newborn m p xs t m') := by
  have hnone : home m.task p = none := home_eq_none.mpr hq
  have hon : (m.cpu.se p).onRq = false := by
    rw [← Bool.not_eq_true, h.sane.circ.onRq, hnone]; simp
  have hxs : p ∉ xs := by rw [h.sane.circ.mem, hnone]; simp
  unfold dupTaskStruct __schedFork
  rw [mwp_bind, mwp_modify, mwp_bind, mwp_modifyTask, mwp_bind, mwp_onCpu]
  unfold modifySe
  rw [mwp_modify, mwp_emit]
  refine ⟨⟨rfl, { m.task m.cpu.rq.curr with
    mm := mm, kthread := kthread, wqWorker := false, onRq := 0,
    dl := __dlClearParams (m.task m.cpu.rq.curr).dl }, ?_, ?_, rfl, h.tasks.static _⟩, trivial⟩
  · funext q
    by_cases e : q = p
    · subst e; simp
    · simp [e]
  · have hs : Sane m.task (home m.task) m.cpu.ctx
        { m.cpu with
          se := Function.update (Function.update m.cpu.se p (m.cpu.se m.cpu.rq.curr)) p
            { onRq := false, execStart := 0, sumExecRuntime := 0, vruntime := 0, execMax := 0 }
          rtSe := Function.update m.cpu.rtSe p (m.cpu.rtSe m.cpu.rq.curr)
          node := Function.update m.cpu.node p (m.cpu.node m.cpu.rq.curr)
          needResched := Function.update m.cpu.needResched p false } xs := by
      refine h.sane.congr_state rfl ?_ ?_ rfl rfl rfl rfl rfl
      · intro q hm
        have e : q ≠ p := fun e => hxs (e ▸ hm)
        show Function.update m.cpu.node p _ q = _
        rw [Function.update_of_ne e]
      · intro q
        by_cases e : q = p
        · subst e; simp [hon]
        · simp [e]
    refine hs.congr_tasks ?_
    intro q hrt
    by_cases e : q = p
    · subst e; rw [hnone] at hrt; cases hrt
    · simp [e]

/-- `task_fork_circular` only moves the clock, swaps virtual runtimes and sets a flag. -/
theorem taskForkCircular_spec {T : α → TaskStruct} {a : Account α} {c : Ctx α} {s : Cpu K}
    (h : Sane T a c s xs) :
    (taskForkCircular p).mwp ringMonitor s g (fun _ s' g' => g' = g ∧ Sane T a c s' xs) := by
  unfold taskForkCircular
  refine mwp.seq (updateRqClock_spec h) ?_
  rintro _ s₁ g₁ ⟨rfl, h₁⟩
  apply mwp_when
  · intro _
    rw [mwp_bind, mwp_get]
    refine mwp.seq (modifySe_spec h₁ fun _ => rfl) ?_
    rintro _ s₂ g₂ ⟨rfl, h₂⟩
    refine mwp.seq (modifySe_spec h₂ fun _ => rfl) ?_
    rintro _ s₃ g₃ ⟨rfl, h₃⟩
    exact reschedCurr_spec h₃
  · intro _; exact ⟨rfl, h₁⟩

/-- `sched_fork` gives the child the class of its priority, or refuses a deadline task. -/
theorem schedForkClass_spec (h : Newborn m p xs t m') (hi : Inv m xs)
    (hq : taskOnRqQueued (m.task p) = false) :
    (schedForkClass p).mwp ringMonitor m' xs
      (fun r m'' xs'' => r = 0 → Inv m'' xs'' ∧ SameRq m m'') := by
  have ht : m'.task p = t := by rw [h.task, Function.update_self]
  unfold schedForkClass
  rw [mwp_bind, mwp_get, ht]
  split
  · rw [mwp_ret]
    intro e
    simp [EAGAIN] at e
  rename_i hdl
  rw [Bool.not_eq_true] at hdl
  split
  · rename_i hrt
    rw [mwp_bind, mwp_modifyTask, mwp_ret, ht]
    intro _
    exact (h.update hq { t with schedClass := .rt } h.onRq h.static).inv hi hq
      (classOfPrio_rt.mpr ⟨hdl, hrt⟩).symm
  · rename_i hrt
    rw [Bool.not_eq_true] at hrt
    rw [mwp_bind, mwp_modifyTask, ht]
    obtain ⟨h₁, hsame₁⟩ := (h.update hq { t with schedClass := .circular } h.onRq h.static).inv hi
      hq (classOfPrio_circular.mpr ⟨hdl, hrt⟩).symm
    rw [mwp_bind, mwp_onCpu]
    refine (taskForkCircular_spec h₁.sane).mono ?_
    rintro _ s₂ g₂ ⟨rfl, hs₂⟩
    rw [mwp_ret]
    intro _
    exact ⟨h₁.of_cpu hs₂, hsame₁.trans (h₁.toSettled.of_cpu hs₂).2⟩

/-- **Fork.** -/
theorem fork_spec (h : Inv m xs) (hq : taskOnRqQueued (m.task p) = false) (mm kthread : Bool) :
    (fork p mm kthread).mwp ringMonitor m xs
      (fun r m' xs' => r = 0 → Inv m' xs' ∧ SameRq m m') := by
  have hdup := dup_spec h hq mm kthread
  rw [mwp_bind] at hdup
  unfold fork schedFork
  rw [mwp_bind]
  refine hdup.mono ?_
  intro _ m₀ xs₀ hm₀
  refine mwp.seq hm₀ ?_
  rintro _ m₁ xs₁ ⟨rfl, t, ht⟩
  have htp : m₁.task p = t := by rw [ht.task, Function.update_self]
  rw [mwp_bind, mwp_get, mwp_bind, mwp_modifyTask, htp]
  have h₂ := ht.update hq { t with
    state := TASK_RUNNING, prio := (m₁.task m₁.cpu.rq.curr).normalPrio } ht.onRq ht.static
  rw [mwp_bind]
  apply mwp_when
  · intro _
    obtain ⟨t₃, hr, hst, hon⟩ := resetOnFork_ok (t := { t with
      state := TASK_RUNNING, prio := (m₁.task m₁.cpu.rq.curr).normalPrio }) ht.static
    rw [mwp_updateTask (t := t₃) (by rw [← hr]; simp)]
    exact schedForkClass_spec (h₂.update hq t₃ (hon.trans ht.onRq) hst) h hq
  · intro _
    exact schedForkClass_spec h₂ h hq

/-! ### `__schedule` -/

/-- `deactivate_task` and `prev->on_rq = 0`: the running task is off the run-queue, and
`circ_rq->curr` still points at it. -/
theorem deactivate_spec (h : Settled m xs) (hp : p ≠ m.cpu.rq.idle)
    (hq : taskOnRqQueued (m.task p) = true) (flags : ℕ) :
    (deactivateTask p flags >>= fun _ => modifyTask p fun t => { t with onRq := 0 }).mwp
      ringMonitor m xs (fun _ m' xs' => Settled m' xs' ∧ SameRq m m') := by
  have hok := h.tasks.task p hp
  unfold deactivateTask
  rw [mwp_bind, mwp_onCpu]
  refine (dequeueTask_spec h.sane (home_of_queued hq) hok.ne_fair hok.ne_idle flags).mono ?_
  intro _ s₁ xs₁ hs₁
  rw [mwp_modifyTask]
  obtain ⟨t, ht⟩ : ∃ t : TaskStruct, { m.task p with onRq := 0 } = t := ⟨_, rfl⟩
  have hcls : t.schedClass = (m.task p).schedClass := by rw [← ht]
  have htq : taskOnRqQueued t = false := by rw [← ht]; rfl
  have htok : TaskOk (m.cpu.rq.stop = some p) t := by
    rw [← ht]
    exact ⟨hok.cls, hok.static⟩
  have hsane : Sane (Function.update m.task p t) (home (Function.update m.task p t)) m.cpu.ctx s₁
      xs₁ := by
    rw [home_update, htq]
    exact hs₁.congr_off
  dsimp only
  rw [ht]
  exact h.of_sane hp hcls htok hsane

/-- The first half of `__schedule`. -/
theorem schedulePrev_spec (h : Inv m xs) (signalPending preemptActive : Bool)
    (toWakeup : Option α) :
    (schedulePrev m.cpu.rq.curr signalPending preemptActive toWakeup).mwp ringMonitor m xs
      (fun _ m' xs' => Settled m' xs' ∧ SameRq m m') := by
  unfold schedulePrev
  rw [mwp_bind, mwp_get]
  apply mwp_when
  · rintro ⟨hst, -⟩
    have hp := h.toSettled.ne_idle_of_state hst
    split
    · rw [mwp_modifyTask]
      exact ⟨h.toSettled.of_task hp rfl rfl rfl (h.tasks.static _), .of_task⟩
    · have hde := deactivate_spec h.toSettled hp h.running DEQUEUE_SLEEP
      rw [mwp_bind] at hde
      rw [mwp_bind]
      refine hde.mono ?_
      intro _ m₀ xs₀ hm₀
      refine mwp.seq hm₀ ?_
      rintro _ m₁ xs₁ ⟨h₁, hsame₁⟩
      apply mwp_when
      · intro _
        cases toWakeup with
        | none => exact mwp_ret.mpr ⟨h₁, hsame₁⟩
        | some q =>
            refine (tryToWakeUpLocal_spec h₁).mono ?_
            rintro _ m₂ xs₂ ⟨h₂, hsame₂⟩
            exact ⟨h₂, hsame₁.trans hsame₂⟩
      · intro _; exact ⟨h₁, hsame₁⟩
  · intro _; exact ⟨h.toSettled, .refl m⟩

/-- `__schedule` up to the pick: `circ_rq->curr` still follows the task that was running. -/
theorem scheduleEnter_spec (h : Inv m xs) (signalPending preemptActive : Bool)
    (toWakeup : Option α) :
    (scheduleEnter signalPending preemptActive toWakeup).mwp ringMonitor m xs
      (fun prev m' xs' => prev = m'.cpu.rq.curr ∧ Settled m' xs' ∧ SameRq m m') := by
  unfold scheduleEnter
  rw [mwp_bind, mwp_get]
  refine mwp.seq (schedulePrev_spec h signalPending preemptActive toWakeup) ?_
  rintro _ m₁ xs₁ ⟨h₁, hsame₁⟩
  rw [mwp_bind, mwp_get]
  have hclock : (when (taskOnRqQueued (m₁.task m.cpu.rq.curr) ∨ m₁.cpu.rq.skipClockUpdate < 0)
      (onCpu fun _ => updateRqClock)).mwp ringMonitor m₁ xs₁
      (fun _ m₂ xs₂ => Settled m₂ xs₂ ∧ SameRq m₁ m₂) := by
    apply mwp_when
    · intro _
      rw [mwp_onCpu]
      refine (updateRqClock_spec h₁.sane).mono ?_
      rintro _ s₂ g₂ ⟨rfl, hs₂⟩
      exact h₁.of_cpu hs₂
    · intro _; exact ⟨h₁, .refl m₁⟩
  refine mwp.seq hclock ?_
  rintro _ m₂ xs₂ ⟨h₂, hsame₂⟩
  exact mwp_ret.mpr ⟨(hsame₁.trans hsame₂).curr.symm, h₂, hsame₁.trans hsame₂⟩

/-- The task that was picked runs. -/
theorem Settled.switch (h : Settled m xs) {next : α} {s : Cpu K} {xs' : List α}
    (hpick : Picked m.task (home m.task) m.cpu.ctx next s xs') {f : α → Bool} :
    Inv { m with cpu := { s with
      needResched := f, rq := { s.rq with skipClockUpdate := 0, curr := next } } } xs' := by
  obtain ⟨hq, hs⟩ := hpick
  have hidle : s.rq.idle = m.cpu.rq.idle := hs.idle_eq
  have hstop : s.rq.stop = m.cpu.rq.stop := congrArg Ctx.stop hs.ctx
  have hnext : taskOnRqQueued (m.task next) = true := by
    rcases hq with ⟨k, -, hk⟩ | ⟨rfl, -⟩
    · exact (home_eq_some.mp hk).1
    · exact h.tasks.idleQueued
  have hcirc : s.rq.circ.curr = currOf m.task next := by
    rw [hs.circCurr_eq, home_of_queued hnext]
    unfold currOf
    by_cases e : (m.task next).schedClass = .circular
    · rw [e]; rfl
    · rw [if_neg e, if_neg (fun e' => e (Option.some.inj e'))]
  refine ⟨⟨?_, hcirc, ?_⟩, hnext⟩
  · exact ⟨rfl, ⟨hs.circ.rep, hs.circ.onRq, hs.circ.mem, hs.circ.nr, hs.circ.hNr⟩, hs.rt,
      hs.foreign, hs.nr, hs.cfs⟩
  · show TasksOk m.task s.rq.idle s.rq.stop
    rw [hidle, hstop]
    exact h.tasks

/-- **`__schedule`**, with the running task staying or leaving. -/
theorem __schedule_spec (h : Inv m xs) (signalPending preemptActive : Bool)
    (toWakeup : Option α) :
    (__schedule signalPending preemptActive toWakeup).mwp ringMonitor m xs (fun _ => Inv) := by
  unfold __schedule
  refine mwp.seq (scheduleEnter_spec h signalPending preemptActive toWakeup) ?_
  rintro prev m₂ xs₂ ⟨rfl, h₂, -⟩
  rw [mwp_bind, mwp_onCpu]
  refine (pickNextTask_spec h₂.sane h₂.curr (h₂.tasks.ne_fair _)).mono ?_
  intro next s₃ xs₃ hpick
  rw [mwp_onCpu, mwp_modify]
  exact h₂.switch hpick

/-! ### The other steps -/

/-- `sched_yield`. -/
theorem schedYield_spec (h : Inv m xs) (hidle : m.cpu.rq.curr ≠ m.cpu.rq.idle) :
    schedYield.mwp ringMonitor m xs (fun _ m' xs' => Inv m' xs' ∧ SameRq m m') := by
  unfold schedYield
  rw [mwp_onCpu, mwp_bind, mwp_get]
  refine (yieldTask_spec h.sane (h.tasks.ne_fair _) (h.tasks.task _ hidle).ne_idle).mono ?_
  rintro _ s' g' ⟨rfl, hs'⟩
  exact ⟨h.of_cpu hs', (h.toSettled.of_cpu hs').2⟩

/-- `task_sched_runtime`. -/
theorem taskSchedRuntime_spec (h : Inv m xs) :
    (taskSchedRuntime p).mwp ringMonitor m xs (fun _ m' xs' => Inv m' xs' ∧ SameRq m m') := by
  have hcharge : (when (m.cpu.rq.curr = p ∧ taskOnRqQueued (m.task p)) (onCpu fun T => do
      updateRqClock
      updateCurr T p)).mwp ringMonitor m xs (fun _ m' xs' => Inv m' xs' ∧ SameRq m m') := by
    apply mwp_when
    · intro _
      rw [mwp_onCpu]
      refine mwp.seq (updateRqClock_spec h.sane) ?_
      rintro _ s₁ g₁ ⟨rfl, hs₁⟩
      refine (updateCurr_spec hs₁ (h.tasks.ne_fair p)).mono ?_
      rintro _ s₂ g₂ ⟨rfl, hs₂⟩
      exact ⟨h.of_cpu hs₂, (h.toSettled.of_cpu hs₂).2⟩
    · intro _; exact ⟨h, .refl m⟩
  unfold taskSchedRuntime
  rw [mwp_bind, mwp_get]
  refine mwp.seq hcharge ?_
  rintro _ m₁ xs₁ h₁
  rw [mwp_bind, mwp_get, mwp_ret]
  exact h₁

end KernelHacking.Sched
