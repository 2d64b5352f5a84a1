import KernelHacking.Sched.PickSpec
import KernelHacking.Sched.Tasks

/-! # The core functions keep the invariant

`Settled m` holds whenever no task is in flight: the account of the run-queue is the one that
`p->on_rq` and `p->sched_class` give, `circ_rq->curr` follows `rq->curr`, and classes and priorities
agree.  Between steps the running task is queued as well (`Inv`); in the middle of `__schedule` it
need not be.  One specification for each function of `core.c`. -/

namespace KernelHacking.Sched

open TraceProg PtrRing Word Prog

variable {α : Type} [DecidableEq α] [Fintype α] {K : Kernel α}

/-! ### The invariant of the machine -/

/-- Classes and priorities of all tasks agree; the idle task is queued in its own class and always
runnable. -/
structure TasksOk (T : α → TaskStruct) (idle : α) (stop : Option α) : Prop where
  task : ∀ p, p ≠ idle → TaskOk (stop = some p) (T p)
  idleClass : (T idle).schedClass = .idle
  idleQueued : taskOnRqQueued (T idle) = true
  idleState : (T idle).state = TASK_RUNNING
  idleStatic : StaticOk (T idle).staticPrio

/-- No task is in flight. -/
structure Settled (m : Machine K) (xs : List α) : Prop where
  sane : Sane m.task (home m.task) m.cpu.ctx m.cpu xs
  curr : m.cpu.rq.circ.curr = currOf m.task m.cpu.rq.curr
  tasks : TasksOk m.task m.cpu.rq.idle m.cpu.rq.stop

/-- **The invariant between steps.** -/
structure Inv (m : Machine K) (xs : List α) : Prop extends Settled m xs where
  running : taskOnRqQueued (m.task m.cpu.rq.curr) = true

/-- What no function but `__schedule` changes: the tasks the run-queue points at. -/
structure SameRq (m m' : Machine K) : Prop where
  curr : m'.cpu.rq.curr = m.cpu.rq.curr
  idle : m'.cpu.rq.idle = m.cpu.rq.idle
  stop : m'.cpu.rq.stop = m.cpu.rq.stop

theorem SameRq.refl (m : Machine K) : SameRq m m := ⟨rfl, rfl, rfl⟩

theorem SameRq.trans {m m' m'' : Machine K} (h : SameRq m m') (h' : SameRq m' m'') :
    SameRq m m'' := ⟨h'.curr.trans h.curr, h'.idle.trans h.idle, h'.stop.trans h.stop⟩

theorem SameRq.of_task {m : Machine K} {T : α → TaskStruct} : SameRq m { m with task := T } :=
  ⟨rfl, rfl, rfl⟩

section
variable {T : α → TaskStruct} {idle p : α} {stop : Option α} {m m' : Machine K} {xs g : List α}
  {t : TaskStruct}

omit [Fintype α] in
theorem TasksOk.ne_fair (h : TasksOk T idle stop) (p : α) : (T p).schedClass ≠ .fair := by
  by_cases e : p = idle
  · rw [e, h.idleClass]; decide
  · exact (h.task p e).ne_fair

omit [Fintype α] in
theorem TasksOk.static (h : TasksOk T idle stop) (p : α) : StaticOk (T p).staticPrio := by
  by_cases e : p = idle
  · rw [e]; exact h.idleStatic
  · exact (h.task p e).static

omit [Fintype α] in
theorem TasksOk.update (h : TasksOk T idle stop) (hp : p ≠ idle) (ht : TaskOk (stop = some p) t) :
    TasksOk (Function.update T p t) idle stop := by
  have hi : Function.update T p t idle = T idle := Function.update_of_ne (Ne.symm hp) _ _
  refine ⟨?_, ?_, ?_, ?_, ?_⟩
  · intro q hq
    by_cases e : q = p
    · subst e; rw [Function.update_self]; exact ht
    · rw [Function.update_of_ne e]; exact h.task q hq
  · rw [hi]; exact h.idleClass
  · rw [hi]; exact h.idleQueued
  · rw [hi]; exact h.idleState
  · rw [hi]; exact h.idleStatic

/-! ### Accounts -/

omit [DecidableEq α] [Fintype α] in
theorem home_of_queued (h : taskOnRqQueued (T p) = true) : home T p = some (T p).schedClass :=
  if_pos h

omit [DecidableEq α] [Fintype α] in
theorem home_eq_none : home T p = none ↔ taskOnRqQueued (T p) = false := by
  unfold home
  split <;> simp_all

omit [DecidableEq α] [Fintype α] in
theorem home_eq_some {k : SchedClass} :
    home T p = some k ↔ taskOnRqQueued (T p) = true ∧ (T p).schedClass = k := by
  unfold home
  split <;> simp_all

omit [Fintype α] in
theorem home_update : home (Function.update T p t) =
    Function.update (home T) p (if taskOnRqQueued t then some t.schedClass else none) := by
  funext q
  unfold home
  by_cases e : q = p
  · subst e; simp
  · simp [e]

omit [Fintype α] in
theorem currOf_update_of_ne {q : α} (h : q ≠ p) : currOf (Function.update T p t) q = currOf T q := by
  unfold currOf
  rw [Function.update_of_ne h]

omit [Fintype α] in
theorem currOf_update_of_class {q : α} (h : t.schedClass = (T p).schedClass) :
    currOf (Function.update T p t) q = currOf T q := by
  by_cases e : q = p
  · subst e; unfold currOf; rw [Function.update_self, h]
  · exact currOf_update_of_ne e

/-- A task on no account may change at will. -/
theorem Sane.congr_off {a : Account α} {c : Ctx α} {s : Cpu K}
    (h : Sane T (Function.update a p none) c s xs) :
    Sane (Function.update T p t) (Function.update a p none) c s xs := by
  refine h.congr_tasks ?_
  intro q hrt
  by_cases e : q = p
  · subst e; rw [Function.update_self] at hrt; cases hrt
  · rw [Function.update_of_ne e]

/-! ### Running class code -/

theorem wp_onCpu {β : Type} {f : (α → TaskStruct) → SchedM K β}
    {Q : β → Machine K → List (Event K) → Prop} :
    (onCpu f).wp m Q ↔ (f m.task).wp m.cpu fun b s u => Q b { m with cpu := s } u := by
  unfold onCpu
  rw [wp_bind, wp_get, wp_zoom]
  exact Iff.rfl

theorem mwp_onCpu {β : Type} {f : (α → TaskStruct) → SchedM K β}
    {Q : β → Machine K → List α → Prop} :
    (onCpu f).mwp ringMonitor m g Q ↔ (f m.task).mwp ringMonitor m.cpu g
      fun b s g' => Q b { m with cpu := s } g' := wp_onCpu

theorem mwp_updateTask {f : TaskStruct → Option TaskStruct} (hf : f (m.task p) = some t)
    {Q : Unit → Machine K → List α → Prop} :
    (updateTask p f).mwp ringMonitor m g Q ↔
      Q () { m with task := Function.update m.task p t } g := by
  unfold updateTask
  rw [mwp_bind, mwp_get, hf]
  unfold modifyTask
  rw [mwp_modify]

theorem mwp_modifyTask {f : TaskStruct → TaskStruct} {Q : Unit → Machine K → List α → Prop} :
    (modifyTask p f).mwp ringMonitor m g Q ↔
      Q () { m with task := Function.update m.task p (f (m.task p)) } g := by
  unfold modifyTask
  rw [mwp_modify]

/-- Class code that keeps the account and the pointers keeps the machine settled. -/
theorem Settled.of_cpu (h : Settled m xs) {s : Cpu K} {xs' : List α}
    (hs : Sane m.task (home m.task) m.cpu.ctx s xs') :
    Settled { m with cpu := s } xs' ∧ SameRq m { m with cpu := s } := by
  have hc : s.rq.curr = m.cpu.rq.curr := hs.curr_eq
  have hi : s.rq.idle = m.cpu.rq.idle := hs.idle_eq
  have hst : s.rq.stop = m.cpu.rq.stop := congrArg Ctx.stop hs.ctx
  have hcc : s.rq.circ.curr = m.cpu.rq.circ.curr := hs.circCurr_eq
  refine ⟨⟨?_, ?_, ?_⟩, hc, hi, hst⟩
  · show Sane m.task (home m.task) s.ctx s xs'
    rw [hs.ctx]; exact hs
  · show s.rq.circ.curr = currOf m.task s.rq.curr
    rw [hcc, hc]; exact h.curr
  · show TasksOk m.task s.rq.idle s.rq.stop
    rw [hi, hst]; exact h.tasks

theorem Inv.of_cpu (h : Inv m xs) {s : Cpu K} {xs' : List α}
    (hs : Sane m.task (home m.task) m.cpu.ctx s xs') : Inv { m with cpu := s } xs' := by
  obtain ⟨h₁, hsame⟩ := h.toSettled.of_cpu hs
  refine ⟨h₁, ?_⟩
  rw [hsame.curr]
  exact h.running

/-- A task may change in whatever way keeps its account, its class and its priority. -/
theorem Settled.of_task (h : Settled m xs) (hp : p ≠ m.cpu.rq.idle)
    (hon : taskOnRqQueued t = taskOnRqQueued (m.task p))
    (hc : t.schedClass = (m.task p).schedClass) (hprio : t.prio = (m.task p).prio)
    (hst : StaticOk t.staticPrio) :
    Settled { m with task := Function.update m.task p t } xs := by
  have hhome : home (Function.update m.task p t) = home m.task := by
    rw [home_update, hon, hc]
    exact Function.update_eq_self p (home m.task)
  refine ⟨?_, ?_, ?_⟩
  · show Sane (Function.update m.task p t) (home (Function.update m.task p t)) _ _ _
    rw [hhome]
    refine h.sane.congr_tasks ?_
    intro q _
    by_cases e : q = p
    · subst e; rw [Function.update_self, hprio]
    · rw [Function.update_of_ne e]
  · show _ = currOf (Function.update m.task p t) m.cpu.rq.curr
    rw [h.curr]
    unfold currOf
    by_cases e : m.cpu.rq.curr = p
    · rw [e, Function.update_self, hc]
    · rw [Function.update_of_ne e]
  · refine h.tasks.update hp ⟨?_, hst⟩
    rw [hc, hprio]
    exact (h.tasks.task p hp).cls

theorem Inv.of_task (h : Inv m xs) (hp : p ≠ m.cpu.rq.idle)
    (hon : taskOnRqQueued t = taskOnRqQueued (m.task p))
    (hc : t.schedClass = (m.task p).schedClass) (hprio : t.prio = (m.task p).prio)
    (hst : StaticOk t.staticPrio) :
    Inv { m with task := Function.update m.task p t } xs := by
  refine ⟨h.toSettled.of_task hp hon hc hprio hst, ?_⟩
  show taskOnRqQueued (Function.update m.task p t m.cpu.rq.curr) = true
  by_cases e : m.cpu.rq.curr = p
  · rw [e, Function.update_self, hon, ← e]; exact h.running
  · rw [Function.update_of_ne e]; exact h.running

/-! ### Taking a task off its class and putting it back -/

/-- `if (queued) dequeue_task(rq, p, 0)`: the task is on no account. -/
theorem dequeueIfQueued_spec (h : Settled m xs) (hp : p ≠ m.cpu.rq.idle) :
    (when (taskOnRqQueued (m.task p) = true) (onCpu fun T => dequeueTask T p 0)).mwp ringMonitor
      m xs (fun _ m' xs' => m'.task = m.task ∧
        Sane m.task (Function.update (home m.task) p none) m.cpu.ctx m'.cpu xs') := by
  apply mwp_when
  · intro hq
    rw [mwp_onCpu]
    refine (dequeueTask_spec h.sane (home_of_queued hq) (h.tasks.ne_fair p)
      (h.tasks.task p hp).ne_idle 0).mono ?_
    intro _ s' xs' hs'
    exact ⟨rfl, hs'⟩
  · intro hq
    have hnone : home m.task p = none := home_eq_none.mpr (by simpa using hq)
    have he : Function.update (home m.task) p none = home m.task := by
      rw [← hnone]; exact Function.update_eq_self p _
    rw [he]
    exact ⟨rfl, h.sane⟩

/-- `if (queued) enqueue_task(rq, p, flags)`: the task is on the account of its class again. -/
theorem enqueueIfQueued_spec {a : Account α} {c : Ctx α} {S : Prop} {q : Bool}
    (h : Sane m.task (Function.update a p none) c m.cpu xs) (ht : TaskOk S (m.task p)) (flags : ℕ) :
    (when (q = true) (onCpu fun T => enqueueTask T p flags)).mwp ringMonitor m xs
      (fun _ m' xs' => m'.task = m.task ∧ Sane m.task
        (Function.update a p (if q then some (m.task p).schedClass else none)) c m'.cpu xs') := by
  apply mwp_when
  · intro hq
    have hspec := enqueueTask_spec h (by rw [Function.update_self]) ht.ne_fair ht.ne_idle
      ht.rt_range flags
    rw [mwp_onCpu, if_pos hq]
    refine hspec.mono ?_
    intro _ s' xs' hs'
    rw [Function.update_idem] at hs'
    exact ⟨rfl, hs'⟩
  · intro hq
    rw [if_neg hq]
    exact ⟨rfl, h⟩

/-- `if (running) put_prev_task(rq, p)`: `circ_rq->curr` does not point at the task. -/
theorem putPrevIfRunning_spec {a : Account α} (h : Sane m.task a m.cpu.ctx m'.cpu xs)
    (he : m'.task = m.task) (hcurr : m.cpu.rq.circ.curr = currOf m.task m.cpu.rq.curr)
    (hfair : (m.task p).schedClass ≠ .fair) :
    (when (decide (m.cpu.rq.curr = p) = true) (onCpu fun T => putPrevTask T p)).mwp ringMonitor
      m' xs (fun _ m₂ xs₂ => m₂.task = m.task ∧ Sane m.task a
        { m.cpu.ctx with circCurr := if m.cpu.rq.curr = p then none else m.cpu.rq.circ.curr }
        m₂.cpu xs₂) := by
  apply mwp_when
  · intro hr
    have hr' : m.cpu.rq.curr = p := of_decide_eq_true hr
    have hcp : m.cpu.ctx.circCurr = currOf m.task p := by rw [← hr']; exact hcurr
    rw [mwp_onCpu, he, if_pos hr']
    refine (putPrevTask_spec h hcp hfair).mono ?_
    rintro _ s₂ xs₂ ⟨-, hs₂⟩
    exact ⟨rfl, hs₂⟩
  · intro hr
    rw [if_neg (by simpa using hr)]
    exact ⟨he, h⟩

/-- `if (running) p->sched_class->set_curr_task(rq)`: `circ_rq->curr` follows the new class. -/
theorem setCurrIfRunning_spec {a : Account α} {c : Ctx α} {v : Option α}
    (h : Sane m.task a { c with circCurr := if c.curr = p then none else v } m.cpu xs)
    (hap : a p = none) (hv : c.curr ≠ p → v = currOf m.task c.curr)
    (hfair : (m.task p).schedClass ≠ .fair) :
    (when (decide (c.curr = p) = true) (onCpu fun T => setCurrTask T p)).mwp ringMonitor m xs
      (fun _ m' xs' => m'.task = m.task ∧
        Sane m.task a { c with circCurr := currOf m.task c.curr } m'.cpu xs') := by
  apply mwp_when
  · intro hr
    have hr' : c.curr = p := of_decide_eq_true hr
    rw [if_pos hr'] at h
    rw [mwp_onCpu]
    refine (setCurrTask_spec h hr' hap rfl hfair).mono ?_
    intro _ s' xs' hs'
    have hcp : currOf m.task c.curr = currOf m.task p := by rw [hr']
    rw [hcp]
    exact ⟨rfl, hs'⟩
  · intro hr
    have hr' : ¬ c.curr = p := by simpa using hr
    rw [if_neg hr', hv hr'] at h
    exact ⟨rfl, h⟩

/-- The machine is settled again once the account and the pointers are those of the tasks. -/
theorem Inv.of_sane {xs' : List α} (h : Inv m xs) (hp : p ≠ m.cpu.rq.idle)
    (ht : TaskOk (m.cpu.rq.stop = some p) t)
    (hq : taskOnRqQueued t = taskOnRqQueued (m.task p))
    (he : m'.task = Function.update m.task p t)
    (hs : Sane m'.task (home m'.task)
      { m.cpu.ctx with circCurr := currOf m'.task m.cpu.rq.curr } m'.cpu xs') :
    Inv m' xs' ∧ SameRq m m' := by
  have hcurr : m'.cpu.rq.curr = m.cpu.rq.curr := hs.curr_eq
  have hidle : m'.cpu.rq.idle = m.cpu.rq.idle := hs.idle_eq
  have hstop : m'.cpu.rq.stop = m.cpu.rq.stop := congrArg Ctx.stop hs.ctx
  refine ⟨⟨⟨?_, ?_, ?_⟩, ?_⟩, ⟨hcurr, hidle, hstop⟩⟩
  · rw [hs.ctx]; exact hs
  · rw [hcurr]; exact hs.circCurr_eq
  · rw [he, hidle, hstop]; exact h.tasks.update hp ht
  · rw [he, hcurr]
    by_cases e : m.cpu.rq.curr = p
    · rw [e, Function.update_self, hq, ← e]; exact h.running
    · rw [Function.update_of_ne e]; exact h.running

/-! ### Changing class and priority -/

/-- **The class change.**  Whatever the task was doing (running, queued or sleeping) and whatever
classes it leaves and enters, the machine is settled again afterwards. -/
theorem changeTask_spec (h : Inv m xs) (hp : p ≠ m.cpu.rq.idle)
    {change : TaskStruct → Option TaskStruct} (hch : change (m.task p) = some t)
    (hon : t.onRq = (m.task p).onRq) (ht : TaskOk (m.cpu.rq.stop = some p) t)
    (flags : TaskStruct → TaskStruct → ℕ) :
    (changeTask p change flags).mwp ringMonitor m xs (fun _ m' xs' =>
      Inv m' xs' ∧ SameRq m m' ∧ m'.task = Function.update m.task p t) := by
  have hq : taskOnRqQueued t = taskOnRqQueued (m.task p) := by unfold taskOnRqQueued; rw [hon]
  obtain ⟨T', hT'⟩ : ∃ T', T' = Function.update m.task p t := ⟨_, rfl⟩
  have hTp : T' p = t := by rw [hT', Function.update_self]
  have hfair' : (T' p).schedClass ≠ .fair := by rw [hTp]; exact ht.ne_fair
  unfold changeTask
  rw [mwp_bind, mwp_get]
  refine mwp.seq (dequeueIfQueued_spec h.toSettled hp) ?_
  rintro _ m₁ xs₁ ⟨e₁, hs₁⟩
  refine mwp.seq (putPrevIfRunning_spec hs₁ e₁ h.curr (h.tasks.ne_fair p)) ?_
  rintro _ m₂ xs₂ ⟨e₂, hs₂⟩
  rw [mwp_bind, mwp_updateTask (by rw [e₂]; exact hch), e₂, ← hT']
  -- the task that changes is on no account
  have hs₃ : Sane T' (Function.update (home m.task) p none)
      { m.cpu.ctx with circCurr := if m.cpu.ctx.curr = p then none else m.cpu.rq.circ.curr }
      m₂.cpu xs₂ := by
    rw [hT']; exact hs₂.congr_off
  have hv : m.cpu.ctx.curr ≠ p → m.cpu.rq.circ.curr = currOf T' m.cpu.ctx.curr := by
    intro hr
    rw [hT', currOf_update_of_ne hr]
    exact h.curr
  refine mwp.seq (setCurrIfRunning_spec (m := { m₂ with task := T' }) hs₃
    (by rw [Function.update_self]) hv hfair') ?_
  rintro _ m₄ xs₄ ⟨e₄, hs₄⟩
  rw [mwp_bind, mwp_get]
  have e₄' : m₄.task = T' := e₄
  have ht₄ : TaskOk (m.cpu.rq.stop = some p) (m₄.task p) := by rw [e₄', hTp]; exact ht
  refine (enqueueIfQueued_spec (by rw [e₄]; exact hs₄) ht₄ _).mono ?_
  rintro _ m₅ xs₅ ⟨e₅, hs₅⟩
  have e₅' : m₅.task = T' := e₅.trans e₄'
  rw [e₄', hTp, ← hq, ← home_update, ← hT'] at hs₅
  obtain ⟨hinv, hsame⟩ := h.of_sane hp ht hq (e₅'.trans hT') (by rw [e₅']; exact hs₅)
  exact ⟨hinv, hsame, e₅'⟩

/-- `rt_mutex_setprio`. -/
theorem rtMutexSetprio_spec (h : Inv m xs) {prio : ℤ} (hprio : prio ≤ MAX_PRIO) (b : Bool) :
    (rtMutexSetprio p prio b).mwp ringMonitor m xs (fun _ m' xs' => Inv m' xs' ∧ SameRq m m') := by
  unfold rtMutexSetprio
  rw [mwp_bind, when_neg (not_lt.mpr hprio), mwp_ret, mwp_bind, mwp_get]
  apply mwp_when
  · intro hp
    obtain ⟨hok, hon⟩ := setprioTask_ok (h.tasks.static p) prio b
    refine mwp.seq (changeTask_spec (t := (setprioTask prio b (m.task p)).2) h hp rfl hon hok _) ?_
    rintro _ m₁ xs₁ ⟨h₁, hsame, he⟩
    have hok₁ : TaskOk (m.cpu.rq.stop = some p) (m₁.task p) := by
      rw [he, Function.update_self]; exact hok
    rw [mwp_onCpu]
    refine (checkClassChanged_spec h₁.sane (h.tasks.ne_fair p) hok₁.ne_fair hok₁.ne_idle).mono ?_
    rintro _ s₂ g₂ ⟨rfl, h₂⟩
    exact ⟨h₁.of_cpu h₂, hsame.trans (h₁.toSettled.of_cpu h₂).2⟩
  · intro _; exact ⟨h, .refl m⟩

/-- `sched_move_task`. -/
theorem schedMoveTask_spec (h : Inv m xs) (hp : p ≠ m.cpu.rq.idle) :
    (schedMoveTask p).mwp ringMonitor m xs (fun _ m' xs' => Inv m' xs' ∧ SameRq m m') := by
  unfold schedMoveTask
  refine (changeTask_spec h hp rfl rfl (h.tasks.task p hp) _).mono ?_
  rintro _ m' xs' ⟨h', hsame, -⟩
  exact ⟨h', hsame⟩

/-- `set_user_nice`. -/
theorem setUserNice_spec (h : Inv m xs) (hp : p ≠ m.cpu.rq.idle) (nice : ℤ) :
    (setUserNice p nice).mwp ringMonitor m xs (fun _ m' xs' => Inv m' xs' ∧ SameRq m m') := by
  unfold setUserNice
  rw [mwp_bind, mwp_get]
  apply mwp_when
  swap
  · intro _; exact ⟨h, .refl m⟩
  intro hn
  have hn' : MIN_NICE ≤ nice ∧ nice ≤ MAX_NICE := by
    rw [not_or, not_or] at hn
    exact ⟨not_lt.mp hn.2.1, not_lt.mp hn.2.2⟩
  split
  · rw [mwp_modifyTask]
    exact ⟨h.of_task hp rfl rfl rfl (staticOk_nice hn'), .of_task⟩
  · rename_i hpol
    rw [not_or, Bool.not_eq_true, Bool.not_eq_true] at hpol
    obtain ⟨t, hnt, hok, hon, hcls⟩ := niceTask_ok (h.tasks.task p hp) hn' hpol.1 hpol.2
    have hq : taskOnRqQueued t = taskOnRqQueued (m.task p) := by unfold taskOnRqQueued; rw [hon]
    obtain ⟨T', hT'⟩ : ∃ T', T' = Function.update m.task p t := ⟨_, rfl⟩
    have hTp : T' p = t := by rw [hT', Function.update_self]
    refine mwp.seq (dequeueIfQueued_spec h.toSettled hp) ?_
    rintro _ m₁ xs₁ ⟨e₁, hs₁⟩
    rw [mwp_bind, mwp_updateTask (by rw [e₁]; exact hnt), e₁, ← hT', mwp_bind, mwp_get,
      mwp_when_bind]
    have hs₂ : Sane T' (Function.update (home m.task) p none) m.cpu.ctx m₁.cpu xs₁ := by
      rw [hT']; exact hs₁.congr_off
    have hok₂ : TaskOk (m.cpu.rq.stop = some p) (T' p) := by rw [hTp]; exact hok
    refine mwp.seq (enqueueIfQueued_spec (m := { m₁ with task := T' }) hs₂ hok₂ 0) ?_
    rintro _ m₃ xs₃ ⟨e₃, hs₃⟩
    have e₃' : m₃.task = T' := e₃
    have hcurr : m.cpu.ctx.circCurr = currOf T' m.cpu.rq.curr := by
      rw [hT', currOf_update_of_class hcls]; exact h.curr
    have hs₃' : Sane T' (home T') { m.cpu.ctx with circCurr := currOf T' m.cpu.rq.curr }
        m₃.cpu xs₃ := by
      change Sane T' (Function.update (home m.task) p
        (if taskOnRqQueued (m.task p) then some (T' p).schedClass else none)) _ _ _ at hs₃
      rw [hTp, hT'] at hs₃
      rw [← hcurr, hT', home_update, hq]
      exact hs₃
    obtain ⟨h₃, hsame⟩ := h.of_sane hp hok hq (e₃'.trans hT') (by rw [e₃']; exact hs₃')
    apply mwp_when
    · intro _
      apply mwp_when
      · intro _
        rw [mwp_onCpu]
        refine (reschedCurr_spec h₃.sane).mono ?_
        rintro _ s₄ g₄ ⟨rfl, h₄⟩
        exact ⟨h₃.of_cpu h₄, hsame.trans (h₃.toSettled.of_cpu h₄).2⟩
      · intro _; exact ⟨h₃, hsame⟩
    · intro _; exact ⟨h₃, hsame⟩

/-- The part of `__sched_setscheduler` after the checks. -/
theorem schedSetschedulerChange_spec (h : Inv m xs) (hp : p ≠ m.cpu.rq.idle) {attr : SchedAttr}
    (hn : MIN_NICE ≤ attr.schedNice ∧ attr.schedNice ≤ MAX_NICE) (boosted : Bool) :
    (schedSetschedulerChange p attr boosted).mwp ringMonitor m xs
      (fun _ m' xs' => Inv m' xs' ∧ SameRq m m') := by
  unfold schedSetschedulerChange
  rw [mwp_bind, mwp_get, mwp_bind, mwp_modifyTask]
  obtain ⟨t₁, ht₁⟩ : ∃ t₁, t₁ =
    { m.task p with schedResetOnFork := attr.resetFor (m.task p) } := ⟨_, rfl⟩
  have h₁ : Inv { m with task := Function.update m.task p t₁ } xs := by
    rw [ht₁]; exact h.of_task hp rfl rfl rfl (h.tasks.static p)
  obtain ⟨m₁, hm₁⟩ : ∃ m₁ : Machine K, m₁ = { m with task := Function.update m.task p t₁ } :=
    ⟨_, rfl⟩
  have hsame₁ : SameRq m m₁ := by rw [hm₁]; exact .of_task
  have hp₁ : p ≠ m₁.cpu.rq.idle := by rw [hsame₁.idle]; exact hp
  rw [← hm₁] at h₁
  rw [← ht₁, ← hm₁]
  split
  · obtain ⟨t, ht, hs, hc, hpr, hon⟩ := __setschedulerParams_ok (h₁.tasks.static p) hn
    rw [mwp_bind, mwp_updateTask ht, mwp_ret]
    refine ⟨h₁.of_task hp₁ ?_ hc hpr hs, hsame₁.trans .of_task⟩
    unfold taskOnRqQueued
    rw [hon]
  · obtain ⟨t, ht, hok, hon⟩ := __setscheduler_ok (h₁.tasks.static p) hn
    refine mwp.seq (changeTask_spec h₁ hp₁ ht hon hok _) ?_
    rintro _ m₂ xs₂ ⟨h₂, hsame, he⟩
    have hok₂ : TaskOk (m₁.cpu.rq.stop = some p) (m₂.task p) := by
      rw [he, Function.update_self]; exact hok
    rw [mwp_bind, mwp_onCpu]
    refine (checkClassChanged_spec h₂.sane (h.tasks.ne_fair p) hok₂.ne_fair hok₂.ne_idle).mono ?_
    rintro _ s₃ g₃ ⟨rfl, h₃⟩
    exact mwp_ret.mpr ⟨h₂.of_cpu h₃, (hsame₁.trans hsame).trans (h₂.toSettled.of_cpu h₃).2⟩

/-- **`__sched_setscheduler`**, whatever it answers. -/
theorem __schedSetscheduler_spec (h : Inv m xs) (hp : p ≠ m.cpu.rq.idle) {attr : SchedAttr}
    (hn : MIN_NICE ≤ attr.schedNice ∧ attr.schedNice ≤ MAX_NICE) (env : SetschedEnv) :
    (__schedSetscheduler p attr env).mwp ringMonitor m xs
      (fun _ m' xs' => Inv m' xs' ∧ SameRq m m') := by
  unfold __schedSetscheduler
  rw [mwp_bind, mwp_get]
  dsimp only
  split
  · exact mwp_ret.mpr ⟨h, .refl m⟩
  split
  · exact mwp_ret.mpr ⟨h, .refl m⟩
  split
  · exact mwp_ret.mpr ⟨h, .refl m⟩
  split
  · exact mwp_ret.mpr ⟨h, .refl m⟩
  split
  · rw [mwp_bind, mwp_modifyTask, mwp_ret]
    exact ⟨h.of_task hp rfl rfl rfl (h.tasks.static p), .of_task⟩
  split
  · split
    · exact mwp_ret.mpr ⟨h, .refl m⟩
    · rename_i bw _
      rw [mwp_bind, mwp_onCpu]
      unfold modifyRq
      rw [mwp_modify]
      have hs : Sane m.task (home m.task) m.cpu.ctx
          { m.cpu with rq := { m.cpu.rq with dlBw := bw } } xs :=
        h.sane.congr_state rfl (fun _ _ => rfl) (fun _ => rfl) rfl rfl rfl rfl rfl
      refine (schedSetschedulerChange_spec (h.of_cpu hs) hp hn _).mono ?_
      rintro _ m' xs' ⟨h', hsame⟩
      exact ⟨h', hsame.curr, hsame.idle, hsame.stop⟩
  · exact schedSetschedulerChange_spec h hp hn _

end

end KernelHacking.Sched
