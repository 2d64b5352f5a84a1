import KernelHacking.Sched.Run

/-! # Class and priority agree

The class of a task is recomputed from its priority in `sched_fork`, `rt_mutex_setprio` and
`__setscheduler`, and left alone everywhere else.  This module follows the class and the priorities
of the tasks through any sequence of the functions that write them.  It is a statement about the
outcome of these functions alone: the run-queue does not matter, so the calls into the classes are
passed over (`wlp_onCpu`) and no invariant of it is assumed.

The idle and stop tasks are exempt: their class is set elsewhere.

`cpu_cgroup_can_attach` still asks for the fair class, which none of these functions gives to a task
(`GotClass.ne_fair`), so it refuses every task (`attachesNormal_iff`). -/

namespace KernelHacking.Sched

open TraceProg Prog

variable {α : Type} [DecidableEq α] [Fintype α] {K : Kernel α}
variable {m m' m₀ : Machine K} {p : α} {t : TaskStruct}

/-! ### The agreement of all tasks -/

/-- Every static priority is a nice level, and the class of a task that is not exempt belongs to
its priority. -/
def AgreesExcept (exempt : α → Prop) (T : α → TaskStruct) : Prop :=
  ∀ p, StaticOk (T p).staticPrio ∧ (¬ exempt p → TaskOk False (T p))

section
variable {exempt : α → Prop} {T : α → TaskStruct}

omit [Fintype α] in
theorem AgreesExcept.update (h : AgreesExcept exempt T) (hs : StaticOk t.staticPrio)
    (ht : ¬ exempt p → TaskOk False t) : AgreesExcept exempt (Function.update T p t) := by
  intro q
  by_cases e : q = p
  · subst e; rw [Function.update_self]; exact ⟨hs, ht⟩
  · rw [Function.update_of_ne e]; exact h q

omit [Fintype α] in
/-- A change that leaves class and effective priority alone. -/
theorem AgreesExcept.update_params (h : AgreesExcept exempt T) (hs : StaticOk t.staticPrio)
    (hc : t.schedClass = (T p).schedClass) (hprio : t.prio = (T p).prio) :
    AgreesExcept exempt (Function.update T p t) := by
  refine h.update hs ?_
  intro hp
  refine ⟨?_, hs⟩
  rw [hc, hprio]
  exact ((h p).2 hp).cls

omit [DecidableEq α] [Fintype α] in
/-- The task in the making is exempt as well. -/
theorem AgreesExcept.weaken (h : AgreesExcept exempt T) (p : α) :
    AgreesExcept (fun q => exempt q ∨ q = p) T := by
  intro q
  refine ⟨(h q).1, ?_⟩
  intro hq
  exact (h q).2 fun e => hq (.inl e)

omit [Fintype α] in
/-- It is not any more once its class belongs to its priority. -/
theorem AgreesExcept.finish (h : AgreesExcept (fun q => exempt q ∨ q = p) T)
    (hs : StaticOk t.staticPrio) (hc : t.schedClass = classOfPrio t.prio) :
    AgreesExcept exempt (Function.update T p t) := by
  intro q
  by_cases e : q = p
  · subst e
    rw [Function.update_self]
    exact ⟨hs, fun _ => ⟨.inl hc, hs⟩⟩
  · rw [Function.update_of_ne e]
    refine ⟨(h q).1, ?_⟩
    intro hq
    exact (h q).2 fun e' => e'.elim hq e

/-! ### Passing over the classes -/

theorem wlp_onCpu {β : Type} {f : (α → TaskStruct) → SchedM K β} {Q : β → Machine K → Prop}
    (h : ∀ b s, Q b { m with cpu := s }) : (onCpu f).wlp m Q := by
  unfold onCpu
  apply wlp_get_bind
  apply wlp_zoom
  intro b s _ _
  exact h b s

theorem wlp_modifyTask {f : TaskStruct → TaskStruct} {Q : Unit → Machine K → Prop}
    (h : Q () { m with task := Function.update m.task p (f (m.task p)) }) :
    (modifyTask p f).wlp m Q := by
  unfold modifyTask
  exact wlp_modify h

theorem wlp_updateTask {f : TaskStruct → Option TaskStruct} {Q : Unit → Machine K → Prop}
    (h : ∀ t, f (m.task p) = some t → Q () { m with task := Function.update m.task p t }) :
    (updateTask p f).wlp m Q := by
  unfold updateTask
  apply wlp_get_bind
  cases ht : f (m.task p) with
  | none => exact wlp_fail
  | some t => exact wlp_modifyTask (h t ht)

/-- Calls into the classes keep every statement about the tasks. -/
theorem wlp_onCpu_keeps {β : Type} {f : (α → TaskStruct) → SchedM K β}
    {P : (α → TaskStruct) → Prop} (h : P m.task) : (onCpu f).wlp m (fun _ m' => P m'.task) :=
  wlp_onCpu fun _ _ => h

theorem wlp_when_onCpu {c : Prop} [Decidable c] {f : (α → TaskStruct) → SchedM K Unit}
    {P : (α → TaskStruct) → Prop} (h : P m.task) :
    (when c (onCpu f)).wlp m (fun _ m' => P m'.task) :=
  wlp_when (fun _ => wlp_onCpu_keeps h) (fun _ => h)

/-! ### The functions that write class and priority -/

/-- The frame of the class changes changes the task and nothing else. -/
theorem changeTask_task {change : TaskStruct → Option TaskStruct}
    {flags : TaskStruct → TaskStruct → ℕ} {P : (α → TaskStruct) → Prop}
    (h : ∀ t, change (m.task p) = some t → P (Function.update m.task p t)) :
    (changeTask p change flags).wlp m (fun _ m' => P m'.task) := by
  unfold changeTask
  apply wlp_get_bind
  refine wlp_bind (wlp_when_onCpu (P := fun T => T = m.task) rfl) ?_
  intro _ m₁ e₁
  refine wlp_bind (wlp_when_onCpu (P := fun T => T = m.task) e₁) ?_
  intro _ m₂ e₂
  refine wlp_bind (P := fun _ m₃ => P m₃.task) (wlp_updateTask ?_) ?_
  · intro t ht
    rw [e₂] at ht ⊢
    exact h t ht
  intro _ m₃ h₃
  refine wlp_bind (wlp_when_onCpu h₃) ?_
  intro _ m₄ h₄
  apply wlp_get_bind
  exact wlp_when_onCpu h₄

/-- `rt_mutex_setprio` writes the task, unless it is the idle task. -/
theorem rtMutexSetprio_task {prio : ℤ} {b : Bool} {P : (α → TaskStruct) → Prop}
    (hset : P (Function.update m.task p (setprioTask prio b (m.task p)).2))
    (hidle : p = m.cpu.rq.idle → P m.task) :
    (rtMutexSetprio p prio b).wlp m (fun _ m' => P m'.task) := by
  unfold rtMutexSetprio
  refine wlp_bind (P := fun _ m' => m' = m) (wlp_when (fun _ => wlp_fail) fun _ => rfl) ?_
  intro _ m' e
  subst e
  apply wlp_get_bind
  apply wlp_when
  · intro _
    refine wlp_bind (changeTask_task (P := P) ?_) ?_
    · intro t ht
      cases ht
      exact hset
    · intro _ m₁ h₁
      exact wlp_onCpu_keeps h₁
  · intro hp
    exact hidle (not_not.mp hp)

theorem rtMutexSetprio_agrees (h : AgreesExcept exempt m.task) (prio : ℤ) (b : Bool) :
    (rtMutexSetprio p prio b).wlp m (fun _ m' => AgreesExcept exempt m'.task) := by
  obtain ⟨hok, -⟩ := setprioTask_ok (S := False) (h p).1 prio b
  exact rtMutexSetprio_task (h.update hok.static fun _ => hok) fun _ => h

/-- `set_user_nice`. -/
theorem setUserNice_agrees (h : AgreesExcept exempt m.task) (nice : ℤ) :
    (setUserNice p nice).wlp m (fun _ m' => AgreesExcept exempt m'.task) := by
  unfold setUserNice
  apply wlp_get_bind
  apply wlp_when
  swap
  · intro _; exact h
  intro hn
  have hn' : MIN_NICE ≤ nice ∧ nice ≤ MAX_NICE := by
    rw [not_or, not_or] at hn
    exact ⟨not_lt.mp hn.2.1, not_lt.mp hn.2.2⟩
  split
  · exact wlp_modifyTask (h.update_params (staticOk_nice hn') rfl rfl)
  · rename_i hpol
    rw [not_or, Bool.not_eq_true, Bool.not_eq_true] at hpol
    refine wlp_bind (wlp_when_onCpu (P := fun T => T = m.task) rfl) ?_
    intro _ m₁ e₁
    refine wlp_bind (P := fun _ m' => AgreesExcept exempt m'.task) (wlp_updateTask ?_) ?_
    · intro t ht
      rw [e₁] at ht ⊢
      have hstatic : StaticOk t.staticPrio := by
        obtain ⟨t₁, ht₁, rfl⟩ := Option.map_eq_some_iff.mp ht
        obtain ⟨w, -, rfl⟩ := Option.map_eq_some_iff.mp ht₁
        exact staticOk_nice hn'
      refine h.update hstatic ?_
      intro hp
      obtain ⟨t', ht', hok, -⟩ := niceTask_ok ((h p).2 hp) hn' hpol.1 hpol.2
      rw [ht] at ht'
      cases ht'
      exact hok
    · intro _ m₂ h₂
      apply wlp_get_bind
      apply wlp_when
      · intro _
        refine wlp_bind (wlp_onCpu_keeps h₂) ?_
        intro _ m₃ h₃
        exact wlp_when_onCpu h₃
      · intro _; exact h₂

/-- A static priority after `__setscheduler`, and the class. -/
theorem __setscheduler_agrees (h : AgreesExcept exempt m.task) {attr : SchedAttr}
    (hn : MIN_NICE ≤ attr.schedNice ∧ attr.schedNice ≤ MAX_NICE)
    (ht : __setscheduler attr (m.task p) = some t) :
    AgreesExcept exempt (Function.update m.task p t) := by
  obtain ⟨t', ht', hok, -⟩ := __setscheduler_ok (S := False) (h p).1 hn
  rw [ht] at ht'
  cases ht'
  exact h.update hok.static fun _ => hok

/-- The part of `__sched_setscheduler` after the checks; a boosted task keeps its class and
priority. -/
theorem schedSetschedulerChange_agrees (h : AgreesExcept exempt m.task) {attr : SchedAttr}
    (hn : MIN_NICE ≤ attr.schedNice ∧ attr.schedNice ≤ MAX_NICE) (boosted : Bool) :
    (schedSetschedulerChange p attr boosted).wlp m
      (fun _ m' => AgreesExcept exempt m'.task) := by
  unfold schedSetschedulerChange
  apply wlp_get_bind
  have hreset := h.update_params (t := { m.task p with
    schedResetOnFork := attr.resetFor (m.task p) }) (h p).1 rfl rfl
  refine wlp_bind (P := fun _ m' => AgreesExcept exempt m'.task) (wlp_modifyTask hreset) ?_
  intro _ m₁ h₁
  split
  · refine wlp_bind (P := fun _ m' => AgreesExcept exempt m'.task) (wlp_updateTask ?_) ?_
    · intro t ht
      obtain ⟨t', ht', hs, hc, hp, -⟩ := __setschedulerParams_ok (h₁ p).1 hn
      rw [ht] at ht'
      cases ht'
      exact h₁.update_params hs hc hp
    · intro _ m₂ h₂
      exact wlp_ret h₂
  · refine wlp_bind (changeTask_task (P := AgreesExcept exempt)
      fun t ht => __setscheduler_agrees h₁ hn ht) ?_
    intro _ m₂ h₂
    refine wlp_bind (wlp_onCpu_keeps h₂) ?_
    intro _ m₃ h₃
    exact wlp_ret h₃

/-- `__sched_setscheduler`. -/
theorem __schedSetscheduler_agrees (h : AgreesExcept exempt m.task) {attr : SchedAttr}
    (hn : MIN_NICE ≤ attr.schedNice ∧ attr.schedNice ≤ MAX_NICE) (env : SetschedEnv) :
    (__schedSetscheduler p attr env).wlp m (fun _ m' => AgreesExcept exempt m'.task) := by
  unfold __schedSetscheduler
  apply wlp_get_bind
  dsimp only
  split
  · exact wlp_ret h
  split
  · exact wlp_ret h
  split
  · exact wlp_ret h
  split
  · exact wlp_ret h
  split
  · have hreset := h.update_params (t := { m.task p with
      schedResetOnFork := attr.resetFor (m.task p) }) (h p).1 rfl rfl
    refine wlp_bind (P := fun _ m' => AgreesExcept exempt m'.task) (wlp_modifyTask hreset) ?_
    intro _ m₁ h₁
    exact wlp_ret h₁
  split
  · split
    · exact wlp_ret h
    · refine wlp_bind (wlp_onCpu_keeps h) ?_
      intro _ m₁ h₁
      exact schedSetschedulerChange_agrees h₁ hn _
  · exact schedSetschedulerChange_agrees h hn _

/-- `normalize_task`. -/
theorem normalizeTask_agrees (h : AgreesExcept exempt m.task) :
    (normalizeTask p).wlp m (fun _ m' => AgreesExcept exempt m'.task) := by
  have hnice : MIN_NICE ≤ normalAttr.schedNice ∧ normalAttr.schedNice ≤ MAX_NICE := by decide
  unfold normalizeTask
  apply wlp_get_bind
  refine wlp_bind (wlp_when_onCpu h) ?_
  intro _ m₁ h₁
  refine wlp_bind (P := fun _ m' => AgreesExcept exempt m'.task)
    (wlp_updateTask fun t ht => __setscheduler_agrees h₁ hnice ht) ?_
  intro _ m₂ h₂
  refine wlp_bind (P := fun _ m' => AgreesExcept exempt m'.task) (wlp_when ?_ fun _ => h₂) ?_
  · intro _
    refine wlp_bind (wlp_onCpu_keeps h₂) ?_
    intro _ m₃ h₃
    exact wlp_onCpu_keeps h₃
  · intro _ m₃ h₃
    exact wlp_onCpu_keeps h₃

/-! ### Fork -/

/-- The copy of the running task has a nice level for a static priority; its class may be any. -/
theorem dupTaskStruct_agrees (h : AgreesExcept exempt m.task) (mm kthread : Bool) :
    (dupTaskStruct p mm kthread).wlp m
      (fun _ m' => AgreesExcept (fun q => exempt q ∨ q = p) m'.task) := by
  unfold dupTaskStruct
  apply wlp_modify
  refine (h.weaken p).update (h _).1 ?_
  intro hp
  exact absurd (.inr rfl) hp

/-- `sched_fork` gives the child the class of its priority, unless it refuses. -/
theorem schedForkClass_task {P : (α → TaskStruct) → Prop}
    (h : P (Function.update m.task p
      { m.task p with schedClass := classOfPrio (m.task p).prio })) :
    (schedForkClass p).wlp m (fun r m' => r = 0 → P m'.task) := by
  unfold schedForkClass
  apply wlp_get_bind
  split
  · apply wlp_ret
    intro e
    simp [EAGAIN] at e
  rename_i hdl
  rw [Bool.not_eq_true] at hdl
  split
  · rename_i hrt
    rw [classOfPrio_rt.mpr ⟨hdl, hrt⟩] at h
    refine wlp_bind (P := fun _ m' => P m'.task) (wlp_modifyTask h) ?_
    intro _ m₁ h₁
    exact wlp_ret fun _ => h₁
  · rename_i hrt
    rw [Bool.not_eq_true] at hrt
    rw [classOfPrio_circular.mpr ⟨hdl, hrt⟩] at h
    refine wlp_bind (P := fun _ m' => P m'.task) (wlp_modifyTask h) ?_
    intro _ m₁ h₁
    refine wlp_bind (wlp_onCpu_keeps h₁) ?_
    intro _ m₂ h₂
    exact wlp_ret fun _ => h₂

theorem schedForkClass_agrees (h : AgreesExcept (fun q => exempt q ∨ q = p) m.task) :
    (schedForkClass p).wlp m (fun r m' => r = 0 → AgreesExcept exempt m'.task) :=
  schedForkClass_task (h.finish (h p).1 rfl)

/-- A fork that succeeds. -/
theorem fork_agrees (h : AgreesExcept exempt m.task) (mm kthread : Bool) :
    (fork p mm kthread).wlp m (fun r m' => r = 0 → AgreesExcept exempt m'.task) := by
  -- until the class is set, the child is exempt and only its static priority is followed
  have hchild : ∀ {m' : Machine K} (t : TaskStruct),
      AgreesExcept (fun q => exempt q ∨ q = p) m'.task → StaticOk t.staticPrio →
      AgreesExcept (fun q => exempt q ∨ q = p) (Function.update m'.task p t) := by
    intro m' t hT ht
    exact hT.update ht fun hp => absurd (.inr rfl) hp
  unfold fork
  refine wlp_bind (dupTaskStruct_agrees h mm kthread) ?_
  intro _ m₁ h₁
  unfold schedFork __schedFork
  refine wlp_bind (P := fun _ m' => AgreesExcept (fun q => exempt q ∨ q = p) m'.task) ?_ ?_
  · refine wlp_bind (P := fun _ m' => AgreesExcept (fun q => exempt q ∨ q = p) m'.task)
      (wlp_modifyTask (hchild _ h₁ (by exact (h₁ p).1))) ?_
    intro _ m₂ h₂
    refine wlp_bind (wlp_onCpu_keeps h₂) ?_
    intro _ m₃ h₃
    exact wlp_emit h₃
  intro _ m₂ h₂
  apply wlp_get_bind
  refine wlp_bind (P := fun _ m' => AgreesExcept (fun q => exempt q ∨ q = p) m'.task)
    (wlp_modifyTask (hchild _ h₂ (by exact (h₂ p).1))) ?_
  intro _ m₃ h₃
  refine wlp_bind (P := fun _ m' => AgreesExcept (fun q => exempt q ∨ q = p) m'.task)
    (wlp_when ?_ fun _ => h₃) ?_
  · intro _
    apply wlp_updateTask
    intro t ht
    obtain ⟨t', ht', hs, -⟩ := resetOnFork_ok (h₃ p).1
    rw [ht] at ht'
    cases ht'
    exact hchild t h₃ hs
  · intro _ m₄ h₄
    exact schedForkClass_agrees h₄

/-! ### Any sequence of them -/

/-- The functions that write class and priority. -/
inductive PrioStep (α : Type) where
  | fork (p : α) (mm kthread : Bool)
  | schedSetscheduler (p : α) (attr : SchedAttr) (env : SetschedEnv)
  | rtMutexSetprio (p : α) (prio : ℤ) (piPreempts : Bool)
  | setUserNice (p : α) (nice : ℤ)
  | normalizeTask (p : α)

/-- Their code, and whether the step succeeds. -/
def PrioStep.prog : PrioStep α → CoreM K Bool
  | .fork p mm kthread => do
      let r ← Sched.fork p mm kthread
      pure (decide (r = 0))
  | .schedSetscheduler p attr env => completed (__schedSetscheduler p attr env)
  | .rtMutexSetprio p prio piPreempts => completed (Sched.rtMutexSetprio p prio piPreempts)
  | .setUserNice p nice => completed (Sched.setUserNice p nice)
  | .normalizeTask p => completed (Sched.normalizeTask p)

/-- The callers of `__sched_setscheduler` see to the range of the nice value. -/
def PrioStep.Valid : PrioStep α → Prop
  | .schedSetscheduler _ attr _ => MIN_NICE ≤ attr.schedNice ∧ attr.schedNice ≤ MAX_NICE
  | _ => True

/-- Sequences of successful steps, with the rest of the kernel doing anything in between but write
class, priority and static priority. -/
inductive PrioRun (m₀ : Machine K) : Machine K → Prop where
  | refl : PrioRun m₀ m₀
  | step {m m' : Machine K} {t : List (Event K)} (e : PrioStep α) : PrioRun m₀ m → e.Valid →
      e.prog.Ends m true m' t → PrioRun m₀ m'
  | other {m m' : Machine K} : PrioRun m₀ m → (∀ p, (m'.task p).schedClass = (m.task p).schedClass ∧
      (m'.task p).prio = (m.task p).prio ∧ (m'.task p).staticPrio = (m.task p).staticPrio) →
      PrioRun m₀ m'

theorem completed_agrees {β : Type} {x : CoreM K β}
    (h : x.wlp m (fun _ m' => AgreesExcept exempt m'.task)) :
    (completed x).wlp m (fun b m' => b = true → AgreesExcept exempt m'.task) := by
  refine wlp_bind h ?_
  intro _ m₁ h₁
  exact wlp_ret fun _ => h₁

/-- Every step keeps the agreement. -/
theorem PrioStep.prog_agrees (h : AgreesExcept exempt m.task) {e : PrioStep α} (he : e.Valid) :
    e.prog.wlp m (fun b m' => b = true → AgreesExcept exempt m'.task) := by
  cases e with
  | fork p mm kthread =>
      refine wlp_bind (fork_agrees h mm kthread) ?_
      intro r m₁ h₁
      apply wlp_ret
      intro hb
      exact h₁ (of_decide_eq_true hb)
  | schedSetscheduler p attr env => exact completed_agrees (__schedSetscheduler_agrees h he env)
  | rtMutexSetprio p prio piPreempts =>
      exact completed_agrees (rtMutexSetprio_agrees h prio piPreempts)
  | setUserNice p nice => exact completed_agrees (setUserNice_agrees h nice)
  | normalizeTask p => exact completed_agrees (normalizeTask_agrees h)

theorem PrioRun.agrees (h : AgreesExcept exempt m₀.task) (hr : PrioRun m₀ m) :
    AgreesExcept exempt m.task := by
  induction hr with
  | refl => exact h
  | step e _ he hends ih => exact PrioStep.prog_agrees ih he _ _ _ hends rfl
  | other _ hsame ih =>
      intro p
      obtain ⟨hc, hp, hs⟩ := hsame p
      rw [hs]
      refine ⟨(ih p).1, ?_⟩
      intro hex
      refine ⟨?_, by rw [hs]; exact (ih p).1⟩
      rw [hc, hp]
      exact ((ih p).2 hex).cls

/-- **Class and priority agree** between the steps of every such sequence, for every task but the
idle and stop tasks: the class is the one in the chain that belongs to the priority, and the
static priority is a nice level. -/
theorem class_follows_prio (h₀ : ∀ p, StaticOk (m₀.task p).staticPrio ∧
    (¬ exempt p → (m₀.task p).schedClass = classOfPrio (m₀.task p).prio)) (hr : PrioRun m₀ m)
    (hp : ¬ exempt p) :
    ((m.task p).schedClass = .dl ↔ dlPrio (m.task p).prio = true) ∧
      ((m.task p).schedClass = .rt ↔
        rtPrio (m.task p).prio = true ∧ ¬ dlPrio (m.task p).prio = true) ∧
      ((m.task p).schedClass = .circular ↔
        ¬ rtPrio (m.task p).prio = true ∧ ¬ dlPrio (m.task p).prio = true) ∧
      (m.task p).schedClass ∈ classChain ∧ (m.task p).schedClass ≠ .fair ∧
      MAX_RT_PRIO ≤ (m.task p).staticPrio ∧ (m.task p).staticPrio < MAX_PRIO := by
  have hinit : AgreesExcept exempt m₀.task := by
    intro q
    exact ⟨(h₀ q).1, fun hq => ⟨.inl ((h₀ q).2 hq), (h₀ q).1⟩⟩
  obtain ⟨hstatic, hok⟩ := hr.agrees hinit p
  have hcls : (m.task p).schedClass = classOfPrio (m.task p).prio := by
    rcases (hok hp).cls with e | e
    · exact e
    · exact e.2.elim
  simp only [Bool.not_eq_true]
  rw [hcls, classOfPrio_dl, classOfPrio_rt, classOfPrio_circular]
  refine ⟨Iff.rfl, and_comm, and_comm, ?_, classOfPrio_ne_fair _, hstatic⟩
  rcases classOfPrio_mem (m.task p).prio with e | e | e <;> rw [e] <;> decide

/-- A normal task that is boosted becomes a real-time task. -/
theorem class_follows_prio_small : ∃ m : Machine smallKernel,
    (∀ p, StaticOk (smallBoot.task p).staticPrio ∧
      (¬ p = 0 → (smallBoot.task p).schedClass = classOfPrio (smallBoot.task p).prio)) ∧
    PrioRun smallBoot m ∧ (m.task 1).prio = 50 ∧ (m.task 1).schedClass = .rt := by
  have h₀ : ∀ p, StaticOk (smallBoot.task p).staticPrio ∧
      (¬ p = 0 → (smallBoot.task p).schedClass = classOfPrio (smallBoot.task p).prio) := by
    intro p
    refine ⟨smallBoot_boot.tasks.static p, ?_⟩
    revert p
    decide
  have hrefl : PrioRun smallBoot smallBoot := .refl
  have h₁ := PrioRun.step (.rtMutexSetprio 1 50 false) hrefl trivial ⟨3, rfl⟩
  have hcls := class_follows_prio (p := 1) h₀ h₁ (by decide)
  exact ⟨_, h₀, h₁, rfl, hcls.2.1.mpr ⟨rfl, by decide⟩⟩

end

/-! ### Attaching tasks to a control group -/

/-- The class of the task was given to it by `sched_fork`, `rt_mutex_setprio` or `__setscheduler`,
and is still the same. -/
inductive GotClass (K : Kernel α) : TaskStruct → Prop where
  | fork {m m' : Machine K} {p : α} {u : List (Event K)} : (schedFork p).Ends m 0 m' u →
      GotClass K (m'.task p)
  | setprio {m m' : Machine K} {p : α} {prio : ℤ} {piPreempts : Bool} {u : List (Event K)} :
      p ≠ m.cpu.rq.idle → (rtMutexSetprio p prio piPreempts).Ends m () m' u →
      GotClass K (m'.task p)
  | setscheduler {attr : SchedAttr} {t t' : TaskStruct} : __setscheduler attr t = some t' →
      GotClass K t'
  | later {t t' : TaskStruct} : GotClass K t → t'.schedClass = t.schedClass → GotClass K t'

/-- `sched_fork`, unless it refuses. -/
theorem schedFork_ne_fair : (schedFork p).wlp m
    (fun r m' => r = 0 → (m'.task p).schedClass ≠ .fair) := by
  unfold schedFork
  refine wlp_bind (P := fun _ _ => True) (fun _ _ _ _ => trivial) ?_
  intro _ m₁ _
  apply wlp_get_bind
  refine wlp_bind (P := fun _ _ => True) (fun _ _ _ _ => trivial) ?_
  intro _ m₂ _
  refine wlp_bind (P := fun _ _ => True) (fun _ _ _ _ => trivial) ?_
  intro _ m₃ _
  refine schedForkClass_task (P := fun T => (T p).schedClass ≠ .fair) ?_
  rw [Function.update_self]
  exact classOfPrio_ne_fair _

theorem rtMutexSetprio_ne_fair {prio : ℤ} {b : Bool} (hp : p ≠ m.cpu.rq.idle) :
    (rtMutexSetprio p prio b).wlp m (fun _ m' => (m'.task p).schedClass ≠ .fair) := by
  refine rtMutexSetprio_task (P := fun T => (T p).schedClass ≠ .fair) ?_ fun e => absurd e hp
  rw [Function.update_self, (setprioTask_eq prio b _).1]
  exact classOfPrio_ne_fair prio

/-- No task is in the fair class any more. -/
theorem GotClass.ne_fair (h : GotClass K t) : t.schedClass ≠ .fair := by
  induction h with
  | fork hends => exact schedFork_ne_fair _ _ _ hends rfl
  | setprio hp hends => exact rtMutexSetprio_ne_fair hp _ _ _ hends
  | setscheduler hset =>
      obtain ⟨t₁, -, rfl⟩ := Option.map_eq_some_iff.mp hset
      exact classOfPrio_ne_fair _
  | later _ e ih => rw [e]; exact ih

/-- So every one of them is refused. -/
theorem GotClass.refused (h : GotClass K t) (ts : List TaskStruct) :
    cpuCgroupCanAttach (t :: ts) = -EINVAL := if_pos h.ne_fair

/-- What attaching is meant to check: real-time and deadline tasks are refused, and nothing else. -/
def AttachesNormal (ts : List TaskStruct) : Prop :=
  (cpuCgroupCanAttach ts = 0 ↔ ∀ t ∈ ts, ¬ t.prio < MAX_RT_PRIO) ∧
    ((∃ t ∈ ts, t.prio < MAX_RT_PRIO) → cpuCgroupCanAttach ts = -EINVAL)

/-- **`cpu_cgroup_can_attach` refuses every task**, so it does what it is meant to only for a set
that is empty or has a real-time or deadline task in it. -/
theorem attachesNormal_iff {ts : List TaskStruct} (h : ∀ t ∈ ts, GotClass K t) :
    AttachesNormal ts ↔ ts = [] ∨ ∃ t ∈ ts, t.prio < MAX_RT_PRIO := by
  cases ts with
  | nil => simp [AttachesNormal, cpuCgroupCanAttach]
  | cons t ts =>
      have hres : cpuCgroupCanAttach (t :: ts) = -EINVAL := (h t List.mem_cons_self).refused ts
      have hne : ¬ -EINVAL = 0 := by decide
      unfold AttachesNormal
      rw [hres]
      constructor
      · intro hall
        right
        by_contra hno
        exact hne (hall.1.mpr fun x hx hlt => hno ⟨x, hx, hlt⟩)
      · rintro (e | ⟨x, hx, hlt⟩)
        · cases e
        · exact ⟨⟨fun e => absurd e hne, fun hall => absurd hlt (hall x hx)⟩, fun _ => rfl⟩

/-- A task as `__setscheduler` leaves it for a normal policy, and one for a real-time policy. -/
theorem gotClass_normal : ∃ t t', __setscheduler normalAttr sleepingTask = some t ∧
    __setscheduler { normalAttr with schedPolicy := SCHED_FIFO, schedPriority := 10 } sleepingTask =
      some t' ∧ t.prio = 120 ∧ t'.prio = 89 := ⟨_, _, rfl, rfl, rfl, rfl⟩

/-- A set with a real-time task in it is refused, as it should be. -/
theorem attachesNormal_rt : ∃ t t', t.prio = 120 ∧ t'.prio = 89 ∧ AttachesNormal [t, t'] := by
  obtain ⟨t, t', ht, ht', hp, hp'⟩ := gotClass_normal
  have hgot : ∀ x ∈ [t, t'], GotClass smallKernel x := by
    intro x hx
    simp only [List.mem_cons, List.not_mem_nil, or_false] at hx
    rcases hx with rfl | rfl
    · exact .setscheduler ht
    · exact .setscheduler ht'
  refine ⟨t, t', hp, hp', (attachesNormal_iff hgot).mpr (.inr ⟨t', by simp, ?_⟩)⟩
  rw [hp']
  decide

/-- **A single normal task is refused.** -/
theorem attach_refuses_normal : ∃ t, GotClass smallKernel t ∧ t.prio = 120 ∧
    cpuCgroupCanAttach [t] = -EINVAL ∧ ¬ AttachesNormal [t] := by
  obtain ⟨t, -, ht, -, hp, -⟩ := gotClass_normal
  have hgot : GotClass smallKernel t := .setscheduler ht
  have hres : cpuCgroupCanAttach [t] = -EINVAL := hgot.refused []
  refine ⟨t, hgot, hp, hres, ?_⟩
  intro h
  have hzero := h.1.mpr fun x hx hlt => by
    rw [List.mem_singleton] at hx
    rw [hx, hp] at hlt
    exact absurd hlt (by decide)
  rw [hres] at hzero
  exact absurd hzero (by decide)

end KernelHacking.Sched
