import KernelHacking.Sched.Prio

/-! # The parameters of a task

Policy, real-time priority, nice level, normal priority and `sched_reset_on_fork` are what the users
of the scheduler set and what children inherit.  `Step.prog_params` says once what each step of a
run does to them: three kinds of steps write them, all others leave them as they are.  Everything
that holds of the parameters in all runs is derived from it. -/

namespace KernelHacking.Sched

open TraceProg Prog

variable {α : Type} [DecidableEq α] [Fintype α] {K : Kernel α}
variable {m m' : Machine K} {p : α} {T T' : α → TaskStruct}

/-! ### Parameters -/

/-- The parameters of a task. -/
structure Params where
  policy : ℤ
  rtPriority : ℕ
  staticPrio : ℤ
  normalPrio : ℤ
  schedResetOnFork : Bool
deriving DecidableEq, Repr

/-- Those of a `task_struct`. -/
def TaskStruct.params (t : TaskStruct) : Params :=
  ⟨t.policy, t.rtPriority, t.staticPrio, t.normalPrio, t.schedResetOnFork⟩

/-- The parameters of all tasks. -/
def paramsOf (T : α → TaskStruct) (q : α) : Params := (T q).params

/-- `normal_prio`, which depends on the parameters alone. -/
def Params.normal (a : Params) : ℤ :=
  if dlPolicy a.policy then MAX_DL_PRIO - 1
  else if rtPolicy a.policy then MAX_RT_PRIO - 1 - a.rtPriority
  else a.staticPrio

theorem normalPrio_eq (t : TaskStruct) : normalPrio t = t.params.normal := rfl

/-- The nice level. -/
def Params.nice (a : Params) : ℤ := prioToNice a.staticPrio

/-- What `set_user_nice` makes of the parameters. -/
def Params.reniced (a : Params) (nice : ℤ) : Params :=
  if dlPolicy a.policy ∨ rtPolicy a.policy then { a with staticPrio := niceToPrio nice }
  else { a with staticPrio := niceToPrio nice, normalPrio := niceToPrio nice }

/-- What `__setscheduler_params` makes of them, with the policy already chosen. -/
def Params.assigned (a : Params) (policy : ℤ) (attr : SchedAttr) (reset : Bool) : Params :=
  let b : Params :=
    { a with
      policy := policy
      rtPriority := attr.schedPriority
      staticPrio := if dlPolicy policy = false ∧ fairPolicy policy then niceToPrio attr.schedNice
        else a.staticPrio
      schedResetOnFork := reset }
  { b with normalPrio := b.normal }

/-- What a child inherits. -/
def Params.child (a : Params) : Params :=
  if a.schedResetOnFork then
    let rt := dlPolicy a.policy || rtPolicy a.policy
    let staticPrio := if rt ∨ a.nice < 0 then niceToPrio 0 else a.staticPrio
    ⟨if rt then SCHED_NORMAL else a.policy, if rt then 0 else a.rtPriority, staticPrio, staticPrio, false⟩
  else a

/-! ### Changes of one task -/

omit [Fintype α] in
theorem paramsOf_update (T : α → TaskStruct) (p : α) (t : TaskStruct) :
    paramsOf (Function.update T p t) = Function.update (paramsOf T) p t.params := by
  funext q
  unfold paramsOf
  by_cases e : q = p
  · subst e; rw [Function.update_self, Function.update_self]
  · rw [Function.update_of_ne e, Function.update_of_ne e]

omit [Fintype α] in
/-- A change of something else. -/
theorem paramsOf_update_same {t : TaskStruct} (h : t.params = (T p).params) :
    paramsOf (Function.update T p t) = paramsOf T := by
  rw [paramsOf_update, h]
  exact Function.update_eq_self p (paramsOf T)

/-- The parameters depend on the tasks alone, so the calls into the classes keep them. -/
theorem onCpu_params {β : Type} {f : (α → TaskStruct) → SchedM K β} {a : α → Params}
    (h : paramsOf m.task = a) : (onCpu f).wlp m (fun _ m' => paramsOf m'.task = a) :=
  wlp_onCpu_keeps (P := fun T => paramsOf T = a) h

theorem when_onCpu_params {c : Prop} [Decidable c] {f : (α → TaskStruct) → SchedM K Unit}
    {a : α → Params} (h : paramsOf m.task = a) :
    (when c (onCpu f)).wlp m (fun _ m' => paramsOf m'.task = a) :=
  wlp_when_onCpu (P := fun T => paramsOf T = a) h

theorem modifyTask_params {f : TaskStruct → TaskStruct} {a : α → Params}
    (hf : ∀ t, (f t).params = t.params) (h : paramsOf m.task = a) :
    (modifyTask p f).wlp m (fun _ m' => paramsOf m'.task = a) :=
  wlp_modifyTask (by rw [← h]; exact paramsOf_update_same (hf _))

theorem changeTask_params {change : TaskStruct → Option TaskStruct}
    {flags : TaskStruct → TaskStruct → ℕ} {b : Params}
    (hc : ∀ t, change (m.task p) = some t → t.params = b) :
    (changeTask p change flags).wlp m
      (fun _ m' => paramsOf m'.task = Function.update (paramsOf m.task) p b) := by
  refine changeTask_task (P := fun T => paramsOf T = Function.update (paramsOf m.task) p b) ?_
  intro t ht
  rw [paramsOf_update, hc t ht]

/-! ### Wake-ups and `__schedule` -/

section
variable {a : α → Params}

theorem ttwuActivate_params (h : paramsOf m.task = a) (flags : ℕ) :
    (ttwuActivate p flags).wlp m (fun _ m' => paramsOf m'.task = a) := by
  refine wlp_bind (onCpu_params h) ?_
  intro _ m₁ h₁
  exact modifyTask_params (fun _ => rfl) h₁

theorem ttwuDoWakeup_params (h : paramsOf m.task = a) (wakeFlags : ℕ) :
    (ttwuDoWakeup p wakeFlags).wlp m (fun _ m' => paramsOf m'.task = a) := by
  refine wlp_bind (onCpu_params h) ?_
  intro _ m₁ h₁
  exact modifyTask_params (fun _ => rfl) h₁

theorem ttwuDoActivate_params (h : paramsOf m.task = a) (wakeFlags : ℕ) :
    (ttwuDoActivate p wakeFlags).wlp m (fun _ m' => paramsOf m'.task = a) := by
  refine wlp_bind (ttwuActivate_params h _) ?_
  intro _ m₁ h₁
  exact ttwuDoWakeup_params h₁ wakeFlags

theorem ttwuRemote_params (h : paramsOf m.task = a) (wakeFlags : ℕ) :
    (ttwuRemote p wakeFlags).wlp m (fun _ m' => paramsOf m'.task = a) := by
  unfold ttwuRemote
  apply wlp_get_bind
  split
  · refine wlp_bind (onCpu_params h) ?_
    intro _ m₁ h₁
    refine wlp_bind (ttwuDoWakeup_params h₁ wakeFlags) ?_
    intro _ m₂ h₂
    exact wlp_ret h₂
  · exact wlp_ret h

theorem tryToWakeUp_params (h : paramsOf m.task = a) (state wakeFlags : ℕ) :
    (tryToWakeUp p state wakeFlags).wlp m (fun _ m' => paramsOf m'.task = a) := by
  unfold tryToWakeUp
  apply wlp_get_bind
  split
  · exact wlp_ret h
  split
  · refine wlp_bind (ttwuRemote_params h wakeFlags) ?_
    intro done m₁ h₁
    refine wlp_bind (P := fun _ m' => paramsOf m'.task = a)
      (wlp_when (fun _ => ttwuDoActivate_params h₁ 0) fun _ => h₁) ?_
    intro _ m₂ h₂
    exact wlp_ret h₂
  · refine wlp_bind (ttwuDoActivate_params h 0) ?_
    intro _ m₁ h₁
    exact wlp_ret h₁

theorem tryToWakeUpLocal_params (h : paramsOf m.task = a) :
    (tryToWakeUpLocal p).wlp m (fun _ m' => paramsOf m'.task = a) := by
  unfold tryToWakeUpLocal
  apply wlp_get_bind
  refine wlp_when ?_ fun _ => h
  intro _
  refine wlp_bind (P := fun _ m' => paramsOf m'.task = a)
    (wlp_when (fun _ => ttwuActivate_params h _) fun _ => h) ?_
  intro _ m₁ h₁
  exact ttwuDoWakeup_params h₁ 0

theorem wakeUpNewTask_params (h : paramsOf m.task = a) :
    (wakeUpNewTask p).wlp m (fun _ m' => paramsOf m'.task = a) := by
  refine wlp_bind (onCpu_params h) ?_
  intro _ m₁ h₁
  refine wlp_bind (modifyTask_params (fun _ => rfl) h₁) ?_
  intro _ m₂ h₂
  exact onCpu_params h₂

theorem schedulePrev_params (h : paramsOf m.task = a) (prev : α)
    (signalPending preemptActive : Bool) (toWakeup : Option α) :
    (schedulePrev prev signalPending preemptActive toWakeup).wlp m
      (fun _ m' => paramsOf m'.task = a) := by
  unfold schedulePrev
  apply wlp_get_bind
  refine wlp_when ?_ fun _ => h
  intro _
  split
  · exact modifyTask_params (fun _ => rfl) h
  · refine wlp_bind (onCpu_params h) ?_
    intro _ m₁ h₁
    refine wlp_bind (modifyTask_params (fun _ => rfl) h₁) ?_
    intro _ m₂ h₂
    refine wlp_when ?_ fun _ => h₂
    intro _
    cases toWakeup with
    | none => exact wlp_ret h₂
    | some q => exact tryToWakeUpLocal_params h₂

theorem __schedule_params (h : paramsOf m.task = a) (signalPending preemptActive : Bool)
    (toWakeup : Option α) : (__schedule signalPending preemptActive toWakeup).wlp m
      (fun _ m' => paramsOf m'.task = a) := by
  unfold __schedule scheduleEnter
  refine wlp_bind (P := fun _ m' => paramsOf m'.task = a) ?_ ?_
  · apply wlp_get_bind
    refine wlp_bind (schedulePrev_params h _ signalPending preemptActive toWakeup) ?_
    intro _ m₁ h₁
    apply wlp_get_bind
    refine wlp_bind (when_onCpu_params h₁) ?_
    intro _ m₂ h₂
    exact wlp_ret h₂
  · intro prev m₁ h₁
    refine wlp_bind (onCpu_params h₁) ?_
    intro next m₂ h₂
    exact onCpu_params h₂

theorem taskSchedRuntime_params (h : paramsOf m.task = a) :
    (taskSchedRuntime p).wlp m (fun _ m' => paramsOf m'.task = a) := by
  unfold taskSchedRuntime
  apply wlp_get_bind
  refine wlp_bind (when_onCpu_params h) ?_
  intro _ m₁ h₁
  apply wlp_get_bind
  exact wlp_ret h₁

end

/-! ### Priority inheritance -/

theorem setprioTask_params (prio : ℤ) (b : Bool) (t : TaskStruct) :
    (setprioTask prio b t).2.params = t.params := by
  unfold setprioTask
  split
  · split
    · rfl
    · rfl
  · split
    · rfl
    · rfl

/-- A boost is not inherited: it changes no parameter. -/
theorem rtMutexSetprio_params (prio : ℤ) (b : Bool) :
    (rtMutexSetprio p prio b).wlp m (fun _ m' => paramsOf m'.task = paramsOf m.task) :=
  rtMutexSetprio_task (P := fun T => paramsOf T = paramsOf m.task)
    (paramsOf_update_same (setprioTask_params prio b _)) fun _ => rfl

/-! ### `set_user_nice` -/

theorem setLoadWeight_params {t t' : TaskStruct} (h : setLoadWeight t = some t') :
    t'.params = t.params := by
  obtain ⟨w, -, rfl⟩ := Option.map_eq_some_iff.mp h
  rfl

theorem niceTask_params {nice : ℤ} {t t' : TaskStruct} (h : niceTask nice t = some t')
    (hpol : ¬ (dlPolicy t.policy ∨ rtPolicy t.policy)) : t'.params = t.params.reniced nice := by
  obtain ⟨t₁, ht₁, rfl⟩ := Option.map_eq_some_iff.mp h
  have hp₁ := setLoadWeight_params ht₁
  have hpol' := hpol
  rw [not_or, Bool.not_eq_true, Bool.not_eq_true] at hpol'
  have hreniced : t.params.reniced nice =
      { t.params with staticPrio := niceToPrio nice, normalPrio := niceToPrio nice } := if_neg hpol
  have hnormal : t₁.params.normal = niceToPrio nice := by
    rw [hp₁]
    simp [Params.normal, TaskStruct.params, hpol'.1, hpol'.2]
  have hfields : (effectivePrio t₁).params = { t₁.params with normalPrio := t₁.params.normal } := rfl
  rw [hfields, hnormal, hp₁, hreniced]
  rfl

/-- `set_user_nice` does nothing for a nice level that is out of range or the present one. -/
theorem setUserNice_params (nice : ℤ) : (setUserNice p nice).wlp m (fun _ m' =>
    paramsOf m'.task = paramsOf m.task ∨ (MIN_NICE ≤ nice ∧ nice ≤ MAX_NICE) ∧
      paramsOf m'.task = Function.update (paramsOf m.task) p ((m.task p).params.reniced nice)) := by
  unfold setUserNice
  apply wlp_get_bind
  refine wlp_when ?_ fun _ => .inl rfl
  intro hn
  rw [not_or, not_or, not_lt, not_lt] at hn
  refine wlp.mono (Q := fun _ m' => paramsOf m'.task =
    Function.update (paramsOf m.task) p ((m.task p).params.reniced nice)) ?_
    fun _ _ h => .inr ⟨hn.2, h⟩
  split
  · rename_i hpol
    refine wlp_modifyTask ?_
    have hreniced : (m.task p).params.reniced nice =
        { (m.task p).params with staticPrio := niceToPrio nice } := if_pos hpol
    rw [paramsOf_update, hreniced]
    rfl
  · rename_i hpol
    refine wlp_bind (wlp_when_onCpu (P := fun T => T = m.task) rfl) ?_
    intro _ m₁ e₁
    refine wlp_bind (P := fun _ m' => paramsOf m'.task =
      Function.update (paramsOf m.task) p ((m.task p).params.reniced nice)) (wlp_updateTask ?_) ?_
    · intro t ht
      rw [e₁] at ht ⊢
      rw [paramsOf_update, niceTask_params ht hpol]
    · intro _ m₂ h₂
      apply wlp_get_bind
      refine wlp_when ?_ fun _ => h₂
      intro _
      refine wlp_bind (onCpu_params h₂) ?_
      intro _ m₃ h₃
      exact when_onCpu_params h₃

/-! ### `__sched_setscheduler` -/

/-- The policy that is stored; the callers pass no negative one but `SETPARAM_POLICY`. -/
def SchedAttr.storedPolicy (attr : SchedAttr) (t : TaskStruct) : ℤ :=
  if attr.schedPolicy = SETPARAM_POLICY then t.policy else attr.schedPolicy

theorem storedPolicy_eq {attr : SchedAttr} (h : SETPARAM_POLICY ≤ attr.schedPolicy) (t : TaskStruct) :
    attr.storedPolicy t = attr.policyFor t := by
  unfold SchedAttr.storedPolicy SchedAttr.policyFor
  have hneg : attr.schedPolicy = SETPARAM_POLICY ↔ attr.schedPolicy < 0 := by
    simp only [SETPARAM_POLICY] at *
    omega
  simp only [hneg]

/-- A priority that passes the checks is below `MAX_RT_PRIO`. -/
theorem valid_priority_le {attr : SchedAttr} {t : TaskStruct} (h : attr.valid t = true) :
    attr.schedPriority ≤ 99 := by
  unfold SchedAttr.valid at h
  dsimp only at h
  split at h
  · cases h
  split at h
  · cases h
  split at h
  · cases h
  rename_i hprio
  rw [not_or] at hprio
  unfold MAX_USER_RT_PRIO MAX_RT_PRIO at hprio
  by_contra hlt
  cases hmm : t.mm
  · exact hprio.2 ⟨hmm, by omega⟩
  · exact hprio.1 ⟨hmm, by omega⟩

theorem setPolicy_params (attr : SchedAttr) (t : TaskStruct) : (setPolicy attr t).params =
    { t.params with
      policy := attr.storedPolicy t
      staticPrio := if dlPolicy (attr.storedPolicy t) = false ∧ fairPolicy (attr.storedPolicy t) then
        niceToPrio attr.schedNice else t.staticPrio } := by
  unfold setPolicy
  dsimp only
  change (if dlPolicy (attr.storedPolicy t) then _ else if fairPolicy (attr.storedPolicy t) then _
    else _ : TaskStruct).params = _
  by_cases hdl : dlPolicy (attr.storedPolicy t) = true
  · simp [hdl, TaskStruct.params]
    rfl
  · rw [Bool.not_eq_true] at hdl
    by_cases hfair : fairPolicy (attr.storedPolicy t) = true
    · simp [hdl, hfair, TaskStruct.params]
      rfl
    · simp [hdl, hfair, TaskStruct.params]
      rfl

theorem __setschedulerParams_params {attr : SchedAttr} {t t' : TaskStruct}
    (h : __setschedulerParams attr t = some t') :
    t'.params = t.params.assigned (attr.storedPolicy t) attr t.schedResetOnFork := by
  have hp := setLoadWeight_params h
  rw [hp]
  show ({ (setPolicy attr t).params with
    rtPriority := attr.schedPriority
    normalPrio := ({ (setPolicy attr t).params with
      rtPriority := attr.schedPriority } : Params).normal } : Params) = _
  rw [setPolicy_params]
  rfl

theorem __setscheduler_params {attr : SchedAttr} {t t' : TaskStruct}
    (h : __setscheduler attr t = some t') :
    t'.params = t.params.assigned (attr.storedPolicy t) attr t.schedResetOnFork := by
  obtain ⟨t₁, ht₁, rfl⟩ := Option.map_eq_some_iff.mp h
  have hp := __setschedulerParams_params ht₁
  exact hp

/-- What the part after the checks stores. -/
theorem schedSetschedulerChange_params (attr : SchedAttr) (boosted : Bool) :
    (schedSetschedulerChange p attr boosted).wlp m (fun _ m' => paramsOf m'.task =
      Function.update (paramsOf m.task) p ((m.task p).params.assigned (attr.storedPolicy (m.task p)) attr
        (attr.resetFor (m.task p)))) := by
  unfold schedSetschedulerChange
  apply wlp_get_bind
  -- the flag is stored first, the rest as it stands then
  obtain ⟨t₁, ht₁⟩ : ∃ t₁ : TaskStruct, t₁ = { m.task p with
    schedResetOnFork := attr.resetFor (m.task p) } := ⟨_, rfl⟩
  have hassigned : t₁.params.assigned (attr.storedPolicy t₁) attr t₁.schedResetOnFork =
      (m.task p).params.assigned (attr.storedPolicy (m.task p)) attr (attr.resetFor (m.task p)) := by
    rw [ht₁]
    rfl
  refine wlp_bind (P := fun _ m₁ => m₁.task = Function.update m.task p t₁) (wlp_modifyTask ?_) ?_
  · rw [ht₁]
  intro _ m₁ e₁
  have hp₁ : m₁.task p = t₁ := by rw [e₁, Function.update_self]
  have hupd : ∀ b : Params, Function.update (paramsOf m₁.task) p b =
      Function.update (paramsOf m.task) p b := by
    intro b
    rw [e₁, paramsOf_update, Function.update_idem]
  rw [← hassigned]
  split
  · refine wlp_bind (P := fun _ m' => paramsOf m'.task = Function.update (paramsOf m.task) p
      (t₁.params.assigned (attr.storedPolicy t₁) attr t₁.schedResetOnFork)) (wlp_updateTask ?_) ?_
    · intro t ht
      rw [hp₁] at ht
      rw [paramsOf_update, hupd, __setschedulerParams_params ht]
    · intro _ m₂ h₂
      exact wlp_ret h₂
  · refine wlp_bind (changeTask_params (b := t₁.params.assigned (attr.storedPolicy t₁) attr
      t₁.schedResetOnFork) ?_) ?_
    · intro t ht
      rw [hp₁] at ht
      exact __setscheduler_params ht
    · intro _ m₂ h₂
      rw [hupd] at h₂
      refine wlp_bind (onCpu_params h₂) ?_
      intro _ m₃ h₃
      exact wlp_ret h₃

/-- The parameters a successful `__sched_setscheduler` leaves. -/
def SchedAttr.result (attr : SchedAttr) (t : TaskStruct) : Params :=
  if attr.unchanged t then { t.params with schedResetOnFork := attr.resetFor t }
  else t.params.assigned (attr.storedPolicy t) attr (attr.resetFor t)

/-- `__sched_setscheduler` changes parameters only after all its checks. -/
theorem __schedSetscheduler_params (attr : SchedAttr) (env : SetschedEnv) :
    (__schedSetscheduler p attr env).wlp m (fun _ m' => paramsOf m'.task = paramsOf m.task ∨
      attr.valid (m.task p) = true ∧ attr.permitted env (m.task p) = true ∧
        paramsOf m'.task = Function.update (paramsOf m.task) p (attr.result (m.task p))) := by
  unfold __schedSetscheduler
  apply wlp_get_bind
  dsimp only
  split
  · exact wlp_ret (.inl rfl)
  rename_i hvalid
  rw [Bool.not_eq_false] at hvalid
  split
  · exact wlp_ret (.inl rfl)
  rename_i hperm
  rw [Bool.not_eq_false] at hperm
  split
  · exact wlp_ret (.inl rfl)
  split
  · exact wlp_ret (.inl rfl)
  split
  · rename_i hunch
    have hres : attr.result (m.task p) =
        { (m.task p).params with schedResetOnFork := attr.resetFor (m.task p) } := if_pos hunch
    refine wlp_bind (P := fun _ m' => paramsOf m'.task =
      Function.update (paramsOf m.task) p (attr.result (m.task p))) (wlp_modifyTask ?_) ?_
    · rw [paramsOf_update, hres]
      rfl
    · intro _ m₁ h₁
      exact wlp_ret (.inr ⟨hvalid, hperm, h₁⟩)
  rename_i hunch
  have hres : attr.result (m.task p) = (m.task p).params.assigned (attr.storedPolicy (m.task p)) attr
      (attr.resetFor (m.task p)) := if_neg hunch
  split
  · split
    · exact wlp_ret (.inl rfl)
    · refine wlp_bind (wlp_onCpu_keeps (P := fun T => T = m.task) rfl) ?_
      intro _ m₁ e₁
      refine (schedSetschedulerChange_params attr _).mono ?_
      intro _ m₂ h₂
      rw [e₁] at h₂
      exact .inr ⟨hvalid, hperm, by rw [h₂, hres]⟩
  · refine (schedSetschedulerChange_params attr _).mono ?_
    intro _ m₂ h₂
    exact .inr ⟨hvalid, hperm, by rw [h₂, hres]⟩

/-! ### Fork -/

theorem resetOnFork_params {t t' : TaskStruct} (h : resetOnFork t = some t')
    (hreset : t.schedResetOnFork = true) : t'.params = t.params.child := by
  obtain ⟨t₁, ht₁, rfl⟩ := Option.map_eq_some_iff.mp h
  have hp := setLoadWeight_params ht₁
  have hfields : ({ t₁ with schedResetOnFork := false } : TaskStruct).params =
      { t₁.params with schedResetOnFork := false } := rfl
  rw [hfields, hp]
  unfold Params.child
  rw [if_pos (show t.params.schedResetOnFork = true from hreset)]
  unfold resetPolicy
  by_cases hrt : dlPolicy t.policy = true ∨ rtPolicy t.policy = true
  · have hb : (dlPolicy t.params.policy || rtPolicy t.params.policy) = true := by
      rw [Bool.or_eq_true]
      exact hrt
    rw [if_pos hrt]
    simp only [hb, true_or, if_true]
    rfl
  · have hb : (dlPolicy t.params.policy || rtPolicy t.params.policy) = false := by
      rw [Bool.or_eq_false_iff, ← Bool.not_eq_true, ← Bool.not_eq_true, ← not_or]
      exact hrt
    rw [if_neg hrt]
    by_cases hn : prioToNice t.staticPrio < 0
    · rw [if_pos hn]
      have hn' : t.params.nice < 0 := hn
      simp only [hb, hn', or_true, if_true, Bool.false_eq_true, if_false]
      rfl
    · rw [if_neg hn]
      have hn' : ¬ t.params.nice < 0 := hn
      simp only [hb, hn', or_false, Bool.false_eq_true, if_false]
      rfl

/-- The child of a fork that succeeds. -/
theorem fork_params (mm kthread : Bool) : (fork p mm kthread).wlp m (fun r m' => r = 0 →
    paramsOf m'.task =
      Function.update (paramsOf m.task) p (m.task m.cpu.rq.curr).params.child) := by
  obtain ⟨a, ha⟩ : ∃ a, a = (m.task m.cpu.rq.curr).params := ⟨_, rfl⟩
  rw [← ha]
  unfold fork dupTaskStruct schedFork __schedFork
  refine wlp_bind (P := fun _ m' => paramsOf m'.task = Function.update (paramsOf m.task) p a)
    (wlp_modify ?_) ?_
  · dsimp only
    rw [paramsOf_update, ha]
    rfl
  intro _ m₁ h₁
  refine wlp_bind (P := fun _ m' => paramsOf m'.task = Function.update (paramsOf m.task) p a) ?_ ?_
  · refine wlp_bind (modifyTask_params (fun _ => rfl) h₁) ?_
    intro _ m₂ h₂
    refine wlp_bind (onCpu_params h₂) ?_
    intro _ m₃ h₃
    exact wlp_emit h₃
  intro _ m₂ h₂
  have hself : ∀ {m' : Machine K}, paramsOf m'.task = Function.update (paramsOf m.task) p a →
      (m'.task p).params = a := by
    intro m' h
    have := congrFun h p
    rwa [Function.update_self] at this
  have hflag : (m₂.task p).schedResetOnFork = a.schedResetOnFork :=
    congrArg Params.schedResetOnFork (hself h₂)
  apply wlp_get_bind
  refine wlp_bind (modifyTask_params (fun _ => rfl) h₂) ?_
  intro _ m₃ h₃
  refine wlp_bind (P := fun _ m' => paramsOf m'.task = Function.update (paramsOf m.task) p a.child)
    (wlp_when ?_ ?_) ?_
  · intro hreset
    apply wlp_updateTask
    intro t ht
    have hreset₃ : (m₃.task p).schedResetOnFork = true := by
      rw [← hreset, hflag]
      exact congrArg Params.schedResetOnFork (hself h₃)
    rw [paramsOf_update, h₃, Function.update_idem, resetOnFork_params ht hreset₃, hself h₃]
  · intro hreset
    rw [hflag] at hreset
    have hchild : a.child = a := if_neg hreset
    rw [hchild]
    exact h₃
  · intro _ m₄ h₄
    refine schedForkClass_task
      (P := fun T => paramsOf T = Function.update (paramsOf m.task) p a.child) ?_
    rw [← h₄]
    exact paramsOf_update_same rfl

/-! ### The steps of a run -/

/-- What a step may do to the parameters. -/
def Step.Sets (m : Machine K) (a' : α → Params) : Step α → Prop
  | .setUserNice p nice => a' = paramsOf m.task ∨ (MIN_NICE ≤ nice ∧ nice ≤ MAX_NICE) ∧
      a' = Function.update (paramsOf m.task) p ((m.task p).params.reniced nice)
  | .schedSetscheduler p attr env => a' = paramsOf m.task ∨
      attr.valid (m.task p) = true ∧ attr.permitted env (m.task p) = true ∧
        a' = Function.update (paramsOf m.task) p (attr.result (m.task p))
  | .fork p _ _ =>
      a' = Function.update (paramsOf m.task) p (m.task m.cpu.rq.curr).params.child
  | _ => a' = paramsOf m.task

theorem completed_wlp {β : Type} {x : CoreM K β} {Q : Machine K → Prop}
    (h : x.wlp m (fun _ m' => Q m')) : (completed x).wlp m (fun b m' => b = true → Q m') := by
  refine wlp_bind h ?_
  intro _ m₁ h₁
  exact wlp_ret fun _ => h₁

/-- **What each step does to the parameters of the tasks.** -/
theorem Step.prog_params (e : Step α) :
    e.prog.wlp m (fun b m' => b = true → e.Sets m (paramsOf m'.task)) := by
  cases e with
  | setState p state => exact completed_wlp (modifyTask_params (fun _ => rfl) rfl)
  | tryToWakeUp p state wakeFlags => exact completed_wlp (tryToWakeUp_params rfl state wakeFlags)
  | wakeUpNewTask p => exact completed_wlp (wakeUpNewTask_params rfl)
  | fork p mm kthread =>
      refine wlp_bind (fork_params mm kthread) ?_
      intro r m₁ h₁
      apply wlp_ret
      intro hb
      exact h₁ (of_decide_eq_true hb)
  | schedule signalPending preemptActive toWakeup =>
      exact completed_wlp (__schedule_params rfl signalPending preemptActive toWakeup)
  | setUserNice p nice => exact completed_wlp (setUserNice_params nice)
  | rtMutexSetprio p prio piPreempts => exact completed_wlp (rtMutexSetprio_params prio piPreempts)
  | schedSetscheduler p attr env => exact completed_wlp (__schedSetscheduler_params attr env)
  | schedMoveTask p =>
      refine completed_wlp ((changeTask_params (b := (m.task p).params) ?_).mono ?_)
      · intro t ht
        cases ht
        rfl
      · intro _ m₁ h₁
        rw [h₁]
        exact Function.update_eq_self p (paramsOf m.task)
  | schedYield => exact completed_wlp (onCpu_params rfl)
  | taskSchedRuntime p => exact completed_wlp (taskSchedRuntime_params rfl)

/-- The three kinds of steps that write parameters, and all others. -/
theorem Step.Sets.cases {e : Step α} {a' : α → Params} (h : e.Sets m a') :
    (a' = paramsOf m.task ∧ ∀ p mm kthread, e ≠ .fork p mm kthread) ∨
    (∃ p nice, e = .setUserNice p nice ∧ (MIN_NICE ≤ nice ∧ nice ≤ MAX_NICE) ∧
      a' = Function.update (paramsOf m.task) p ((m.task p).params.reniced nice)) ∨
    (∃ p attr env, e = .schedSetscheduler p attr env ∧ attr.valid (m.task p) = true ∧
      a' = Function.update (paramsOf m.task) p (attr.result (m.task p))) ∨
    (∃ p mm kthread, e = .fork p mm kthread ∧
      a' = Function.update (paramsOf m.task) p (m.task m.cpu.rq.curr).params.child) := by
  cases e with
  | setUserNice p nice =>
      rcases h with hsame | ⟨hn, hset⟩
      · exact .inl ⟨hsame, by intro _ _ _ e; cases e⟩
      · exact .inr (.inl ⟨p, nice, rfl, hn, hset⟩)
  | schedSetscheduler p attr env =>
      rcases h with hsame | ⟨hvalid, -, hset⟩
      · exact .inl ⟨hsame, by intro _ _ _ e; cases e⟩
      · exact .inr (.inr (.inl ⟨p, attr, env, rfl, hvalid, hset⟩))
  | fork p mm kthread => exact .inr (.inr (.inr ⟨p, mm, kthread, rfl, h⟩))
  | _ => exact .inl ⟨h, by intro _ _ _ e; cases e⟩

end KernelHacking.Sched
