import KernelHacking.Sched.Prompt

/-! # Which tasks are queued, and in which state

`Step.prog_places` says once what each step of a run does to `p->on_rq` and `p->state` of all tasks:
wake-ups, forks and `__schedule` change them, and the functions that change class and priority put the
task back where it was.  `Step.prog_sameRq`: only `__schedule` switches to another task. -/

namespace KernelHacking.Sched

open TraceProg Prog

variable {α : Type} [DecidableEq α] [Fintype α] {K : Kernel α}
variable {m m' : Machine K} {p : α} {T : α → TaskStruct} {xs : List α}

/-! ### Places -/

/-- Is the task queued, and its state. -/
def TaskStruct.place (t : TaskStruct) : Bool × ℕ := (taskOnRqQueued t, t.state)

/-- The places of all tasks. -/
def placesOf (T : α → TaskStruct) (q : α) : Bool × ℕ := (T q).place

omit [Fintype α] in
theorem placesOf_update (T : α → TaskStruct) (p : α) (t : TaskStruct) :
    placesOf (Function.update T p t) = Function.update (placesOf T) p t.place := by
  funext q
  unfold placesOf
  by_cases e : q = p
  · subst e; rw [Function.update_self, Function.update_self]
  · rw [Function.update_of_ne e, Function.update_of_ne e]

omit [Fintype α] in
theorem placesOf_update_same {t : TaskStruct} (h : t.place = (T p).place) :
    placesOf (Function.update T p t) = placesOf T := by
  rw [placesOf_update, h]
  exact Function.update_eq_self p (placesOf T)

/-! ### Wake-ups -/

/-- The task as a wake-up leaves it. -/
def woken (t : TaskStruct) : TaskStruct := { t with onRq := TASK_ON_RQ_QUEUED, state := TASK_RUNNING }

theorem ttwuActivate_task (flags : ℕ) : (ttwuActivate p flags).wlp m fun _ m' =>
    m'.task = Function.update m.task p { m.task p with onRq := TASK_ON_RQ_QUEUED } := by
  refine wlp_bind (wlp_onCpu_keeps (P := fun T => T = m.task) rfl) ?_
  intro _ m₁ e₁
  refine wlp_modifyTask ?_
  rw [e₁]

theorem ttwuDoWakeup_task (wakeFlags : ℕ) : (ttwuDoWakeup p wakeFlags).wlp m fun _ m' =>
    m'.task = Function.update m.task p { m.task p with state := TASK_RUNNING } := by
  refine wlp_bind (wlp_onCpu_keeps (P := fun T => T = m.task) rfl) ?_
  intro _ m₁ e₁
  refine wlp_modifyTask ?_
  rw [e₁]

theorem ttwuDoActivate_task (wakeFlags : ℕ) : (ttwuDoActivate p wakeFlags).wlp m fun _ m' =>
    m'.task = Function.update m.task p (woken (m.task p)) := by
  refine wlp_bind (ttwuActivate_task _) ?_
  intro _ m₁ e₁
  refine (ttwuDoWakeup_task wakeFlags).mono ?_
  intro _ m₂ e₂
  rw [e₂, e₁, Function.update_self, Function.update_idem]
  rfl

omit [Fintype α] in
/-- A task that is queued already. -/
theorem update_state_queued (h : taskOnRqQueued (T p) = true) :
    Function.update T p { T p with state := TASK_RUNNING } = Function.update T p (woken (T p)) := by
  have hon : (T p).onRq = TASK_ON_RQ_QUEUED := of_decide_eq_true h
  unfold woken
  rw [← hon]

/-- `try_to_wake_up` wakes the task up exactly when its state is one of those asked for. -/
theorem tryToWakeUp_task (state wakeFlags : ℕ) : (tryToWakeUp p state wakeFlags).wlp m fun _ m' =>
    m'.task = if (m.task p).state &&& state = 0 then m.task
      else Function.update m.task p (woken (m.task p)) := by
  unfold tryToWakeUp
  apply wlp_get_bind
  by_cases hst : (m.task p).state &&& state = 0
  · rw [if_pos hst, if_pos hst]
    exact wlp_ret rfl
  rw [if_neg hst, if_neg hst]
  split
  · refine wlp_bind (P := fun done m₁ => if done then
      m₁.task = Function.update m.task p (woken (m.task p)) else m₁.task = m.task) ?_ ?_
    · unfold ttwuRemote
      apply wlp_get_bind
      split
      · rename_i hq
        refine wlp_bind (wlp_onCpu_keeps (P := fun T => T = m.task) rfl) ?_
        intro _ m₁ e₁
        refine wlp_bind (ttwuDoWakeup_task wakeFlags) ?_
        intro _ m₂ e₂
        refine wlp_ret ?_
        rw [e₂, e₁]
        exact update_state_queued hq
      · exact wlp_ret rfl
    · intro done m₁ h₁
      refine wlp_bind (P := fun _ m₂ => m₂.task = Function.update m.task p (woken (m.task p)))
        (wlp_when ?_ ?_) fun _ _ h₂ => wlp_ret h₂
      · intro hd
        rw [hd] at h₁
        refine (ttwuDoActivate_task 0).mono ?_
        intro _ m₂ e₂
        have e₁ : m₁.task = m.task := h₁
        rw [e₂, e₁]
      · intro hd
        rw [Bool.not_eq_false] at hd
        rw [hd] at h₁
        exact h₁
  · refine wlp_bind (ttwuDoActivate_task 0) fun _ _ h₁ => wlp_ret h₁

/-- `try_to_wake_up_local`. -/
theorem tryToWakeUpLocal_task : (tryToWakeUpLocal p).wlp m fun _ m' =>
    m'.task = if p ≠ m.cpu.rq.curr ∧ (m.task p).state &&& TASK_NORMAL ≠ 0 then
      Function.update m.task p (woken (m.task p)) else m.task := by
  unfold tryToWakeUpLocal
  apply wlp_get_bind
  by_cases hc : p ≠ m.cpu.rq.curr ∧ (m.task p).state &&& TASK_NORMAL ≠ 0
  · rw [when_pos hc, if_pos hc]
    refine wlp_bind (P := fun _ m₁ => m₁.task = m.task ∧ taskOnRqQueued (m.task p) = true ∨
      m₁.task = Function.update m.task p { m.task p with onRq := TASK_ON_RQ_QUEUED }) (wlp_when ?_ ?_) ?_
    · intro _; exact (ttwuActivate_task _).mono fun _ _ h => .inr h
    · intro hq; exact .inl ⟨rfl, Bool.not_eq_false _ ▸ hq⟩
    · intro _ m₁ h₁
      refine (ttwuDoWakeup_task 0).mono ?_
      intro _ m₂ e₂
      rcases h₁ with ⟨e₁, hq⟩ | e₁
      · rw [e₂, e₁]
        exact update_state_queued hq
      · rw [e₂, e₁, Function.update_self, Function.update_idem]
        rfl
  · rw [when_neg hc, if_neg hc]
    exact wlp_ret rfl

/-! ### `__schedule` -/

/-- The task that `__schedule` wakes up in place of a workqueue worker that goes to sleep. -/
def wakesLocal (m : Machine K) (signalPending preemptActive : Bool) (toWakeup : Option α) : Option α :=
  if (m.task m.cpu.rq.curr).state ≠ TASK_RUNNING ∧ preemptActive = false ∧ signalPending = false ∧
      (m.task m.cpu.rq.curr).wqWorker = true then
    toWakeup.filter fun q => decide (q ≠ m.cpu.rq.curr ∧ (m.task q).state &&& TASK_NORMAL ≠ 0)
  else none

theorem wakesLocal_eq_some {signalPending preemptActive : Bool} {toWakeup : Option α} {q : α}
    (h : wakesLocal m signalPending preemptActive toWakeup = some q) :
    q ≠ m.cpu.rq.curr ∧ (m.task q).state &&& TASK_NORMAL ≠ 0 := by
  unfold wakesLocal at h
  split at h
  · exact of_decide_eq_true (Option.filter_eq_some_iff.mp h).2
  · cases h

/-- The tasks after `__schedule`. -/
def scheduled (m : Machine K) (signalPending preemptActive : Bool) (toWakeup : Option α) :
    α → TaskStruct :=
  let prev := m.cpu.rq.curr
  if (m.task prev).state ≠ TASK_RUNNING ∧ preemptActive = false then
    if signalPending then Function.update m.task prev { m.task prev with state := TASK_RUNNING }
    else
      let T := Function.update m.task prev { m.task prev with onRq := 0 }
      match wakesLocal m signalPending preemptActive toWakeup with
      | none => T
      | some q => Function.update T q (woken (T q))
  else m.task

/-- What `__schedule` does to the task it is called by: if the task stays on the run-queue it can
run. -/
theorem scheduled_prev {signalPending preemptActive : Bool} {toWakeup : Option α}
    (ho : preemptActive = true → (m.task m.cpu.rq.curr).state = TASK_RUNNING)
    (hq : taskOnRqQueued (scheduled m signalPending preemptActive toWakeup m.cpu.rq.curr) = true) :
    (scheduled m signalPending preemptActive toWakeup m.cpu.rq.curr).state = TASK_RUNNING := by
  unfold scheduled at hq ⊢
  dsimp only at hq ⊢
  split at hq
  · rename_i hsleep
    rw [if_pos hsleep]
    split at hq
    · rename_i hsig
      rw [if_pos hsig, Function.update_self]
    · rename_i hsig
      -- it sleeps, and is not the one that is woken up in its place
      exfalso
      cases hw : wakesLocal m signalPending preemptActive toWakeup with
      | none =>
          rw [hw] at hq
          dsimp only at hq
          rw [Function.update_self] at hq
          cases hq
      | some q =>
          rw [hw] at hq
          dsimp only at hq
          rw [Function.update_of_ne (wakesLocal_eq_some hw).1.symm, Function.update_self] at hq
          cases hq
  · rename_i hstay
    rw [if_neg hstay]
    by_cases hp : preemptActive = true
    · exact ho hp
    · rw [Bool.not_eq_true] at hp
      by_contra hst
      exact hstay ⟨hst, hp⟩

/-- What `__schedule` does to the other tasks. -/
theorem scheduled_other {signalPending preemptActive : Bool} {toWakeup : Option α} {p : α}
    (hp : p ≠ m.cpu.rq.curr) : scheduled m signalPending preemptActive toWakeup p =
      if wakesLocal m signalPending preemptActive toWakeup = some p then woken (m.task p)
      else m.task p := by
  by_cases hsleep : (m.task m.cpu.rq.curr).state ≠ TASK_RUNNING ∧ preemptActive = false
  swap
  · have hno : wakesLocal m signalPending preemptActive toWakeup = none := by
      unfold wakesLocal
      rw [if_neg fun h => hsleep ⟨h.1, h.2.1⟩]
    unfold scheduled
    dsimp only
    rw [if_neg hsleep, hno, if_neg (by simp)]
  by_cases hsig : signalPending = true
  · have hno : wakesLocal m signalPending preemptActive toWakeup = none := by
      unfold wakesLocal
      rw [if_neg fun h => ?_]
      have hf := h.2.2.1
      rw [hsig] at hf
      cases hf
    unfold scheduled
    dsimp only
    rw [if_pos hsleep, if_pos hsig, hno, if_neg (by simp), Function.update_of_ne hp]
  · unfold scheduled
    dsimp only
    rw [if_pos hsleep, if_neg hsig]
    cases wakesLocal m signalPending preemptActive toWakeup with
    | none =>
        dsimp only
        rw [if_neg (by simp), Function.update_of_ne hp]
    | some q =>
        dsimp only
        by_cases e : p = q
        · subst e
          rw [if_pos rfl, Function.update_self, Function.update_of_ne hp]
        · rw [if_neg (by simpa using Ne.symm e), Function.update_of_ne e, Function.update_of_ne hp]

/-- The first half of `__schedule`. -/
theorem schedulePrev_task (signalPending preemptActive : Bool) (toWakeup : Option α) :
    (schedulePrev m.cpu.rq.curr signalPending preemptActive toWakeup).wlp m fun _ m' =>
      m'.task = scheduled m signalPending preemptActive toWakeup := by
  unfold schedulePrev scheduled
  apply wlp_get_bind
  dsimp only
  by_cases hsleep : (m.task m.cpu.rq.curr).state ≠ TASK_RUNNING ∧ preemptActive = false
  swap
  · rw [when_neg hsleep, if_neg hsleep]
    exact wlp_ret rfl
  rw [when_pos hsleep, if_pos hsleep]
  split
  · exact wlp_modify rfl
  rename_i hsig
  rw [Bool.not_eq_true] at hsig
  -- the task goes to sleep; the run-queue still points at it
  refine wlp_bind (P := fun _ m₁ => m₁.task = m.task ∧ m₁.cpu.rq.curr = m.cpu.rq.curr) ?_ ?_
  · refine ((wlp_onCpu_keeps (P := fun T => T = m.task) rfl).and
      ((onCpu_touches (p := m.cpu.rq.curr) fun _ => dequeueTask_kept).wlp (Touches.refl _ m))).mono ?_
    rintro _ m₁ ⟨e₁, h₁⟩
    exact ⟨e₁, h₁.kept.curr⟩
  rintro _ m₁ ⟨e₁, ec₁⟩
  obtain ⟨T, hT⟩ : ∃ T, T = Function.update m.task m.cpu.rq.curr
    { m.task m.cpu.rq.curr with onRq := 0 } := ⟨_, rfl⟩
  rw [← hT]
  refine wlp_bind (P := fun _ m₂ => m₂.task = T ∧ m₂.cpu.rq.curr = m.cpu.rq.curr)
    (wlp_modifyTask ⟨by rw [e₁, hT], ec₁⟩) ?_
  rintro _ m₂ ⟨e₂, ec₂⟩
  unfold wakesLocal
  by_cases hwq : (m.task m.cpu.rq.curr).wqWorker = true
  swap
  · rw [when_neg hwq, if_neg fun h => hwq h.2.2.2]
    exact wlp_ret e₂
  rw [when_pos hwq, if_pos ⟨hsleep.1, hsleep.2, hsig, hwq⟩]
  cases toWakeup with
  | none => exact wlp_ret e₂
  | some q =>
      refine tryToWakeUpLocal_task.mono ?_
      intro _ m₃ e₃
      rw [e₃, ec₂, e₂]
      by_cases hq : q ≠ m.cpu.rq.curr ∧ (m.task q).state &&& TASK_NORMAL ≠ 0
      · have hTq : T q = m.task q := by rw [hT, Function.update_of_ne hq.1]
        rw [if_pos (by rw [hTq]; exact hq), Option.filter_some, if_pos (decide_eq_true hq)]
      · have hq' : ¬ (q ≠ m.cpu.rq.curr ∧ (T q).state &&& TASK_NORMAL ≠ 0) := by
          rintro ⟨hne, hst⟩
          rw [hT, Function.update_of_ne hne] at hst
          exact hq ⟨hne, hst⟩
        rw [if_neg hq', Option.filter_some, if_neg (by rw [decide_eq_true_eq]; exact hq)]

theorem __schedule_task (signalPending preemptActive : Bool) (toWakeup : Option α) :
    (__schedule signalPending preemptActive toWakeup).wlp m fun _ m' =>
      m'.task = scheduled m signalPending preemptActive toWakeup := by
  unfold __schedule scheduleEnter
  refine wlp_bind (P := fun _ m₁ => m₁.task = scheduled m signalPending preemptActive toWakeup) ?_ ?_
  · apply wlp_get_bind
    refine wlp_bind (schedulePrev_task signalPending preemptActive toWakeup) ?_
    intro _ m₁ h₁
    apply wlp_get_bind
    refine wlp_bind (wlp_when_onCpu (P := fun T => T = scheduled m signalPending preemptActive
      toWakeup) h₁) fun _ _ h₂ => wlp_ret h₂
  · intro prev m₁ h₁
    refine wlp_bind (wlp_onCpu_keeps (P := fun T => T = scheduled m signalPending preemptActive
      toWakeup) h₁) ?_
    intro next m₂ h₂
    exact wlp_onCpu_keeps (P := fun T => T = scheduled m signalPending preemptActive toWakeup) h₂

/-! ### Class and priority -/

theorem setprioTask_place (prio : ℤ) (b : Bool) (t : TaskStruct) :
    (setprioTask prio b t).2.place = t.place := by
  unfold setprioTask
  split
  · split <;> rfl
  · split <;> rfl

theorem setLoadWeight_place {t t' : TaskStruct} (h : setLoadWeight t = some t') :
    t'.place = t.place := by
  obtain ⟨w, -, rfl⟩ := Option.map_eq_some_iff.mp h
  rfl

theorem niceTask_place {nice : ℤ} {t t' : TaskStruct} (h : niceTask nice t = some t') :
    t'.place = t.place := by
  obtain ⟨t₁, ht₁, rfl⟩ := Option.map_eq_some_iff.mp h
  obtain ⟨w, -, rfl⟩ := Option.map_eq_some_iff.mp ht₁
  rfl

theorem __setschedulerParams_place {attr : SchedAttr} {t t' : TaskStruct}
    (h : __setschedulerParams attr t = some t') : t'.place = t.place := by
  refine (setLoadWeight_place h).trans ?_
  show (setPolicy attr t).place = t.place
  unfold setPolicy
  dsimp only
  generalize (if attr.schedPolicy = SETPARAM_POLICY then t.policy else attr.schedPolicy) = policy
  split
  · rfl
  split
  · rfl
  · rfl

theorem __setscheduler_place {attr : SchedAttr} {t t' : TaskStruct}
    (h : __setscheduler attr t = some t') : t'.place = t.place := by
  obtain ⟨t₁, ht₁, rfl⟩ := Option.map_eq_some_iff.mp h
  show t₁.place = t.place
  exact __setschedulerParams_place ht₁

section
variable {a : α → Bool × ℕ}

theorem changeTask_places (h : placesOf m.task = a) {change : TaskStruct → Option TaskStruct}
    {flags : TaskStruct → TaskStruct → ℕ} (hc : ∀ t t', change t = some t' → t'.place = t.place) :
    (changeTask p change flags).wlp m fun _ m' => placesOf m'.task = a := by
  refine changeTask_task (P := fun T => placesOf T = a) ?_
  intro t ht
  rw [placesOf_update_same (hc _ t ht)]
  exact h

theorem modifyTask_places (h : placesOf m.task = a) {f : TaskStruct → TaskStruct}
    (hf : ∀ t, (f t).place = t.place) :
    (modifyTask p f).wlp m fun _ m' => placesOf m'.task = a := by
  refine wlp_modifyTask ?_
  show placesOf (Function.update m.task p (f (m.task p))) = a
  rw [placesOf_update_same (hf _)]
  exact h

theorem updateTask_places (h : placesOf m.task = a) {f : TaskStruct → Option TaskStruct}
    (hf : ∀ t t', f t = some t' → t'.place = t.place) :
    (updateTask p f).wlp m fun _ m' => placesOf m'.task = a := by
  refine wlp_updateTask ?_
  intro t ht
  show placesOf (Function.update m.task p t) = a
  rw [placesOf_update_same (hf _ t ht)]
  exact h

theorem onCpu_places {β : Type} {f : (α → TaskStruct) → SchedM K β} (h : placesOf m.task = a) :
    (onCpu f).wlp m fun _ m' => placesOf m'.task = a :=
  wlp_onCpu_keeps (P := fun T => placesOf T = a) h

theorem when_onCpu_places {c : Prop} [Decidable c] {f : (α → TaskStruct) → SchedM K Unit}
    (h : placesOf m.task = a) : (when c (onCpu f)).wlp m fun _ m' => placesOf m'.task = a :=
  wlp_when_onCpu (P := fun T => placesOf T = a) h

theorem rtMutexSetprio_places (prio : ℤ) (b : Bool) : (rtMutexSetprio p prio b).wlp m
    fun _ m' => placesOf m'.task = placesOf m.task :=
  rtMutexSetprio_task (P := fun T => placesOf T = placesOf m.task)
    (placesOf_update_same (setprioTask_place prio b _)) fun _ => rfl

theorem setUserNice_places (nice : ℤ) : (setUserNice p nice).wlp m
    fun _ m' => placesOf m'.task = placesOf m.task := by
  unfold setUserNice
  apply wlp_get_bind
  refine wlp_when ?_ fun _ => rfl
  intro _
  split
  · exact modifyTask_places rfl fun _ => rfl
  · refine wlp_bind (when_onCpu_places rfl) ?_
    intro _ m₁ h₁
    refine wlp_bind (updateTask_places h₁ fun _ _ => niceTask_place) ?_
    intro _ m₂ h₂
    apply wlp_get_bind
    refine wlp_when ?_ fun _ => h₂
    intro _
    refine wlp_bind (onCpu_places h₂) ?_
    intro _ m₃ h₃
    exact when_onCpu_places h₃

theorem schedSetschedulerChange_places (h : placesOf m.task = a) (attr : SchedAttr) (boosted : Bool) :
    (schedSetschedulerChange p attr boosted).wlp m fun _ m' => placesOf m'.task = a := by
  unfold schedSetschedulerChange
  apply wlp_get_bind
  refine wlp_bind (modifyTask_places h fun _ => rfl) ?_
  intro _ m₁ h₁
  split
  · refine wlp_bind (updateTask_places h₁ fun _ _ => __setschedulerParams_place) ?_
    intro _ m₂ h₂
    exact wlp_ret h₂
  · refine wlp_bind (changeTask_places h₁ fun _ _ => __setscheduler_place) ?_
    intro _ m₂ h₂
    refine wlp_bind (onCpu_places h₂) ?_
    intro _ m₃ h₃
    exact wlp_ret h₃

theorem __schedSetscheduler_places (attr : SchedAttr) (env : SetschedEnv) :
    (__schedSetscheduler p attr env).wlp m fun _ m' => placesOf m'.task = placesOf m.task := by
  unfold __schedSetscheduler
  apply wlp_get_bind
  dsimp only
  split
  · exact wlp_ret rfl
  split
  · exact wlp_ret rfl
  split
  · exact wlp_ret rfl
  split
  · exact wlp_ret rfl
  split
  · refine wlp_bind (modifyTask_places rfl fun _ => rfl) ?_
    intro _ m₁ h₁
    exact wlp_ret h₁
  split
  · split
    · exact wlp_ret rfl
    · refine wlp_bind (onCpu_places rfl) ?_
      intro _ m₁ h₁
      exact schedSetschedulerChange_places h₁ attr _
  · exact schedSetschedulerChange_places rfl attr _

end

/-! ### Fork -/

theorem resetOnFork_place {t t' : TaskStruct} (h : resetOnFork t = some t') : t'.place = t.place := by
  obtain ⟨t₁, ht₁, rfl⟩ := Option.map_eq_some_iff.mp h
  obtain ⟨w, -, rfl⟩ := Option.map_eq_some_iff.mp ht₁
  unfold resetPolicy
  split
  · rfl
  split
  · rfl
  · rfl

theorem schedForkClass_places {a : α → Bool × ℕ} (h : placesOf m.task = a) :
    (schedForkClass p).wlp m fun _ m' => placesOf m'.task = a := by
  unfold schedForkClass
  apply wlp_get_bind
  split
  · exact wlp_ret h
  split
  · refine wlp_bind (modifyTask_places h fun _ => rfl) ?_
    intro _ m₁ h₁
    exact wlp_ret h₁
  · refine wlp_bind (modifyTask_places h fun _ => rfl) ?_
    intro _ m₁ h₁
    refine wlp_bind (onCpu_places h₁) ?_
    intro _ m₂ h₂
    exact wlp_ret h₂

/-- The child is off the run-queue and in `TASK_RUNNING`, so that nothing wakes it up before
`wake_up_new_task`. -/
theorem fork_places (mm kthread : Bool) : (fork p mm kthread).wlp m fun _ m' =>
    placesOf m'.task = Function.update (placesOf m.task) p (false, TASK_RUNNING) := by
  unfold fork schedFork __schedFork
  refine wlp_bind (P := fun _ m₁ => ∃ a, placesOf m₁.task = Function.update (placesOf m.task) p a)
    (wlp_modify ⟨_, placesOf_update _ _ _⟩) ?_
  rintro _ m₁ ⟨a, h₁⟩
  refine wlp_bind (P := fun _ m₂ => ∃ n, placesOf m₂.task =
    Function.update (placesOf m.task) p (false, n)) ?_ ?_
  · refine wlp_bind (P := fun _ m₂ => ∃ n, placesOf m₂.task =
      Function.update (placesOf m.task) p (false, n)) (wlp_modifyTask ⟨(m₁.task p).state, ?_⟩) ?_
    · rw [placesOf_update, h₁, Function.update_idem]
      rfl
    rintro _ m₂ ⟨n, h₂⟩
    refine wlp_bind (onCpu_places h₂) ?_
    intro _ m₃ h₃
    exact wlp_emit ⟨n, h₃⟩
  rintro _ m₂ ⟨n, h₂⟩
  have hoff : taskOnRqQueued (m₂.task p) = false := by
    have hp : (m₂.task p).place = (false, n) := by
      have := congrFun h₂ p
      rwa [Function.update_self] at this
    exact congrArg Prod.fst hp
  apply wlp_get_bind
  refine wlp_bind (P := fun _ m₃ => placesOf m₃.task =
    Function.update (placesOf m.task) p (false, TASK_RUNNING)) (wlp_modifyTask ?_) ?_
  · rw [placesOf_update, h₂, Function.update_idem, ← hoff]
    rfl
  intro _ m₃ h₃
  refine wlp_bind (wlp_when (fun _ => updateTask_places h₃ fun _ _ => resetOnFork_place)
    fun _ => h₃) ?_
  intro _ m₄ h₄
  exact schedForkClass_places h₄

theorem wakeUpNewTask_places : (wakeUpNewTask p).wlp m fun _ m' =>
    placesOf m'.task = Function.update (placesOf m.task) p (true, (m.task p).state) := by
  unfold wakeUpNewTask activateTask
  refine wlp_bind (wlp_onCpu_keeps (P := fun T => T = m.task) rfl) ?_
  intro _ m₁ e₁
  refine wlp_bind (P := fun _ m₂ => placesOf m₂.task =
    Function.update (placesOf m.task) p (true, (m.task p).state)) (wlp_modifyTask ?_) ?_
  · rw [placesOf_update, e₁]
    rfl
  · intro _ m₂ h₂
    exact onCpu_places h₂

/-! ### Steps -/

/-- The places after a step. -/
def Step.places (m : Machine K) : Step α → α → Bool × ℕ
  | .setState p state => Function.update (placesOf m.task) p (taskOnRqQueued (m.task p), state)
  | .tryToWakeUp p state _ =>
      if (m.task p).state &&& state = 0 then placesOf m.task
      else Function.update (placesOf m.task) p (true, TASK_RUNNING)
  | .wakeUpNewTask p => Function.update (placesOf m.task) p (true, (m.task p).state)
  | .fork p _ _ => Function.update (placesOf m.task) p (false, TASK_RUNNING)
  | .schedule signalPending preemptActive toWakeup =>
      placesOf (scheduled m signalPending preemptActive toWakeup)
  | .setUserNice .. | .rtMutexSetprio .. | .schedSetscheduler .. | .schedMoveTask _ | .schedYield
  | .taskSchedRuntime _ => placesOf m.task

/-- **What each step does to the places of the tasks.** -/
theorem Step.prog_places (e : Step α) :
    e.prog.wlp m (fun b m' => b = true → placesOf m'.task = e.places m) := by
  cases e with
  | setState p state =>
      refine completed_wlp (wlp_modifyTask ?_)
      exact placesOf_update _ _ _
  | tryToWakeUp p state wakeFlags =>
      refine completed_wlp ((tryToWakeUp_task state wakeFlags).mono ?_)
      intro _ m' e
      show placesOf m'.task = if (m.task p).state &&& state = 0 then placesOf m.task
        else Function.update (placesOf m.task) p (true, TASK_RUNNING)
      rw [e]
      split
      · rfl
      · exact placesOf_update _ _ _
  | wakeUpNewTask p => exact completed_wlp wakeUpNewTask_places
  | fork p mm kthread =>
      refine wlp_bind (fork_places mm kthread) ?_
      intro r m₁ h₁
      exact wlp_ret fun _ => h₁
  | schedule signalPending preemptActive toWakeup =>
      refine completed_wlp ((__schedule_task signalPending preemptActive toWakeup).mono ?_)
      intro _ m' e
      rw [e]
      rfl
  | setUserNice p nice => exact completed_wlp (setUserNice_places nice)
  | rtMutexSetprio p prio piPreempts => exact completed_wlp (rtMutexSetprio_places prio piPreempts)
  | schedSetscheduler p attr env => exact completed_wlp (__schedSetscheduler_places attr env)
  | schedMoveTask p =>
      refine completed_wlp (changeTask_places rfl ?_)
      intro t t' ht
      cases ht
      rfl
  | schedYield => exact completed_wlp (onCpu_places rfl)
  | taskSchedRuntime p =>
      refine completed_wlp ?_
      unfold Sched.taskSchedRuntime
      apply wlp_get_bind
      refine wlp_bind (when_onCpu_places rfl) ?_
      intro _ m₁ h₁
      apply wlp_get_bind
      exact wlp_ret h₁

/-- The step is a call of `__schedule`. -/
def Step.isSchedule : Step α → Bool
  | .schedule .. => true
  | _ => false

/-- Only `__schedule` switches tasks. -/
theorem Step.prog_sameRq (h : Inv m xs) {e : Step α} (he : e.Enabled m) (hs : e.isSchedule = false) :
    e.prog.mwp ringMonitor m xs (fun b m' _ => b = true → SameRq m m') := by
  have hdrop : ∀ {β : Type} {x : CoreM K β},
      x.mwp ringMonitor m xs (fun _ m' xs' => Inv m' xs' ∧ SameRq m m') →
      (completed x).mwp ringMonitor m xs (fun b m' _ => b = true → SameRq m m') := by
    intro β x hx
    exact completed_spec (Q := fun m' _ => SameRq m m') (hx.mono fun _ _ _ hQ => hQ.2)
  cases e with
  | setState p state =>
      refine completed_spec (Q := fun m' _ => SameRq m m') ?_
      rw [mwp_modifyTask]
      exact .of_task
  | tryToWakeUp p state wakeFlags => exact hdrop (tryToWakeUp_spec h state wakeFlags)
  | wakeUpNewTask p => exact hdrop (wakeUpNewTask_spec h he)
  | fork p mm kthread =>
      refine mwp.seq (fork_spec h he mm kthread) ?_
      intro r m' xs' hr
      rw [mwp_ret]
      intro hb
      exact (hr (of_decide_eq_true hb)).2
  | schedule signalPending preemptActive toWakeup => cases hs
  | setUserNice p nice => exact hdrop (setUserNice_spec h he nice)
  | rtMutexSetprio p prio piPreempts => exact hdrop (rtMutexSetprio_spec h he piPreempts)
  | schedSetscheduler p attr env => exact hdrop (__schedSetscheduler_spec h he.1 he.2 env)
  | schedMoveTask p => exact hdrop (schedMoveTask_spec h he)
  | schedYield => exact hdrop (schedYield_spec h he)
  | taskSchedRuntime p => exact hdrop (taskSchedRuntime_spec h)

end KernelHacking.Sched
