import KernelHacking.Sched.Preempt

/-! # No preemption is missed between two calls of `__schedule`

`Prompt m`: the running task is marked whenever a queued task outranks it whose class is not throttled.
Every step but `__schedule` concerns one task (`Shifts`): the others keep class, priority and place,
so it is enough to look at that task after the step, and at the running task if it is that one.  The
tick keeps it as well, and the bandwidth timer, which lifts the throttling, marks the running task. -/

namespace KernelHacking.Sched

open TraceProg PtrRing Word Prog

variable {α : Type} [DecidableEq α] [Fintype α] {K : Kernel α}
variable {m m' m'' : Machine K} {p : α} {T T' : α → TaskStruct}

/-! ### The invariant -/

/-- The task can be picked: it is queued, and its class is not throttled. -/
def Eligible (rt : RtRq α) (t : TaskStruct) : Prop :=
  taskOnRqQueued t = true ∧ (t.schedClass = .rt → rt.rtThrottled = false)

/-- **No preemption is missed.** -/
structure Prompt (m : Machine K) : Prop where
  ranked : AllRanked m.task
  counted : m.cpu.rq.rt.Counted
  marked : ∀ q, m.cpu.needResched q = true → q = m.cpu.rq.curr
  served : ∀ q, Eligible m.cpu.rq.rt (m.task q) → Serves m.task q m.cpu

/-- What a step for `p` does to the other tasks and to the run-queue. -/
structure Shifts (p : α) (m m' : Machine K) : Prop where
  kept : Kept m.cpu m'.cpu
  cls : ∀ q, q ≠ p → (m'.task q).schedClass = (m.task q).schedClass
  prio : ∀ q, q ≠ p → (m'.task q).prio = (m.task q).prio
  queued : ∀ q, q ≠ p → taskOnRqQueued (m'.task q) = true → taskOnRqQueued (m.task q) = true

/-- Class and priority of all tasks stay. -/
structure Calm (m m' : Machine K) : Prop where
  kept : Kept m.cpu m'.cpu
  cls : ∀ q, (m'.task q).schedClass = (m.task q).schedClass
  prio : ∀ q, (m'.task q).prio = (m.task q).prio

/-- Both: only `p` may have been queued. -/
structure Touches (p : α) (m m' : Machine K) : Prop extends Calm m m' where
  queued : ∀ q, q ≠ p → taskOnRqQueued (m'.task q) = true → taskOnRqQueued (m.task q) = true

theorem Shifts.trans (h : Shifts p m m') (h' : Shifts p m' m'') : Shifts p m m'' :=
  ⟨h.kept.trans h'.kept, fun q hq => (h'.cls q hq).trans (h.cls q hq),
    fun q hq => (h'.prio q hq).trans (h.prio q hq), fun q hq hq' => h.queued q hq (h'.queued q hq hq')⟩

theorem Calm.trans (h : Calm m m') (h' : Calm m' m'') : Calm m m'' :=
  ⟨h.kept.trans h'.kept, fun q => (h'.cls q).trans (h.cls q), fun q => (h'.prio q).trans (h.prio q)⟩

theorem Touches.trans (h : Touches p m m') (h' : Touches p m' m'') : Touches p m m'' :=
  ⟨h.toCalm.trans h'.toCalm, fun q hq hq' => h.queued q hq (h'.queued q hq hq')⟩

theorem Calm.refl (m : Machine K) : Calm m m := ⟨Kept.refl _, fun _ => rfl, fun _ => rfl⟩

theorem Touches.refl (p : α) (m : Machine K) : Touches p m m := ⟨Calm.refl m, fun _ _ h => h⟩

theorem Touches.shifts (h : Touches p m m') : Shifts p m m' :=
  ⟨h.kept, fun q _ => h.cls q, fun q _ => h.prio q, h.queued⟩

instance : IsTrans (Machine K) (Shifts p) := ⟨fun _ _ _ => Shifts.trans⟩
instance : IsTrans (Machine K) Calm := ⟨fun _ _ _ => Calm.trans⟩
instance : IsTrans (Machine K) (Touches p) := ⟨fun _ _ _ => Touches.trans⟩
instance : Std.Refl (Touches (K := K) p) := ⟨Touches.refl p⟩

theorem Calm.rank_eq (h : Calm m m') (q : α) : rank (m'.task q) = rank (m.task q) := by
  unfold rank
  rw [h.cls, h.prio]

theorem Calm.ranked (h : Calm m m') (hr : AllRanked m.task) : AllRanked m'.task := by
  intro q
  rw [h.cls, h.prio]
  exact hr q

/-- A task that was served stays so. -/
theorem Calm.serves (h : Calm m m') {q : α} (hq : Serves m.task q m.cpu) :
    Serves m'.task q m'.cpu := by
  rcases hq with hq | hq
  · exact .inl (h.kept.curr_marked hq)
  · refine .inr ?_
    rw [h.kept.curr, h.rank_eq, h.rank_eq]
    exact hq

/-- **The step lemma**: the others are served as before, so only the task of the step and, if it runs,
its own rank matter. -/
theorem Prompt.of_shifts (h : Prompt m) (hs : Shifts p m m')
    (hr : Ranked (m'.task p).schedClass (m'.task p).prio)
    (hself : m.cpu.rq.curr = p →
      m'.cpu.needResched p = true ∨ rank (m'.task p) ≤ rank (m.task p))
    (hother : m.cpu.rq.curr ≠ p → Eligible m'.cpu.rq.rt (m'.task p) → Serves m'.task p m'.cpu) :
    Prompt m' := by
  have hrank : ∀ q, q ≠ p → rank (m'.task q) = rank (m.task q) := by
    intro q hq
    unfold rank
    rw [hs.cls q hq, hs.prio q hq]
  refine ⟨?_, hs.kept.counted h.counted, ?_, ?_⟩
  · intro q
    by_cases e : q = p
    · rw [e]; exact hr
    · rw [hs.cls q e, hs.prio q e]; exact h.ranked q
  · intro q hq
    rw [hs.kept.curr]
    exact (hs.kept.only q hq).elim (h.marked q) id
  · intro q hel
    by_cases e : q = p
    · subst e
      by_cases hc : m.cpu.rq.curr = q
      · exact .inr (by rw [hs.kept.curr, hc])
      · exact hother hc hel
    have hel₀ : Eligible m.cpu.rq.rt (m.task q) :=
      ⟨hs.queued q e hel.1, fun hcls => hs.kept.throttled (hel.2 ((hs.cls q e).trans hcls))⟩
    rcases h.served q hel₀ with hmark | hle
    · exact .inl (hs.kept.curr_marked hmark)
    by_cases hc : m.cpu.rq.curr = p
    · rcases hself hc with hmark | hle'
      · refine .inl ?_
        rw [hs.kept.curr, hc]
        exact hmark
      · refine .inr ?_
        rw [hs.kept.curr, hc, hrank q e]
        rw [hc] at hle
        exact hle'.trans hle
    · refine .inr ?_
      rw [hs.kept.curr, hrank _ hc, hrank q e]
      exact hle

/-- A step that keeps the rank of its task. -/
theorem Prompt.of_same (h : Prompt m) (hs : Shifts p m m')
    (hcls : (m'.task p).schedClass = (m.task p).schedClass)
    (hr : Ranked (m'.task p).schedClass (m'.task p).prio)
    (hrank : rank (m'.task p) = rank (m.task p))
    (hq : taskOnRqQueued (m'.task p) = true →
      taskOnRqQueued (m.task p) = true ∨ Serves m'.task p m'.cpu) : Prompt m' := by
  refine h.of_shifts hs hr (fun _ => .inr hrank.le) ?_
  intro hc hel
  rcases hq hel.1 with hq' | hserves
  · rcases h.served p ⟨hq', fun e => hs.kept.throttled (hel.2 (hcls.trans e))⟩ with hmark | hle
    · exact .inl (hs.kept.curr_marked hmark)
    · refine .inr ?_
      have hrank' : rank (m'.task m.cpu.rq.curr) = rank (m.task m.cpu.rq.curr) := by
        unfold rank
        rw [hs.cls _ hc, hs.prio _ hc]
      rw [hs.kept.curr, hrank', hrank]
      exact hle
  · exact hserves

theorem Prompt.of_touches (h : Prompt m) (ht : Touches p m m')
    (hq : taskOnRqQueued (m'.task p) = true →
      taskOnRqQueued (m.task p) = true ∨ Serves m'.task p m'.cpu) : Prompt m' :=
  h.of_same ht.shifts (ht.cls p) (ht.toCalm.ranked h.ranked p) (ht.rank_eq p) hq

/-- A step that ends with the check of `check_class_changed`. -/
theorem Prompt.of_rechecked (h : Prompt m) (hrun : taskOnRqQueued (m.task m.cpu.rq.curr) = true)
    (hs : Shifts p m m') (hqueued : taskOnRqQueued (m'.task p) = taskOnRqQueued (m.task p))
    (hr : Ranked (m'.task p).schedClass (m'.task p).prio)
    (hre : taskOnRqQueued (m'.task p) = true →
      Rechecked m'.task p (m.task p).schedClass (m.task p).prio m'.cpu) : Prompt m' := by
  by_cases hsame : (m.task p).schedClass = (m'.task p).schedClass ∧ (m.task p).prio = (m'.task p).prio
  · refine h.of_same hs hsame.1.symm hr ?_ fun hq => .inl (hqueued ▸ hq)
    unfold rank
    rw [hsame.1, hsame.2]
  · refine h.of_shifts hs hr ?_ ?_
    · intro hc
      rw [hc, ← hqueued] at hrun
      exact (hre hrun).2 (hs.kept.curr.trans hc)
    · intro hc hel
      exact ((hre hel.1).1 (fun e => hc (hs.kept.curr.symm.trans e))).resolve_left hsame

/-! ### Pieces of code -/

section
variable {R : Machine K → Machine K → Prop} [IsTrans (Machine K) R]

/-- Code of the classes that keeps marks and counts. -/
theorem onCpu_within {β : Type} {f : (α → TaskStruct) → SchedM K β}
    (hR : ∀ (m : Machine K) (s : Cpu K), Kept m.cpu s → R m { m with cpu := s })
    (hf : ∀ T, Within Kept (f T)) : Within R (onCpu f) := by
  refine within_of_wlp fun m => ?_
  unfold onCpu
  apply wlp_get_bind
  apply wlp_zoom
  exact ((hf m.task).wlp (Kept.refl m.cpu)).mono fun _ s hs => hR m s hs

end

theorem onCpu_touches {β : Type} {f : (α → TaskStruct) → SchedM K β}
    (hf : ∀ T, Within Kept (f T)) : Within (Touches p) (onCpu f) :=
  onCpu_within (fun _ _ hs => ⟨⟨hs, fun _ => rfl, fun _ => rfl⟩, fun _ _ h => h⟩) hf

theorem onCpu_shifts {β : Type} {f : (α → TaskStruct) → SchedM K β}
    (hf : ∀ T, Within Kept (f T)) : Within (Shifts p) (onCpu f) :=
  onCpu_within (fun _ _ hs => ⟨hs, fun _ _ => rfl, fun _ _ => rfl, fun _ _ h => h⟩) hf

theorem modifyTask_touches {f : TaskStruct → TaskStruct}
    (hcls : ∀ t, (f t).schedClass = t.schedClass) (hprio : ∀ t, (f t).prio = t.prio) :
    Within (Touches p) (modifyTask p f : CoreM K Unit) := by
  refine within_modify fun m => ⟨⟨Kept.refl _, ?_, ?_⟩, ?_⟩
  · intro q
    show (Function.update m.task p (f (m.task p)) q).schedClass = _
    by_cases e : q = p
    · subst e; rw [Function.update_self]; exact hcls _
    · rw [Function.update_of_ne e]
  · intro q
    show (Function.update m.task p (f (m.task p)) q).prio = _
    by_cases e : q = p
    · subst e; rw [Function.update_self]; exact hprio _
    · rw [Function.update_of_ne e]
  · intro q e hq
    change taskOnRqQueued (Function.update m.task p (f (m.task p)) q) = true at hq
    rw [Function.update_of_ne e] at hq
    exact hq

theorem wlp_modifyTask_touches {m₀ : Machine K} {f : TaskStruct → TaskStruct}
    (hcls : ∀ t, (f t).schedClass = t.schedClass) (hprio : ∀ t, (f t).prio = t.prio)
    (h : Touches p m₀ m) : (modifyTask p f : CoreM K Unit).wlp m fun _ m' => Touches p m₀ m' :=
  (modifyTask_touches hcls hprio).wlp h

theorem shifts_update (m : Machine K) (p : α) (t : TaskStruct) :
    Shifts p m { m with task := Function.update m.task p t } := by
  refine ⟨Kept.refl _, ?_, ?_, ?_⟩
  · intro q e
    show (Function.update m.task p t q).schedClass = _
    rw [Function.update_of_ne e]
  · intro q e
    show (Function.update m.task p t q).prio = _
    rw [Function.update_of_ne e]
  · intro q e hq
    change taskOnRqQueued (Function.update m.task p t q) = true at hq
    rw [Function.update_of_ne e] at hq
    exact hq

theorem modifyTask_shifts {f : TaskStruct → TaskStruct} :
    Within (Shifts p) (modifyTask p f : CoreM K Unit) := within_modify fun m => shifts_update m p _

theorem updateTask_shifts {f : TaskStruct → Option TaskStruct} :
    Within (Shifts p) (updateTask p f : CoreM K Unit) :=
  within_of_wlp fun m => wlp_updateTask fun t _ => shifts_update m p t

/-- Code of the classes, by what it does to the state it runs on. -/
theorem wlp_onCpu_state {β : Type} {f : (α → TaskStruct) → SchedM K β} {Q : β → Machine K → Prop}
    (h : (f m.task).wlp m.cpu fun b s => Q b { m with cpu := s }) : (onCpu f).wlp m Q := by
  unfold onCpu
  apply wlp_get_bind
  exact wlp_zoom h

/-! ### Wake-ups -/

theorem ttwuActivate_touches {flags : ℕ} : Within (Touches p) (ttwuActivate p flags : CoreM K Unit) :=
  keeps_bind (onCpu_touches fun _ => enqueueTask_kept) fun _ =>
    modifyTask_touches (fun _ => rfl) fun _ => rfl

theorem ttwuDoWakeup_touches {wakeFlags : ℕ} :
    Within (Touches p) (ttwuDoWakeup p wakeFlags : CoreM K Unit) :=
  keeps_bind (onCpu_touches fun _ => checkPreemptCurr_kept) fun _ =>
    modifyTask_touches (fun _ => rfl) fun _ => rfl

theorem ttwuDoActivate_touches {wakeFlags : ℕ} :
    Within (Touches p) (ttwuDoActivate p wakeFlags : CoreM K Unit) :=
  keeps_bind ttwuActivate_touches fun _ => ttwuDoWakeup_touches

theorem ttwuRemote_touches {wakeFlags : ℕ} :
    Within (Touches p) (ttwuRemote p wakeFlags : CoreM K Bool) := by
  unfold ttwuRemote
  refine keeps_bind keeps_get fun _ => keeps_ite ?_ (keeps_ret _)
  refine keeps_bind (onCpu_touches fun _ => within_aside updateRqClock_aside) fun _ => ?_
  exact keeps_bind ttwuDoWakeup_touches fun _ => keeps_ret _

theorem tryToWakeUp_touches {state wakeFlags : ℕ} :
    Within (Touches p) (tryToWakeUp p state wakeFlags : CoreM K Bool) := by
  unfold tryToWakeUp
  refine keeps_bind keeps_get fun _ => keeps_ite (keeps_ret _) (keeps_ite ?_ ?_)
  · refine keeps_bind ttwuRemote_touches fun _ => ?_
    exact keeps_bind (keeps_when fun _ => ttwuDoActivate_touches) fun _ => keeps_ret _
  · exact keeps_bind ttwuDoActivate_touches fun _ => keeps_ret _

theorem tryToWakeUpLocal_touches : Within (Touches p) (tryToWakeUpLocal p : CoreM K Unit) := by
  unfold tryToWakeUpLocal
  refine keeps_bind keeps_get fun _ => keeps_when fun _ => ?_
  exact keeps_bind (keeps_when fun _ => ttwuActivate_touches) fun _ => ttwuDoWakeup_touches

/-- The check comes after the task has been queued. -/
theorem ttwuDoWakeup_serves (hT : AllRanked m.task) (wakeFlags : ℕ) :
    (ttwuDoWakeup p wakeFlags).wlp m fun _ m' => Serves m'.task p m'.cpu := by
  unfold ttwuDoWakeup
  refine wlp_bind (wlp_onCpu_state (Q := fun _ m₁ => Serves m₁.task p m₁.cpu)
    (checkPreemptCurr_serves hT wakeFlags)) ?_
  intro _ m₁ h₁
  refine wlp.mono (wlp_modifyTask_touches (fun _ => rfl) (fun _ => rfl) (Touches.refl p m₁)) ?_
  intro _ m₂ ht
  exact ht.serves h₁

theorem ttwuDoActivate_serves (hT : AllRanked m.task) (wakeFlags : ℕ) :
    (ttwuDoActivate p wakeFlags).wlp m fun _ m' => Serves m'.task p m'.cpu := by
  refine wlp_bind (ttwuActivate_touches.wlp (Touches.refl p m)) ?_
  intro _ m₁ ht
  exact ttwuDoWakeup_serves (ht.ranked hT) wakeFlags

theorem tryToWakeUp_serves (hT : AllRanked m.task) (state wakeFlags : ℕ) :
    (tryToWakeUp p state wakeFlags).wlp m fun _ m' => m' = m ∨ Serves m'.task p m'.cpu := by
  unfold tryToWakeUp
  apply wlp_get_bind
  split
  · exact wlp_ret (.inl rfl)
  split
  · refine wlp_bind (P := fun done m₁ => AllRanked m₁.task ∧
      (done = true → Serves m₁.task p m₁.cpu)) ?_ ?_
    · unfold ttwuRemote
      apply wlp_get_bind
      split
      · refine wlp_bind ((onCpu_touches (p := p) fun _ => within_aside updateRqClock_aside).wlp
          (Touches.refl p m)) ?_
        intro _ m₁ h₁
        refine wlp_bind ((ttwuDoWakeup_serves (h₁.ranked hT) wakeFlags).and
          (ttwuDoWakeup_touches.wlp h₁)) ?_
        rintro _ m₂ ⟨hs, h₂⟩
        exact wlp_ret ⟨h₂.ranked hT, fun _ => hs⟩
      · exact wlp_ret ⟨hT, fun e => by cases e⟩
    · rintro done m₁ ⟨hT₁, hdone⟩
      refine wlp_bind (P := fun _ m₂ => Serves m₂.task p m₂.cpu) (wlp_when ?_ ?_) ?_
      · intro _; exact ttwuDoActivate_serves hT₁ 0
      · intro hd; exact hdone (Bool.not_eq_false _ ▸ hd)
      · intro _ m₂ h₂
        exact wlp_ret (.inr h₂)
  · refine wlp_bind (ttwuDoActivate_serves hT 0) ?_
    intro _ m₁ h₁
    exact wlp_ret (.inr h₁)

theorem tryToWakeUp_prompt (h : Prompt m) (state wakeFlags : ℕ) :
    (tryToWakeUp p state wakeFlags).wlp m fun _ m' => Prompt m' := by
  refine ((tryToWakeUp_serves h.ranked state wakeFlags).and
    (tryToWakeUp_touches.wlp (Touches.refl p m))).mono ?_
  rintro _ m' ⟨rfl | hs, ht⟩
  · exact h
  · exact h.of_touches ht fun _ => .inr hs

theorem wakeUpNewTask_prompt (h : Prompt m) : (wakeUpNewTask p).wlp m fun _ m' => Prompt m' := by
  unfold wakeUpNewTask activateTask
  refine wlp_bind ((onCpu_touches fun _ => enqueueTask_kept).wlp (Touches.refl p m)) ?_
  intro _ m₁ h₁
  refine wlp_bind (wlp_modifyTask_touches (fun _ => rfl) (fun _ => rfl) h₁) ?_
  intro _ m₂ h₂
  refine ((wlp_onCpu_state (Q := fun _ m' => Serves m'.task p m'.cpu)
    (checkPreemptCurr_serves (h₂.ranked h.ranked) WF_FORK)).and
    ((onCpu_touches fun _ => checkPreemptCurr_kept).wlp h₂)).mono ?_
  rintro _ m' ⟨hs, ht⟩
  exact h.of_touches ht fun _ => .inr hs

/-! ### Changes of class and priority -/

theorem ranked_classOfPrio {prio : ℤ} (h : dlPrio prio = false) : Ranked (classOfPrio prio) prio := by
  rcases classOfPrio_mem prio with e | e | e
  · rw [classOfPrio_dl.mp e] at h
    cases h
  · exact .inl ⟨e, (rt_range e).2⟩
  · have hr := (classOfPrio_circular.mp e).2
    exact .inr ⟨.inl e, not_lt.mp (of_decide_eq_false hr)⟩

theorem changeTask_shifts {change : TaskStruct → Option TaskStruct}
    {flags : TaskStruct → TaskStruct → ℕ} :
    Within (Shifts p) (changeTask p change flags : CoreM K Unit) := by
  unfold changeTask
  refine keeps_bind keeps_get fun _ => ?_
  refine keeps_bind (keeps_when fun _ => onCpu_shifts fun _ => dequeueTask_kept) fun _ => ?_
  refine keeps_bind (keeps_when fun _ => onCpu_shifts fun _ => putPrevTask_kept) fun _ => ?_
  refine keeps_bind updateTask_shifts fun _ => ?_
  refine keeps_bind (keeps_when fun _ => onCpu_shifts fun _ => setCurrTask_kept) fun _ => ?_
  refine keeps_bind keeps_get fun _ => keeps_when fun _ => ?_
  exact onCpu_shifts fun _ => enqueueTask_kept

theorem changeTask_result {change : TaskStruct → Option TaskStruct}
    {flags : TaskStruct → TaskStruct → ℕ} : (changeTask p change flags : CoreM K Unit).wlp m
      fun _ m' => Shifts p m m' ∧ ∃ t, change (m.task p) = some t ∧ m'.task = Function.update m.task p t :=
  (changeTask_shifts.wlp (Touches.refl p m).shifts).and
    (changeTask_task (P := fun T' => ∃ t, change (m.task p) = some t ∧
      T' = Function.update m.task p t) fun t ht => ⟨t, ht, rfl⟩)

/-- The check that follows a change of class or priority. -/
theorem checkClassChanged_prompt {m₀ : Machine K} (h : Prompt m₀)
    (hrun : taskOnRqQueued (m₀.task m₀.cpu.rq.curr) = true) (hs : Shifts p m₀ m)
    (hqueued : (m.task p).onRq = (m₀.task p).onRq)
    (hr : Ranked (m.task p).schedClass (m.task p).prio) :
    (onCpu fun T => checkClassChanged T p (m₀.task p).schedClass (m₀.task p).prio).wlp m
      fun _ m' => Prompt m' := by
  have hT : AllRanked m.task := by
    intro q
    by_cases e : q = p
    · rw [e]; exact hr
    · rw [hs.cls q e, hs.prio q e]; exact h.ranked q
  have hq : taskOnRqQueued (m.task p) = taskOnRqQueued (m₀.task p) := by
    unfold taskOnRqQueued
    rw [hqueued]
  refine wlp_onCpu_state ?_
  have hkept : (checkClassChanged m.task p (m₀.task p).schedClass (m₀.task p).prio).wlp m.cpu
      fun _ s => Kept m.cpu s := checkClassChanged_kept.wlp (Kept.refl m.cpu)
  have hshifts : ∀ {s : Cpu K}, Kept m.cpu s → Shifts p m₀ { m with cpu := s } := fun hk =>
    hs.trans ⟨hk, fun _ _ => rfl, fun _ _ => rfl, fun _ _ hq => hq⟩
  by_cases hon : taskOnRqQueued (m.task p) = true
  · refine (hkept.and (checkClassChanged_rechecked hT hon (h.ranked p))).mono ?_
    rintro _ s ⟨hk, hre⟩
    exact h.of_rechecked hrun (hshifts hk) hq hr fun _ => hre
  · refine hkept.mono ?_
    intro _ s hk
    exact h.of_rechecked hrun (hshifts hk) hq hr fun hq' => absurd hq' hon

theorem rtMutexSetprio_prompt (h : Prompt m) (hrun : taskOnRqQueued (m.task m.cpu.rq.curr) = true)
    {prio : ℤ} (hprio : 0 ≤ prio) (b : Bool) :
    (rtMutexSetprio p prio b).wlp m fun _ m' => Prompt m' := by
  unfold rtMutexSetprio
  refine wlp_bind (P := fun _ m₁ => m₁ = m) (wlp_when (fun _ => wlp_fail) fun _ => rfl) ?_
  rintro _ _ rfl
  apply wlp_get_bind
  refine wlp_when ?_ fun _ => h
  intro _
  refine wlp_bind changeTask_result ?_
  rintro _ m₁ ⟨hs, t, ht, htask⟩
  cases ht
  have hdl : dlPrio prio = false := decide_eq_false (not_lt.mpr hprio)
  refine checkClassChanged_prompt h hrun hs ?_ ?_
  · rw [htask, Function.update_self]
    exact (setprioTask_eq prio b _).2.2.2
  · rw [htask, Function.update_self, (setprioTask_eq prio b _).1, (setprioTask_eq prio b _).2.1]
    exact ranked_classOfPrio hdl

/-- Only the task group changes. -/
theorem schedMoveTask_prompt (h : Prompt m) : (schedMoveTask p).wlp m fun _ m' => Prompt m' := by
  refine changeTask_result.mono ?_
  rintro _ m' ⟨hs, t, ht, htask⟩
  cases ht
  rw [Function.update_eq_self] at htask
  refine h.of_same hs (by rw [htask]) (by rw [htask]; exact h.ranked p) (by rw [htask]) ?_
  intro hq
  rw [htask] at hq
  exact .inl hq

/-- A change that concerns neither class, priority nor queue. -/
theorem modifyTask_prompt (h : Prompt m) {f : TaskStruct → TaskStruct}
    (hcls : ∀ t, (f t).schedClass = t.schedClass) (hprio : ∀ t, (f t).prio = t.prio)
    (hon : ∀ t, (f t).onRq = t.onRq) : (modifyTask p f).wlp m fun _ m' => Prompt m' := by
  refine ((wlp_modifyTask_touches hcls hprio (Touches.refl p m)).and
    (wlp_modifyTask (Q := fun _ m' => (m'.task p).onRq = (m.task p).onRq) ?_)).mono ?_
  · show (Function.update m.task p (f (m.task p)) p).onRq = _
    rw [Function.update_self, hon]
  · rintro _ m' ⟨ht, hon'⟩
    refine h.of_touches ht fun hq => .inl ?_
    unfold taskOnRqQueued at hq ⊢
    rw [hon'] at hq
    exact hq

/-- Code of the classes alone. -/
theorem onCpu_prompt {β : Type} (h : Prompt m) {f : (α → TaskStruct) → SchedM K β}
    (hf : ∀ T, Within Kept (f T)) : (onCpu f).wlp m fun _ m' => Prompt m' := by
  refine (((onCpu_touches (p := m.cpu.rq.curr) hf).wlp (Touches.refl _ m)).and
    (wlp_onCpu_keeps (P := fun T => T = m.task) rfl)).mono ?_
  rintro _ m' ⟨ht, htask⟩
  refine h.of_touches ht fun hq => .inl ?_
  rw [htask] at hq
  exact hq

theorem niceTask_ranked {nice : ℤ} {t t' : TaskStruct} (hn : MIN_NICE ≤ nice ∧ nice ≤ MAX_NICE)
    (hpol : dlPolicy t.policy = false ∧ rtPolicy t.policy = false) (hr : Ranked t.schedClass t.prio)
    (ht : niceTask nice t = some t') : t'.schedClass = t.schedClass ∧ t'.onRq = t.onRq ∧
      Ranked t'.schedClass t'.prio ∧ rank t' = rank t := by
  obtain ⟨t₁, ht₁, rfl⟩ := Option.map_eq_some_iff.mp ht
  obtain ⟨w, -, rfl⟩ := Option.map_eq_some_iff.mp ht₁
  have hnp : normalPrio { t with staticPrio := niceToPrio nice, load := w } = niceToPrio nice := by
    simp [normalPrio, hpol.1, hpol.2, __normalPrio]
  refine ⟨rfl, rfl, ?_⟩
  by_cases hb : rtPrio t.prio = true
  · have hprio : (effectivePrio { t with staticPrio := niceToPrio nice, load := w }).prio = t.prio :=
      if_pos hb
    unfold rank
    rw [hprio]
    exact ⟨hr, rfl⟩
  · have hprio : (effectivePrio { t with staticPrio := niceToPrio nice, load := w }).prio =
        niceToPrio nice := (if_neg hb).trans hnp
    have hge : MAX_RT_PRIO ≤ t.prio := by
      rw [Bool.not_eq_true] at hb
      exact not_lt.mp (of_decide_eq_false hb)
    unfold rank
    rw [hprio]
    rcases hr with ⟨-, hlt⟩ | ⟨hcls, -⟩
    · exact absurd hge (not_le.mpr hlt)
    · refine ⟨.inr ⟨hcls, (staticOk_nice hn).1⟩, ?_⟩
      show rankOf t.schedClass _ = rankOf t.schedClass _
      rcases hcls with e | e <;> rw [e] <;> rfl

theorem setUserNice_prompt (h : Prompt m) (nice : ℤ) :
    (setUserNice p nice).wlp m fun _ m' => Prompt m' := by
  unfold setUserNice
  apply wlp_get_bind
  refine wlp_when ?_ fun _ => h
  intro hn
  rw [not_or, not_or, not_lt, not_lt] at hn
  split
  · exact modifyTask_prompt h (fun _ => rfl) (fun _ => rfl) fun _ => rfl
  rename_i hpol
  rw [not_or, Bool.not_eq_true, Bool.not_eq_true] at hpol
  -- the task is replaced between two calls into its class
  refine wlp_bind (P := fun _ m₁ => m₁.task = m.task ∧ Shifts p m m₁) ?_ ?_
  · refine (wlp_when_onCpu (P := fun T => T = m.task) rfl).and ?_
    exact Within.wlp (keeps_when fun _ => onCpu_shifts fun _ => dequeueTask_kept) (Touches.refl p m).shifts
  rintro _ m₁ ⟨e₁, h₁⟩
  refine wlp_bind (P := fun _ m₂ => Shifts p m m₂ ∧ ∃ t, niceTask nice (m.task p) = some t ∧
    m₂.task p = t) ((updateTask_shifts.wlp h₁).and (wlp_updateTask ?_)) ?_
  · intro t ht
    rw [e₁] at ht
    exact ⟨t, ht, Function.update_self ..⟩
  rintro _ m₂ ⟨h₂, t, ht, htask₂⟩
  obtain ⟨hcls, hon, hr, hrank⟩ := niceTask_ranked hn.2 hpol (h.ranked p) ht
  apply wlp_get_bind
  refine wlp.mono (Q := fun _ m' => Shifts p m m' ∧ m'.task p = t) ?_ ?_
  · refine wlp.and (Within.wlp (keeps_when fun _ => ?_) h₂) (wlp_when ?_ fun _ => htask₂)
    · refine keeps_bind (onCpu_shifts fun _ => enqueueTask_kept) fun _ => keeps_when fun _ => ?_
      exact onCpu_shifts fun _ => reschedCurr_kept
    · intro _
      refine wlp_bind (wlp_onCpu_keeps (P := fun T => T p = t) htask₂) ?_
      intro _ m₃ h₃
      exact wlp_when_onCpu (P := fun T => T p = t) h₃
  · rintro _ m' ⟨hs, htask⟩
    refine h.of_same hs (by rw [htask]; exact hcls) (by rw [htask]; exact hr)
      (by rw [htask]; exact hrank) fun hq => .inl ?_
    unfold taskOnRqQueued at hq ⊢
    rw [htask, hon] at hq
    exact hq

/-- A policy other than `SCHED_DEADLINE` gives a class of the source. -/
theorem __setscheduler_ranked {attr : SchedAttr} {t t' : TaskStruct} (hs : StaticOk t.staticPrio)
    (hn : MIN_NICE ≤ attr.schedNice ∧ attr.schedNice ≤ MAX_NICE)
    (hpol : dlPolicy (attr.storedPolicy t) = false) (hprio : attr.schedPriority ≤ 99)
    (ht : __setscheduler attr t = some t') :
    Ranked t'.schedClass t'.prio ∧ t'.onRq = t.onRq := by
  obtain ⟨t'', ht'', hok, hon⟩ := __setscheduler_ok (S := False) hs hn
  rw [ht] at ht''
  cases ht''
  refine ⟨?_, hon⟩
  obtain ⟨t₁, ht₁, rfl⟩ := Option.map_eq_some_iff.mp ht
  have hnormal : 0 ≤ normalPrio t₁ := by
    rw [normalPrio_eq]
    have hparams := __setschedulerParams_params ht₁
    have hpol₁ : t₁.params.policy = attr.storedPolicy t := congrArg Params.policy hparams
    have hrt₁ : t₁.params.rtPriority = attr.schedPriority := congrArg Params.rtPriority hparams
    have hstatic : MAX_RT_PRIO ≤ t₁.params.staticPrio := hok.static.1
    unfold Params.normal
    rw [hpol₁, hpol, hrt₁]
    unfold MAX_RT_PRIO at *
    split
    · contradiction
    split
    · omega
    · omega
  exact ranked_classOfPrio (decide_eq_false (not_lt.mpr hnormal))

/-- The part of `__sched_setscheduler` after the checks. -/
theorem schedSetschedulerChange_prompt (h : Prompt m)
    (hrun : taskOnRqQueued (m.task m.cpu.rq.curr) = true) {attr : SchedAttr}
    (hs : StaticOk (m.task p).staticPrio)
    (hn : MIN_NICE ≤ attr.schedNice ∧ attr.schedNice ≤ MAX_NICE)
    (hpol : dlPolicy (attr.storedPolicy (m.task p)) = false) (hprio : attr.schedPriority ≤ 99)
    (boosted : Bool) : (schedSetschedulerChange p attr boosted).wlp m fun _ m' => Prompt m' := by
  unfold schedSetschedulerChange
  apply wlp_get_bind
  obtain ⟨t₁, ht₁⟩ : ∃ t₁ : TaskStruct, t₁ = { m.task p with
    schedResetOnFork := attr.resetFor (m.task p) } := ⟨_, rfl⟩
  refine wlp_bind (P := fun _ m₁ => Prompt m₁ ∧ m₁ = { m with task := Function.update m.task p t₁ })
    (wlp.and (modifyTask_prompt h (fun _ => rfl) (fun _ => rfl) fun _ => rfl) (wlp_modifyTask ?_)) ?_
  · rw [ht₁]
  rintro _ m₁ ⟨h₁, e₁⟩
  have htask₁ : m₁.task p = t₁ := by rw [e₁]; exact Function.update_self ..
  have hs₁ : StaticOk (m₁.task p).staticPrio := by rw [htask₁, ht₁]; exact hs
  have hpol₁ : dlPolicy (attr.storedPolicy (m₁.task p)) = false := by rw [htask₁, ht₁]; exact hpol
  have hcls : (m₁.task p).schedClass = (m.task p).schedClass := by rw [htask₁, ht₁]
  have hprio₁ : (m₁.task p).prio = (m.task p).prio := by rw [htask₁, ht₁]
  have hrun₁ : taskOnRqQueued (m₁.task m₁.cpu.rq.curr) = true := by
    rw [e₁]
    show taskOnRqQueued (Function.update m.task p t₁ m.cpu.rq.curr) = true
    by_cases e : m.cpu.rq.curr = p
    · rw [e, Function.update_self, ht₁]
      rw [e] at hrun
      exact hrun
    · rw [Function.update_of_ne e]
      exact hrun
  split
  · -- a boosted task keeps its class and priority
    refine wlp_bind (P := fun _ m₂ => Prompt m₂) ?_ fun _ _ h₂ => wlp_ret h₂
    refine ((updateTask_shifts.wlp (Touches.refl p m₁).shifts).and (wlp_updateTask
      (Q := fun _ m₂ => (m₂.task p).schedClass = (m₁.task p).schedClass ∧
        (m₂.task p).prio = (m₁.task p).prio ∧ (m₂.task p).onRq = (m₁.task p).onRq) ?_)).mono ?_
    · intro t ht
      obtain ⟨t', ht', -, hc, hp, ho⟩ := __setschedulerParams_ok hs₁ hn
      rw [ht] at ht'
      cases ht'
      show (Function.update m₁.task p t p).schedClass = _ ∧
        (Function.update m₁.task p t p).prio = _ ∧ (Function.update m₁.task p t p).onRq = _
      rw [Function.update_self]
      exact ⟨hc, hp, ho⟩
    · rintro _ m₂ ⟨hsh, hc, hp, ho⟩
      refine h₁.of_same hsh hc (by rw [hc, hp]; exact h₁.ranked p) ?_ fun hq => .inl ?_
      · unfold rank
        rw [hc, hp]
      · unfold taskOnRqQueued at hq ⊢
        rw [ho] at hq
        exact hq
  · refine wlp_bind changeTask_result ?_
    rintro _ m₂ ⟨hsh, t, ht, htask₂⟩
    obtain ⟨hr, hon⟩ := __setscheduler_ranked hs₁ hn hpol₁ hprio ht
    refine wlp_bind (P := fun _ m₃ => Prompt m₃) ?_ fun _ _ h₃ => wlp_ret h₃
    rw [← hcls, ← hprio₁]
    refine checkClassChanged_prompt h₁ hrun₁ hsh ?_ ?_
    · rw [htask₂, Function.update_self]; exact hon
    · rw [htask₂, Function.update_self]; exact hr

theorem __schedSetscheduler_prompt (h : Prompt m)
    (hrun : taskOnRqQueued (m.task m.cpu.rq.curr) = true) {attr : SchedAttr}
    (hs : StaticOk (m.task p).staticPrio)
    (hn : MIN_NICE ≤ attr.schedNice ∧ attr.schedNice ≤ MAX_NICE)
    (hpol : dlPolicy (attr.storedPolicy (m.task p)) = false) (env : SetschedEnv) :
    (__schedSetscheduler p attr env).wlp m fun _ m' => Prompt m' := by
  unfold __schedSetscheduler
  apply wlp_get_bind
  dsimp only
  split
  · exact wlp_ret h
  rename_i hvalid
  rw [Bool.not_eq_false] at hvalid
  have hprio := valid_priority_le hvalid
  split
  · exact wlp_ret h
  split
  · exact wlp_ret h
  split
  · exact wlp_ret h
  split
  · refine wlp_bind (P := fun _ m' => Prompt m') ?_ fun _ _ h₁ => wlp_ret h₁
    exact modifyTask_prompt h (fun _ => rfl) (fun _ => rfl) fun _ => rfl
  split
  · split
    · exact wlp_ret h
    · rename_i b _
      refine wlp_bind (P := fun _ m₁ => Prompt m₁ ∧ m₁.task = m.task ∧
        m₁.cpu.rq.curr = m.cpu.rq.curr) ?_ ?_
      · have haside : Within Aside (modifyRq fun rq => { rq with dlBw := b } : SchedM K Unit) :=
          within_modify fun _ => ⟨rfl, rfl, rfl, rfl⟩
        refine (onCpu_prompt h fun _ => within_aside haside).and (wlp_onCpu_state ?_)
        exact wlp_modify ⟨rfl, rfl⟩
      · rintro _ m₁ ⟨h₁, e₁, ec₁⟩
        refine schedSetschedulerChange_prompt h₁ ?_ ?_ hn ?_ hprio _
        · rw [e₁, ec₁]; exact hrun
        · rw [e₁]; exact hs
        · rw [e₁]; exact hpol
  · exact schedSetschedulerChange_prompt h hrun hs hn hpol hprio _

/-! ### Fork -/

theorem taskForkCircular_kept : Within Kept (taskForkCircular p : SchedM K Unit) := by
  unfold taskForkCircular
  refine keeps_bind (within_aside updateRqClock_aside) fun _ => keeps_when fun _ => ?_
  refine keeps_bind keeps_get fun _ => keeps_bind (within_aside modifySe_aside) fun _ => ?_
  exact keeps_bind (within_aside modifySe_aside) fun _ => reschedCurr_kept

theorem schedFork_shifts : Within (Shifts p) (schedFork p : CoreM K ℤ) := by
  unfold schedFork __schedFork schedForkClass
  refine keeps_bind (keeps_bind modifyTask_shifts fun _ => ?_) fun _ => ?_
  · exact keeps_bind (onCpu_shifts fun _ => within_aside modifySe_aside) fun _ => within_emit
  refine keeps_bind keeps_get fun _ => keeps_bind modifyTask_shifts fun _ => ?_
  refine keeps_bind (keeps_when fun _ => updateTask_shifts) fun _ => keeps_bind keeps_get fun _ => ?_
  refine keeps_ite (keeps_ret _) (keeps_ite ?_ ?_)
  · exact keeps_bind modifyTask_shifts fun _ => keeps_ret _
  · refine keeps_bind modifyTask_shifts fun _ => ?_
    exact keeps_bind (onCpu_shifts fun _ => taskForkCircular_kept) fun _ => keeps_ret _

/-- The child is not marked. -/
theorem dupTaskStruct_shifts (hp : m.cpu.needResched p = false) (mm kthread : Bool) :
    (dupTaskStruct p mm kthread).wlp m fun _ m' => Shifts p m m' := by
  refine wlp_modify ?_
  have hs := shifts_update m p
    { m.task m.cpu.rq.curr with mm := mm, kthread := kthread, wqWorker := false }
  refine ⟨⟨⟨rfl, rfl, ?_, ?_, fun h => h⟩, fun h => h⟩, hs.cls, hs.prio, hs.queued⟩
  · intro q hq
    show Function.update m.cpu.needResched p false q = true
    have e : q ≠ p := by
      rintro rfl
      rw [hp] at hq
      cases hq
    rw [Function.update_of_ne e]
    exact hq
  · intro q hq
    change Function.update m.cpu.needResched p false q = true at hq
    by_cases e : q = p
    · rw [e, Function.update_self] at hq
      cases hq
    · rw [Function.update_of_ne e] at hq
      exact .inl hq

/-- A child that is set up is not queued, and its class belongs to its priority. -/
theorem schedForkClass_child (h : (m.task p).onRq = 0) : (schedForkClass p).wlp m fun r m' =>
    r = 0 → (m'.task p).onRq = 0 ∧ Ranked (m'.task p).schedClass (m'.task p).prio := by
  unfold schedForkClass
  apply wlp_get_bind
  split
  · refine wlp_ret fun e => ?_
    simp [EAGAIN] at e
  rename_i hdl
  rw [Bool.not_eq_true] at hdl
  have hranked := ranked_classOfPrio hdl
  split
  · rename_i hrt
    rw [classOfPrio_rt.mpr ⟨hdl, hrt⟩] at hranked
    refine wlp_bind (P := fun _ m₁ => (m₁.task p).onRq = 0 ∧
      Ranked (m₁.task p).schedClass (m₁.task p).prio) (wlp_modifyTask ?_) fun _ _ h₁ =>
      wlp_ret fun _ => h₁
    dsimp only
    rw [Function.update_self]
    exact ⟨h, hranked⟩
  · rename_i hrt
    rw [Bool.not_eq_true] at hrt
    rw [classOfPrio_circular.mpr ⟨hdl, hrt⟩] at hranked
    refine wlp_bind (P := fun _ m₁ => (m₁.task p).onRq = 0 ∧
      Ranked (m₁.task p).schedClass (m₁.task p).prio) (wlp_modifyTask ?_) ?_
    · dsimp only
      rw [Function.update_self]
      exact ⟨h, hranked⟩
    · intro _ m₁ h₁
      refine wlp_bind (wlp_onCpu_keeps (P := fun T => (T p).onRq = 0 ∧
        Ranked (T p).schedClass (T p).prio) h₁) ?_
      intro _ m₂ h₂
      exact wlp_ret fun _ => h₂

theorem resetOnFork_onRq {t t' : TaskStruct} (h : resetOnFork t = some t') : t'.onRq = t.onRq := by
  obtain ⟨t₁, ht₁, rfl⟩ := Option.map_eq_some_iff.mp h
  obtain ⟨w, -, rfl⟩ := Option.map_eq_some_iff.mp ht₁
  unfold resetPolicy
  split
  · rfl
  split
  · rfl
  · rfl

theorem schedFork_child : (schedFork p).wlp m fun r m' =>
    r = 0 → (m'.task p).onRq = 0 ∧ Ranked (m'.task p).schedClass (m'.task p).prio := by
  unfold schedFork __schedFork
  have hset : ∀ {m : Machine K} {t : TaskStruct}, t.onRq = 0 →
      ((Function.update m.task p t) p).onRq = 0 := by
    intro m t ht
    rw [Function.update_self]
    exact ht
  refine wlp_bind (P := fun _ m₁ => (m₁.task p).onRq = 0) ?_ ?_
  · refine wlp_bind (P := fun _ m₁ => (m₁.task p).onRq = 0) (wlp_modifyTask (hset rfl)) ?_
    intro _ m₁ h₁
    refine wlp_bind (wlp_onCpu_keeps (P := fun T => (T p).onRq = 0) h₁) ?_
    intro _ m₂ h₂
    exact wlp_emit h₂
  intro _ m₁ h₁
  apply wlp_get_bind
  refine wlp_bind (P := fun _ m₂ => (m₂.task p).onRq = 0) (wlp_modifyTask (hset (by exact h₁))) ?_
  intro _ m₂ h₂
  refine wlp_bind (P := fun _ m₃ => (m₃.task p).onRq = 0) (wlp_when ?_ fun _ => h₂) ?_
  · intro _
    refine wlp_updateTask fun t ht => hset ?_
    rw [resetOnFork_onRq ht]
    exact h₂
  · intro _ m₃ h₃
    exact schedForkClass_child h₃

theorem fork_prompt (h : Prompt m) (hp : m.cpu.rq.curr ≠ p) (mm kthread : Bool) :
    (fork p mm kthread).wlp m fun r m' => r = 0 → Prompt m' := by
  have hmark : m.cpu.needResched p = false := by
    rw [← Bool.not_eq_true]
    intro hm
    exact hp (h.marked p hm).symm
  unfold fork
  refine wlp_bind (dupTaskStruct_shifts hmark mm kthread) ?_
  intro _ m₁ h₁
  refine ((schedFork_shifts.wlp h₁).and schedFork_child).mono ?_
  rintro r m' ⟨hs, hchild⟩ hr
  obtain ⟨hon, hranked⟩ := hchild hr
  refine h.of_shifts hs hranked (fun e => absurd e hp) ?_
  intro _ hel
  have hq := hel.1
  unfold taskOnRqQueued at hq
  rw [hon] at hq
  cases hq

/-! ### The timers -/

theorem schedulerTick_prompt (h : Prompt m) (counts : Bool) (slice : ℕ) (ts : α → ℕ) :
    (schedulerTick counts slice ts).wlp m fun _ m' => Prompt m' := by
  refine onCpu_prompt h fun T => ?_
  refine keeps_bind keeps_get fun s => keeps_bind (within_aside updateRqClock_aside) fun _ => ?_
  split
  · exact keeps_bind foreignCall_kept fun _ => keeps_ret _
  · exact keeps_bind foreignCall_kept fun _ => keeps_ret _
  · exact taskTickRt_kept
  · exact keeps_fail
  · exact keeps_ret _
  · exact keeps_ret _

/-- A class that is not throttled, and off `rq->nr_running` if it has tasks, is put back, and the
running task is marked. -/
theorem schedRtRqEnqueue_marks {s : Cpu K} (hoff : s.rq.rt.rtQueued = false)
    (hn : s.rq.rt.rtNrRunning ≠ 0) : (schedRtRqEnqueue : SchedM K Unit).wlp s fun _ s' =>
      Framed s s' ∧ s'.rq.rt.Counted ∧ s'.needResched s'.rq.curr = true := by
  unfold schedRtRqEnqueue
  apply wlp_get_bind
  refine wlp_when ?_ fun h => absurd hn h
  intro _
  refine wlp_bind (enqueueTopRtRq_counted ⟨(Kept.refl s).toFramed, hoff⟩) ?_
  rintro _ s₁ ⟨h₁, hc₁⟩
  refine ((reschedCurr_kept.wlp (Kept.refl s₁)).and reschedCurr_marks).mono ?_
  rintro _ s₂ ⟨h₂, hmark⟩
  refine ⟨h₁.trans h₂.toFramed, h₂.counted hc₁, ?_⟩
  rw [h₂.curr]
  exact hmark

theorem Prompt.of_marked (h : Prompt m) {s : Cpu K} (hcurr : s.rq.curr = m.cpu.rq.curr)
    (hc : s.rq.rt.Counted) (honly : ∀ q, s.needResched q = true → m.cpu.needResched q = true ∨
      q = m.cpu.rq.curr) (hmark : s.needResched s.rq.curr = true) : Prompt { m with cpu := s } := by
  refine ⟨h.ranked, hc, ?_, fun q _ => .inl hmark⟩
  intro q hq
  show q = s.rq.curr
  rw [hcurr]
  exact (honly q hq).elim (h.marked q) id

theorem Prompt.of_kept (h : Prompt m) {s : Cpu K} (hk : Kept m.cpu s) :
    Prompt { m with cpu := s } := by
  have ht : Touches m.cpu.rq.curr m { m with cpu := s } :=
    ⟨⟨hk, fun _ => rfl, fun _ => rfl⟩, fun _ _ hq => hq⟩
  exact h.of_touches ht fun hq => .inl hq

/-- The period timer of the real-time bandwidth.  When it lifts the throttling of a class with tasks
it marks the running task. -/
theorem doSchedRtPeriodTimer_prompt (h : Prompt m)
    (hrt : ∀ q, taskOnRqQueued (m.task q) = true → (m.task q).schedClass = .rt →
      m.cpu.rq.rt.rtNrRunning ≠ 0) (overrun : U64) :
    (doSchedRtPeriodTimer overrun).wlp m fun _ m' => Prompt m' := by
  unfold doSchedRtPeriodTimer
  refine wlp_onCpu_state (wlp_get_bind ?_)
  dsimp only
  split
  · refine wlp_bind (P := fun _ s₁ => ∃ left, s₁ = { m.cpu with rq := { m.cpu.rq with
      rt := { m.cpu.rq.rt with rtTime := left } } }) (wlp_modify ⟨_, rfl⟩) ?_
    rintro _ _ ⟨left, rfl⟩
    apply wlp_when
    swap
    · intro _
      exact h.of_kept ⟨⟨rfl, rfl, fun _ hq => hq, fun _ hq => .inl hq, fun ht => ht⟩, fun hc => hc⟩
    intro hlift
    have hoff : m.cpu.rq.rt.rtQueued = false := by
      rw [← Bool.not_eq_true]
      intro hq
      have hthrottled := (h.counted.mp hq).1
      rw [hlift.1] at hthrottled
      cases hthrottled
    refine wlp_bind (P := fun _ s₂ => ∃ left, s₂ = { m.cpu with rq := { m.cpu.rq with
      rt := { m.cpu.rq.rt with rtTime := left, rtThrottled := false } } }) (wlp_modify ⟨_, rfl⟩) ?_
    rintro _ _ ⟨left, rfl⟩
    refine wlp_bind (P := fun _ s₃ => s₃.rq.rt.rtQueued = false ∧ s₃.rq.rt.rtThrottled = false ∧
      s₃.rq.rt.rtNrRunning = m.cpu.rq.rt.rtNrRunning ∧ s₃.rq.curr = m.cpu.rq.curr ∧
      s₃.needResched = m.cpu.needResched) (wlp_when ?_ ?_) ?_
    · intro _; exact wlp_modify ⟨hoff, rfl, rfl, rfl, rfl⟩
    · intro _; exact ⟨hoff, rfl, rfl, rfl, rfl⟩
    rintro _ s₃ ⟨hq₃, ht₃, hn₃, hc₃, hm₃⟩
    by_cases hn : s₃.rq.rt.rtNrRunning ≠ 0
    · refine (schedRtRqEnqueue_marks hq₃ hn).mono ?_
      rintro _ s₄ ⟨h₄, hcount, hmark⟩
      refine h.of_marked (h₄.curr.trans hc₃) hcount ?_ hmark
      intro q hq
      rw [← hm₃, ← hc₃]
      exact h₄.only q hq
    · -- without tasks nothing becomes eligible
      unfold schedRtRqEnqueue
      apply wlp_get_bind
      refine wlp_when (fun hn' => absurd hn' hn) fun _ => ?_
      refine ⟨h.ranked, ?_, ?_, ?_⟩
      · show s₃.rq.rt.Counted
        unfold RtRq.Counted
        rw [hq₃]
        exact ⟨fun e => (by cases e), fun e => absurd e.2 hn⟩
      · intro q hq
        change s₃.needResched q = true at hq
        rw [hm₃] at hq
        exact (h.marked q hq).trans hc₃.symm
      · intro q hel
        have hcls : (m.task q).schedClass ≠ .rt := by
          intro e
          exact hn (hn₃ ▸ hrt q hel.1 e)
        have hs := h.served q ⟨hel.1, fun e => absurd e hcls⟩
        show s₃.needResched s₃.rq.curr = true ∨ rank (m.task s₃.rq.curr) ≤ rank (m.task q)
        rw [hm₃, hc₃]
        exact hs
  · apply wlp_when
    · rintro ⟨hn, ht⟩
      -- the class is counted already
      unfold schedRtRqEnqueue
      apply wlp_get_bind
      refine wlp_when ?_ fun _ => h
      intro _
      refine wlp_bind (P := fun _ s₁ => s₁ = m.cpu) ?_ ?_
      · unfold enqueueTopRtRq
        apply wlp_get_bind
        refine wlp_when ?_ fun _ => rfl
        rintro ⟨hq, -, -⟩
        rw [h.counted.mpr ⟨ht, hn⟩] at hq
        cases hq
      · rintro _ _ rfl
        exact (reschedCurr_kept.wlp (Kept.refl m.cpu)).mono fun _ s hs => h.of_kept hs
    · intro _; exact h

end KernelHacking.Sched
