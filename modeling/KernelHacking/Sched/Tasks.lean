import KernelHacking.Sched.Core

/-! # Class and priority of a task

What the functions of `core.c` that write a `task_struct` do to its class and priorities.  `TaskOk`
is the agreement they all keep: the class is the one that belongs to the effective priority (only
the stop task may be in the stop class instead), and the static priority is a valid nice level.
The latter is what makes the reads of the weight tables safe. -/

namespace KernelHacking.Sched

open TraceProg Prog

/-! ### The class of a priority -/

theorem classOfPrio_dl {prio : ℤ} : classOfPrio prio = .dl ↔ dlPrio prio = true := by
  unfold classOfPrio
  cases dlPrio prio <;> cases rtPrio prio <;> decide

theorem classOfPrio_rt {prio : ℤ} :
    classOfPrio prio = .rt ↔ dlPrio prio = false ∧ rtPrio prio = true := by
  unfold classOfPrio
  cases dlPrio prio <;> cases rtPrio prio <;> decide

theorem classOfPrio_circular {prio : ℤ} :
    classOfPrio prio = .circular ↔ dlPrio prio = false ∧ rtPrio prio = false := by
  unfold classOfPrio
  cases dlPrio prio <;> cases rtPrio prio <;> decide

/-- No priority belongs to the classes outside this list. -/
theorem classOfPrio_mem (prio : ℤ) : classOfPrio prio = .dl ∨ classOfPrio prio = .rt ∨
    classOfPrio prio = .circular := by
  unfold classOfPrio
  cases dlPrio prio <;> cases rtPrio prio <;> decide

theorem classOfPrio_ne_fair (prio : ℤ) : classOfPrio prio ≠ .fair := by
  rcases classOfPrio_mem prio with e | e | e <;> rw [e] <;> decide

/-- A priority of the real-time class is an index of the priority array. -/
theorem rt_range {prio : ℤ} (h : classOfPrio prio = .rt) : 0 ≤ prio ∧ prio < MAX_RT_PRIO := by
  obtain ⟨h₁, h₂⟩ := classOfPrio_rt.mp h
  exact ⟨not_lt.mp (of_decide_eq_false h₁), of_decide_eq_true h₂⟩

/-- A static priority is a priority of the circular class. -/
theorem classOfPrio_of_le {prio : ℤ} (h : MAX_RT_PRIO ≤ prio) : classOfPrio prio = .circular := by
  have h0 : MAX_DL_PRIO ≤ prio := le_trans (by decide) h
  exact classOfPrio_circular.mpr ⟨decide_eq_false (not_lt.mpr h0), decide_eq_false (not_lt.mpr h)⟩

/-! ### The agreement -/

/-- `static_prio` is a nice level. -/
def StaticOk (prio : ℤ) : Prop := MAX_RT_PRIO ≤ prio ∧ prio < MAX_PRIO

/-- Class and priority agree. -/
structure TaskOk (mayStop : Prop) (t : TaskStruct) : Prop where
  cls : t.schedClass = classOfPrio t.prio ∨ t.schedClass = .stop ∧ mayStop
  static : StaticOk t.staticPrio

section taskOk
variable {S : Prop} {t : TaskStruct}

theorem TaskOk.ne_fair (h : TaskOk S t) : t.schedClass ≠ .fair := by
  rcases h.cls with e | ⟨e, -⟩
  · rw [e]; exact classOfPrio_ne_fair t.prio
  · rw [e]; decide

theorem TaskOk.ne_idle (h : TaskOk S t) : t.schedClass ≠ .idle := by
  rcases h.cls with e | ⟨e, -⟩
  · rw [e]
    rcases classOfPrio_mem t.prio with e' | e' | e' <;> rw [e'] <;> decide
  · rw [e]; decide

theorem TaskOk.rt_range (h : TaskOk S t) (hr : t.schedClass = .rt) :
    0 ≤ t.prio ∧ t.prio < MAX_RT_PRIO := by
  rcases h.cls with e | ⟨e, -⟩
  · exact Sched.rt_range (e.symm.trans hr)
  · rw [e] at hr; cases hr

theorem staticOk_nice {nice : ℤ} (h : MIN_NICE ≤ nice ∧ nice ≤ MAX_NICE) :
    StaticOk (niceToPrio nice) := by
  unfold StaticOk niceToPrio
  simp only [MIN_NICE, MAX_NICE, MAX_RT_PRIO, MAX_PRIO, DEFAULT_PRIO] at *
  omega

/-! ### The functions that write a task -/

/-- The weight tables have an entry for every nice level. -/
theorem setLoadWeight_of_static (h : StaticOk t.staticPrio) :
    ∃ w, setLoadWeight t = some { t with load := w } := by
  have hsome : ∃ w, loadWeight t = some w := by
    unfold loadWeight
    split
    · exact ⟨_, rfl⟩
    · obtain ⟨h₁, h₂⟩ := h
      rw [if_pos (by omega)]
      have hw : (t.staticPrio - MAX_RT_PRIO).toNat < prioToWeight.length := by
        show _ < 40
        unfold MAX_RT_PRIO MAX_PRIO at *
        omega
      have hi : (t.staticPrio - MAX_RT_PRIO).toNat < prioToWmult.length := hw
      rw [List.getElem?_eq_getElem hw, List.getElem?_eq_getElem hi]
      exact ⟨_, rfl⟩
  obtain ⟨w, hw⟩ := hsome
  exact ⟨w, by simp [setLoadWeight, hw]⟩

/-- `rt_mutex_setprio` gives the task the class of its new priority. -/
theorem setprioTask_eq (prio : ℤ) (b : Bool) (t : TaskStruct) :
    (setprioTask prio b t).2.schedClass = classOfPrio prio ∧ (setprioTask prio b t).2.prio = prio ∧
      (setprioTask prio b t).2.staticPrio = t.staticPrio ∧
      (setprioTask prio b t).2.onRq = t.onRq := by
  unfold setprioTask
  by_cases hd : dlPrio prio = true
  · simp only [hd, if_true]
    split
    · exact ⟨(classOfPrio_dl.mpr hd).symm, rfl, rfl, rfl⟩
    · exact ⟨(classOfPrio_dl.mpr hd).symm, rfl, rfl, rfl⟩
  · rw [if_neg hd]
    rw [Bool.not_eq_true] at hd
    by_cases hr : rtPrio prio = true
    · rw [if_pos hr]
      exact ⟨(classOfPrio_rt.mpr ⟨hd, hr⟩).symm, rfl, rfl, rfl⟩
    · rw [if_neg hr]
      rw [Bool.not_eq_true] at hr
      exact ⟨(classOfPrio_circular.mpr ⟨hd, hr⟩).symm, rfl, rfl, rfl⟩

theorem setprioTask_ok (h : StaticOk t.staticPrio) (prio : ℤ) (b : Bool) :
    TaskOk S (setprioTask prio b t).2 ∧ (setprioTask prio b t).2.onRq = t.onRq := by
  obtain ⟨hc, hp, hs, ho⟩ := setprioTask_eq prio b t
  exact ⟨⟨.inl (by rw [hc, hp]), by rw [hs]; exact h⟩, ho⟩

/-- `set_user_nice`: a boosted task keeps its priority, and any other one without a real-time or
deadline policy is a circular task before and after. -/
theorem niceTask_ok (h : TaskOk S t) {nice : ℤ} (hn : MIN_NICE ≤ nice ∧ nice ≤ MAX_NICE)
    (hdl : dlPolicy t.policy = false) (hrt : rtPolicy t.policy = false) :
    ∃ t', niceTask nice t = some t' ∧ TaskOk S t' ∧ t'.onRq = t.onRq ∧
      t'.schedClass = t.schedClass := by
  have hs : StaticOk (niceToPrio nice) := staticOk_nice hn
  have ht : StaticOk ({ t with staticPrio := niceToPrio nice } : TaskStruct).staticPrio := hs
  obtain ⟨w, hw⟩ := setLoadWeight_of_static ht
  refine ⟨effectivePrio { t with staticPrio := niceToPrio nice, load := w },
    by rw [niceTask, hw]; rfl, ⟨?_, hs⟩, rfl, rfl⟩
  have hnp : normalPrio { t with staticPrio := niceToPrio nice, load := w } = niceToPrio nice := by
    simp [normalPrio, hdl, hrt, __normalPrio]
  by_cases hb : rtPrio t.prio = true
  · have e : (effectivePrio { t with staticPrio := niceToPrio nice, load := w }).prio = t.prio :=
      if_pos hb
    rw [e]
    exact h.cls
  · have e : (effectivePrio { t with staticPrio := niceToPrio nice, load := w }).prio =
        niceToPrio nice := (if_neg hb).trans hnp
    rw [e, classOfPrio_of_le hs.1]
    rcases h.cls with hc | hc
    · left
      rw [Bool.not_eq_true] at hb
      show t.schedClass = .circular
      rw [hc]
      refine classOfPrio_of_le ?_
      simpa [rtPrio] using hb
    · exact .inr hc

theorem setPolicy_ok (h : StaticOk t.staticPrio) {attr : SchedAttr}
    (hn : MIN_NICE ≤ attr.schedNice ∧ attr.schedNice ≤ MAX_NICE) :
    StaticOk (setPolicy attr t).staticPrio ∧ (setPolicy attr t).schedClass = t.schedClass ∧
      (setPolicy attr t).prio = t.prio ∧ (setPolicy attr t).onRq = t.onRq := by
  unfold setPolicy
  dsimp only
  generalize (if attr.schedPolicy = SETPARAM_POLICY then t.policy else attr.schedPolicy) = policy
  by_cases hd : dlPolicy policy = true
  · rw [if_pos hd]; exact ⟨h, rfl, rfl, rfl⟩
  · rw [if_neg hd]
    by_cases hf : fairPolicy policy = true
    · rw [if_pos hf]; exact ⟨staticOk_nice hn, rfl, rfl, rfl⟩
    · rw [if_neg hf]; exact ⟨h, rfl, rfl, rfl⟩

/-- `__setscheduler_params` leaves class and effective priority alone. -/
theorem __setschedulerParams_ok (h : StaticOk t.staticPrio) {attr : SchedAttr}
    (hn : MIN_NICE ≤ attr.schedNice ∧ attr.schedNice ≤ MAX_NICE) :
    ∃ t', __setschedulerParams attr t = some t' ∧ StaticOk t'.staticPrio ∧
      t'.schedClass = t.schedClass ∧ t'.prio = t.prio ∧ t'.onRq = t.onRq := by
  obtain ⟨hs, hc, hp, ho⟩ := setPolicy_ok h hn
  obtain ⟨t₁, ht₁⟩ : ∃ t₁ : TaskStruct, t₁ = { setPolicy attr t with
    rtPriority := attr.schedPriority } := ⟨_, rfl⟩
  have hs₁ : StaticOk ({ t₁ with normalPrio := normalPrio t₁ } : TaskStruct).staticPrio := by
    rw [ht₁]; exact hs
  obtain ⟨w, hw⟩ := setLoadWeight_of_static hs₁
  refine ⟨{ t₁ with normalPrio := normalPrio t₁, load := w }, ?_, hs₁, ?_, ?_, ?_⟩
  · unfold __setschedulerParams
    rw [← ht₁]
    exact hw
  · show t₁.schedClass = _; rw [ht₁]; exact hc
  · show t₁.prio = _; rw [ht₁]; exact hp
  · show t₁.onRq = _; rw [ht₁]; exact ho

/-- `__setscheduler` gives the task the class of its new priority. -/
theorem __setscheduler_ok (h : StaticOk t.staticPrio) {attr : SchedAttr}
    (hn : MIN_NICE ≤ attr.schedNice ∧ attr.schedNice ≤ MAX_NICE) :
    ∃ t', __setscheduler attr t = some t' ∧ TaskOk S t' ∧ t'.onRq = t.onRq := by
  obtain ⟨t₁, ht₁, hs, -, -, hon⟩ := __setschedulerParams_ok h hn
  refine ⟨{ t₁ with prio := normalPrio t₁, schedClass := classOfPrio (normalPrio t₁) }, ?_,
    ⟨.inl rfl, hs⟩, hon⟩
  rw [__setscheduler, ht₁]
  rfl

theorem resetPolicy_ok (h : StaticOk t.staticPrio) :
    StaticOk (resetPolicy t).staticPrio ∧ (resetPolicy t).onRq = t.onRq := by
  have h0 : StaticOk (niceToPrio 0) := staticOk_nice (by decide)
  unfold resetPolicy
  split
  · exact ⟨h0, rfl⟩
  split
  · exact ⟨h0, rfl⟩
  · exact ⟨h, rfl⟩

/-- `sched_reset_on_fork` leaves a nice level. -/
theorem resetOnFork_ok (h : StaticOk t.staticPrio) :
    ∃ t', resetOnFork t = some t' ∧ StaticOk t'.staticPrio ∧ t'.onRq = t.onRq := by
  obtain ⟨hs, ho⟩ := resetPolicy_ok h
  obtain ⟨t₁, ht₁⟩ : ∃ t₁, t₁ = resetPolicy t := ⟨_, rfl⟩
  rw [← ht₁] at hs ho
  have hs₁ : StaticOk ({ t₁ with
      prio := __normalPrio t₁, normalPrio := __normalPrio t₁ } : TaskStruct).staticPrio := hs
  obtain ⟨w, hw⟩ := setLoadWeight_of_static hs₁
  refine ⟨{ t₁ with prio := __normalPrio t₁, normalPrio := __normalPrio t₁, load := w,
                    schedResetOnFork := false }, ?_, hs, ho⟩
  unfold resetOnFork
  dsimp only
  rw [← ht₁, hw]
  rfl

end taskOk

end KernelHacking.Sched
