import KernelHacking.Sched.Run

/-! # `normalize_rt_tasks`

`normalize_task` moves a task to the circular class with a dequeue and an enqueue only.  The other
functions that change a class also call `put_prev_task` and `set_curr_task` for a running task.
Without them `circ_rq->curr` does not follow: `normalizeTask_spec` is what it does to every task,
and `normalizeTask_keeps_iff` says for which tasks the run-queue comes out consistent. -/

namespace KernelHacking.Sched

open TraceProg PtrRing Word Prog

variable {α : Type} [DecidableEq α] [Fintype α] {K : Kernel α}
variable {m m' : Machine K} {xs : List α} {p : α} {t : TaskStruct}

/-! ### The invariant of the ring alone -/

/-- What the circular run-queue needs: each task with `se.on_rq` set is `circ_rq->curr` and not in
the ring, or another task and in the ring once; the ring holds no other task; `circ_rq->curr` is null
or the running task; a runnable circular task that runs is `circ_rq->curr`. -/
structure RingInv (m : Machine K) (xs : List α) : Prop where
  rep : Represents m.cpu.node m.cpu.rq.circ.circList xs
  place : ∀ p, (m.cpu.se p).onRq = true →
    m.cpu.rq.circ.curr = some p ∧ xs.count p = 0 ∨ m.cpu.rq.circ.curr ≠ some p ∧ xs.count p = 1
  onRq : ∀ p ∈ xs, (m.cpu.se p).onRq = true
  curr : m.cpu.rq.circ.curr = none ∨ m.cpu.rq.circ.curr = some m.cpu.rq.curr
  running : (m.task m.cpu.rq.curr).schedClass = .circular →
    (m.cpu.se m.cpu.rq.curr).onRq = true → m.cpu.rq.circ.curr = some m.cpu.rq.curr

theorem Inv.ringInv (h : Inv m xs) : RingInv m xs := by
  refine ⟨h.sane.circ.rep, h.place, h.onRq_of_mem, h.curr_cases, ?_⟩
  intro hc _
  rw [h.curr]
  unfold currOf
  rw [if_pos hc]

/-- No task is inserted into a ring it is in. -/
def InsertsOnce (t : List (Event K)) : Prop :=
  ∀ h l after p, Event.insert h l after p ∈ t → ∃ xs, Represents h l xs ∧ p ∉ xs

theorem insertsOnce_of_accepts {t : List (Event K)} (h : ringMonitor.Accepts xs t) :
    InsertsOnce t := by
  intro h' l after p hmem
  obtain ⟨g, ys, hrep, hp, -⟩ := h.exists_ok hmem
  exact ⟨ys, hrep, hp⟩

/-- What is expected of `normalize_task(rq, p)`: it ends with the ring in order, and so does any
`__schedule` that follows, with no node inserted twice on the way. -/
def NormalizesWell (m : Machine K) (p : α) : Prop :=
  ∃ m' t xs, (normalizeTask p).Ends m () m' t ∧ RingInv m' xs ∧ InsertsOnce t ∧
    ∀ signalPending preemptActive toWakeup, ∃ m'' t' ys,
      (__schedule signalPending preemptActive toWakeup).Ends m' () m'' t' ∧ RingInv m'' ys ∧
        InsertsOnce t'

/-! ### `normalize_task` -/

/-- The task becomes a circular task. -/
theorem normalAttr_ok (h : StaticOk t.staticPrio) {S : Prop} :
    ∃ t', __setscheduler normalAttr t = some t' ∧ TaskOk S t' ∧ t'.onRq = t.onRq ∧
      t'.schedClass = .circular := by
  have hnice : MIN_NICE ≤ normalAttr.schedNice ∧ normalAttr.schedNice ≤ MAX_NICE := by decide
  obtain ⟨t', ht', hok, hon⟩ := __setscheduler_ok (S := False) h hnice
  have hcls : t'.schedClass = .circular := by
    unfold __setscheduler __setschedulerParams at ht'
    obtain ⟨t₁, ht₁, rfl⟩ := Option.map_eq_some_iff.mp ht'
    obtain ⟨w₁, hw₁, rfl⟩ := Option.map_eq_some_iff.mp ht₁
    rfl
  refine ⟨t', ht', ⟨?_, hok.static⟩, hon, hcls⟩
  rcases hok.cls with e | e
  · exact .inl e
  · exact e.2.elim

/-- **What `normalize_task` does**: the account is that of the changed task again, but
`circ_rq->curr` is what it was. -/
theorem normalizeTask_spec (h : Inv m xs) (hp : p ≠ m.cpu.rq.idle) :
    (normalizeTask p).mwp ringMonitor m xs (fun _ m' xs' => ∃ t,
      TaskOk (m.cpu.rq.stop = some p) t ∧ t.schedClass = .circular ∧
      taskOnRqQueued t = taskOnRqQueued (m.task p) ∧ m'.task = Function.update m.task p t ∧
      Sane m'.task (home m'.task) m.cpu.ctx m'.cpu xs') := by
  obtain ⟨t, hch, hok, hon, hcls⟩ := normalAttr_ok (t := m.task p) (S := m.cpu.rq.stop = some p)
    (h.tasks.static p)
  have hq : taskOnRqQueued t = taskOnRqQueued (m.task p) := by unfold taskOnRqQueued; rw [hon]
  obtain ⟨T', hT'⟩ : ∃ T', T' = Function.update m.task p t := ⟨_, rfl⟩
  have hTp : T' p = t := by rw [hT', Function.update_self]
  unfold normalizeTask
  rw [mwp_bind, mwp_get]
  refine mwp.seq (dequeueIfQueued_spec h.toSettled hp) ?_
  intro _ m₁ xs₁ h₁
  obtain ⟨e₁, hs₁⟩ := h₁
  rw [mwp_bind, mwp_updateTask (by rw [e₁]; exact hch), e₁, ← hT', mwp_bind, mwp_when_bind]
  have hs₂ : Sane T' (Function.update (home m.task) p none) m.cpu.ctx m₁.cpu xs₁ := by
    rw [hT']; exact hs₁.congr_off
  have hok₂ : TaskOk (m.cpu.rq.stop = some p) (T' p) := by rw [hTp]; exact hok
  refine mwp.seq (enqueueIfQueued_spec (m := { m₁ with task := T' }) hs₂ hok₂ 0) ?_
  intro _ m₃ xs₃ h₃
  obtain ⟨e₃, hs₃⟩ := h₃
  have e₃' : m₃.task = T' := e₃
  have hs₃' : Sane T' (home T') m.cpu.ctx m₃.cpu xs₃ := by
    change Sane T' (Function.update (home m.task) p
      (if taskOnRqQueued (m.task p) then some (T' p).schedClass else none)) _ _ _ at hs₃
    rw [hTp, ← hq, hT', ← home_update, ← hT'] at hs₃
    exact hs₃
  have hresched : (when (taskOnRqQueued (m.task p) = true) (onCpu fun _ => reschedCurr)).mwp
      ringMonitor m₃ xs₃ (fun _ m₄ xs₄ => m₄.task = T' ∧
        Sane T' (home T') m.cpu.ctx m₄.cpu xs₄) := by
    apply mwp_when
    · intro _
      rw [mwp_onCpu]
      refine (reschedCurr_spec hs₃').mono ?_
      intro _ s₄ g₄ h₄
      obtain ⟨rfl, hs₄⟩ := h₄
      exact ⟨e₃', hs₄⟩
    · intro _; exact ⟨e₃', hs₃'⟩
  refine hresched.mono ?_
  intro _ m₄ xs₄ h₄
  obtain ⟨e₄, hs₄⟩ := h₄
  have hok₄ : TaskOk (m.cpu.rq.stop = some p) (m₄.task p) := by rw [e₄]; exact hok₂
  rw [mwp_onCpu]
  refine (checkClassChanged_spec (by rw [e₄]; exact hs₄) (h.tasks.ne_fair p) hok₄.ne_fair
    hok₄.ne_idle).mono ?_
  intro _ s₅ g₅ h₅
  obtain ⟨rfl, hs₅⟩ := h₅
  refine ⟨t, hok, hcls, hq, e₄.trans hT', ?_⟩
  show Sane m₄.task (home m₄.task) m.cpu.ctx s₅ _
  rw [e₄] at hs₅ ⊢
  exact hs₅

/-- A task that is not running, or is a circular task already, is normalized as it should be. -/
theorem normalizeTask_inv (h : Inv m xs) (hp : p ≠ m.cpu.rq.idle)
    (hrun : m.cpu.rq.curr = p → (m.task p).schedClass = .circular) :
    (normalizeTask p).mwp ringMonitor m xs (fun _ m' xs' => Inv m' xs' ∧ SameRq m m') := by
  refine (normalizeTask_spec h hp).mono ?_
  intro _ m' xs' h'
  obtain ⟨t, hok, hcls, hq, he, hs⟩ := h'
  refine h.of_sane hp hok hq he ?_
  have hcurr : currOf m'.task m.cpu.rq.curr = m.cpu.rq.circ.curr := by
    rw [he, h.curr]
    by_cases e : m.cpu.rq.curr = p
    · rw [e]
      exact currOf_update_of_class (hcls.trans (hrun e).symm)
    · exact currOf_update_of_ne e
  rw [hcurr]
  exact hs

/-- A running task of another class ends up in the ring, and `circ_rq->curr` does not point at it. -/
theorem normalizeTask_running (h : Inv m xs) (hp : p ≠ m.cpu.rq.idle) (hrun : m.cpu.rq.curr = p)
    (hcls : (m.task p).schedClass ≠ .circular) {t : List (Event K)}
    (hends : (normalizeTask p).Ends m () m' t) : ∃ ys, Represents m'.cpu.node
      m'.cpu.rq.circ.circList ys ∧ p ∈ ys ∧ m'.cpu.rq.curr = p ∧ m'.cpu.rq.circ.curr = none ∧
      (m'.task p).schedClass = .circular ∧ (m'.cpu.se p).onRq = true := by
  obtain ⟨⟨t', hok, hc, hq, he, hs⟩, -⟩ := (normalizeTask_spec h hp).ends hends
  have hnone : m'.cpu.rq.circ.curr = none := by
    rw [hs.circCurr_eq]
    show m.cpu.rq.circ.curr = none
    rw [h.curr, hrun]
    unfold currOf
    rw [if_neg hcls]
  have hTp : m'.task p = t' := by rw [he, Function.update_self]
  have hqueued : taskOnRqQueued t' = true := by rw [hq, ← hrun]; exact h.running
  have hhome : home m'.task p = some .circular := by
    rw [home_eq_some, hTp]
    exact ⟨hqueued, hc⟩
  refine ⟨_, hs.circ.rep, ?_, hs.curr_eq.trans hrun, hnone, by rw [hTp]; exact hc, ?_⟩
  · rw [hs.circ.mem, hnone]
    exact ⟨hhome, by simp⟩
  · rw [hs.circ.onRq]
    exact hhome

theorem not_normalizesWell (h : Inv m xs) (hp : p ≠ m.cpu.rq.idle) (hrun : m.cpu.rq.curr = p)
    (hcls : (m.task p).schedClass ≠ .circular) : ¬ NormalizesWell m p := by
  intro hwell
  obtain ⟨m', t, ys, hends, hring, -⟩ := hwell
  obtain ⟨-, -, -, hcurr, hnone, hc, hon⟩ := normalizeTask_running h hp hrun hcls hends
  have hrunning := hring.running (by rw [hcurr]; exact hc) (by rw [hcurr]; exact hon)
  rw [hnone] at hrunning
  cases hrunning

/-- **When `normalize_task` keeps the run-queue in order**: exactly when the task is not the running
one, or is in the circular class already. -/
theorem normalizeTask_keeps_iff (h : Inv m xs) (hp : p ≠ m.cpu.rq.idle) :
    NormalizesWell m p ↔ (m.cpu.rq.curr = p → (m.task p).schedClass = .circular) := by
  constructor
  · intro hwell hrun
    by_contra hcls
    exact not_normalizesWell h hp hrun hcls hwell
  · intro hrun
    have hspec := normalizeTask_inv h hp hrun
    obtain ⟨⟨⟩, m', t, hends⟩ := hspec.exists_ends
    obtain ⟨⟨hinv, -⟩, hacc⟩ := hspec.ends hends
    refine ⟨m', t, _, hends, hinv.ringInv, insertsOnce_of_accepts hacc, ?_⟩
    intro signalPending preemptActive toWakeup
    have hsched := __schedule_spec hinv signalPending preemptActive toWakeup
    obtain ⟨⟨⟩, m'', t', hends'⟩ := hsched.exists_ends
    obtain ⟨hinv', hacc'⟩ := hsched.ends hends'
    exact ⟨m'', t', _, hends', hinv'.ringInv, insertsOnce_of_accepts hacc'⟩

theorem normalizeTask_keeps_iff_small : ∃ (m : Machine smallKernel) (xs : List (Fin 4)),
    Inv m xs ∧ (1 : Fin 4) ≠ m.cpu.rq.idle ∧ m.cpu.rq.curr = 1 ∧ NormalizesWell m 1 := by
  have h₀ : Run smallBoot [] smallBoot := .refl
  have h₁ := Run.step (.tryToWakeUp 1 TASK_NORMAL 0) h₀ trivial ⟨3, rfl⟩
  have h₂ := Run.step (.schedule false false none) h₁ trivial ⟨3, rfl⟩
  obtain ⟨hinv, -⟩ := h₂.inv smallBoot_boot.inv
  have hidle : (1 : Fin 4) ≠ 0 := by decide
  exact ⟨_, _, hinv, hidle, rfl, (normalizeTask_keeps_iff hinv hidle).mpr fun _ => rfl⟩

/-- The real-time task runs and is normalized.  The run-queue is not in order afterwards, and the
next `__schedule` inserts the task before itself. -/
theorem normalizeTask_breaks_ring : ∃ (t : List (Event smallKernel)) (m : Machine smallKernel)
    (xs : List (Fin 4)), Run smallBoot t m ∧ Inv m xs ∧ RingInv m xs ∧
      (3 : Fin 4) ≠ m.cpu.rq.idle ∧ ¬ NormalizesWell m 3 ∧
      ∃ m' t₁ m'' t₂ h l, (normalizeTask 3).Ends m () m' t₁ ∧
        (__schedule false false none).Ends m' () m'' t₂ ∧ Event.insert h l (some 3) 3 ∈ t₂ ∧
        l.head = some 3 := by
  have h₀ : Run smallBoot [] smallBoot := .refl
  have h₁ := Run.step (.tryToWakeUp 3 TASK_NORMAL 0) h₀ trivial ⟨3, rfl⟩
  have h₂ := Run.step (.schedule false false none) h₁ trivial ⟨3, rfl⟩
  obtain ⟨hinv, -⟩ := h₂.inv smallBoot_boot.inv
  have hidle : (3 : Fin 4) ≠ 0 := by decide
  refine ⟨_, _, _, h₂, hinv, hinv.ringInv, hidle, ?_, ?_⟩
  · exact not_normalizesWell hinv hidle rfl (fun e => by cases e)
  · exact ⟨_, _, _, _, _, _, ⟨3, rfl⟩, ⟨3, rfl⟩, List.mem_of_getElem? (i := 1) rfl, rfl⟩

end KernelHacking.Sched
