import KernelHacking.Sched.Run

/-! # The shortcut of `pick_next_task`

`pick_next_task` asks the circular class directly when the previous task is a circular task and
`rq->nr_running` equals the count of the fair class.  No task is in the fair class any more, so the
shortcut is taken only when nothing at all is queued, and there it agrees with the walk over the
classes: the stop, deadline and real-time classes have nothing to offer and are left as they are.
It is meant for the case that all runnable tasks are circular tasks, and it is never taken then,
unless there is no runnable task (`shortcut_exact_iff`). -/

namespace KernelHacking.Sched

open TraceProg PtrRing Word Prog

variable {α : Type} [DecidableEq α] [Fintype α] {K : Kernel α}

section
variable {T : α → TaskStruct} {a : Account α} {c : Ctx α} {s s' : Cpu K} {xs : List α}
  {prev p : α} {u : List (Event K)}

/-- With `rq->nr_running` at 0, no class has added anything to it. -/
theorem Sane.empty_of_zero (h : Sane T a c s xs) (hz : s.rq.nrRunning = 0) :
    (∀ f, s.rq.queued f = ∅) ∧ s.rq.rt.rtQueued = false ∧ onClass a .circular = ∅ := by
  have hnr := h.nr
  have hcirc : s.rq.circ.nrRunning = 0 := by omega
  have hrt : s.rq.rt.added = 0 := by omega
  have hstop : (s.rq.queued .stop).card = 0 := by omega
  have hdl : (s.rq.queued .dl).card = 0 := by omega
  refine ⟨?_, ?_, ?_⟩
  · intro f
    cases f with
    | stop => exact Finset.card_eq_zero.mp hstop
    | dl => exact Finset.card_eq_zero.mp hdl
  · rw [← Bool.not_eq_true]
    intro hq
    have hpos := h.rt.queued hq
    unfold RtRq.added at hrt
    rw [if_pos hq] at hrt
    omega
  · rw [h.circ.nr] at hcirc
    exact Finset.card_eq_zero.mp hcirc

/-- With the shortcut taken, every class has added nothing to `rq->nr_running`. -/
theorem Sane.empty_of_shortcut (h : Sane T a c s xs) (hs : shortcutTaken T prev s.rq) :
    (∀ f, s.rq.queued f = ∅) ∧ s.rq.rt.rtQueued = false ∧ onClass a .circular = ∅ :=
  h.empty_of_zero (hs.2.trans h.cfs)

/-- A foreign class without tasks passes, and does nothing. -/
theorem pickNextTaskForeign_ends {f : Foreign} (hprev : (T prev).schedClass ≠ f.schedClass)
    (hq : s.rq.queued f = ∅) : (pickNextTaskForeign f T prev).Ends s none s [] := by
  have hpick : (K.foreign f).pick T s.rq.clock (s.rq.foreign f) = none := by
    rw [Option.eq_none_iff_forall_ne_some]
    intro p hp
    have hmem : p ∈ s.rq.queued f := (K.foreign f).pick_mem _ _ _ _ hp
    rw [hq] at hmem
    cases hmem
  unfold pickNextTaskForeign
  rw [when_neg hprev]
  refine ends_bind.mpr ⟨(), s, [], [], ends_ret.mpr ⟨rfl, rfl, rfl⟩, ?_, rfl⟩
  refine ends_bind.mpr ⟨s, s, [], [], ends_get.mpr ⟨rfl, rfl, rfl⟩, ?_, rfl⟩
  rw [hpick]
  exact ends_ret.mpr ⟨rfl, rfl, rfl⟩

/-- So does the real-time class when it is not queued. -/
theorem pickNextTaskRt_ends (hprev : (T prev).schedClass ≠ .rt)
    (hq : s.rq.rt.rtQueued = false) : (pickNextTaskRt T prev).Ends s none s [] := by
  unfold pickNextTaskRt
  rw [when_neg hprev]
  refine ends_bind.mpr ⟨(), s, [], [], ends_ret.mpr ⟨rfl, rfl, rfl⟩, ?_, rfl⟩
  refine ends_bind.mpr ⟨s, s, [], [], ends_get.mpr ⟨rfl, rfl, rfl⟩, ?_, rfl⟩
  rw [if_neg (by rw [hq]; decide)]
  exact ends_ret.mpr ⟨rfl, rfl, rfl⟩

/-- The walk goes past a class that passes and does nothing. -/
theorem pickWalk_skip {k : SchedClass} {cs : List SchedClass}
    (h : (classPick T prev k).Ends s none s []) :
    (pickWalk T prev (k :: cs)).Ends s p s' u ↔ (pickWalk T prev cs).Ends s p s' u := by
  rw [pickWalk, ends_bind]
  constructor
  · intro hw
    obtain ⟨r, s₁, u₁, u₂, h₁, h₂, hu⟩ := hw
    obtain ⟨rfl, rfl, rfl⟩ := h₁.unique h
    rw [List.nil_append] at hu
    subst hu
    exact h₂
  · intro hw
    exact ⟨none, s, [], u, h, hw, rfl⟩

/-- From the circular class on, the walk is the shortcut. -/
theorem pickWalk_circular :
    (pickWalk T prev [.circular, .idle]).Ends s p s' u ↔ (pickShortcut T prev).Ends s p s' u := by
  have hidle : ∀ {s₁ : Cpu K} {u₁ : List (Event K)}, (pickWalk T prev [.idle]).Ends s₁ p s' u₁ ↔
      (pickNextTaskIdle T prev).Ends s₁ p s' u₁ := by
    intro s₁ u₁
    simp only [pickWalk, classPick, ends_bind]
    constructor
    · intro hw
      obtain ⟨r, s₂, w₁, w₂, ⟨q, s₃, w₃, w₄, hq, hr, rfl⟩, hp, rfl⟩ := hw
      obtain ⟨rfl, rfl, rfl⟩ := ends_ret.mp hr
      obtain ⟨rfl, rfl, rfl⟩ := ends_ret.mp hp
      rw [List.append_nil, List.append_nil]
      exact hq
    · intro hw
      refine ⟨some p, s', u₁, [], ⟨p, s', u₁, [], hw, ends_ret.mpr ⟨rfl, rfl, rfl⟩, ?_⟩,
        ends_ret.mpr ⟨rfl, rfl, rfl⟩, ?_⟩
      · rw [List.append_nil]
      · rw [List.append_nil]
  rw [pickWalk, pickShortcut, ends_bind, ends_bind]
  constructor
  · intro hw
    obtain ⟨r, s₁, u₁, u₂, h₁, h₂, hu⟩ := hw
    refine ⟨r, s₁, u₁, u₂, h₁, ?_, hu⟩
    cases r with
    | none => exact hidle.mp h₂
    | some q => exact h₂
  · intro hw
    obtain ⟨r, s₁, u₁, u₂, h₁, h₂, hu⟩ := hw
    refine ⟨r, s₁, u₁, u₂, h₁, ?_, hu⟩
    cases r with
    | none => exact hidle.mpr h₂
    | some q => exact h₂

/-- Where the shortcut is taken, it and the walk have the same runs. -/
theorem Sane.shortcut_iff_walk (h : Sane T a c s xs) (hs : shortcutTaken T prev s.rq) :
    (pickShortcut T prev).Ends s p s' u ↔ (pickWalk T prev classChain).Ends s p s' u := by
  obtain ⟨hforeign, hrt, -⟩ := h.empty_of_shortcut hs
  have hne : ∀ {k : SchedClass}, k ≠ .circular → (T prev).schedClass ≠ k := by
    intro k hk e
    exact hk (e.symm.trans hs.1)
  unfold classChain
  have hstop : (classPick T prev .stop).Ends s none s [] :=
    pickNextTaskForeign_ends (hne (by decide)) (hforeign .stop)
  have hdl : (classPick T prev .dl).Ends s none s [] :=
    pickNextTaskForeign_ends (hne (by decide)) (hforeign .dl)
  have hrt : (classPick T prev .rt).Ends s none s [] := pickNextTaskRt_ends (hne (by decide)) hrt
  rw [pickWalk_skip hstop, pickWalk_skip hdl, pickWalk_skip hrt, pickWalk_circular]

end

/-! ### In every run -/

/-- The states of a run in which `pick_next_task` may be called: those between steps, and those in
the middle of `__schedule`, where the running task may just have been dequeued. -/
inductive AtPick (m₀ : Machine K) : Machine K → Prop where
  | between {t : List (Event K)} {m : Machine K} : Run m₀ t m → AtPick m₀ m
  | entered {t t' : List (Event K)} {m m' : Machine K} {prev : α}
      (signalPending preemptActive : Bool) (toWakeup : Option α) : Run m₀ t m →
      (scheduleEnter signalPending preemptActive toWakeup).Ends m prev m' t' → AtPick m₀ m'

theorem AtPick.settled {m₀ m : Machine K} (hb : Boot m₀) (h : AtPick m₀ m) :
    ∃ xs, Settled m xs := by
  cases h with
  | between hr => exact ⟨_, (hr.inv hb.inv).1.toSettled⟩
  | entered signalPending preemptActive toWakeup hr hends =>
      have hspec := scheduleEnter_spec (hr.inv hb.inv).1 signalPending preemptActive toWakeup
      exact ⟨_, (hspec.ends hends).1.2.1⟩

/-- **The fast path agrees with the class walk.**  Wherever `pick_next_task` is called with the
running task as the previous one, it has the same runs as the walk over all classes; where the
shortcut is taken it is the shortcut that has them, no class of higher priority has a runnable task,
and there is no runnable circular task.  The idle task is never chosen while there is one. -/
theorem fast_path_agrees {m₀ m : Machine K} (hb : Boot m₀) (h : AtPick m₀ m) :
    (∀ p s u, (pickNextTask m.task m.cpu.rq.curr).Ends m.cpu p s u ↔
      (pickWalk m.task m.cpu.rq.curr classChain).Ends m.cpu p s u) ∧
    (∃ p s u, (pickNextTask m.task m.cpu.rq.curr).Ends m.cpu p s u ∧
      (p = m.cpu.rq.idle → ∀ q, (m.cpu.se q).onRq = false)) ∧
    (shortcutTaken m.task m.cpu.rq.curr m.cpu.rq →
      (∀ p s u, (pickShortcut m.task m.cpu.rq.curr).Ends m.cpu p s u ↔
        (pickWalk m.task m.cpu.rq.curr classChain).Ends m.cpu p s u) ∧
      (∀ f, m.cpu.rq.queued f = ∅) ∧ m.cpu.rq.rt.rtQueued = false ∧
      ∀ q, (m.cpu.se q).onRq = false) := by
  obtain ⟨xs, hm⟩ := h.settled hb
  have hoff : onClass (home m.task) .circular = ∅ → ∀ q, (m.cpu.se q).onRq = false := by
    intro he q
    rw [← Bool.not_eq_true, hm.sane.circ.onRq, ← mem_onClass, he]
    exact Finset.notMem_empty q
  refine ⟨?_, ?_, ?_⟩
  · intro p s u
    unfold pickNextTask
    rw [ends_bind]
    constructor
    · intro hw
      obtain ⟨s₀, s₁, u₁, u₂, h₁, h₂, hu⟩ := hw
      obtain ⟨rfl, rfl, rfl⟩ := ends_get.mp h₁
      rw [List.nil_append] at hu
      subst hu
      split at h₂
      · rename_i hs
        exact (hm.sane.shortcut_iff_walk hs).mp h₂
      · exact h₂
    · intro hw
      refine ⟨m.cpu, m.cpu, [], u, ends_get.mpr ⟨rfl, rfl, rfl⟩, ?_, rfl⟩
      split
      · rename_i hs
        exact (hm.sane.shortcut_iff_walk hs).mpr hw
      · exact hw
  · have hspec := pickNextTask_spec hm.sane hm.curr (hm.tasks.ne_fair _)
    obtain ⟨p, s, u, hends⟩ := hspec.exists_ends
    refine ⟨p, s, u, hends, ?_⟩
    intro hp
    rcases (hspec.ends hends).1.queued with ⟨k, hk, hq⟩ | ⟨-, he⟩
    · rw [hp, home_of_queued hm.tasks.idleQueued, hm.tasks.idleClass] at hq
      exact absurd (Option.some.inj hq).symm hk
    · exact hoff he
  · intro hs
    obtain ⟨hforeign, hrt, hcirc⟩ := hm.sane.empty_of_shortcut hs
    exact ⟨fun p s u => hm.sane.shortcut_iff_walk hs, hforeign, hrt, hoff hcirc⟩

/-- The only runnable task goes to sleep. -/
theorem lastSleeps : ∃ m : Machine smallKernel, AtPick smallBoot m ∧ m.cpu.rq.curr = 1 ∧
    m.cpu.rq.nrRunning = 0 ∧ shortcutTaken m.task m.cpu.rq.curr m.cpu.rq := by
  have h₀ : Run smallBoot [] smallBoot := .refl
  have h₁ := Run.step (.tryToWakeUp 1 TASK_NORMAL 0) h₀ trivial ⟨3, rfl⟩
  have h₂ := Run.step (.schedule false false none) h₁ trivial ⟨3, rfl⟩
  have h₃ := Run.step (.setState 1 1) h₂ (show (1 : Fin 4) ≠ 0 by decide) ⟨3, rfl⟩
  exact ⟨_, AtPick.entered false false none h₃ ⟨3, rfl⟩, rfl, rfl, rfl, rfl⟩

/-- The shortcut is taken then. -/
theorem fast_path_agrees_small : ∃ m : Machine smallKernel, Boot smallBoot ∧ AtPick smallBoot m ∧
    m.cpu.rq.curr = 1 ∧ shortcutTaken m.task m.cpu.rq.curr m.cpu.rq ∧
    ∀ p s u, (pickShortcut m.task m.cpu.rq.curr).Ends m.cpu p s u ↔
      (pickWalk m.task m.cpu.rq.curr classChain).Ends m.cpu p s u := by
  obtain ⟨m, hpick, hcurr, -, htaken⟩ := lastSleeps
  obtain ⟨-, -, hfast⟩ := fast_path_agrees smallBoot_boot hpick
  exact ⟨m, smallBoot_boot, hpick, hcurr, htaken, (hfast htaken).1⟩

/-! ### When the shortcut is taken -/

/-- The task is one of those that `rq->nr_running` counts: its class has it queued, and is not
throttled. -/
def Runnable (s : Cpu K) (q : α) : Prop :=
  (s.se q).onRq = true ∨ (s.rq.rt.rtQueued = true ∧ ∃ i, q ∈ s.rq.rt.active.queue i) ∨
    ∃ f, q ∈ s.rq.queued f

section
variable {T : α → TaskStruct} {a : Account α} {c : Ctx α} {s : Cpu K} {xs : List α}

/-- `rq->nr_running` is 0 exactly when there is no runnable task. -/
theorem Sane.nrRunning_eq_zero_iff (h : Sane T a c s xs) :
    s.rq.nrRunning = 0 ↔ ∀ q, ¬ Runnable s q := by
  constructor
  · intro hz q hq
    obtain ⟨hforeign, hrt, hcirc⟩ := h.empty_of_zero hz
    rcases hq with hon | ⟨hqueued, -⟩ | ⟨f, hf⟩
    · rw [h.circ.onRq, ← mem_onClass, hcirc] at hon
      exact absurd hon (Finset.notMem_empty q)
    · rw [hrt] at hqueued
      cases hqueued
    · rw [hforeign f] at hf
      exact absurd hf (Finset.notMem_empty q)
  · intro hnone
    have hforeign : ∀ f, (s.rq.queued f).card = 0 := by
      intro f
      rw [Finset.card_eq_zero, Finset.eq_empty_iff_forall_notMem]
      intro q hq
      exact hnone q (.inr (.inr ⟨f, hq⟩))
    have hcirc : s.rq.circ.nrRunning = 0 := by
      rw [h.circ.nr, Finset.card_eq_zero, Finset.eq_empty_iff_forall_notMem]
      intro q hq
      exact hnone q (.inl ((h.circ.onRq q).mpr (mem_onClass.mp hq)))
    have hrt : s.rq.rt.added = 0 := by
      unfold RtRq.added
      split
      · rename_i hqueued
        -- a queued real-time class has a task in one of its queues
        have hpos := h.rt.queued hqueued
        rw [h.rt.nr] at hpos
        obtain ⟨q, hq⟩ := Finset.card_pos.mp hpos
        have hcls := mem_onClass.mp hq
        have hmem : q ∈ s.rq.rt.active.queue (T q).prio.toNat :=
          (h.rt.mem q _).mpr ⟨hcls, Int.toNat_of_nonneg (h.rt.prio q hcls).1⟩
        exact absurd (.inr (.inl ⟨hqueued, _, hmem⟩)) (hnone q)
      · rfl
    rw [h.nr, hcirc, hrt, hforeign, hforeign]

end

/-- **The shortcut is taken exactly when it is meant to be**, that is when the running task and all
the runnable ones are circular tasks, only in the states in which that is not so, and in those without
any runnable task. -/
theorem shortcut_exact_iff {m₀ m : Machine K} (hb : Boot m₀) (h : AtPick m₀ m) :
    (shortcutTaken m.task m.cpu.rq.curr m.cpu.rq ↔
      (m.task m.cpu.rq.curr).schedClass = .circular ∧
        ∀ q, Runnable m.cpu q → (m.task q).schedClass = .circular) ↔
    (m.task m.cpu.rq.curr).schedClass ≠ .circular ∨
      (∃ q, Runnable m.cpu q ∧ (m.task q).schedClass ≠ .circular) ∨ ∀ q, ¬ Runnable m.cpu q := by
  obtain ⟨xs, hm⟩ := h.settled hb
  have htaken : shortcutTaken m.task m.cpu.rq.curr m.cpu.rq ↔
      (m.task m.cpu.rq.curr).schedClass = .circular ∧ ∀ q, ¬ Runnable m.cpu q := by
    unfold shortcutTaken
    rw [hm.sane.cfs, hm.sane.nrRunning_eq_zero_iff]
  rw [htaken]
  constructor
  · intro hiff
    by_contra hno
    push Not at hno
    obtain ⟨hcurr, hall, q, hq⟩ := hno
    exact (hiff.mpr ⟨hcurr, hall⟩).2 q hq
  · rintro (hcurr | ⟨q, hq, hne⟩ | hnone)
    · exact ⟨fun e => absurd e.1 hcurr, fun e => absurd e.1 hcurr⟩
    · exact ⟨fun e => absurd hq (e.2 q), fun e => absurd (e.2 q hq) hne⟩
    · exact ⟨fun e => ⟨e.1, fun q hq => absurd hq (hnone q)⟩, fun e => ⟨e.1, hnone⟩⟩

/-- With nothing runnable left, the shortcut is taken as it is meant to be. -/
theorem shortcut_exact_small : ∃ m : Machine smallKernel, Boot smallBoot ∧ AtPick smallBoot m ∧
    shortcutTaken m.task m.cpu.rq.curr m.cpu.rq ∧
    (shortcutTaken m.task m.cpu.rq.curr m.cpu.rq ↔
      (m.task m.cpu.rq.curr).schedClass = .circular ∧
        ∀ q, Runnable m.cpu q → (m.task q).schedClass = .circular) := by
  obtain ⟨m, hpick, -, hnr, htaken⟩ := lastSleeps
  obtain ⟨xs, hm⟩ := hpick.settled smallBoot_boot
  have hnone := hm.sane.nrRunning_eq_zero_iff.mp hnr
  exact ⟨m, smallBoot_boot, hpick, htaken,
    (shortcut_exact_iff smallBoot_boot hpick).mpr (.inr (.inr hnone))⟩

/-- **All runnable tasks are circular tasks, and the shortcut is not taken**: two of them, one of
which is running. -/
theorem shortcut_missed : Boot smallBoot ∧ AtPick smallBoot smallRunning ∧
    (smallRunning.task smallRunning.cpu.rq.curr).schedClass = .circular ∧
    (∀ q, Runnable smallRunning.cpu q → (smallRunning.task q).schedClass = .circular) ∧
    ¬ shortcutTaken smallRunning.task smallRunning.cpu.rq.curr smallRunning.cpu.rq := by
  obtain ⟨t, hrun, -⟩ := smallRunning_run
  refine ⟨smallBoot_boot, .between hrun, by decide, ?_, by decide⟩
  intro q hq
  rcases hq with hon | ⟨hqueued, -⟩ | ⟨f, hf⟩
  · revert hon
    revert q
    decide
  · exact absurd hqueued (by decide)
  · exact absurd hf (Finset.notMem_empty q)

end KernelHacking.Sched
