import KernelHacking.Sched.Rotation

/-! # Yielding to a task

`yield_to` says with a positive result that it has boosted the target.  The callback of the circular
class returns true for every runnable target, but only does what `sched_yield` does: the ring is as
it was, so the next pick takes its head.  `yieldTo_picks_iff` says that the target is picked only if
it is the head already. -/

namespace KernelHacking.Sched

open TraceProg PtrRing Word Prog

variable {α : Type} [DecidableEq α] [Fintype α] {K : Kernel α}

/-! ### What yielding leaves alone -/

/-- The queues of all classes are the same, and so is the running task. -/
structure SameQueues (s s' : Cpu K) : Prop where
  node : s'.node = s.node
  circ : s'.rq.circ = s.rq.circ
  onRq : ∀ q, (s'.se q).onRq = (s.se q).onRq
  nr : s'.rq.nrRunning = s.rq.nrRunning
  curr : s'.rq.curr = s.rq.curr
  rt : s'.rq.rt = s.rq.rt
  foreign : s'.rq.foreign = s.rq.foreign

section
variable {s : Cpu K} {T : α → TaskStruct} {m : Machine K} {p c a : α} {as ys : List α}
  {preempt : Bool}

theorem updateCurrCircular_same : updateCurrCircular.wp s fun _ s' _ => SameQueues s s' := by
  unfold updateCurrCircular
  rw [wp_bind, wp_get]
  by_cases hpos : s64NonPos (s.rq.clockTask - (s.se s.rq.curr).execStart) = false
  · rw [when_pos hpos, wp_bind, wp_emit]
    unfold modifySe
    rw [wp_modify]
    refine ⟨rfl, rfl, ?_, rfl, rfl, rfl, rfl⟩
    intro q
    dsimp only
    by_cases e : q = s.rq.curr
    · rw [e, Function.update_self]
      rfl
    · rw [Function.update_of_ne e]
  · rw [when_neg hpos, wp_ret]
    exact ⟨rfl, rfl, fun _ => rfl, rfl, rfl, rfl, rfl⟩

theorem yieldTaskCircular_same : (yieldTaskCircular T).wp s fun _ s' _ => SameQueues s s' := by
  unfold yieldTaskCircular
  rw [wp_bind, wp_get]
  by_cases hc : s.rq.nrRunning ≠ 1 ∧ (T s.rq.curr).policy ≠ SCHED_BATCH
  · rw [when_pos hc, wp_bind]
    refine updateRqClock_wp.mono ?_
    rintro _ s₁ _ ⟨reads, clock, clockTask, rfl⟩
    rw [wp_bind]
    refine updateCurrCircular_same.mono ?_
    intro _ s₂ _ h₂
    unfold modifyRq
    rw [wp_modify]
    exact ⟨h₂.node, h₂.circ, h₂.onRq, h₂.nr, h₂.curr, h₂.rt, h₂.foreign⟩
  · rw [when_neg hc, wp_ret]
    exact ⟨rfl, rfl, fun _ => rfl, rfl, rfl, rfl, rfl⟩

/-- The callback returns true for a runnable task, and moves nobody. -/
theorem yieldToTaskCircular_same (hp : (s.se p).onRq = true) :
    (yieldToTaskCircular T p preempt).wp s fun b s' _ => b = true ∧ SameQueues s s' := by
  unfold yieldToTaskCircular
  rw [wp_bind, wp_get, if_neg (by simp [hp]), wp_bind]
  refine yieldTaskCircular_same.mono ?_
  intro _ s' _ h
  rw [wp_ret]
  exact ⟨rfl, h⟩

theorem Turn.of_same (h : Turn m c as) (hs : SameQueues m.cpu s) :
    Turn { m with cpu := s } c as := by
  refine ⟨⟨⟨?_, ?_, ?_, ?_, ?_⟩, ?_, ?_, ?_, ?_, ?_⟩, ⟨?_, ?_⟩, ?_, ?_, ?_⟩
  · rw [hs.node, hs.circ]; exact h.rep
  · intro q hq
    rw [hs.onRq] at hq
    rw [hs.circ]
    exact h.place q hq
  · intro q hq
    rw [hs.onRq]
    exact h.onRq q hq
  · rw [hs.circ, hs.curr]; exact h.curr
  · rw [hs.curr, hs.circ, hs.onRq]; exact h.running
  · intro q
    rw [hs.onRq]
    exact h.runnable q
  · simp only [hs.onRq, hs.circ]
    exact h.nr
  · rw [hs.circ]; exact h.hNr
  · rw [hs.circ, hs.nr]; exact h.total
  · rw [hs.nr]; exact h.word
  · intro f
    unfold Rq.queued
    rw [hs.foreign]
    exact h.foreign f
  · rw [hs.rt]; exact h.rt
  · rw [hs.curr]; exact h.isCurr
  · rw [hs.circ]; exact h.isCircCurr
  · rw [hs.onRq]; exact h.isOnRq

/-! ### The next pick -/

/-- After the callback, the pick of the circular class takes the head of the ring, and so does
`pick_next_task`. -/
theorem Turn.yields_to_head (h : Turn m c as) (hp : p ∈ as) (hxs : as ++ [c] = a :: ys) :
    (yieldToTaskCircular m.task p preempt).wp m.cpu fun b s _ => b = true ∧
      (pickNextTaskCircular m.task c).wp s (fun r _ _ => r = some a) ∧
      (pickNextTask m.task c).wp s fun q _ _ => q = a := by
  have hcls : (m.task c).schedClass = .circular := ((h.runnable c).mp h.isOnRq).2
  refine (yieldToTaskCircular_same (h.onRq p hp)).mono ?_
  rintro b s _ ⟨rfl, hs⟩
  have hturn := h.of_same hs
  have hnr : s.rq.circ.nrRunning ≠ 0 := by
    have hcount : s.rq.circ.nrRunning = as.length + 1 := hturn.nrRunning_eq
    omega
  have ha : (s.se a).onRq = true := by
    have hiff := hturn.onRq_iff a
    rw [hxs] at hiff
    exact hiff.mpr List.mem_cons_self
  refine ⟨rfl, ?_, ?_⟩
  · exact (pickNextTaskCircular_rotates hcls hturn.rep hturn.notMem hturn.isOnRq hnr hxs ha).mono
      fun _ _ _ hq => hq.1
  · exact (pickNextTask_rotates hcls hturn.foreign hturn.rt hturn.rep hturn.notMem hturn.isOnRq hnr
      hxs ha).mono fun _ _ _ hq => hq.1

/-- The whole of `yield_to`: it reports success for every runnable circular task that waits, and the
head of the ring runs. -/
theorem Turn.yieldTo_switches (h : Turn m c as) (hp : p ∈ as) (hstate : (m.task p).state = 0)
    {signalPending : Bool} (hawake : (m.task c).state = TASK_RUNNING ∨ signalPending = true) :
    (yieldTo p preempt signalPending).wp m fun v m' _ =>
      v = 1 ∧ as.head? = some m'.cpu.rq.curr := by
  obtain ⟨a, as, rfl⟩ := List.exists_cons_of_ne_nil (List.ne_nil_of_mem hp)
  have hcls : ∀ q, (m.cpu.se q).onRq = true → (m.task q).schedClass = .circular :=
    fun q hq => ((h.runnable q).mp hq).2
  have hcp : c ≠ p := fun e => h.notMem (e ▸ hp)
  have hnr : ¬ m.cpu.rq.nrRunning = 1 := by
    have hcount := h.nrRunning_eq
    have htotal := h.total
    rw [List.length_cons] at hcount
    omega
  unfold yieldTo
  rw [wp_bind, wp_get]
  dsimp only
  rw [h.isCurr, if_neg hnr, if_neg (by rw [hcls c h.isOnRq, hcls p (h.onRq p hp)]; simp),
    if_neg (by simp [hcp, hstate]), wp_bind, wp_onCpu]
  unfold yieldToTask
  rw [hcls c h.isOnRq]
  refine (yieldToTaskCircular_same (h.onRq p hp)).mono ?_
  rintro b s _ ⟨rfl, hs⟩
  have hturn := h.of_same hs
  rw [wp_bind, when_pos rfl]
  have hcall : (⟨signalPending, false, none⟩ : ScheduleCall α).Awake
      (({ m with cpu := s } : Machine K).task s.rq.curr) := by
    have hcurr : s.rq.curr = c := hturn.isCurr
    rw [hcurr]
    rcases hawake with e | e
    · exact .inl e
    · exact .inr (.inr e)
  refine (schedule_rotates hturn hcall rfl).mono ?_
  rintro _ m' _ ⟨hnext, -⟩
  rw [wp_ret]
  exact ⟨rfl, by rw [hnext.isCurr, List.head?_cons]⟩

end

/-! ### The promise -/

/-- If `yield_to_task_circular` returns true, then the pick of the circular class that follows
returns the target, and so does `pick_next_task`. -/
def YieldToPicks (m : Machine K) (p : α) (preempt : Bool) : Prop :=
  (yieldToTaskCircular m.task p preempt).wp m.cpu fun b s _ => b = true →
    (pickNextTaskCircular m.task m.cpu.rq.curr).wp s (fun r _ _ => r = some p) ∧
    (pickNextTask m.task m.cpu.rq.curr).wp s fun q _ _ => q = p

/-- In a run, a circular task that runs while no higher class has a task has its turn. -/
theorem Inv.turn {m : Machine K} {xs : List α} (h : Inv m xs) (honly : OnlyCircular m)
    (hcurr : (m.task m.cpu.rq.curr).schedClass = .circular) : Turn m m.cpu.rq.curr xs := by
  refine ⟨h.runqueueInv, honly, rfl, ?_, ?_⟩
  · rw [h.curr]
    exact if_pos hcurr
  · exact (h.runqueueInv.runnable _).mpr ⟨h.running, hcurr⟩

/-- It picks the head of the ring after it has yielded to another task. -/
theorem Inv.yields_to_head {m : Machine K} {xs : List α} {p : α} (h : Inv m xs)
    (honly : OnlyCircular m) (hcurr : (m.task m.cpu.rq.curr).schedClass = .circular)
    (hp : p ≠ m.cpu.rq.curr) (hqueued : taskOnRqQueued (m.task p) = true)
    (hcls : (m.task p).schedClass = .circular) (preempt : Bool) :
    ∃ a, m.cpu.rq.circ.circList.head = some a ∧
      (yieldToTaskCircular m.task p preempt).wp m.cpu fun b s _ => b = true ∧
        (pickNextTaskCircular m.task m.cpu.rq.curr).wp s (fun r _ _ => r = some a) ∧
        (pickNextTask m.task m.cpu.rq.curr).wp s fun q _ _ => q = a := by
  have hturn := h.turn honly hcurr
  have hmem : p ∈ xs := by
    rw [h.sane.circ.mem]
    refine ⟨home_eq_some.mpr ⟨hqueued, hcls⟩, ?_⟩
    rw [hturn.isCircCurr]
    intro e
    exact hp (Option.some.inj e).symm
  obtain ⟨a, as, rfl⟩ := List.exists_cons_of_ne_nil (List.ne_nil_of_mem hmem)
  exact ⟨a, hturn.rep.head, hturn.yields_to_head hmem List.cons_append⟩

theorem Inv.yieldToPicks_iff {m : Machine K} {xs : List α} {p : α} (h : Inv m xs)
    (honly : OnlyCircular m) (hcurr : (m.task m.cpu.rq.curr).schedClass = .circular)
    (hp : p ≠ m.cpu.rq.curr) (hqueued : taskOnRqQueued (m.task p) = true)
    (hcls : (m.task p).schedClass = .circular) (preempt : Bool) :
    YieldToPicks m p preempt ↔ m.cpu.rq.circ.circList.head = some p := by
  obtain ⟨a, hhead, hyield⟩ := h.yields_to_head honly hcurr hp hqueued hcls preempt
  rw [hhead, Option.some.injEq]
  unfold YieldToPicks
  constructor
  · intro hpicks
    obtain ⟨b, s, u, hends, rfl, ⟨r, s', u', hpick, rfl⟩, -⟩ := hyield
    have hres := (hpicks.of_ends hends rfl).1.of_ends hpick
    exact Option.some.inj hres
  · rintro rfl
    exact hyield.mono fun _ _ _ hb _ => hb.2

/-- **`yield_to` keeps its promise** in a run, for a circular task that runs with no runnable task of
a higher class and a circular task that waits, exactly if the latter is the head of the ring. -/
theorem yieldTo_picks_iff {m₀ m : Machine K} {t : List (Event K)} {p : α} (hb : Boot m₀)
    (hrun : Run m₀ t m) (hcurr : (m.task m.cpu.rq.curr).schedClass = .circular)
    (honly : OnlyCircular m) (hp : p ≠ m.cpu.rq.curr)
    (hqueued : taskOnRqQueued (m.task p) = true) (hcls : (m.task p).schedClass = .circular)
    (preempt : Bool) :
    YieldToPicks m p preempt ↔ m.cpu.rq.circ.circList.head = some p := by
  obtain ⟨hinv, -⟩ := hrun.inv hb.inv
  exact hinv.yieldToPicks_iff honly hcurr hp hqueued hcls preempt

/-- Task 1 runs, and task 2 is the only one that waits. -/
theorem yieldTo_picks_small : ∃ t : List (Event smallKernel), Boot smallBoot ∧
    Run smallBoot t smallRunning ∧ YieldToPicks smallRunning 2 false := by
  obtain ⟨t, hrun, -⟩ := smallRunning_run
  obtain ⟨hinv, -⟩ := hrun.inv smallBoot_boot.inv
  have honly := hinv.onlyCircular (by decide)
  exact ⟨t, smallBoot_boot, hrun, (yieldTo_picks_iff smallBoot_boot hrun (by decide) honly
    (by decide) (by decide) (by decide) false).mpr (by decide)⟩

/-- **The target is not picked.**  Task 1 yields to task 3, which waits behind task 2: the callback
returns true, and task 2 is picked. -/
theorem yieldTo_picks_other : ∃ t : List (Event smallKernel), Boot smallBoot ∧
    Run smallBoot t threeRunning ∧ threeRunning.cpu.rq.curr = 1 ∧
    (threeRunning.task 1).schedClass = .circular ∧ OnlyCircular threeRunning ∧
    taskOnRqQueued (threeRunning.task 3) = true ∧ (threeRunning.task 3).schedClass = .circular ∧
    ((yieldToTaskCircular threeRunning.task 3 false).wp threeRunning.cpu fun b s _ => b = true ∧
      (pickNextTaskCircular threeRunning.task 1).wp s fun r _ _ => r = some 2) ∧
    ¬ YieldToPicks threeRunning 3 false := by
  obtain ⟨t, hrun⟩ := threeRunning_run
  obtain ⟨hinv, -⟩ := hrun.inv smallBoot_boot.inv
  have honly := hinv.onlyCircular (by decide)
  obtain ⟨a, hhead, hyield⟩ := hinv.yields_to_head honly (by decide) (p := 3) (by decide)
    (by decide) (by decide) false
  obtain rfl : 2 = a := Option.some.inj hhead
  refine ⟨t, smallBoot_boot, hrun, by decide, by decide, honly, by decide, by decide,
    hyield.mono fun _ _ _ hb => ⟨hb.1, hb.2.1⟩, ?_⟩
  rw [hinv.yieldToPicks_iff honly (by decide) (by decide) (by decide) (by decide)]
  decide

end KernelHacking.Sched
