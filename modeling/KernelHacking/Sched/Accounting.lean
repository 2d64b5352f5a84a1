import KernelHacking.Sched.TimeFrame

/-! # CPU time

The trace of a run shows who was running whenever `rq->clock_task` advanced, so the time a task has
been running is read off it (`Meter`).  A charge covers the time since the task's `exec_start`, and
the circular class does not set `exec_start` when it starts a task.  Where every charge of a task
covers only time during which it was running, the task is charged with no more than it ran
(`charged_at_most_ran`); a task that has slept or waited is charged with that time too
(`charged_for_waiting`). -/

namespace KernelHacking.Sched

open TraceProg PtrRing Word Prog

variable {α : Type} [DecidableEq α] [Fintype α] {K : Kernel α}

/-! ### The meter -/

/-- What a trace shows of time: `clock_task`; how long each task has been running since it was
forked; and when another task was last running, or the task was forked. -/
structure Meter (α : Type) where
  clock : ℕ
  ran : α → ℕ
  since : α → ℕ

/-- The meter as a run starts. -/
def Meter.start (m : Machine K) : Meter α :=
  ⟨m.cpu.rq.clockTask.toNat, fun _ => 0, fun _ => m.cpu.rq.clockTask.toNat⟩

/-- The time between two values of the clock goes to the running task. -/
def Meter.step (g : Meter α) : Event K → Meter α
  | .clock curr _ new =>
      { clock := new.toNat
        ran := Function.update g.ran curr (g.ran curr + (new.toNat - g.clock))
        since := fun p => if p = curr then g.since p else new.toNat }
  | .forked p =>
      { g with ran := Function.update g.ran p 0, since := Function.update g.since p g.clock }
  | _ => g

/-- The clock does not go back, and a task of `S` is charged only for time during which no other
task was running. -/
def Event.Timely (S : Finset α) (g : Meter α) : Event K → Prop
  | .clock _ old new => old ≤ new
  | .charge p execStart _ => p ∈ S → g.since p ≤ execStart.toNat
  | _ => True

instance (S : Finset α) (g : Meter α) : (e : Event K) → Decidable (e.Timely S g)
  | .clock _ old new => inferInstanceAs (Decidable (old ≤ new))
  | .charge p execStart _ => inferInstanceAs (Decidable (p ∈ S → g.since p ≤ execStart.toNat))
  | .insert .. | .remove .. | .traverse .. | .dequeued .. | .sub .. | .forked .. | .pick .. | .fallback =>
      inferInstanceAs (Decidable True)

/-- The meter as a monitor. -/
def meter (S : Finset α) : Monitor (Event K) (Meter α) := ⟨Meter.step, fun g e => e.Timely S g⟩

instance decidableAccepts (S : Finset α) : (g : Meter α) → (t : List (Event K)) →
    Decidable ((meter S).Accepts g t)
  | _, [] => inferInstanceAs (Decidable True)
  | g, e :: t =>
      have := decidableAccepts S (g.step e) t
      inferInstanceAs (Decidable (e.Timely S g ∧ (meter S).Accepts (g.step e) t))

/-! ### What is charged -/

/-- No task of `S` is charged with more than it ran, also counting what the next charge would add;
the running times add up to no more than the elapsed time. -/
structure Metered (c₀ : ℕ) (S : Finset α) (s : Cpu K) (g : Meter α) : Prop where
  clock : g.clock = s.rq.clockTask.toNat
  total : c₀ + ∑ p, g.ran p ≤ g.clock
  started : ∀ p, (s.se p).execStart.toNat ≤ g.clock
  charged : ∀ p ∈ S, (s.se p).sumExecRuntime.toNat ≤ g.ran p
  pending : ∀ p ∈ S, g.since p ≤ (s.se p).execStart.toNat →
    (s.se p).sumExecRuntime.toNat + (g.clock - (s.se p).execStart.toNat) ≤ g.ran p

section
variable {c₀ : ℕ} {S : Finset α} {s s' : Cpu K} {g : Meter α} {p : α}

theorem Metered.ran_le (h : Metered c₀ S s g) (p : α) : g.ran p ≤ g.clock := by
  have hle : g.ran p ≤ ∑ q, g.ran q := Finset.single_le_sum (fun _ _ => Nat.zero_le _) (Finset.mem_univ p)
  have := h.total
  omega

theorem Metered.of_frame (h : Metered c₀ S s g) (hse : SameTimes s s')
    (hclock : s'.rq.clockTask = s.rq.clockTask) : Metered c₀ S s' g := by
  refine ⟨by rw [hclock]; exact h.clock, h.total, ?_, ?_, ?_⟩
  · intro p; rw [(hse p).1]; exact h.started p
  · intro p hp; rw [(hse p).2]; exact h.charged p hp
  · intro p hp; rw [(hse p).1, (hse p).2]; exact h.pending p hp

theorem Metered.tick (h : Metered c₀ S s g) {curr : α} {new : U64} (hle : s.rq.clockTask ≤ new)
    (hse : SameTimes s s') (hclock : s'.rq.clockTask = new) :
    Metered c₀ S s' (g.step (.clock curr s.rq.clockTask new : Event K)) := by
  have hnew : g.clock ≤ new.toNat := by rw [h.clock]; exact hle
  have hran : ∀ p, (g.step (.clock curr s.rq.clockTask new : Event K)).ran p =
      g.ran p + if p = curr then new.toNat - g.clock else 0 := by
    intro p
    show Function.update g.ran curr _ p = _
    by_cases e : p = curr
    · subst e; rw [Function.update_self, if_pos rfl]
    · rw [Function.update_of_ne e, if_neg e, Nat.add_zero]
  refine ⟨by rw [hclock]; rfl, ?_, ?_, ?_, ?_⟩
  · simp only [hran, Finset.sum_add_distrib, Finset.sum_ite_eq', Finset.mem_univ, if_true]
    have := h.total
    show c₀ + (∑ p, g.ran p + (new.toNat - g.clock)) ≤ new.toNat
    omega
  · intro p
    rw [(hse p).1]
    exact (h.started p).trans hnew
  · intro p hp
    rw [(hse p).2, hran]
    exact (h.charged p hp).trans (Nat.le_add_right _ _)
  · intro p hp
    rw [(hse p).1, (hse p).2, hran]
    have hstarted := h.started p
    have hcharged := h.charged p hp
    have hpending := h.pending p hp
    show (if p = curr then g.since p else new.toNat) ≤ _ → _ + (new.toNat - _) ≤ _
    by_cases e : p = curr
    · rw [if_pos e, if_pos e]
      intro hsince
      have := hpending hsince
      omega
    · rw [if_neg e, if_neg e]
      intro hsince
      omega

/-- Starting the account of a task anew at the clock, with no more on it than the task has run. -/
theorem Metered.restart (h : Metered c₀ S s g) (hother : ∀ q, q ≠ p → s'.se q = s.se q)
    (hstart : (s'.se p).execStart = s.rq.clockTask)
    (hsum : p ∈ S → (s'.se p).sumExecRuntime.toNat ≤ g.ran p)
    (hclock : s'.rq.clockTask = s.rq.clockTask) : Metered c₀ S s' g := by
  refine ⟨by rw [hclock]; exact h.clock, h.total, ?_, ?_, ?_⟩
  · intro q
    by_cases e : q = p
    · subst e; rw [hstart]; exact h.clock.ge
    · rw [hother q e]; exact h.started q
  · intro q hq
    by_cases e : q = p
    · subst e; exact hsum hq
    · rw [hother q e]; exact h.charged q hq
  · intro q hq
    by_cases e : q = p
    · subst e
      intro _
      rw [hstart, h.clock, Nat.sub_self, Nat.add_zero]
      exact hsum hq
    · rw [hother q e]; exact h.pending q hq

/-- A charge that covers only running time. -/
theorem Metered.charge (h : Metered c₀ S s g) (hok : p ∈ S → g.since p ≤ (s.se p).execStart.toNat)
    (hse : s'.se = Function.update s.se p ((s.se p).charge s.rq.clockTask))
    (hclock : s'.rq.clockTask = s.rq.clockTask) : Metered c₀ S s' g := by
  have hself : s'.se p = (s.se p).charge s.rq.clockTask := by rw [hse, Function.update_self]
  have hdelta : (s.rq.clockTask - (s.se p).execStart).toNat =
      g.clock - (s.se p).execStart.toNat := by
    rw [h.clock]
    exact BitVec.toNat_sub_of_le (by rw [BitVec.le_def, ← h.clock]; exact h.started p)
  refine h.restart ?_ (by rw [hself]; rfl) ?_ hclock
  · intro q hq
    rw [hse, Function.update_of_ne hq]
  · intro hp
    have hpending := h.pending p hp (hok hp)
    have hran := h.ran_le p
    have hlt : g.clock < 2 ^ 64 := by rw [h.clock]; exact s.rq.clockTask.isLt
    rw [hself]
    show ((s.se p).sumExecRuntime + (s.rq.clockTask - (s.se p).execStart)).toNat ≤ _
    rw [BitVec.toNat_add, hdelta, Nat.mod_eq_of_lt (by omega)]
    exact hpending

/-- Setting `exec_start` to the clock, as the real-time class does. -/
theorem Metered.starts (h : Metered c₀ S s g)
    (hse : s'.se = Function.update s.se p { s.se p with execStart := s.rq.clockTask })
    (hclock : s'.rq.clockTask = s.rq.clockTask) : Metered c₀ S s' g := by
  have hself : s'.se p = { s.se p with execStart := s.rq.clockTask } := by
    rw [hse, Function.update_self]
  refine h.restart ?_ (by rw [hself]) ?_ hclock
  · intro q hq
    rw [hse, Function.update_of_ne hq]
  · intro hp
    rw [hself]
    exact h.charged p hp

theorem Metered.forked (h : Metered c₀ S s g) (hother : ∀ q, q ≠ p → s'.se q = s.se q)
    (hself : s'.se p = ⟨false, 0, 0, 0, 0⟩) (hclock : s'.rq.clockTask = s.rq.clockTask) :
    Metered c₀ S s' (g.step (.forked p : Event K)) := by
  have hran : ∀ q, q ≠ p → (g.step (.forked p : Event K)).ran q = g.ran q :=
    fun q hq => Function.update_of_ne hq _ _
  refine ⟨by rw [hclock]; exact h.clock, ?_, ?_, ?_, ?_⟩
  · have hle : ∑ q, (g.step (.forked p : Event K)).ran q ≤ ∑ q, g.ran q := by
      apply Finset.sum_le_sum
      intro q _
      by_cases e : q = p
      · subst e
        show Function.update g.ran q 0 q ≤ _
        rw [Function.update_self]
        exact Nat.zero_le _
      · rw [hran q e]
    have := h.total
    show c₀ + _ ≤ g.clock
    omega
  · intro q
    by_cases e : q = p
    · subst e; rw [hself]; exact Nat.zero_le _
    · rw [hother q e]; exact h.started q
  · intro q hq
    by_cases e : q = p
    · subst e; rw [hself]; exact Nat.zero_le _
    · rw [hother q e, hran q e]; exact h.charged q hq
  · intro q hq
    by_cases e : q = p
    · subst e
      rw [hself]
      show Function.update g.since q g.clock q ≤ 0 → 0 + (g.clock - 0) ≤ _
      rw [Function.update_self]
      omega
    · rw [hother q e, hran q e]
      show Function.update g.since p g.clock q ≤ _ → _
      rw [Function.update_of_ne e]
      exact h.pending q hq

end

theorem metered_meters (c₀ : ℕ) (S : Finset α) :
    Meters (meter S : Monitor (Event K) (Meter α)) (Metered c₀ S) where
  frame h hse hclock := h.of_frame hse hclock
  silent := by
    intro e g he
    cases e <;> first | rfl | cases he
  tick h hok hse hclock := h.tick hok hse hclock
  charge h _ hok hse hclock := h.charge hok hse hclock
  start h hse hclock := h.starts hse hclock
  forked h hother hself hclock := h.forked hother hself hclock

/-! ### Runs -/

section
variable {m₀ m : Machine K} {t : List (Event K)}

/-- **CPU time is charged only for time spent running**, in every run in which the clock does not go
back and the tasks of `S` are charged only for time during which no other task was running: each of
them is charged with at most the time it ran, and together with at most the elapsed time. -/
theorem charged_at_most_ran (S : Finset α)
    (hzero : ∀ p, (m₀.cpu.se p).execStart = 0 ∧ (m₀.cpu.se p).sumExecRuntime = 0)
    (h : Run m₀ t m) (hok : (meter S).Accepts (.start m₀) t) :
    (∀ p ∈ S, (m.cpu.se p).sumExecRuntime.toNat ≤ ((meter S).after (.start m₀) t).ran p) ∧
      ∑ p ∈ S, (m.cpu.se p).sumExecRuntime.toNat ≤
        m.cpu.rq.clockTask.toNat - m₀.cpu.rq.clockTask.toNat := by
  have hstart : Metered m₀.cpu.rq.clockTask.toNat S m₀.cpu (.start m₀) := by
    refine ⟨rfl, ?_, ?_, ?_, ?_⟩
    · show m₀.cpu.rq.clockTask.toNat + ∑ p : α, 0 ≤ _
      rw [Finset.sum_const_zero]
      rfl
    · intro p; rw [(hzero p).1]; exact Nat.zero_le _
    · intro p _; rw [(hzero p).2]; exact Nat.zero_le _
    · intro p _
      rw [(hzero p).1, (hzero p).2]
      show m₀.cpu.rq.clockTask.toNat ≤ 0 → 0 + (m₀.cpu.rq.clockTask.toNat - 0) ≤ 0
      omega
  have hend := h.keeps (metered_meters _ S) hstart hok
  refine ⟨hend.charged, ?_⟩
  have hsum : ∑ p ∈ S, (m.cpu.se p).sumExecRuntime.toNat ≤
      ∑ p, ((meter S).after (.start m₀) t).ran p :=
    (Finset.sum_le_sum hend.charged).trans
      (Finset.sum_le_sum_of_subset (Finset.subset_univ S))
  have := hend.total
  have := hend.clock
  omega

end

/-- The answers a caller inside the kernel gets. -/
def kernelCaller : SetschedEnv :=
  { user := false, capable := true, canNice := fun _ => true, rlimRtprio := 0, sameOwner := true,
    security := 0, rtMutexCheckPrio := false }

/-- The small machine with a clock that starts at zero. -/
def zeroKernel : Kernel (Fin 4) :=
  { smallKernel with schedClockCpu := fun n => BitVec.ofNat 64 (10 * n), card_lt := card_fin_four }

def zeroBoot : Machine zeroKernel := ⟨smallTasks, bootCpu zeroKernel fun _ => ()⟩

/-- Two tasks: one was never a real-time task and is picked before the clock has advanced; the other was
started by the real-time class and goes on as a circular one. -/
theorem charged_at_most_ran_small : ∃ (t : List (Event zeroKernel)) (m : Machine zeroKernel),
    Run zeroBoot t m ∧ (meter {1, 3}).Accepts (.start zeroBoot) t ∧
      (m.task 1).schedClass = .circular ∧ (m.task 3).schedClass = .circular ∧
      (m.cpu.se 1).sumExecRuntime.toNat = 10 ∧ (m.cpu.se 3).sumExecRuntime.toNat = 30 ∧
      10 ≤ ((meter {1, 3}).after (.start zeroBoot) t).ran 1 ∧
      30 ≤ ((meter {1, 3}).after (.start zeroBoot) t).ran 3 ∧
      10 + 30 ≤ m.cpu.rq.clockTask.toNat - zeroBoot.cpu.rq.clockTask.toNat := by
  have h₀ : Run zeroBoot [] zeroBoot := .refl
  have h₁ := Run.step (.tryToWakeUp 1 TASK_NORMAL 0) h₀ trivial ⟨3, rfl⟩
  have h₂ := Run.step (.schedule false false none) h₁ trivial ⟨3, rfl⟩
  have h₃ := Run.step (.taskSchedRuntime 1) h₂ trivial ⟨3, rfl⟩
  have h₄ := Run.step (.tryToWakeUp 3 TASK_NORMAL 0) h₃ trivial ⟨3, rfl⟩
  have h₅ := Run.step (.schedule false false none) h₄ trivial ⟨3, rfl⟩
  have h₆ := Run.step (.schedSetscheduler 3 normalAttr kernelCaller) h₅
    ⟨by decide, by decide, by decide⟩ ⟨3, rfl⟩
  have h₇ := Run.step (.taskSchedRuntime 3) h₆ trivial ⟨3, rfl⟩
  obtain ⟨hran, hsum⟩ := charged_at_most_ran {1, 3} (fun _ => ⟨rfl, rfl⟩) h₇ (by decide)
  exact ⟨_, _, h₇, by decide, rfl, rfl, rfl, rfl, hran 1 (by decide), hran 3 (by decide), hsum⟩

/-- **A circular task is charged for the time it slept.**  Two tasks are woken up and run one after
the other; each of them is charged with more than it ran, and both together with more than the
elapsed time. -/
theorem charged_for_waiting : ∃ (t : List (Event smallKernel)) (m : Machine smallKernel),
    Boot smallBoot ∧ Run smallBoot t m ∧ (meter ∅).Accepts (.start smallBoot) t ∧
      (∀ p, (smallBoot.cpu.se p).execStart = 0 ∧ (smallBoot.cpu.se p).sumExecRuntime = 0) ∧
      (m.task 1).schedClass = .circular ∧ (m.task 2).schedClass = .circular ∧
      ((meter ∅).after (.start smallBoot) t).ran 1 < (m.cpu.se 1).sumExecRuntime.toNat ∧
      ((meter ∅).after (.start smallBoot) t).ran 2 < (m.cpu.se 2).sumExecRuntime.toNat ∧
      m.cpu.rq.clockTask.toNat - smallBoot.cpu.rq.clockTask.toNat <
        (m.cpu.se 1).sumExecRuntime.toNat + (m.cpu.se 2).sumExecRuntime.toNat := by
  have h₀ : Run smallBoot [] smallBoot := .refl
  have h₁ := Run.step (.tryToWakeUp 1 TASK_NORMAL 0) h₀ trivial ⟨3, rfl⟩
  have h₂ := Run.step (.schedule false false none) h₁ trivial ⟨3, rfl⟩
  have h₃ := Run.step (.taskSchedRuntime 1) h₂ trivial ⟨3, rfl⟩
  have h₄ := Run.step (.tryToWakeUp 2 TASK_NORMAL 0) h₃ trivial ⟨3, rfl⟩
  have h₅ := Run.step (.schedule false false none) h₄ trivial ⟨3, rfl⟩
  have h₆ := Run.step (.taskSchedRuntime 2) h₅ trivial ⟨3, rfl⟩
  exact ⟨_, _, smallBoot_boot, h₆, by decide, fun _ => ⟨rfl, rfl⟩, rfl, rfl, by decide, by decide,
    by decide⟩

end KernelHacking.Sched
