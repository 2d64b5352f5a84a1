import KernelHacking.Syscall.Run

/-! # What an unprivileged family can reach

A family of tasks without `CAP_SYS_NICE`, whatever it passes to the system calls and however often
it forks, stays within its resource limits: **`unprivileged_bounded`** bounds the policy, the
real-time priority, the nice level and the normal priority of all its tasks.  The bound on the nice
level has one exception built in: the child of a real-time task that is reset on fork starts with nice
level zero, even if its parent could not have gone back to it, and so may its descendants.
**`idle_for_good`** is the other side of
`SCHED_IDLE`: without `RLIMIT_NICE` there is no way out of it. -/

namespace KernelHacking.Syscall

open Uaccess Word Sched TraceProg Prog

variable {α : Type} [DecidableEq α] [Fintype α] {K : Kernel α}

/-! ### The permission checks -/

section
omit [DecidableEq α] [Fintype α]

/-- What the permission checks see to for a caller without `CAP_SYS_NICE`. -/
structure Permits (env : Env α) (p : α) (attr : SchedAttr) (t : TaskStruct) : Prop where
  nice : fairPolicy (attr.policyFor t) = true → attr.schedNice < taskNice t →
    canNice env p attr.schedNice = true
  rt : rtPolicy (attr.policyFor t) = true → t.rtPriority < attr.schedPriority →
    attr.schedPriority ≤ env.rlimitRtprio p
  dl : dlPolicy (attr.policyFor t) = false
  idle : t.policy = SCHED_IDLE → attr.policyFor t ≠ SCHED_IDLE → canNice env p (taskNice t) = true

theorem permits_of_permitted {env : Env α} {curr p : α} {attr : SchedAttr} {t : TaskStruct}
    (hcap : env.capable = false) (h : attr.permitted (env.setsched curr p) t = true) :
    Permits env p attr t := by
  unfold SchedAttr.permitted at h
  dsimp only at h
  rw [if_pos ⟨rfl, hcap⟩] at h
  split at h
  · cases h
  rename_i hnice
  split at h
  · cases h
  split at h
  · cases h
  rename_i hrt
  split at h
  · cases h
  rename_i hdl
  split at h
  · cases h
  rename_i hidle
  refine ⟨?_, ?_, by simpa using hdl, ?_⟩
  · intro hfair hlt
    by_contra hno
    exact hnice ⟨hfair, hlt, by rwa [Bool.not_eq_true] at hno⟩
  · intro hpol hlt
    by_contra hno
    exact hrt ⟨hpol, hlt, not_le.mp hno⟩
  · intro hpol hne
    by_contra hno
    exact hidle ⟨hpol, hne, by rwa [Bool.not_eq_true] at hno⟩

/-- Without the capability only the limit allows a nice level. -/
theorem le_of_canNice {env : Env α} {p : α} {nice : ℤ} (hcap : env.capable = false)
    (h : canNice env p nice = true) : 20 - (env.rlimitNice p : ℤ) ≤ nice := by
  unfold canNice at h
  rw [hcap, Bool.or_false, decide_eq_true_eq] at h
  simp only [niceToRlimit, MAX_NICE] at h
  omega

end

/-! ### Bounds -/

/-- The highest real-time priority of a family that starts with at most `r`. -/
def Limits.rtCap (L : Limits) (r : ℕ) : ℕ := max r L.rtprio

/-- The lowest nice level of a family that starts with at least `n`: what the limit allows, and zero
for a child that was reset on fork. -/
def Limits.niceFloor (L : Limits) (reset : Bool) (n : ℤ) : ℤ :=
  if reset then min (min n (20 - L.nice)) 0 else min n (20 - L.nice)

/-- The parameters are within bounds. -/
structure Bounded (r : ℕ) (n : ℤ) (a : Params) : Prop where
  dl : dlPolicy a.policy = false
  rt : a.rtPriority ≤ r
  nice : n ≤ a.nice

theorem Limits.niceFloor_le (L : Limits) (reset : Bool) (n : ℤ) :
    L.niceFloor reset n ≤ n ∧ L.niceFloor reset n ≤ 20 - (L.nice : ℤ) := by
  unfold Limits.niceFloor
  split
  · exact ⟨le_trans (min_le_left _ _) (min_le_left _ _), le_trans (min_le_left _ _) (min_le_right _ _)⟩
  · exact ⟨min_le_left _ _, min_le_right _ _⟩

theorem Limits.niceFloor_reset (L : Limits) (reset reset' : Bool) (n : ℤ) :
    L.niceFloor (reset || reset') n ≤ L.niceFloor reset n ∧
      (reset' = true → L.niceFloor (reset || reset') n ≤ 0) := by
  unfold Limits.niceFloor
  cases reset <;> cases reset' <;> simp

@[simp] theorem nice_niceToPrio (nice : ℤ) : prioToNice (niceToPrio nice) = nice := by
  unfold prioToNice niceToPrio
  omega

@[simp] theorem Params.nice_reniced (a : Params) (nice : ℤ) : (a.reniced nice).nice = nice := by
  unfold Params.reniced Params.nice
  split <;> exact nice_niceToPrio nice

@[simp] theorem Params.policy_reniced (a : Params) (nice : ℤ) :
    (a.reniced nice).policy = a.policy := by
  unfold Params.reniced
  split <;> rfl

@[simp] theorem Params.rtPriority_reniced (a : Params) (nice : ℤ) :
    (a.reniced nice).rtPriority = a.rtPriority := by
  unfold Params.reniced
  split <;> rfl

theorem Bounded.reniced {r : ℕ} {n : ℤ} {a : Params} (h : Bounded r n a) {nice : ℤ} (hn : n ≤ nice) :
    Bounded r n (a.reniced nice) := by
  refine ⟨?_, ?_, ?_⟩
  · rw [Params.policy_reniced]; exact h.dl
  · rw [Params.rtPriority_reniced]; exact h.rt
  · rw [Params.nice_reniced]; exact hn

theorem Bounded.mono {r : ℕ} {n n' : ℤ} {a : Params} (h : Bounded r n a) (hn : n' ≤ n) :
    Bounded r n' a := ⟨h.dl, h.rt, le_trans hn h.nice⟩

/-- Only a real-time task is reset. -/
theorem Bounded.pos_of_resetsChild {r : ℕ} {n : ℤ} {a : Params} (h : Bounded r n a) (hok : ParamsOk a)
    (hreset : resetsChild a = true) : r ≠ 0 := by
  unfold resetsChild at hreset
  rw [h.dl, Bool.false_or, Bool.and_eq_true] at hreset
  have hrt := hok.rt
  rw [hreset.2] at hrt
  have hpos : a.rtPriority ≠ 0 := of_decide_eq_true hrt.symm
  exact fun e => hpos (Nat.le_zero.mp (e ▸ h.rt))

/-- A child is within the bounds of its parent, unless a real-time parent is reset: then its nice
level is zero. -/
theorem Bounded.child {r : ℕ} {n : ℤ} {a : Params} (h : Bounded r n a)
    (h0 : resetsChild a = true → n ≤ 0) : Bounded r n a.child := by
  unfold resetsChild at h0
  unfold Params.child
  split
  swap
  · exact h
  rename_i hfork
  by_cases hrt : rtPolicy a.policy = true
  · simp only [h.dl, hrt, Bool.false_or, true_or, if_true]
    refine ⟨rfl, Nat.zero_le _, ?_⟩
    show n ≤ prioToNice (niceToPrio 0)
    rw [nice_niceToPrio]
    exact h0 (by rw [hfork, hrt, Bool.or_true, Bool.and_true])
  · rw [Bool.not_eq_true] at hrt
    simp only [h.dl, hrt, Bool.false_or, Bool.false_eq_true, false_or, if_false]
    refine ⟨h.dl, h.rt, ?_⟩
    have hn := h.nice
    unfold Params.nice at hn ⊢
    dsimp only
    split
    · rename_i hneg
      rw [nice_niceToPrio]
      omega
    · exact hn

omit [DecidableEq α] [Fintype α] in
/-- A call of `__sched_setscheduler` that is permitted. -/
theorem Bounded.result {r : ℕ} {n : ℤ} {env : Env α} {p : α} {t : TaskStruct} {attr : SchedAttr}
    (h : Bounded r n t.params) (hpol : SETPARAM_POLICY ≤ attr.schedPolicy)
    (hvalid : attr.valid t = true) (hp : Permits env p attr t) (hcap : env.capable = false)
    (hrt : env.rlimitRtprio p ≤ r) (hn : n ≤ 20 - (env.rlimitNice p : ℤ)) :
    Bounded r n (attr.result t) := by
  unfold SchedAttr.result
  split
  · exact ⟨h.dl, h.rt, h.nice⟩
  rw [storedPolicy_eq hpol]
  obtain ⟨-, -, hprio⟩ := valid_spec hvalid
  refine ⟨hp.dl, ?_, ?_⟩
  · show attr.schedPriority ≤ r
    by_cases hpolicy : rtPolicy (attr.policyFor t) = true
    · by_cases hlt : t.rtPriority < attr.schedPriority
      · exact le_trans (hp.rt hpolicy hlt) hrt
      · exact le_trans (not_lt.mp hlt) h.rt
    · rw [Bool.not_eq_true] at hpolicy
      rw [hpolicy] at hprio
      have hzero : attr.schedPriority = 0 := not_not.mp (of_decide_eq_false hprio.symm)
      rw [hzero]
      exact Nat.zero_le r
  · unfold Params.assigned Params.nice
    dsimp only
    split
    · rename_i hfair
      rw [nice_niceToPrio]
      by_cases hlt : attr.schedNice < taskNice t
      · exact le_trans hn (le_of_canNice hcap (hp.nice hfair.2 hlt))
      · exact le_trans h.nice (not_lt.mp hlt)
    · exact h.nice

/-! ### What one step does to a family -/

/-- A property of the parameters that children inherit, that the family's calls keep, and that
therefore holds of the family for good.  It may depend on whether the task is a child that was
reset. -/
structure FamilyRule (L : Limits) (P : Bool → Params → Prop) : Prop where
  child : ∀ {reset : Bool} {a : Params}, ParamsOk a → P reset a → P (reset || resetsChild a) a.child
  nice : ∀ {reset : Bool} {a : Params} {nice : ℤ}, ParamsOk a → P reset a →
    (nice < a.nice → 20 - (L.nice : ℤ) ≤ nice) → P reset (a.reniced nice)
  attr : ∀ {reset : Bool} {α : Type} {env : Env α} {p : α} {t : TaskStruct} {attr : SchedAttr},
    ParamsOk t.params → P reset t.params →
    env.capable = false → env.rlimitRtprio p ≤ L.rtprio → env.rlimitNice p ≤ L.nice →
    SETPARAM_POLICY ≤ attr.schedPolicy → attr.valid t = true → Permits env p attr t →
    P reset (attr.result t)

omit [Fintype α] in
/-- A change of one task, for the tasks of the family. -/
theorem family_update {P : Bool → Params → Prop} {F : Family α} {a : α → Params} {p : α} {b : Params}
    (h : ∀ q, F q → P (F.reset q) (a q)) (hb : F p → P (F.reset p) b) :
    ∀ q, F q → P (F.reset q) (Function.update a p b q) := by
  intro q hq
  by_cases e : q = p
  · subst e; rw [Function.update_self]; exact hb hq
  · rw [Function.update_of_ne e]; exact h q hq

variable {L : Limits} {m₀ m : Machine K} {F₀ F : Family α} {P : Bool → Params → Prop}

/-- A step of the kernel. -/
theorem FamilyRule.kernel (hP : FamilyRule L P) {m' : Machine K} {e : Step α}
    (hok : ∀ p, ParamsOk (m.task p).params) (h : ∀ p, F p → P (F.reset p) (m.task p).params)
    (hs : Spares F e) (hsets : e.Sets m (paramsOf m'.task)) :
    ∀ p, familyAfter m F e p → P ((familyAfter m F e).reset p) (paramsOf m'.task p) := by
  rcases hsets.cases with ⟨hset, hfork⟩ | ⟨p, nice, rfl, -, hset⟩ | ⟨p, attr, env, rfl, -, hset⟩ |
    ⟨p, mm, kthread, rfl, hset⟩
  · have hfam : familyAfter m F e = F := by
      cases e with
      | fork p mm kthread => exact absurd rfl (hfork p mm kthread)
      | _ => rfl
    rw [hset, hfam]
    exact h
  · rw [hset]; exact family_update h fun hp => absurd hp hs
  · rw [hset]; exact family_update h fun hp => absurd hp hs
  · rw [hset]
    -- the child belongs to the family exactly if the parent does
    intro q hq
    change Function.update F.mem p (F m.cpu.rq.curr) q at hq
    show P (Function.update F.reset p (F.reset m.cpu.rq.curr || resetsChild (m.task m.cpu.rq.curr).params)
      q) _
    by_cases e : q = p
    · subst e
      rw [Function.update_self] at hq ⊢
      rw [Function.update_self]
      exact hP.child (hok _) (h _ hq)
    · rw [Function.update_of_ne e] at hq ⊢
      rw [Function.update_of_ne e]
      exact h q hq

/-- A system call. -/
theorem FamilyRule.call (hP : FamilyRule L P) {m' : Machine K} {c : Call} {env : Env α}
    (hok : ∀ p, ParamsOk (m.task p).params) (h : ∀ p, F p → P (F.reset p) (m.task p).params)
    (hown : F m.cpu.rq.curr → Confined L F env)
    (hother : ¬ F m.cpu.rq.curr → ∀ p, c.target env m.cpu.rq.curr = some p → ¬ F p)
    (hsets : c.Sets env m (paramsOf m'.task)) : ∀ p, F p → P (F.reset p) (paramsOf m'.task p) := by
  cases hsets with
  | none hset => rw [hset]; exact h
  | nice nice ht hmin hmax hcan hset =>
      rw [hset]
      refine family_update h fun hp => hP.nice (hok _) (h _ hp) fun hlt => ?_
      have hconf := hown hp
      have hle := le_of_canNice hconf.capable (hcan hlt)
      have := hconf.nice _ hp
      omega
  | attr p attr ht hpol _ hvalid hperm hset =>
      rw [hset]
      refine family_update h fun hp => ?_
      have hcurr : F m.cpu.rq.curr := by
        by_contra hno
        exact hother hno p ht hp
      have hconf := hown hcurr
      exact hP.attr (hok p) (h p hp) hconf.capable (hconf.rtprio p hp) (hconf.nice p hp) hpol hvalid
        (permits_of_permitted hconf.capable hperm)

/-- **The run rule**: such a property holds of the family in every state of every run. -/
theorem SysRun.family (hP : FamilyRule L P) (h₀ : ∀ p, ParamsOk (m₀.task p).params)
    (hF : ∀ p, F₀ p → P (F₀.reset p) (m₀.task p).params) (hr : SysRun L m₀ F₀ m F) :
    ∀ p, F p → P (F.reset p) (m.task p).params := by
  induction hr with
  | refl => exact hF
  | kernel e hr _ hs hends ih =>
      exact hP.kernel (hr.paramsOk h₀) ih hs (Step.prog_params e _ _ _ hends rfl)
  | tick counts slice ts _ hends ih => rw [schedulerTick_task hends]; exact ih
  | timer overrun _ hends ih => rw [doSchedRtPeriodTimer_task hends]; exact ih
  | call c env u hr hown hother hends ih =>
      have hok := hr.paramsOk h₀
      exact hP.call hok ih hown hother (Call.prog_sets (fun p => (hok p).static) c _ _ _ hends)

/-! ### The bounds of a family -/

theorem bounded_rule (L : Limits) (r : ℕ) (n : ℤ) : FamilyRule L fun reset a =>
    Bounded (L.rtCap r) (L.niceFloor reset n) a ∧ (reset = true → L.rtCap r ≠ 0) where
  child {reset a} hok h := by
    obtain ⟨hle, hzero⟩ := L.niceFloor_reset reset (resetsChild a) n
    refine ⟨(h.1.mono hle).child hzero, ?_⟩
    intro hreset
    rcases (Bool.or_eq_true _ _).mp hreset with hr | hr
    · exact h.2 hr
    · exact h.1.pos_of_resetsChild hok hr
  nice hok h hcan := by
    rename_i reset a nice
    refine ⟨h.1.reniced ?_, h.2⟩
    by_cases hlt : nice < a.nice
    · exact le_trans (L.niceFloor_le reset n).2 (hcan hlt)
    · exact le_trans h.1.nice (not_lt.mp hlt)
  attr {reset} _ _ _ _ _ hok h hcap hrt hnice hpol hvalid hp := by
    have hfloor := (L.niceFloor_le reset n).2
    exact ⟨h.1.result hpol hvalid hp hcap (le_trans hrt (le_max_right _ _)) (by omega), h.2⟩

/-- The normal priority of parameters within bounds. -/
theorem Bounded.le_normal {r : ℕ} {n : ℤ} {a : Params} (h : Bounded r n a) (hok : ParamsOk a) :
    (if r = 0 then niceToPrio n else MAX_RT_PRIO - 1 - r) ≤ a.normalPrio := by
  rw [hok.normal]
  have hs := hok.static.1
  have hrt := h.rt
  have hn := h.nice
  unfold Params.normal
  rw [h.dl]
  unfold Params.nice at hn
  simp only [Bool.false_eq_true, if_false, niceToPrio, prioToNice, MAX_RT_PRIO, DEFAULT_PRIO] at *
  by_cases hpol : rtPolicy a.policy = true
  · have hpos : a.rtPriority ≠ 0 := by
      have := hok.rt
      rw [hpol] at this
      exact of_decide_eq_true this.symm
    rw [if_pos hpol, if_neg (by omega)]
    omega
  · rw [if_neg hpol]
    split
    · omega
    · omega

/-- **An unprivileged family stays within its limits**: in every state of every run none of its
tasks is a deadline task, and the real-time priority, the nice level and the normal priority of each
are bounded by the limits and by what the family started with.  Only where a real-time priority is within
reach are there children that were reset. -/
theorem unprivileged_bounded {F₀ : α → Prop} (h₀ : ∀ p, ParamsOk (m₀.task p).params) {r : ℕ} {n : ℤ}
    (hF : ∀ p, F₀ p → (m₀.task p).policy ≠ SCHED_DEADLINE ∧ (m₀.task p).rtPriority ≤ r ∧
      n ≤ taskNice (m₀.task p)) (hr : SysRun L m₀ (.of F₀) m F) (p : α) (hp : F p) :
    (m.task p).policy ≠ SCHED_DEADLINE ∧ (m.task p).rtPriority ≤ L.rtCap r ∧
      L.niceFloor (F.reset p) n ≤ taskNice (m.task p) ∧
      (if L.rtCap r = 0 then niceToPrio (L.niceFloor (F.reset p) n)
        else MAX_RT_PRIO - 1 - L.rtCap r) ≤ (m.task p).normalPrio ∧
      (F.reset p = true → L.rtCap r ≠ 0) := by
  have hstart : ∀ q, (Family.of F₀) q →
      Bounded (L.rtCap r) (L.niceFloor ((Family.of F₀).reset q) n) (m₀.task q).params ∧
        ((Family.of F₀).reset q = true → L.rtCap r ≠ 0) := by
    intro q hq
    obtain ⟨hdl, hrt, hnice⟩ := hF q hq
    exact ⟨⟨decide_eq_false hdl, le_trans hrt (le_max_left _ _),
      le_trans (L.niceFloor_le _ n).1 hnice⟩, fun h => nomatch h⟩
  obtain ⟨hb, hreset⟩ := hr.family (bounded_rule L r n) h₀ hstart p hp
  exact ⟨of_decide_eq_false hb.dl, hb.rt, hb.nice, hb.le_normal (hr.paramsOk h₀ p), hreset⟩

set_option maxRecDepth 2000 in
/-- The family of task 1: it gives up all it can of its nice level, becomes a real-time task that is
reset on fork, and forks; both timers fire in between. -/
theorem unprivileged_bounded_fork : ∃ (m : Machine smallKernel) (F : Family (Fin 4)),
    SysRun ⟨0, 10⟩ smallBoot (.of (· = 1)) m F ∧ F 1 ∧ F.reset 1 = false ∧ F 2 ∧ F.reset 2 = true ∧
    (m.task 1).policy = SCHED_FIFO ∧ (m.task 1).rtPriority = 10 ∧ taskNice (m.task 1) = 19 ∧
    (m.task 2).policy = SCHED_NORMAL ∧ taskNice (m.task 2) = 0 ∧ 89 ≤ (m.task 2).normalPrio := by
  have h₀ : SysRun ⟨0, 10⟩ smallBoot (.of (· = 1)) smallBoot (.of (· = 1)) := .refl
  have hconf : Confined ⟨0, 10⟩ (.of (· = (1 : Fin 4))) plainEnv :=
    ⟨rfl, fun _ _ => le_refl 0, fun _ _ => le_refl 10⟩
  have h₁ := SysRun.kernel (.tryToWakeUp 1 TASK_NORMAL 0) h₀ trivial trivial ⟨3, rfl⟩
  have h₂ := SysRun.kernel (.schedule false false none) h₁ trivial trivial ⟨3, rfl⟩
  have h₃ := SysRun.call (.nice 19) plainEnv paramMem h₂ (fun _ => hconf)
    (fun h => absurd rfl h) ⟨3, rfl⟩
  have h₄ := SysRun.call (.schedSetscheduler 0 0x40000001 4096) plainEnv paramMem h₃ (fun _ => hconf)
    (fun h => absurd rfl h) ⟨3, rfl⟩
  have h₅ := SysRun.timer 1 (.tick false 25 (fun _ => 0) h₄ ⟨3, rfl⟩) ⟨3, rfl⟩
  have h₆ := SysRun.kernel (.fork 2 true false) h₅ trivial trivial ⟨3, rfl⟩
  have hb := unprivileged_bounded smallBoot_paramsOk (r := 0) (n := 0)
    (by rintro q rfl; decide) h₆ 2 rfl
  exact ⟨_, _, h₆, rfl, rfl, rfl, rfl, rfl, rfl, rfl, rfl, rfl, hb.2.2.2.1⟩

/-! ### No way out of `SCHED_IDLE` -/

theorem idle_rule (rtprio : ℕ) : FamilyRule ⟨0, rtprio⟩ (fun _ a => a.policy = SCHED_IDLE) where
  child hok h := by
    rename_i a
    have hdl : dlPolicy a.policy = false := by rw [h]; decide
    have hrt : rtPolicy a.policy = false := by rw [h]; decide
    unfold Params.child
    split
    · dsimp only
      rw [hdl, hrt, Bool.or_false, if_neg (by decide)]
      exact h
    · exact h
  nice hok h _ := by rw [Params.policy_reniced]; exact h
  attr hok h hcap hrt hnice hpol hvalid hp := by
    rename_i reset α env p t attr
    unfold SchedAttr.result
    split
    · exact h
    rw [storedPolicy_eq hpol]
    show attr.policyFor t = SCHED_IDLE
    by_contra hne
    -- leaving the policy asks for the present nice level, which is at most 19
    have hle := le_of_canNice hcap (hp.idle h hne)
    have hstatic := hok.static.2
    have hzero : env.rlimitNice p = 0 := Nat.le_zero.mp hnice
    rw [hzero] at hle
    simp only [TaskStruct.params, taskNice, prioToNice, MAX_PRIO, DEFAULT_PRIO] at *
    omega

/-- **Without `RLIMIT_NICE` there is no way out of `SCHED_IDLE`**: a family that starts with this
policy has it in every state of every run, whatever its real-time limit. -/
theorem idle_for_good {rtprio : ℕ} (h₀ : ∀ p, ParamsOk (m₀.task p).params)
    (hF : ∀ p, F₀ p → (m₀.task p).policy = SCHED_IDLE) (hr : SysRun ⟨0, rtprio⟩ m₀ F₀ m F) (p : α)
    (hp : F p) : (m.task p).policy = SCHED_IDLE :=
  hr.family (idle_rule rtprio) h₀ hF p hp

/-- A sleeping task under `SCHED_IDLE`. -/
def sleepingIdle : TaskStruct :=
  { sleepingTask with policy := SCHED_IDLE, load := ⟨3, 1431655765⟩ }

/-- The small machine with this task for task 1. -/
def idleBoot : Machine smallKernel :=
  { smallBoot with task := Function.update smallTasks ⟨1, by decide⟩ sleepingIdle }

theorem idleBoot_paramsOk : ∀ p, ParamsOk (idleBoot.task p).params := by
  intro p
  have h : p = 0 ∨ p = 1 ∨ p = 2 ∨ p = 3 := by revert p; decide
  rcases h with rfl | rfl | rfl | rfl <;>
    exact ⟨⟨by decide, by decide⟩, by decide, by decide, by decide, by decide⟩

/-- It is refused a real-time policy that its limit would allow, and its child inherits the
policy. -/
theorem idle_for_good_fork : ∃ (m : Machine smallKernel) (F : Family (Fin 4)),
    SysRun ⟨0, 10⟩ idleBoot (.of (· = 1)) m F ∧ F 1 ∧ F 2 ∧ (m.task 1).policy = SCHED_IDLE ∧
    (m.task 2).policy = SCHED_IDLE := by
  have h₀ : SysRun ⟨0, 10⟩ idleBoot (.of (· = 1)) idleBoot (.of (· = 1)) := .refl
  have hconf : Confined ⟨0, 10⟩ (.of (· = (1 : Fin 4))) plainEnv :=
    ⟨rfl, fun _ _ => le_refl 0, fun _ _ => le_refl 10⟩
  have h₁ := SysRun.kernel (.tryToWakeUp 1 TASK_NORMAL 0) h₀ trivial trivial ⟨3, rfl⟩
  have h₂ := SysRun.kernel (.schedule false false none) h₁ trivial trivial ⟨3, rfl⟩
  have h₃ := SysRun.call (.schedSetscheduler 0 1 4096) plainEnv paramMem h₂ (fun _ => hconf)
    (fun h => absurd rfl h) ⟨3, rfl⟩
  have h₄ := SysRun.kernel (.fork 2 true false) h₃ trivial trivial ⟨3, rfl⟩
  have hidle := idle_for_good idleBoot_paramsOk (by rintro q rfl; rfl) h₄
  exact ⟨_, _, h₄, rfl, rfl, hidle 1 rfl, hidle 2 rfl⟩

end KernelHacking.Syscall
