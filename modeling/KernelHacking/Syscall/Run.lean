import KernelHacking.Sched.Tick
import KernelHacking.Syscall.Calls

/-! # Runs with system calls

The steps of the kernel, its timers and the system calls of the tasks, in any order.  A run also follows
a family of tasks: a child belongs to the family of its parent.  The calls of the family's own tasks
are made without `CAP_SYS_NICE` and under given resource limits; nobody outside sets the parameters
of a task of the family.  With an empty family these are no restrictions.

`SysRun.paramsOk` carries what is well-formed about the parameters of every task through a run. -/

namespace KernelHacking.Syscall

open Uaccess Word Sched TraceProg Prog

variable {α : Type} [DecidableEq α] [Fintype α] {K : Kernel α}

/-! ### Runs -/

/-- Resource limits that the calls of a family are under. -/
structure Limits where
  nice : ℕ
  rtprio : ℕ
deriving DecidableEq, Repr

/-- What the kernel's own callers of `__sched_setscheduler` see to. -/
def KernelCall : Step α → Prop
  | .schedSetscheduler _ attr _ => SETPARAM_POLICY ≤ attr.schedPolicy ∧
      MIN_NICE ≤ attr.schedNice ∧ attr.schedNice ≤ MAX_NICE
  | _ => True

/-- A family of tasks; `reset` are the children of real-time tasks that were reset on fork, and the
descendants of these children. -/
structure Family (α : Type) where
  mem : α → Prop
  reset : α → Bool

instance : CoeFun (Family α) fun _ => α → Prop := ⟨Family.mem⟩

/-- The tasks that a family starts with. -/
def Family.of (F : α → Prop) : Family α := ⟨F, fun _ => false⟩

/-- The child of such a task is reset to a normal one. -/
def resetsChild (a : Params) : Bool :=
  a.schedResetOnFork && (dlPolicy a.policy || rtPolicy a.policy)

/-- A step of the kernel does not set the parameters of the family. -/
def Spares (F : Family α) : Step α → Prop
  | .setUserNice p _ => ¬ F p
  | .schedSetscheduler p _ _ => ¬ F p
  | _ => True

/-- The family after a step of the kernel. -/
def familyAfter (m : Machine K) (F : Family α) : Step α → Family α
  | .fork p _ _ =>
      let parent := m.cpu.rq.curr
      { mem := Function.update F.mem p (F parent)
        reset := Function.update F.reset p (F.reset parent || resetsChild (m.task parent).params) }
  | _ => F

/-- The surroundings of a call of the family. -/
structure Confined (L : Limits) (F : Family α) (env : Env α) : Prop where
  capable : env.capable = false
  nice : ∀ p, F p → env.rlimitNice p ≤ L.nice
  rtprio : ∀ p, F p → env.rlimitRtprio p ≤ L.rtprio

/-- Runs. -/
inductive SysRun (L : Limits) (m₀ : Machine K) (F₀ : Family α) : Machine K → Family α → Prop where
  | refl : SysRun L m₀ F₀ m₀ F₀
  | kernel {m m' : Machine K} {F : Family α} {t : List (Event K)} (e : Step α) :
      SysRun L m₀ F₀ m F → KernelCall e → Spares F e → e.prog.Ends m true m' t →
      SysRun L m₀ F₀ m' (familyAfter m F e)
  | tick {m m' : Machine K} {F : Family α} {ts' : α → ℕ} {t : List (Event K)} (counts : Bool)
      (schedRrTimeslice : ℕ) (ts : α → ℕ) : SysRun L m₀ F₀ m F →
      (schedulerTick counts schedRrTimeslice ts).Ends m ts' m' t → SysRun L m₀ F₀ m' F
  | timer {m m' : Machine K} {F : Family α} {t : List (Event K)} (overrun : U64) :
      SysRun L m₀ F₀ m F → (doSchedRtPeriodTimer overrun).Ends m () m' t → SysRun L m₀ F₀ m' F
  | call {m m' : Machine K} {F : Family α} {r : ℤ} {t : List (Event K)} (c : Call) (env : Env α)
      (u : UserMem) : SysRun L m₀ F₀ m F → (F m.cpu.rq.curr → Confined L F env) →
      (¬ F m.cpu.rq.curr → ∀ p, c.target env m.cpu.rq.curr = some p → ¬ F p) →
      (c.prog env u).Ends m r m' t → SysRun L m₀ F₀ m' F

/-! ### Well-formed parameters -/

/-- The policies of `__sched_setscheduler`. -/
def policies : List ℤ :=
  [SCHED_NORMAL, SCHED_FIFO, SCHED_RR, SCHED_BATCH, SCHED_IDLE, SCHED_DEADLINE]

/-- The parameters fit together. -/
structure ParamsOk (a : Params) : Prop where
  static : StaticOk a.staticPrio
  policy : a.policy ∈ policies
  rt : rtPolicy a.policy = decide (a.rtPriority ≠ 0)
  rt_le : a.rtPriority ≤ 99
  normal : a.normalPrio = a.normal

/-- What the checks of `__sched_setscheduler` see to. -/
theorem valid_spec {attr : SchedAttr} {t : TaskStruct} (h : attr.valid t = true) :
    (¬ attr.schedPolicy < 0 → attr.policyFor t ∈ policies) ∧ attr.schedPriority ≤ 99 ∧
      rtPolicy (attr.policyFor t) = decide (attr.schedPriority ≠ 0) := by
  have hle := valid_priority_le h
  unfold SchedAttr.valid at h
  dsimp only at h
  split at h
  · cases h
  rename_i hpol
  split at h
  · cases h
  split at h
  · cases h
  split at h
  · cases h
  rename_i hrt
  refine ⟨?_, hle, ?_⟩
  · intro hneg
    by_contra hno
    refine hpol ⟨hneg, ?_⟩
    simp only [policies, List.mem_cons, List.not_mem_nil, or_false, not_or] at hno
    exact ⟨hno.2.2.2.2.2, hno.2.1, hno.2.2.1, hno.1, hno.2.2.2.1, hno.2.2.2.2.1⟩
  · rw [not_or] at hrt
    exact not_not.mp hrt.2

theorem ParamsOk.reniced {a : Params} (h : ParamsOk a) {nice : ℤ}
    (hn : MIN_NICE ≤ nice ∧ nice ≤ MAX_NICE) : ParamsOk (a.reniced nice) := by
  unfold Params.reniced
  split
  · rename_i hpol
    refine ⟨staticOk_nice hn, h.policy, h.rt, h.rt_le, ?_⟩
    -- the nice level of a real-time or deadline task does not show in its priority
    have hnormal := h.normal
    unfold Params.normal at hnormal ⊢
    dsimp only
    by_cases hdl : dlPolicy a.policy = true
    · rw [if_pos hdl] at hnormal ⊢
      exact hnormal
    · rw [if_neg hdl, if_pos (hpol.resolve_left hdl)] at hnormal ⊢
      exact hnormal
  · rename_i hpol
    rw [not_or] at hpol
    refine ⟨staticOk_nice hn, h.policy, h.rt, h.rt_le, ?_⟩
    unfold Params.normal
    dsimp only
    rw [if_neg hpol.1, if_neg hpol.2]

theorem ParamsOk.child {a : Params} (h : ParamsOk a) : ParamsOk a.child := by
  unfold Params.child
  split
  swap
  · exact h
  have h0 : StaticOk (niceToPrio 0) := staticOk_nice (by decide)
  dsimp only
  have hs : StaticOk (if (dlPolicy a.policy || rtPolicy a.policy) = true ∨ a.nice < 0 then
      niceToPrio 0 else a.staticPrio) := by
    split
    · exact h0
    · exact h.static
  by_cases hrt : (dlPolicy a.policy || rtPolicy a.policy) = true
  · simp only [hrt, if_true] at hs ⊢
    have hpolicy : SCHED_NORMAL ∈ policies := by decide
    exact ⟨hs, hpolicy, rfl, Nat.zero_le _, rfl⟩
  · simp only [hrt] at hs ⊢
    refine ⟨hs, h.policy, h.rt, h.rt_le, ?_⟩
    rw [Bool.or_eq_true, not_or] at hrt
    unfold Params.normal
    simp [hrt.1, hrt.2]

theorem ParamsOk.result {t : TaskStruct} {attr : SchedAttr} (h : ParamsOk t.params)
    (hpol : SETPARAM_POLICY ≤ attr.schedPolicy)
    (hn : MIN_NICE ≤ attr.schedNice ∧ attr.schedNice ≤ MAX_NICE) (hvalid : attr.valid t = true) :
    ParamsOk (attr.result t) := by
  unfold SchedAttr.result
  split
  · exact ⟨h.static, h.policy, h.rt, h.rt_le, h.normal⟩
  obtain ⟨hmem, hle, hrt⟩ := valid_spec hvalid
  rw [storedPolicy_eq hpol]
  have hpolicy : attr.policyFor t ∈ policies := by
    by_cases hneg : attr.schedPolicy < 0
    · unfold SchedAttr.policyFor
      rw [if_pos hneg]
      exact h.policy
    · exact hmem hneg
  refine ⟨?_, hpolicy, hrt, hle, rfl⟩
  unfold Params.assigned
  dsimp only
  split
  · exact staticOk_nice hn
  · exact h.static

/-! ### Through a run -/

omit [Fintype α] in
/-- A change of one task. -/
theorem forall_update {P : Params → Prop} {a : α → Params} {p : α} {b : Params} (h : ∀ q, P (a q))
    (hb : P b) : ∀ q, P (Function.update a p b q) := by
  intro q
  by_cases e : q = p
  · subst e; rw [Function.update_self]; exact hb
  · rw [Function.update_of_ne e]; exact h q

variable {L : Limits} {m₀ m m' : Machine K} {F₀ F : Family α}

/-- The timers write nothing about the tasks. -/
theorem schedulerTick_task {counts : Bool} {slice : ℕ} {ts ts' : α → ℕ} {t : List (Event K)}
    (h : (schedulerTick counts slice ts).Ends m ts' m' t) : m'.task = m.task :=
  wlp_onCpu_keeps (P := fun T => T = m.task) rfl _ _ _ h

theorem doSchedRtPeriodTimer_task {overrun : U64} {t : List (Event K)}
    (h : (doSchedRtPeriodTimer overrun).Ends m () m' t) : m'.task = m.task :=
  wlp_onCpu_keeps (P := fun T => T = m.task) rfl _ _ _ h

/-- **The parameters of every task are well-formed in every state of every run.** -/
theorem SysRun.paramsOk (h₀ : ∀ p, ParamsOk (m₀.task p).params) (hr : SysRun L m₀ F₀ m F) :
    ∀ p, ParamsOk (m.task p).params := by
  induction hr with
  | refl => exact h₀
  | @kernel m m' F t e _ hcall _ hends ih =>
      have hsets := Step.prog_params e _ _ _ hends rfl
      change ∀ p, ParamsOk (paramsOf m'.task p)
      rcases hsets.cases with ⟨hset, -⟩ | ⟨p, nice, rfl, hn, hset⟩ | ⟨p, attr, env, rfl, hvalid, hset⟩ |
        ⟨p, mm, kthread, rfl, hset⟩
      · rw [hset]; exact ih
      · rw [hset]; exact forall_update ih ((ih p).reniced hn)
      · rw [hset]; exact forall_update ih ((ih p).result hcall.1 hcall.2 hvalid)
      · rw [hset]; exact forall_update ih (ih _).child
  | tick counts slice ts _ hends ih => rw [schedulerTick_task hends]; exact ih
  | timer overrun _ hends ih => rw [doSchedRtPeriodTimer_task hends]; exact ih
  | @call m m' F r t c env u _ _ _ hends ih =>
      change ∀ p, ParamsOk (paramsOf m'.task p)
      cases Call.prog_sets (fun p => (ih p).static) c _ _ _ hends with
      | none hsame => rw [hsame]; exact ih
      | nice nice _ hmin hmax _ hset =>
          rw [hset]; exact forall_update ih ((ih _).reniced ⟨hmin, hmax⟩)
      | attr p attr _ hpol hn hvalid _ hset =>
          rw [hset]; exact forall_update ih ((ih p).result hpol (hn (ih p).static) hvalid)

/-- The parameters of the small machine. -/
theorem smallBoot_paramsOk : ∀ p, ParamsOk (smallBoot.task p).params := by
  intro p
  have h : p = 0 ∨ p = 1 ∨ p = 2 ∨ p = 3 := by revert p; decide
  rcases h with rfl | rfl | rfl | rfl <;>
    exact ⟨⟨by decide, by decide⟩, by decide, by decide, by decide, by decide⟩

/-- A caller without capabilities under the real-time limit 10, which sees no other process. -/
def plainEnv : Env (Fin 4) where
  userMax := 2 ^ 47
  findTaskByVpid _ := none
  capable := false
  rlimitNice _ := 0
  rlimitRtprio _ := 10
  euid _ := 1000
  uid _ := 1000
  securitySetnice := 0
  securitySetscheduler := 0
  securityGetscheduler := 0
  rtMutexCheckPrio := false

/-- Memory with the number 10 at address 4096. -/
def paramMem : UserMem where
  byte x := if x = 4096 then 10 else 0
  readable _ := true
  writable _ := true

end KernelHacking.Syscall
