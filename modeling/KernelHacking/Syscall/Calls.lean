import KernelHacking.Sched.Params
import KernelHacking.Syscall.CopyAttr

/-! # The system calls of the scheduler

`nice`, `sched_setscheduler`, `sched_setparam`, `sched_setattr` and their readers, as `core.c`
defines them over user memory.  Each is a program on the machine; the caller is the running task.
What code outside the source answers (`find_task_by_vpid`, `capable`, the resource limits, the
credentials, the security module, `rt_mutex_check_prio`) is an `Env`. -/

namespace KernelHacking.Syscall

open Uaccess Word Layout Sched TraceProg Prog

variable {α : Type} [DecidableEq α] [Fintype α] {K : Kernel α}

/-! ### The surroundings of a call -/

/-- The answers of the code outside the source at one call. -/
structure Env (α : Type) where
  userMax : ℕ
  findTaskByVpid : ℤ → Option α
  capable : Bool
  rlimitNice : α → ℕ
  rlimitRtprio : α → ℕ
  euid : α → ℕ
  uid : α → ℕ
  securitySetnice : ℤ
  securitySetscheduler : ℤ
  securityGetscheduler : ℤ
  rtMutexCheckPrio : Bool

/-- `nice_to_rlimit`. -/
def niceToRlimit (nice : ℤ) : ℤ := MAX_NICE - nice + 1

/-- `can_nice`; it is only asked about nice levels, whose limit value is positive. -/
def canNice (env : Env α) (p : α) (nice : ℤ) : Bool :=
  decide (niceToRlimit nice ≤ env.rlimitNice p) || env.capable

/-- `check_same_owner`. -/
def checkSameOwner (env : Env α) (curr p : α) : Bool :=
  decide (env.euid curr = env.euid p ∨ env.euid curr = env.uid p)

/-- `find_process_by_pid`. -/
def findProcessByPid (env : Env α) (curr : α) (pid : ℤ) : Option α :=
  if pid = 0 then some curr else env.findTaskByVpid pid

/-- What `__sched_setscheduler` is told about a call of `curr` for the task `p`. -/
def Env.setsched (env : Env α) (curr p : α) : SetschedEnv where
  user := true
  capable := env.capable
  canNice := canNice env p
  rlimRtprio := env.rlimitRtprio p
  sameOwner := checkSameOwner env curr p
  security := env.securitySetscheduler
  rtMutexCheckPrio := env.rtMutexCheckPrio

/-! ### `nice` -/

def NICE_WIDTH : ℤ := MAX_NICE - MIN_NICE + 1

/-- The nice level `nice` asks for. -/
def nextNice (t : TaskStruct) (increment : ℤ) : ℤ :=
  max MIN_NICE (min (taskNice t + max (-NICE_WIDTH) (min increment NICE_WIDTH)) MAX_NICE)

/-- `sys_nice`; the increment is negative before it is clamped exactly if it is so afterwards. -/
def nice (env : Env α) (increment : ℤ) : CoreM K ℤ := do
  let m ← get
  let curr := m.cpu.rq.curr
  let nice := nextNice (m.task curr) increment
  if increment < 0 ∧ canNice env curr nice = false then pure (-EPERM)
  else if env.securitySetnice ≠ 0 then pure env.securitySetnice
  else do
    setUserNice curr nice
    pure 0

/-! ### `sched_setscheduler` and `sched_setparam` -/

/-- `SCHED_RESET_ON_FORK`. -/
def SCHED_RESET_ON_FORK : BitVec 32 := 0x40000000

/-- The `attr` of `_sched_setscheduler`. -/
def paramAttr (t : TaskStruct) (policy priority : BitVec 32) : SchedAttr :=
  let attr : SchedAttr :=
    { schedPolicy := policy.toInt, schedFlags := 0, schedNice := prioToNice t.staticPrio
      schedPriority := priority.toNat, schedRuntime := 0, schedDeadline := 0, schedPeriod := 0 }
  if policy.toInt ≠ SETPARAM_POLICY ∧ policy &&& SCHED_RESET_ON_FORK ≠ 0 then
    { attr with
      schedFlags := SCHED_FLAG_RESET_ON_FORK
      schedPolicy := (policy &&& ~~~ SCHED_RESET_ON_FORK).toInt }
  else attr

/-- `_sched_setscheduler`. -/
def _schedSetscheduler (p : α) (policy priority : BitVec 32) (env : SetschedEnv) : CoreM K ℤ := do
  let m ← get
  __schedSetscheduler p (paramAttr (m.task p) policy priority) env

/-- `do_sched_setscheduler`; a `struct sched_param` is one `int`. -/
def doSchedSetscheduler (env : Env α) (u : UserMem) (pid : ℤ) (policy : BitVec 32) (param : U64) :
    CoreM K ℤ :=
  if param = 0 ∨ pid < 0 then pure (-EINVAL)
  else
    let r := u.copyFromUser param 4
    if r.1 ≠ 0 then pure (-EFAULT)
    else do
      let m ← get
      let curr := m.cpu.rq.curr
      match findProcessByPid env curr pid with
      | none => pure (-ESRCH)
      | some p => _schedSetscheduler p policy (BitVec.ofNat 32 (value r.2)) (env.setsched curr p)

/-- `sys_sched_setscheduler`. -/
def schedSetscheduler (env : Env α) (u : UserMem) (pid : ℤ) (policy : BitVec 32) (param : U64) :
    CoreM K ℤ :=
  if policy.toInt < 0 then pure (-EINVAL) else doSchedSetscheduler env u pid policy param

/-- `sys_sched_setparam`. -/
def schedSetparam (env : Env α) (u : UserMem) (pid : ℤ) (param : U64) : CoreM K ℤ :=
  doSchedSetscheduler env u pid (BitVec.ofInt 32 SETPARAM_POLICY) param

/-! ### `sched_setattr` -/

/-- The struct as `__sched_setscheduler` works with it. -/
def UserAttr.attr (a : UserAttr) : SchedAttr where
  schedPolicy := a.schedPolicy.toInt
  schedFlags := a.schedFlags.toNat
  schedNice := a.schedNice.toInt
  schedPriority := a.schedPriority.toNat
  schedRuntime := a.schedRuntime
  schedDeadline := a.schedDeadline
  schedPeriod := a.schedPeriod

/-- `sys_sched_setattr`, with the memory it leaves. -/
def schedSetattr (env : Env α) (u : UserMem) (pid : ℤ) (uattr : U64) (flags : BitVec 32) :
    CoreM K (ℤ × UserMem) :=
  if uattr = 0 ∨ pid < 0 ∨ flags ≠ 0 then pure (-EINVAL, u)
  else
    match schedCopyAttr env.userMax u uattr with
    | (.error ret, u') => pure (ret, u')
    | (.ok attr, u') =>
        if attr.schedPolicy.toInt < 0 then pure (-EINVAL, u')
        else do
          let m ← get
          let curr := m.cpu.rq.curr
          match findProcessByPid env curr pid with
          | none => pure (-ESRCH, u')
          | some p => do
              let ret ← __schedSetscheduler p attr.attr (env.setsched curr p)
              pure (ret, u')

/-! ### The readers -/

/-- `sys_sched_getscheduler`. -/
def schedGetscheduler (env : Env α) (pid : ℤ) : CoreM K ℤ :=
  if pid < 0 then pure (-EINVAL)
  else do
    let m ← get
    match findProcessByPid env m.cpu.rq.curr pid with
    | none => pure (-ESRCH)
    | some p =>
        if env.securityGetscheduler ≠ 0 then pure env.securityGetscheduler
        else
          let t := m.task p
          pure (BitVec.ofInt 32 t.policy |||
            (if t.schedResetOnFork then SCHED_RESET_ON_FORK else 0)).toInt

/-- `sys_sched_getparam`, with the memory it leaves. -/
def schedGetparam (env : Env α) (u : UserMem) (pid : ℤ) (param : U64) : CoreM K (ℤ × UserMem) :=
  if param = 0 ∨ pid < 0 then pure (-EINVAL, u)
  else do
    let m ← get
    match findProcessByPid env m.cpu.rq.curr pid with
    | none => pure (-ESRCH, u)
    | some p =>
        if env.securityGetscheduler ≠ 0 then pure (env.securityGetscheduler, u)
        else
          let t := m.task p
          let r := u.copyToUser param (bytes 4 (if rtPolicy t.policy then t.rtPriority else 0))
          pure (if r.1 ≠ 0 then (-EFAULT, r.2) else (0, r.2))

/-- The `attr` of `sys_sched_getattr`, filled in for a task. -/
def taskAttr (t : TaskStruct) : UserAttr :=
  let attr : UserAttr :=
    { size := BitVec.ofNat 32 sizeofSchedAttr, schedPolicy := BitVec.ofInt 32 t.policy
      schedFlags := if t.schedResetOnFork then BitVec.ofNat 64 SCHED_FLAG_RESET_ON_FORK else 0
      schedNice := 0, schedPriority := 0, schedRuntime := 0, schedDeadline := 0, schedPeriod := 0 }
  if dlPolicy t.policy then
    -- `__getparam_dl`
    { attr with
      schedPriority := BitVec.ofNat 32 t.rtPriority
      schedRuntime := t.dl.dlRuntime
      schedDeadline := t.dl.dlDeadline
      schedPeriod := t.dl.dlPeriod
      schedFlags := BitVec.ofNat 64 t.dl.flags }
  else if rtPolicy t.policy then { attr with schedPriority := BitVec.ofNat 32 t.rtPriority }
  else { attr with schedNice := BitVec.ofInt 32 (taskNice t) }

/-- `sys_sched_getattr`, with the memory it leaves. -/
def schedGetattr (env : Env α) (u : UserMem) (pid : ℤ) (uattr : U64) (size flags : BitVec 32) :
    CoreM K (ℤ × UserMem) :=
  if uattr = 0 ∨ pid < 0 ∨ PAGE_SIZE < size.toNat ∨ size.toNat < SCHED_ATTR_SIZE_VER0 ∨ flags ≠ 0 then
    pure (-EINVAL, u)
  else do
    let m ← get
    match findProcessByPid env m.cpu.rq.curr pid with
    | none => pure (-ESRCH, u)
    | some p =>
        if env.securityGetscheduler ≠ 0 then pure (env.securityGetscheduler, u)
        else pure (schedReadAttr env.userMax u uattr (taskAttr (m.task p)) size.toNat)

/-! ### The calls that set parameters -/

/-- The calls that set parameters. -/
inductive Call where
  | nice (increment : ℤ)
  | schedSetscheduler (pid : ℤ) (policy : BitVec 32) (param : U64)
  | schedSetparam (pid : ℤ) (param : U64)
  | schedSetattr (pid : ℤ) (uattr : U64) (flags : BitVec 32)

/-- The code of a call. -/
def Call.prog (c : Call) (env : Env α) (u : UserMem) : CoreM K ℤ :=
  match c with
  | .nice increment => Syscall.nice env increment
  | .schedSetscheduler pid policy param => Syscall.schedSetscheduler env u pid policy param
  | .schedSetparam pid param => Syscall.schedSetparam env u pid param
  | .schedSetattr pid uattr flags => do
      let r ← Syscall.schedSetattr env u pid uattr flags
      pure r.1

/-- The task a call is about. -/
def Call.target (c : Call) (env : Env α) (curr : α) : Option α :=
  match c with
  | .nice _ => some curr
  | .schedSetscheduler pid _ _ => findProcessByPid env curr pid
  | .schedSetparam pid _ => findProcessByPid env curr pid
  | .schedSetattr pid _ _ => findProcessByPid env curr pid

/-! ### What a call sets -/

variable {m : Machine K} {env : Env α} {u : UserMem}

/-- What a call may do to the parameters: nothing, or what `set_user_nice` or
`__sched_setscheduler` do for its target once all checks are passed. -/
inductive Call.Sets (c : Call) (env : Env α) (m : Machine K) (a' : α → Params) : Prop where
  | none : a' = paramsOf m.task → c.Sets env m a'
  | nice (nice : ℤ) : c.target env m.cpu.rq.curr = some m.cpu.rq.curr →
      MIN_NICE ≤ nice → nice ≤ MAX_NICE →
      (nice < taskNice (m.task m.cpu.rq.curr) → canNice env m.cpu.rq.curr nice = true) →
      a' = Function.update (paramsOf m.task) m.cpu.rq.curr
        ((m.task m.cpu.rq.curr).params.reniced nice) → c.Sets env m a'
  | attr (p : α) (attr : SchedAttr) : c.target env m.cpu.rq.curr = some p →
      SETPARAM_POLICY ≤ attr.schedPolicy →
      (StaticOk (m.task p).staticPrio → MIN_NICE ≤ attr.schedNice ∧ attr.schedNice ≤ MAX_NICE) →
      attr.valid (m.task p) = true →
      attr.permitted (env.setsched m.cpu.rq.curr p) (m.task p) = true →
      a' = Function.update (paramsOf m.task) p (attr.result (m.task p)) → c.Sets env m a'

theorem nextNice_range (t : TaskStruct) (increment : ℤ) :
    MIN_NICE ≤ nextNice t increment ∧ nextNice t increment ≤ MAX_NICE := by
  unfold nextNice
  refine ⟨le_max_left _ _, max_le (by decide) (min_le_right _ _)⟩

/-- Only a negative increment asks for a lower nice level. -/
theorem neg_of_nextNice_lt {t : TaskStruct} {increment : ℤ} (hs : StaticOk t.staticPrio)
    (h : nextNice t increment < taskNice t) : increment < 0 := by
  unfold nextNice at h
  unfold StaticOk at hs
  simp only [taskNice, prioToNice, NICE_WIDTH, MIN_NICE, MAX_NICE, MAX_RT_PRIO, MAX_PRIO, DEFAULT_PRIO] at *
  omega

theorem nice_sets (hs : ∀ p, StaticOk (m.task p).staticPrio) (increment : ℤ) :
    (nice env increment).wlp m
      (fun _ m' => (Call.nice increment).Sets env m (paramsOf m'.task)) := by
  unfold nice
  apply wlp_get_bind
  dsimp only
  split
  · exact wlp_ret (.none rfl)
  rename_i hcan
  split
  · exact wlp_ret (.none rfl)
  obtain ⟨hmin, hmax⟩ := nextNice_range (m.task m.cpu.rq.curr) increment
  refine wlp_bind (setUserNice_params _) ?_
  intro _ m₁ h₁
  apply wlp_ret
  rcases h₁ with h₁ | ⟨-, h₁⟩
  · exact .none h₁
  · refine .nice _ rfl hmin hmax ?_ h₁
    intro hlt
    by_contra hno
    exact hcan ⟨neg_of_nextNice_lt (hs _) hlt, by rwa [Bool.not_eq_true] at hno⟩

/-- Without the sign bit, and without the flag that is folded into it, a policy is not negative. -/
theorem toInt_and_not_reset {x : BitVec 32} (h : 0 ≤ x.toInt) :
    0 ≤ (x &&& ~~~ SCHED_RESET_ON_FORK).toInt := by
  have hx : x.msb = false := by
    rw [BitVec.msb_eq_toInt]
    exact decide_eq_false (not_lt.mpr h)
  have hand : (x &&& ~~~ SCHED_RESET_ON_FORK).msb = false := by
    rw [BitVec.msb_and, hx, Bool.false_and]
  rw [BitVec.msb_eq_toInt] at hand
  exact not_lt.mp (of_decide_eq_false hand)

theorem paramAttr_policy {policy : BitVec 32} (h : SETPARAM_POLICY ≤ policy.toInt) (t : TaskStruct)
    (priority : BitVec 32) : SETPARAM_POLICY ≤ (paramAttr t policy priority).schedPolicy := by
  unfold paramAttr
  dsimp only
  split
  · rename_i hne
    have hpos : 0 ≤ policy.toInt := by
      simp only [SETPARAM_POLICY] at *
      omega
    exact le_trans (by decide) (toInt_and_not_reset hpos)
  · exact h

theorem paramAttr_nice (t : TaskStruct) (policy priority : BitVec 32) :
    (paramAttr t policy priority).schedNice = taskNice t := by
  unfold paramAttr
  dsimp only
  split
  · rfl
  · rfl

theorem doSchedSetscheduler_sets {c : Call} {pid : ℤ}
    (hc : c.target env m.cpu.rq.curr = findProcessByPid env m.cpu.rq.curr pid) {policy : BitVec 32}
    (h : SETPARAM_POLICY ≤ policy.toInt) (param : U64) :
    (doSchedSetscheduler env u pid policy param).wlp m
      (fun _ m' => c.Sets env m (paramsOf m'.task)) := by
  unfold doSchedSetscheduler
  split
  · exact wlp_ret (.none rfl)
  dsimp only
  split
  · exact wlp_ret (.none rfl)
  apply wlp_get_bind
  split
  · exact wlp_ret (.none rfl)
  rename_i p hp
  unfold _schedSetscheduler
  apply wlp_get_bind
  refine (__schedSetscheduler_params _ _).mono ?_
  rintro _ m' (h' | ⟨hvalid, hperm, h'⟩)
  · exact .none h'
  · refine .attr p _ (hc.trans hp) (paramAttr_policy h _ _) ?_ hvalid hperm h'
    intro hs
    rw [paramAttr_nice]
    unfold StaticOk at hs
    simp only [taskNice, prioToNice, MIN_NICE, MAX_NICE, MAX_RT_PRIO, MAX_PRIO, DEFAULT_PRIO] at *
    omega

theorem clampNice_range (a : UserAttr) : MIN_NICE ≤ a.clampNice.attr.schedNice ∧
    a.clampNice.attr.schedNice ≤ MAX_NICE := by
  have hint : a.clampNice.attr.schedNice = max (-20) (min a.schedNice.toInt 19) := by
    show (BitVec.ofInt 32 (max (-20) (min a.schedNice.toInt 19))).toInt = _
    rw [BitVec.toInt_ofInt_eq_self (by decide) (by norm_num) (by norm_num)]
  rw [hint]
  exact ⟨le_max_left _ _, max_le (by decide) (min_le_right _ _)⟩

/-- What is copied from the user is in range. -/
theorem schedCopyAttr_nice {userMax : ℕ} {uattr : U64} {attr : UserAttr} {u' : UserMem}
    (h : schedCopyAttr userMax u uattr = (.ok attr, u')) :
    ∃ a : UserAttr, attr = a.clampNice := by
  unfold schedCopyAttr copyKnown errSize at h
  dsimp only at h
  repeat' split at h
  all_goals first
    | exact ⟨_, (Except.ok.inj (Prod.mk.inj h).1).symm⟩
    | cases (Prod.mk.inj h).1

theorem schedSetattr_sets (pid : ℤ) (uattr : U64) (flags : BitVec 32) :
    (schedSetattr env u pid uattr flags).wlp m
      (fun _ m' => (Call.schedSetattr pid uattr flags).Sets env m (paramsOf m'.task)) := by
  unfold schedSetattr
  split
  · exact wlp_ret (.none rfl)
  split
  · exact wlp_ret (.none rfl)
  rename_i attr u' hcopy
  split
  · exact wlp_ret (.none rfl)
  rename_i hpol
  apply wlp_get_bind
  dsimp only
  split
  · exact wlp_ret (.none rfl)
  rename_i p hp
  refine wlp_bind (__schedSetscheduler_params _ _) ?_
  intro ret m₁ h₁
  apply wlp_ret
  rcases h₁ with h₁ | ⟨hvalid, hperm, h₁⟩
  · exact .none h₁
  · refine .attr p _ hp (le_trans (by decide) (not_lt.mp hpol)) ?_ hvalid hperm h₁
    intro _
    obtain ⟨a, rfl⟩ := schedCopyAttr_nice hcopy
    exact clampNice_range a

/-- **What a call does to the parameters of the tasks.** -/
theorem Call.prog_sets (hs : ∀ p, StaticOk (m.task p).staticPrio) (c : Call) :
    (c.prog env u).wlp m (fun _ m' => c.Sets env m (paramsOf m'.task)) := by
  cases c with
  | nice increment => exact nice_sets hs increment
  | schedSetscheduler pid policy param =>
      show (Syscall.schedSetscheduler env u pid policy param).wlp m _
      unfold Syscall.schedSetscheduler
      split
      · exact wlp_ret (.none rfl)
      · rename_i hpol
        exact doSchedSetscheduler_sets rfl (le_trans (by decide) (not_lt.mp hpol)) param
  | schedSetparam pid param =>
      exact doSchedSetscheduler_sets rfl (by decide) param
  | schedSetattr pid uattr flags =>
      refine wlp_bind (schedSetattr_sets pid uattr flags) ?_
      intro r m₁ h₁
      exact wlp_ret h₁

end KernelHacking.Syscall
