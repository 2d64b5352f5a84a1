import KernelHacking.Syscall.Run

/-! # Reading the parameters and setting them again

In every state of every run, what the readers report of a task that is not a deadline task can be
given back to the setters, and nothing changes: **`get_set_round_trip`**.  This holds for
`sched_getattr` with `sched_setattr`, on the bytes of user memory, and for the older pair
`sched_getscheduler` and `sched_getparam` with `sched_setscheduler`, where `sched_reset_on_fork`
travels as a bit of the policy. -/

namespace KernelHacking.Syscall

open Uaccess Word Layout Sched TraceProg Prog

variable {α : Type} [DecidableEq α] [Fintype α] {K : Kernel α}
variable {m : Machine K} {p : α} {t : TaskStruct} {attr : SchedAttr} {env : Env α}

/-! ### Setting what is already there -/

/-- The attributes are those the task has. -/
structure Describes (attr : SchedAttr) (t : TaskStruct) : Prop where
  policy : attr.schedPolicy = t.policy
  flags : attr.schedFlags = if t.schedResetOnFork then SCHED_FLAG_RESET_ON_FORK else 0
  nice : fairPolicy t.policy = true → attr.schedNice = taskNice t
  priority : attr.schedPriority = t.rtPriority

/-- A policy other than that of the deadline tasks. -/
theorem policy_cases (h : ParamsOk t.params) (hdl : dlPolicy t.policy = false) :
    t.policy = 0 ∨ t.policy = 1 ∨ t.policy = 2 ∨ t.policy = 3 ∨ t.policy = 5 := by
  have hmem : t.policy ∈ policies := h.policy
  have hne : t.policy ≠ SCHED_DEADLINE := of_decide_eq_false hdl
  simp only [policies, SCHED_NORMAL, SCHED_FIFO, SCHED_RR, SCHED_BATCH, SCHED_IDLE, SCHED_DEADLINE,
    List.mem_cons, List.not_mem_nil, or_false] at hmem hne
  omega

theorem policy_nonneg (h : ParamsOk t.params) (hdl : dlPolicy t.policy = false) :
    ¬ t.policy < 0 := by
  have := policy_cases h hdl
  omega

section
variable (hd : Describes attr t) (hok : ParamsOk t.params) (hdl : dlPolicy t.policy = false)
include hd hok hdl

theorem Describes.policyFor : attr.policyFor t = t.policy := by
  unfold SchedAttr.policyFor
  rw [hd.policy, if_neg (policy_nonneg hok hdl)]

theorem Describes.resetFor : attr.resetFor t = t.schedResetOnFork := by
  unfold SchedAttr.resetFor
  rw [hd.policy, if_neg (policy_nonneg hok hdl), hd.flags]
  cases t.schedResetOnFork <;> rfl

/-- They pass the checks of the arguments. -/
theorem Describes.valid : attr.valid t = true := by
  have hpol := policy_cases hok hdl
  have hrt : rtPolicy t.policy = decide (t.rtPriority ≠ 0) := hok.rt
  have hle : t.rtPriority ≤ 99 := hok.rt_le
  unfold SchedAttr.valid
  dsimp only
  rw [hd.policyFor hok hdl, hd.priority, hd.flags, if_neg, if_neg, if_neg, if_neg]
  · rintro (h | h)
    · rw [hdl] at h
      exact Bool.false_ne_true h.1
    · exact h hrt
  · unfold MAX_USER_RT_PRIO MAX_RT_PRIO
    omega
  · cases t.schedResetOnFork <;> simp
  · simp only [SCHED_NORMAL, SCHED_FIFO, SCHED_RR, SCHED_BATCH, SCHED_IDLE, SCHED_DEADLINE]
    omega

/-- The owner may set them. -/
theorem Describes.permitted {e : SetschedEnv} (h : e.capable = true ∨ e.sameOwner = true) :
    attr.permitted e t = true := by
  unfold SchedAttr.permitted
  dsimp only
  rw [hd.policyFor hok hdl, hd.priority, hd.resetFor hok hdl]
  by_cases hcap : e.user = true ∧ e.capable = false
  · have howner : e.sameOwner = true := h.resolve_left (by rw [hcap.2]; decide)
    rw [if_pos hcap, if_neg, if_neg, if_neg, if_neg, if_neg, if_neg, if_neg]
    · rintro ⟨h₁, h₂⟩; rw [h₁] at h₂; cases h₂
    · rw [howner]; decide
    · rintro ⟨h₁, h₂, -⟩; exact h₂ h₁
    · rw [hdl]; decide
    · rintro ⟨-, h₂, -⟩; exact lt_irrefl _ h₂
    · rintro ⟨-, h₂, -⟩; exact h₂ rfl
    · rintro ⟨h₁, h₂, -⟩
      rw [hd.nice h₁] at h₂
      exact lt_irrefl _ h₂
  · rw [if_neg hcap]

theorem Describes.unchanged : attr.unchanged t = true := by
  unfold SchedAttr.unchanged
  dsimp only
  rw [hd.policyFor hok hdl, hd.priority, hdl]
  by_cases hfair : fairPolicy t.policy = true
  · simp [hd.nice hfair]
  · simp [hfair]

end

/-- Setting the parameters a task has succeeds and changes nothing. -/
theorem __schedSetscheduler_same (hd : Describes attr (m.task p)) (hok : ParamsOk (m.task p).params)
    (hdl : dlPolicy (m.task p).policy = false) {e : SetschedEnv}
    (howner : e.capable = true ∨ e.sameOwner = true) (hsec : e.security = 0)
    (hstop : m.cpu.rq.stop ≠ some p) :
    (__schedSetscheduler p attr e).wp m (fun r m' tr => r = 0 ∧ m' = m ∧ tr = []) := by
  unfold __schedSetscheduler
  rw [wp_bind, wp_get]
  dsimp only
  rw [hd.valid hok hdl, hd.permitted hok hdl howner, hd.unchanged hok hdl]
  rw [if_neg (by decide), if_neg (by decide), if_neg (fun h => h.2 hsec), if_neg hstop, if_pos rfl]
  unfold modifyTask
  rw [wp_bind, wp_modify, wp_ret]
  refine ⟨rfl, ?_, rfl⟩
  dsimp only
  rw [hd.resetFor hok hdl]
  exact congrArg (fun T => { m with task := T }) (Function.update_eq_self p m.task)

/-! ### What the readers report -/

theorem toInt_ofInt_small {x : ℤ} (h : -1000 ≤ x ∧ x ≤ 1000) : (BitVec.ofInt 32 x).toInt = x :=
  BitVec.toInt_ofInt_eq_self (by decide) (by norm_num; omega) (by norm_num; omega)

/-- The struct of `sched_getattr`, as `sched_setattr` reads it. -/
theorem taskAttr_describes (hok : ParamsOk t.params) (hdl : dlPolicy t.policy = false) :
    Describes (taskAttr t).clampNice.attr t := by
  have hpol := policy_cases hok hdl
  have hs : MAX_RT_PRIO ≤ t.staticPrio ∧ t.staticPrio < MAX_PRIO := hok.static
  have hle : t.rtPriority ≤ 99 := hok.rt_le
  have hrt : rtPolicy t.policy = decide (t.rtPriority ≠ 0) := hok.rt
  unfold MAX_RT_PRIO MAX_PRIO at hs
  have hpolicy : (BitVec.ofInt 32 t.policy).toInt = t.policy := toInt_ofInt_small (by omega)
  have hflags : (if t.schedResetOnFork then BitVec.ofNat 64 SCHED_FLAG_RESET_ON_FORK else 0 : U64).toNat =
      if t.schedResetOnFork then SCHED_FLAG_RESET_ON_FORK else 0 := by
    cases t.schedResetOnFork <;> rfl
  unfold taskAttr
  rw [hdl, if_neg (by decide)]
  by_cases hrtp : rtPolicy t.policy = true
  · rw [if_pos hrtp]
    refine ⟨hpolicy, hflags, ?_, ?_⟩
    · intro hfair
      have hfair' : t.policy = 0 ∨ t.policy = 3 := of_decide_eq_true hfair
      have hrtp' : t.policy = 1 ∨ t.policy = 2 := of_decide_eq_true hrtp
      omega
    · show (BitVec.ofNat 32 t.rtPriority).toNat = t.rtPriority
      rw [BitVec.toNat_ofNat, Nat.mod_eq_of_lt (by omega)]
  · rw [if_neg hrtp]
    have hzero : t.rtPriority = 0 := by
      rw [Bool.not_eq_true] at hrtp
      rw [hrtp] at hrt
      exact not_not.mp (of_decide_eq_false hrt.symm)
    refine ⟨hpolicy, hflags, ?_, hzero.symm⟩
    intro _
    have hnice : (BitVec.ofInt 32 (taskNice t)).toInt = taskNice t := by
      refine toInt_ofInt_small ?_
      simp only [taskNice, prioToNice, DEFAULT_PRIO]
      omega
    show (BitVec.ofInt 32 (max (-20) (min (BitVec.ofInt 32 (taskNice t)).toInt 19))).toInt = _
    rw [hnice]
    have hclamp : max (-20) (min (taskNice t) 19) = taskNice t := by
      simp only [taskNice, prioToNice, DEFAULT_PRIO]
      omega
    rw [hclamp, hnice]

/-- The policy of `sched_getscheduler`. -/
def reportedPolicy (t : TaskStruct) : BitVec 32 :=
  BitVec.ofInt 32 t.policy ||| (if t.schedResetOnFork then SCHED_RESET_ON_FORK else 0)

/-- `_sched_setscheduler` takes the flag out of the policy again. -/
theorem paramAttr_describes (hok : ParamsOk t.params) (hdl : dlPolicy t.policy = false) :
    0 ≤ (reportedPolicy t).toInt ∧
      Describes (paramAttr t (reportedPolicy t) (BitVec.ofNat 32 t.rtPriority)) t := by
  have hpol := policy_cases hok hdl
  have hle : t.rtPriority ≤ 99 := hok.rt_le
  have hprio : (BitVec.ofNat 32 t.rtPriority).toNat = t.rtPriority := by
    rw [BitVec.toNat_ofNat, Nat.mod_eq_of_lt (by omega)]
  have hbits : ∀ policy : ℤ, policy = 0 ∨ policy = 1 ∨ policy = 2 ∨ policy = 3 ∨ policy = 5 →
      ∀ reset : Bool, ∀ x : BitVec 32,
      x = BitVec.ofInt 32 policy ||| (if reset then SCHED_RESET_ON_FORK else 0) →
      0 ≤ x.toInt ∧ x.toInt ≠ SETPARAM_POLICY ∧ (x &&& SCHED_RESET_ON_FORK ≠ 0 ↔ reset = true) ∧
        (reset = true → (x &&& ~~~ SCHED_RESET_ON_FORK).toInt = policy) ∧
        (reset = false → x.toInt = policy) := by
    rintro policy (rfl | rfl | rfl | rfl | rfl) reset x rfl <;> cases reset <;> decide
  obtain ⟨hpos, hne, hflag, hset, hclear⟩ := hbits _ hpol t.schedResetOnFork _ rfl
  refine ⟨hpos, ?_⟩
  unfold paramAttr reportedPolicy
  dsimp only
  cases hreset : t.schedResetOnFork
  · rw [hreset] at hflag hclear
    rw [if_neg fun h => Bool.false_ne_true (hflag.mp h.2)]
    exact ⟨hclear rfl, by rw [hreset]; rfl, fun _ => rfl, hprio⟩
  · rw [hreset] at hflag hset hne
    rw [if_pos ⟨hne, hflag.mpr rfl⟩]
    exact ⟨hset rfl, by rw [hreset]; rfl, fun _ => rfl, hprio⟩

/-! ### The two round trips -/

/-- The caller may read and set the parameters of `p`: the security module does not object, and the
caller owns the task or has the capability. -/
structure MaySet (env : Env α) (curr p : α) : Prop where
  owner : env.capable = true ∨ checkSameOwner env curr p = true
  set : env.securitySetscheduler = 0
  get : env.securityGetscheduler = 0

/-- The `n` bytes at an address can be read and written. -/
structure Accessible (u : UserMem) (a : U64) (n : ℕ) : Prop where
  readable : ∀ i < n, u.readable (a + BitVec.ofNat 64 i) = true
  writable : ∀ i < n, u.writable (a + BitVec.ofNat 64 i) = true

theorem Accessible.holds {u : UserMem} {a : U64} {bs : List U8} {n : ℕ} (h : Accessible u a n)
    (hlen : bs.length = n) (hn : n ≤ 2 ^ 64) : (u.store a bs).HoldsBytes a bs :=
  holdsBytes_store (hlen.symm ▸ hn) (hlen.symm ▸ h.writable) (hlen.symm ▸ h.readable)

/-- `sched_getattr` writes the struct of the task. -/
theorem schedGetattr_ends {u : UserMem} {pid : ℤ} {uattr : U64} {size : BitVec 32}
    (hpid : 0 ≤ pid) (hfind : findProcessByPid env m.cpu.rq.curr pid = some p) (hptr : uattr ≠ 0)
    (hsize : SCHED_ATTR_SIZE_VER0 ≤ size.toNat ∧ size.toNat ≤ PAGE_SIZE)
    (hacc : accessOk env.userMax uattr size.toNat = true)
    (hmem : Accessible u uattr sizeofSchedAttr) (hget : env.securityGetscheduler = 0)
    (hts : (taskAttr (m.task p)).size = BitVec.ofNat 32 sizeofSchedAttr) :
    (schedGetattr env u pid uattr size 0).wp m (fun r m' tr =>
      r = (0, u.store uattr (taskAttr (m.task p)).bytes) ∧ m' = m ∧ tr = []) := by
  have hargs : ¬ (uattr = 0 ∨ pid < 0 ∨ PAGE_SIZE < size.toNat ∨
      size.toNat < SCHED_ATTR_SIZE_VER0 ∨ (0 : BitVec 32) ≠ 0) := by
    rintro (h | h | h | h | h)
    · exact hptr h
    · omega
    · omega
    · omega
    · exact h rfl
  have hshort : ¬ size.toNat < sizeofSchedAttr := not_lt.mpr hsize.1
  have hbytes : (taskAttr (m.task p)).bytes.take (taskAttr (m.task p)).size.toNat =
      (taskAttr (m.task p)).bytes := by
    rw [hts]
    exact List.take_of_length_le (by rw [UserAttr.length_bytes]; decide)
  unfold schedGetattr
  rw [if_neg hargs, wp_bind, wp_get, hfind]
  dsimp only
  rw [if_neg (not_not.mpr hget), wp_ret]
  refine ⟨?_, rfl, rfl⟩
  unfold schedReadAttr
  rw [if_neg (by rw [hacc]; decide), if_neg fun h => hshort h.1, if_neg hshort]
  dsimp only
  rw [hbytes, copyToUser_of_writable _ _ _ (by rw [UserAttr.length_bytes]; exact hmem.writable)]
  generalize u.store uattr (taskAttr (m.task p)).bytes = u'
  rfl

theorem size_taskAttr (t : TaskStruct) : (taskAttr t).size = BitVec.ofNat 32 sizeofSchedAttr := by
  unfold taskAttr
  dsimp only
  split
  · rfl
  · split <;> rfl

/-- `sched_setattr` with that struct. -/
theorem schedSetattr_same {u : UserMem} {pid : ℤ} {uattr : U64} (hmax : env.userMax ≤ 2 ^ 63)
    (hpid : 0 ≤ pid) (hfind : findProcessByPid env m.cpu.rq.curr pid = some p) (hptr : uattr ≠ 0)
    (hacc : accessOk env.userMax uattr SCHED_ATTR_SIZE_VER0 = true)
    (hmem : u.HoldsBytes uattr (taskAttr (m.task p)).bytes) (hmay : MaySet env m.cpu.rq.curr p)
    (hok : ParamsOk (m.task p).params) (hdl : dlPolicy (m.task p).policy = false)
    (hstop : m.cpu.rq.stop ≠ some p) :
    (schedSetattr env u pid uattr 0).wp m (fun r m' tr => r = (0, u) ∧ m' = m ∧ tr = []) := by
  have hsize := size_taskAttr (m.task p)
  have hknown : (BitVec.ofNat 32 sizeofSchedAttr).toNat = sizeofSchedAttr := by decide
  have hcopy : schedCopyAttr env.userMax u uattr = (.ok (taskAttr (m.task p)).clampNice, u) := by
    refine (schedCopyAttr_ok_iff hmax).mpr ⟨hacc, rfl, taskAttr (m.task p), .inr ?_, rfl, ?_⟩
    · rw [hsize, hknown]; decide
    · unfold UserAttr.image
      rw [hsize, hknown, Nat.sub_self, List.replicate_zero, List.append_nil]
      exact hmem
  have hd := taskAttr_describes hok hdl
  have hpolicy : (taskAttr (m.task p)).clampNice.schedPolicy.toInt = (m.task p).policy := hd.policy
  have hargs : ¬ (uattr = 0 ∨ pid < 0 ∨ (0 : BitVec 32) ≠ 0) := by
    rintro (h | h | h)
    · exact hptr h
    · omega
    · exact h rfl
  unfold schedSetattr
  rw [if_neg hargs, hcopy]
  dsimp only
  rw [if_neg (by rw [hpolicy]; exact policy_nonneg hok hdl), wp_bind, wp_get, hfind]
  dsimp only
  rw [wp_bind]
  refine (__schedSetscheduler_same (e := env.setsched m.cpu.rq.curr p) hd hok hdl hmay.owner hmay.set
    hstop).mono ?_
  rintro ret m' tr ⟨rfl, rfl, rfl⟩
  rw [wp_ret]
  exact ⟨rfl, rfl, rfl⟩

/-- `sched_getparam` writes the real-time priority. -/
theorem schedGetparam_ends {u : UserMem} {pid : ℤ} {param : U64} (hpid : 0 ≤ pid)
    (hfind : findProcessByPid env m.cpu.rq.curr pid = some p) (hptr : param ≠ 0)
    (hmem : Accessible u param 4) (hget : env.securityGetscheduler = 0)
    (hok : ParamsOk (m.task p).params) :
    (schedGetparam env u pid param).wp m (fun r m' tr =>
      r = (0, u.store param (bytes 4 (m.task p).rtPriority)) ∧ m' = m ∧ tr = []) := by
  have hprio : (if rtPolicy (m.task p).policy then (m.task p).rtPriority else 0) =
      (m.task p).rtPriority := by
    by_cases hrt : rtPolicy (m.task p).policy = true
    · rw [if_pos hrt]
    · have h := hok.rt
      rw [Bool.not_eq_true] at hrt
      simp only [TaskStruct.params] at h
      rw [hrt] at h
      rw [if_neg (by rw [hrt]; decide)]
      exact (not_not.mp (of_decide_eq_false h.symm)).symm
  unfold schedGetparam
  rw [if_neg (by rintro (h | h); exacts [hptr h, absurd hpid (not_le.mpr h)]), wp_bind, wp_get, hfind]
  dsimp only
  rw [if_neg (not_not.mpr hget), wp_ret, hprio,
    copyToUser_of_writable _ _ _ (by rw [length_bytes]; exact hmem.writable)]
  exact ⟨rfl, rfl, rfl⟩

/-- `sched_setscheduler` with the policy and priority that were reported. -/
theorem schedSetscheduler_same {u : UserMem} {pid : ℤ} {param : U64} (hpid : 0 ≤ pid)
    (hfind : findProcessByPid env m.cpu.rq.curr pid = some p) (hptr : param ≠ 0)
    (hmem : u.HoldsBytes param (bytes 4 (m.task p).rtPriority)) (hmay : MaySet env m.cpu.rq.curr p)
    (hok : ParamsOk (m.task p).params) (hdl : dlPolicy (m.task p).policy = false)
    (hstop : m.cpu.rq.stop ≠ some p) :
    (schedSetscheduler env u pid (reportedPolicy (m.task p)) param).wp m
      (fun r m' tr => r = 0 ∧ m' = m ∧ tr = []) := by
  obtain ⟨hpos, hd⟩ := paramAttr_describes hok hdl
  have hcopy := hmem.copyFromUser
  rw [length_bytes] at hcopy
  have hlt : (m.task p).rtPriority < 256 ^ 4 := by
    have := hok.rt_le
    simp only [TaskStruct.params] at this
    omega
  unfold schedSetscheduler doSchedSetscheduler
  rw [if_neg (not_lt.mpr hpos),
    if_neg (by rintro (h | h); exacts [hptr h, absurd hpid (not_le.mpr h)]), hcopy]
  dsimp only
  rw [if_neg (not_not.mpr rfl), wp_bind, wp_get, hfind]
  dsimp only
  unfold _schedSetscheduler
  rw [value_bytes hlt, wp_bind, wp_get]
  exact (__schedSetscheduler_same (e := env.setsched m.cpu.rq.curr p) hd hok hdl hmay.owner hmay.set
    hstop).mono fun r m' tr h => h

/-- `sched_getscheduler`. -/
theorem schedGetscheduler_ends {pid : ℤ} (hpid : 0 ≤ pid)
    (hfind : findProcessByPid env m.cpu.rq.curr pid = some p) (hget : env.securityGetscheduler = 0) :
    (schedGetscheduler env pid).wp m (fun r m' tr =>
      r = (reportedPolicy (m.task p)).toInt ∧ m' = m ∧ tr = []) := by
  unfold schedGetscheduler
  rw [if_neg (not_lt.mpr hpid), wp_bind, wp_get, hfind]
  dsimp only
  rw [if_neg (not_not.mpr hget), wp_ret]
  exact ⟨rfl, rfl, rfl⟩

theorem ends_of_wp {β : Type} {x : CoreM K β} {b : β}
    (h : x.wp m (fun r m' tr => r = b ∧ m' = m ∧ tr = [])) : x.Ends m b m [] := by
  obtain ⟨_, _, _, hends, rfl, rfl, rfl⟩ := h
  exact hends

/-- **What the readers report can be given back**: in every state of every run, for every task but
the stop task that is not a deadline task, and for everybody who may set its parameters. -/
theorem get_set_round_trip {L : Limits} {m₀ : Machine K} {F₀ F : Family α}
    (h₀ : ∀ q, ParamsOk (m₀.task q).params) (hr : SysRun L m₀ F₀ m F)
    (hdl : (m.task p).policy ≠ SCHED_DEADLINE) (hstop : m.cpu.rq.stop ≠ some p)
    (hmax : env.userMax ≤ 2 ^ 63) {pid : ℤ} (hpid : 0 ≤ pid)
    (hfind : findProcessByPid env m.cpu.rq.curr pid = some p) (hmay : MaySet env m.cpu.rq.curr p) :
    (∀ (u : UserMem) (uattr : U64) (size : BitVec 32), uattr ≠ 0 →
      SCHED_ATTR_SIZE_VER0 ≤ size.toNat ∧ size.toNat ≤ PAGE_SIZE →
      accessOk env.userMax uattr size.toNat = true → Accessible u uattr sizeofSchedAttr →
      ∃ u', (schedGetattr env u pid uattr size 0).Ends m (0, u') m [] ∧
        (schedSetattr env u' pid uattr 0).Ends m (0, u') m []) ∧
    (∀ (u : UserMem) (param : U64), param ≠ 0 → Accessible u param 4 →
      ∃ policy u', (schedGetscheduler env pid).Ends m policy.toInt m [] ∧
        (schedGetparam env u pid param).Ends m (0, u') m [] ∧
        (schedSetscheduler env u' pid policy param).Ends m 0 m []) := by
  have hok := hr.paramsOk h₀ p
  have hdl' : dlPolicy (m.task p).policy = false := decide_eq_false hdl
  constructor
  · intro u uattr size hptr hsize hacc hmem
    refine ⟨_, ends_of_wp (schedGetattr_ends hpid hfind hptr hsize hacc hmem hmay.get
      (size_taskAttr _)), ends_of_wp ?_⟩
    have hknown : accessOk env.userMax uattr SCHED_ATTR_SIZE_VER0 = true := by
      have := of_decide_eq_true hacc
      exact decide_eq_true (by omega)
    exact schedSetattr_same hmax hpid hfind hptr hknown
      (hmem.holds (UserAttr.length_bytes _) (by decide)) hmay hok hdl' hstop
  · intro u param hptr hmem
    refine ⟨reportedPolicy (m.task p), _, ends_of_wp (schedGetscheduler_ends hpid hfind hmay.get),
      ends_of_wp (schedGetparam_ends hpid hfind hptr hmem hmay.get hok), ends_of_wp ?_⟩
    exact schedSetscheduler_same hpid hfind hptr (hmem.holds (length_bytes 4 _) (by decide)) hmay hok
      hdl' hstop

set_option maxRecDepth 2000 in
/-- Task 1, which has become a real-time task, reads its own parameters and sets them. -/
theorem get_set_round_trip_rt : ∃ (m : Machine smallKernel) (F : Family (Fin 4)) (u : UserMem),
    SysRun ⟨0, 10⟩ smallBoot (.of fun _ => False) m F ∧ (m.task 1).policy = SCHED_FIFO ∧
    (schedGetattr plainEnv paramMem 0 4096 48 0).Ends m (0, u) m [] ∧
    (schedSetattr plainEnv u 0 4096 0).Ends m (0, u) m [] := by
  have h₀ : SysRun ⟨0, 10⟩ smallBoot (.of fun _ => False) smallBoot (.of fun _ => False) := .refl
  have h₁ := SysRun.kernel (.tryToWakeUp 1 TASK_NORMAL 0) h₀ trivial trivial ⟨3, rfl⟩
  have h₂ := SysRun.kernel (.schedule false false none) h₁ trivial trivial ⟨3, rfl⟩
  have h₃ := SysRun.call (.schedSetscheduler 0 1 4096) plainEnv paramMem h₂ (fun h => h.elim)
    (fun _ _ _ h => h.elim) ⟨3, rfl⟩
  have hround := get_set_round_trip (p := 1) smallBoot_paramsOk h₃ (by decide) (by decide)
    (show plainEnv.userMax ≤ 2 ^ 63 by decide) (show (0 : ℤ) ≤ 0 from le_refl 0) rfl
    ⟨.inr rfl, rfl, rfl⟩
  obtain ⟨u, hget, hset⟩ := hround.1 paramMem 4096 48 (by decide) (by decide) (by decide)
    ⟨fun _ _ => rfl, fun _ _ => rfl⟩
  exact ⟨_, _, u, h₃, rfl, hget, hset⟩

end KernelHacking.Syscall
