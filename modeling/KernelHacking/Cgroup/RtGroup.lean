import KernelHacking.Cgroup.TaskGroup

/-! # Real-time bandwidth of task groups

The part of `core.c` that exists with `CONFIG_RT_GROUP_SCHED`: task groups form a hierarchy, each with
a real-time runtime and period, and every change is checked by `tg_rt_schedulable` on the whole
hierarchy before it is made.  Groups are addressed by `α`; the hierarchy is the links `parent`,
`children` and `siblings`.  Each operation is one step: the check of the hierarchy and the change that
follows are made under `rt_constraints_mutex`, and the links change under `task_group_lock`.  That a
group does not come or go while another operation is at work, and that no such operation comes between
the check and the end of `sched_rt_handler`, which only has a mutex of its own for the whole, is
assumed.  Which groups have real-time tasks is left to the environment. -/

namespace KernelHacking.Cgroup.Rt

open Word KernelHacking.Sched TreeWalk

/-- `struct rt_bandwidth` of a group; `rtRq` is the runtime of its run-queue on each CPU. -/
structure RtBandwidth where
  rtPeriod : U64
  rtRuntime : U64
  rtRq : ℕ → U64

/-- The task groups and the settings under `/proc/sys/kernel`. -/
structure State (α : Type) where
  links : Links α
  taskGroups : List α
  rtBandwidth : α → RtBandwidth
  tgHasRtTasks : α → Bool
  /-- `sysctl_sched_rt_period`, an `unsigned int` -/
  sysctlSchedRtPeriod : BitVec 32
  /-- `sysctl_sched_rt_runtime`, an `int` -/
  sysctlSchedRtRuntime : BitVec 32
  /-- `def_rt_bandwidth.rt_period` -/
  defRtPeriod : U64

variable {α : Type} [DecidableEq α]

/-- `global_rt_period`. -/
def State.globalRtPeriod (s : State α) : U64 := s.sysctlSchedRtPeriod.setWidth 64 * NSEC_PER_USEC

/-- `global_rt_runtime`. -/
def State.globalRtRuntime (s : State α) : U64 :=
  if s.sysctlSchedRtRuntime.toInt < 0 then RUNTIME_INF
  else s.sysctlSchedRtRuntime.signExtend 64 * NSEC_PER_USEC

/-- `rt_bandwidth_enabled`. -/
def State.rtBandwidthEnabled (s : State α) : Bool := decide (0 ≤ s.sysctlSchedRtRuntime.toInt)

/-! ### The check -/

/-- `struct rt_schedulable_data`: the values a group is about to get. -/
structure RtSchedulableData (α : Type) where
  tg : Option α
  rtPeriod : U64
  rtRuntime : U64

/-- The period and the runtime of a group, or those it is about to get. -/
def RtSchedulableData.of (d : RtSchedulableData α) (s : State α) (tg : α) : U64 × U64 :=
  if d.tg = some tg then (d.rtPeriod, d.rtRuntime)
  else ((s.rtBandwidth tg).rtPeriod, (s.rtBandwidth tg).rtRuntime)

/-- `to_ratio` of these. -/
def RtSchedulableData.ratio (d : RtSchedulableData α) (s : State α) (tg : α) : U64 :=
  toRatio (d.of s tg).1 (d.of s tg).2

/-- `tg_rt_schedulable`. -/
def tgRtSchedulable (s : State α) (d : RtSchedulableData α) (tg : α) : ℤ :=
  let period := (d.of s tg).1
  let runtime := (d.of s tg).2
  if period < runtime ∧ runtime ≠ RUNTIME_INF then -EINVAL
  else if s.rtBandwidthEnabled ∧ runtime = 0 ∧ s.tgHasRtTasks tg then -EBUSY
  else
    let total := toRatio period runtime
    if toRatio s.globalRtPeriod s.globalRtRuntime < total then -EINVAL
    else
      let sum := ((s.links.children tg).map (d.ratio s)).foldl (· + ·) 0
      if total < sum then -EINVAL else 0

/-- `__rt_schedulable`: the walk over the hierarchy below `root_task_group`. -/
def __rtSchedulable (root : α) (fuel : ℕ) (s : State α) (d : RtSchedulableData α) : Option ℤ :=
  (walk s.links (fun tg u => (tgRtSchedulable s d tg, u)) (fun _ u => (0, u)) root fuel ()).map
    Prod.fst

/-! ### The operations -/

/-- `tg_set_rt_bandwidth`. -/
def tgSetRtBandwidth (root : α) (fuel : ℕ) (s : State α) (tg : α) (rtPeriod rtRuntime : U64) :
    Option (ℤ × State α) :=
  (__rtSchedulable root fuel s { tg := some tg, rtPeriod := rtPeriod, rtRuntime := rtRuntime }).map
    fun err =>
      if err ≠ 0 then (err, s)
      else
        let new := { rtPeriod := rtPeriod, rtRuntime := rtRuntime, rtRq := fun _ => rtRuntime }
        (0, { s with rtBandwidth := Function.update s.rtBandwidth tg new })

/-- `sched_group_set_rt_runtime`. -/
def schedGroupSetRtRuntime (root : α) (fuel : ℕ) (s : State α) (tg : α) (rtRuntimeUs : BitVec 64) :
    Option (ℤ × State α) :=
  let rtPeriod := (s.rtBandwidth tg).rtPeriod
  let rtRuntime := if rtRuntimeUs.toInt < 0 then RUNTIME_INF else rtRuntimeUs * NSEC_PER_USEC
  tgSetRtBandwidth root fuel s tg rtPeriod rtRuntime

/-- `sched_group_set_rt_period`. -/
def schedGroupSetRtPeriod (root : α) (fuel : ℕ) (s : State α) (tg : α) (rtPeriodUs : BitVec 64) :
    Option (ℤ × State α) :=
  let rtPeriod := rtPeriodUs * NSEC_PER_USEC
  let rtRuntime := (s.rtBandwidth tg).rtRuntime
  if rtPeriod = 0 then some (-EINVAL, s) else tgSetRtBandwidth root fuel s tg rtPeriod rtRuntime

/-- `sched_create_group` (`alloc_rt_sched_group`) and `sched_online_group`. -/
def schedOnlineGroup (s : State α) (tg parent : α) : State α :=
  let new := { rtPeriod := s.defRtPeriod, rtRuntime := 0, rtRq := fun _ => 0 }
  { s with
    taskGroups := tg :: s.taskGroups
    links := s.links.addChild parent tg
    rtBandwidth := Function.update s.rtBandwidth tg new }

/-- `sched_offline_group`. -/
def schedOfflineGroup (s : State α) (tg : α) : State α :=
  { s with taskGroups := s.taskGroups.erase tg, links := s.links.removeChild tg }

/-- `sched_rt_global_validate`; `runtime != RUNTIME_INF` compares the sign-extended value, and
`runtime > period` compares as `unsigned int`. -/
def schedRtGlobalValidate (s : State α) : ℤ :=
  if s.sysctlSchedRtPeriod = 0 then -EINVAL
  else if s.sysctlSchedRtRuntime.signExtend 64 ≠ RUNTIME_INF ∧
      s.sysctlSchedRtPeriod < s.sysctlSchedRtRuntime then -EINVAL
  else 0

/-- `sched_rt_handler` on a write of both settings.  `dlRet` is what
`sched_dl_global_constraints` returns. -/
def schedRtHandler (root : α) (fuel : ℕ) (s : State α) (period runtime : BitVec 32) (dlRet : ℤ) :
    Option (ℤ × State α) :=
  let new := { s with sysctlSchedRtPeriod := period, sysctlSchedRtRuntime := runtime }
  if schedRtGlobalValidate new ≠ 0 then some (schedRtGlobalValidate new, s)
  else (__rtSchedulable root fuel new { tg := none, rtPeriod := 0, rtRuntime := 0 }).map fun ret =>
    if ret ≠ 0 then (ret, s)
    else if dlRet ≠ 0 then (dlRet, s)
    else (0, { new with defRtPeriod := new.globalRtPeriod })

/-! ### Runs -/

/-- What can happen to the groups. -/
inductive Op (α : Type) where
  | online (tg parent : α)
  | offline (tg : α)
  | setRtRuntime (tg : α) (rtRuntimeUs : BitVec 64)
  | setRtPeriod (tg : α) (rtPeriodUs : BitVec 64)
  | sysctl (period runtime : BitVec 32) (dlRet : ℤ)
  /-- tasks come, go, or change their policy -/
  | tasks (has : α → Bool)

/-- What the callers see to: a new group is new and its parent exists, and a group that goes has no
children. -/
def Op.Allowed (root : α) (s : State α) : Op α → Prop
  | .online tg parent => tg ∉ s.taskGroups ∧ parent ∈ s.taskGroups
  | .offline tg => tg ∈ s.taskGroups ∧ tg ≠ root ∧ s.links.children tg = []
  | .setRtRuntime tg _ => tg ∈ s.taskGroups
  | .setRtPeriod tg _ => tg ∈ s.taskGroups
  | .sysctl _ _ _ => True
  | .tasks _ => True

def Op.exec (root : α) (fuel : ℕ) (s : State α) : Op α → Option (ℤ × State α)
  | .online tg parent => some (0, schedOnlineGroup s tg parent)
  | .offline tg => some (0, schedOfflineGroup s tg)
  | .setRtRuntime tg us => schedGroupSetRtRuntime root fuel s tg us
  | .setRtPeriod tg us => schedGroupSetRtPeriod root fuel s tg us
  | .sysctl period runtime dlRet => schedRtHandler root fuel s period runtime dlRet
  | .tasks has => some (0, { s with tgHasRtTasks := has })

/-- The states reached from `s`; an operation takes as many steps as it needs. -/
inductive Reaches (root : α) (s : State α) : State α → Prop
  | start : Reaches root s s
  | op {t t' : State α} {o : Op α} {fuel : ℕ} {ret : ℤ} :
      Reaches root s t → o.Allowed root t → o.exec root fuel t = some (ret, t') →
      Reaches root s t'

end KernelHacking.Cgroup.Rt
