import KernelHacking.Cgroup.TaskGroup

/-! # Quotas of task groups

The part of `core.c` that exists with `CONFIG_CFS_BANDWIDTH`: a group may use `quota` of every
`period`, and a change is checked by a walk over the hierarchy that hands the limits down in
`hierarchical_quota`.  A walk that fails leaves the limits it has handed down so far behind.  The
throttling itself is in `fair.c` and not part of the source; `init_cfs_bandwidth`, which gives a new
group its values, is the parameter `init`. -/

namespace KernelHacking.Cgroup.Cfs

open Word KernelHacking.Sched TreeWalk

/-- `max_cfs_quota_period`: 1 s. -/
def max_cfs_quota_period : U64 := 1000000000

/-- `min_cfs_quota_period`: 1 ms. -/
def min_cfs_quota_period : U64 := 1000000

/-- The period and the quota of `struct cfs_bandwidth`. -/
structure CfsBandwidth where
  period : U64
  quota : U64
deriving DecidableEq, Repr

structure State (α : Type) where
  links : Links α
  taskGroups : List α
  cfsBandwidth : α → CfsBandwidth
  hierarchicalQuota : α → U64

variable {α : Type} [DecidableEq α]

/-- `tg_get_cfs_quota`. -/
def tgGetCfsQuota (s : State α) (tg : α) : U64 :=
  if (s.cfsBandwidth tg).quota = RUNTIME_INF then -1 else (s.cfsBandwidth tg).quota / NSEC_PER_USEC

/-- `tg_get_cfs_period`. -/
def tgGetCfsPeriod (s : State α) (tg : α) : U64 := (s.cfsBandwidth tg).period / NSEC_PER_USEC

/-! ### The check -/

/-- `struct cfs_schedulable_data`: the values a group is about to get, in microseconds. -/
structure CfsSchedulableData (α : Type) where
  tg : α
  period : U64
  quota : U64

/-- `normalize_cfs_quota`. -/
def normalizeCfsQuota (s : State α) (d : CfsSchedulableData α) (tg : α) : U64 :=
  let period := if tg = d.tg then d.period else tgGetCfsPeriod s tg
  let quota := if tg = d.tg then d.quota else tgGetCfsQuota s tg
  if quota = RUNTIME_INF ∨ quota = -1 then RUNTIME_INF else toRatio period quota

/-- `tg_cfs_schedulable_down`, on the values of `hierarchical_quota`; `quota > parent_quota` compares
as `s64`. -/
def tgCfsSchedulableDown (s : State α) (d : CfsSchedulableData α) (tg : α)
    (hierarchicalQuota : α → U64) : ℤ × (α → U64) :=
  match s.links.parent tg with
  | none => (0, Function.update hierarchicalQuota tg RUNTIME_INF)
  | some parent =>
    let quota := normalizeCfsQuota s d tg
    let parentQuota := hierarchicalQuota parent
    if quota = RUNTIME_INF then (0, Function.update hierarchicalQuota tg parentQuota)
    else if parentQuota ≠ RUNTIME_INF ∧ parentQuota.toInt < quota.toInt then
      (-EINVAL, hierarchicalQuota)
    else (0, Function.update hierarchicalQuota tg quota)

/-- `__cfs_schedulable`: what it returns, and the state it leaves. -/
def __cfsSchedulable (root : α) (fuel : ℕ) (s : State α) (tg : α) (period quota : U64) :
    Option (ℤ × State α) :=
  let data := if quota ≠ RUNTIME_INF then
      { tg := tg, period := period / NSEC_PER_USEC, quota := quota / NSEC_PER_USEC }
    else { tg := tg, period := period, quota := quota }
  (walk s.links (tgCfsSchedulableDown s data) (fun _ h => (0, h)) root fuel s.hierarchicalQuota).map
    fun r => (r.1, { s with hierarchicalQuota := r.2 })

/-! ### The operations -/

/-- `tg_set_cfs_bandwidth`. -/
def tgSetCfsBandwidth (root : α) (fuel : ℕ) (s : State α) (tg : α) (period quota : U64) :
    Option (ℤ × State α) :=
  if tg = root then some (-EINVAL, s)
  else if quota < min_cfs_quota_period ∨ period < min_cfs_quota_period then some (-EINVAL, s)
  else if max_cfs_quota_period < period then some (-EINVAL, s)
  else (__cfsSchedulable root fuel s tg period quota).map fun r =>
    if r.1 ≠ 0 then r
    else
      let new := { period := period, quota := quota }
      (0, { r.2 with cfsBandwidth := Function.update r.2.cfsBandwidth tg new })

/-- `tg_set_cfs_quota`. -/
def tgSetCfsQuota (root : α) (fuel : ℕ) (s : State α) (tg : α) (cfsQuotaUs : BitVec 64) :
    Option (ℤ × State α) :=
  let period := (s.cfsBandwidth tg).period
  let quota := if cfsQuotaUs.toInt < 0 then RUNTIME_INF else cfsQuotaUs * NSEC_PER_USEC
  tgSetCfsBandwidth root fuel s tg period quota

/-- `tg_set_cfs_period`. -/
def tgSetCfsPeriod (root : α) (fuel : ℕ) (s : State α) (tg : α) (cfsPeriodUs : BitVec 64) :
    Option (ℤ × State α) :=
  tgSetCfsBandwidth root fuel s tg (cfsPeriodUs * NSEC_PER_USEC) (s.cfsBandwidth tg).quota

/-- `sched_create_group` and `sched_online_group`; `hierarchical_quota` is not set. -/
def schedOnlineGroup (init : CfsBandwidth) (s : State α) (tg parent : α) : State α :=
  { s with
    taskGroups := tg :: s.taskGroups
    links := s.links.addChild parent tg
    cfsBandwidth := Function.update s.cfsBandwidth tg init }

/-- `sched_offline_group`. -/
def schedOfflineGroup (s : State α) (tg : α) : State α :=
  { s with taskGroups := s.taskGroups.erase tg, links := s.links.removeChild tg }

/-! ### Runs -/

inductive Op (α : Type) where
  | online (tg parent : α)
  | offline (tg : α)
  | setQuota (tg : α) (cfsQuotaUs : BitVec 64)
  | setPeriod (tg : α) (cfsPeriodUs : BitVec 64)

/-- What the callers see to: a new group is new and its parent exists, and a group that goes has no
children. -/
def Op.Allowed (root : α) (s : State α) : Op α → Prop
  | .online tg parent => tg ∉ s.taskGroups ∧ parent ∈ s.taskGroups
  | .offline tg => tg ∈ s.taskGroups ∧ tg ≠ root ∧ s.links.children tg = []
  | .setQuota tg _ => tg ∈ s.taskGroups
  | .setPeriod tg _ => tg ∈ s.taskGroups

def Op.exec (init : CfsBandwidth) (root : α) (fuel : ℕ) (s : State α) :
    Op α → Option (ℤ × State α)
  | .online tg parent => some (0, schedOnlineGroup init s tg parent)
  | .offline tg => some (0, schedOfflineGroup s tg)
  | .setQuota tg us => tgSetCfsQuota root fuel s tg us
  | .setPeriod tg us => tgSetCfsPeriod root fuel s tg us

/-- The states reached from `s`; an operation takes as many steps as it needs. -/
inductive Reaches (init : CfsBandwidth) (root : α) (s : State α) : State α → Prop
  | start : Reaches init root s s
  | op {t t' : State α} {o : Op α} {fuel : ℕ} {ret : ℤ} :
      Reaches init root s t → o.Allowed root t → o.exec init root fuel t = some (ret, t') →
      Reaches init root s t'

end KernelHacking.Cgroup.Cfs
