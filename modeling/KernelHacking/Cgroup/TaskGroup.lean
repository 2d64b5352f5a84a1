import KernelHacking.Lib.TreeWalk
import KernelHacking.Sched.Core

/-! # The hierarchy of task groups

`sched_online_group` and `sched_offline_group` keep the task groups a tree below `root_task_group`:
the list `task_groups` holds the nodes of the tree (`Hierarchy.online`, `Hierarchy.offline`). -/

namespace KernelHacking.Cgroup

open TreeWalk Word

def NSEC_PER_USEC : U64 := 1000

variable {α : Type} {root : α} {links : Links α} {taskGroups : List α} {f : Forest α}

/-- The links of the groups are the tree with the forest `f` below the root, and `task_groups` lists
its nodes. -/
structure Hierarchy (root : α) (links : Links α) (taskGroups : List α) (f : Forest α) : Prop where
  isForest : IsForest links none (.node root f .nil)
  nodup : (root :: f.labels).Nodup
  groups : ∀ tg, tg ∈ taskGroups ↔ tg ∈ root :: f.labels
  groups_nodup : taskGroups.Nodup

theorem labels_tree (root : α) (f : Forest α) :
    (Forest.node root f .nil).labels = root :: f.labels := by
  simp [Forest.labels]

theorem Hierarchy.root_only (hparent : links.parent root = none) (hch : links.children root = []) :
    Hierarchy root links [root] .nil where
  isForest := ⟨hparent, hch, trivial, trivial⟩
  nodup := by simp [Forest.labels]
  groups _ := Iff.rfl
  groups_nodup := List.nodup_singleton root

variable [DecidableEq α]

section
variable {σ : Type} {down up : α → σ → ℤ × σ} {fuel : ℕ} {d : σ}

end

/-- `sched_online_group`. -/
theorem Hierarchy.online (h : Hierarchy root links taskGroups f) {tg parent : α}
    (hnew : tg ∉ taskGroups) (hparent : parent ∈ taskGroups) :
    ∃ f', Hierarchy root (links.addChild parent tg) (tg :: taskGroups) f' ∧
      ∀ x, x ∈ root :: f'.labels ↔ x ∈ root :: f.labels ∨ x = tg := by
  have hpt : parent ≠ tg := by rintro rfl; exact hnew hparent
  have hfresh : tg ∉ (Forest.node root f .nil).labels := by
    rw [labels_tree]
    exact fun hc => hnew ((h.groups tg).2 hc)
  have hnodup : (Forest.node root f .nil).labels.Nodup := by
    rw [labels_tree]
    exact h.nodup
  have htree := h.isForest.insert hfresh hpt
  have hnd := Forest.nodup_insert (p := parent) hnodup hfresh
  have hmem : ∀ x, x ∈ ((Forest.node root f .nil).insert parent tg).labels ↔
      x ∈ root :: f.labels ∨ x = tg := by
    intro x
    have hp : parent ∈ root :: f.labels := (h.groups parent).1 hparent
    rw [Forest.mem_labels_insert, labels_tree]
    simp only [hp, and_true]
  -- what comes out is again one tree below the root
  obtain ⟨f', hf'⟩ : ∃ f', (Forest.node root f .nil).insert parent tg = .node root f' .nil :=
    ⟨_, rfl⟩
  rw [hf'] at htree hnd hmem
  rw [labels_tree] at hnd hmem
  refine ⟨f', ⟨htree, hnd, fun x => ?_, List.nodup_cons.2 ⟨hnew, h.groups_nodup⟩⟩, hmem⟩
  rw [hmem, ← h.groups, List.mem_cons, or_comm]

/-- `sched_offline_group`, of a group without children. -/
theorem Hierarchy.offline (h : Hierarchy root links taskGroups f) {tg : α} (hroot : tg ≠ root)
    (hleaf : links.children tg = []) :
    Hierarchy root (links.removeChild tg) (taskGroups.erase tg) (f.remove tg) ∧
      ∀ x, x ∈ root :: (f.remove tg).labels ↔ x ∈ root :: f.labels ∧ x ≠ tg := by
  have htree := h.isForest.remove (a := tg) (by rw [labels_tree]; exact h.nodup)
  have hremove : (Forest.node root f .nil).remove tg = .node root (f.remove tg) .nil := by
    simp [Forest.remove, hroot.symm]
  rw [hremove] at htree
  have hmem : ∀ x, x ∈ root :: (f.remove tg).labels ↔ x ∈ root :: f.labels ∧ x ≠ tg := by
    intro x
    rw [← labels_tree, ← labels_tree, ← hremove]
    exact h.isForest.mem_labels_remove hleaf
  refine ⟨⟨htree, h.nodup.sublist ((Forest.labels_remove_sublist tg f).cons_cons root), fun x => ?_,
    h.groups_nodup.erase tg⟩, hmem⟩
  rw [hmem, ← h.groups, h.groups_nodup.mem_erase_iff, and_comm]

end KernelHacking.Cgroup
