import Mathlib

/-! # Lists sorted by priority

A list of elements with a priority each, sorted, where elements of one priority stand in the order in
which they came.  An element is in the list at most once: adding it again moves it. -/

namespace KernelHacking

/-- A list sorted by priority. -/
structure Plist (ι α : Type) [LinearOrder ι] where
  nodes : List (ι × α)
  sorted : nodes.Pairwise fun x y => x.1 ≤ y.1
  nodup : (nodes.map Prod.snd).Nodup

namespace Plist

variable {ι α : Type} [LinearOrder ι] [DecidableEq α]

/-! ### Operations -/

def empty : Plist ι α := ⟨[], List.Pairwise.nil, List.nodup_nil⟩

/-- The node goes before the first one of a later priority. -/
def insertNode (prio : ι) (p : α) : List (ι × α) → List (ι × α)
  | [] => [(prio, p)]
  | x :: xs => if prio < x.1 then (prio, p) :: x :: xs else x :: insertNode prio p xs

omit [DecidableEq α] in
theorem mem_insertNode {prio : ι} {p : α} {xs : List (ι × α)} {x : ι × α} :
    x ∈ insertNode prio p xs ↔ x = (prio, p) ∨ x ∈ xs := by
  induction xs with
  | nil => simp [insertNode]
  | cons y ys ih =>
      unfold insertNode
      split
      · simp
      · simp only [List.mem_cons, ih]
        exact or_left_comm

omit [DecidableEq α] in
theorem insertNode_sorted {prio : ι} {p : α} {xs : List (ι × α)}
    (h : xs.Pairwise fun x y => x.1 ≤ y.1) :
    (insertNode prio p xs).Pairwise fun x y => x.1 ≤ y.1 := by
  induction xs with
  | nil => exact List.pairwise_singleton _ _
  | cons y ys ih =>
      obtain ⟨hy, hys⟩ := List.pairwise_cons.mp h
      unfold insertNode
      split
      · rename_i hlt
        refine List.pairwise_cons.mpr ⟨?_, h⟩
        intro x hx
        rcases List.mem_cons.mp hx with rfl | hx'
        · exact hlt.le
        · exact hlt.le.trans (hy x hx')
      · rename_i hle
        refine List.pairwise_cons.mpr ⟨?_, ih hys⟩
        intro x hx
        rcases mem_insertNode.mp hx with rfl | hx'
        · exact not_lt.mp hle
        · exact hy x hx'

omit [DecidableEq α] in
theorem insertNode_nodup {prio : ι} {p : α} {xs : List (ι × α)} (h : (xs.map Prod.snd).Nodup)
    (hp : p ∉ xs.map Prod.snd) : ((insertNode prio p xs).map Prod.snd).Nodup := by
  induction xs with
  | nil => exact List.nodup_singleton p
  | cons y ys ih =>
      rw [List.map_cons, List.mem_cons, not_or] at hp
      rw [List.map_cons, List.nodup_cons] at h
      unfold insertNode
      split
      · rw [List.map_cons, List.map_cons, List.nodup_cons, List.nodup_cons]
        exact ⟨by rw [List.mem_cons, not_or]; exact hp, h⟩
      · rw [List.map_cons, List.nodup_cons]
        refine ⟨?_, ih h.2 hp.2⟩
        intro hy
        obtain ⟨x, hx, hxy⟩ := List.mem_map.mp hy
        rcases mem_insertNode.mp hx with rfl | hx'
        · exact hp.1 hxy
        · exact h.1 (List.mem_map.mpr ⟨x, hx', hxy⟩)

/-- `plist_del`, which does nothing to an element that is not in the list. -/
def del (p : α) (l : Plist ι α) : Plist ι α where
  nodes := l.nodes.filter fun x => decide (x.2 ≠ p)
  sorted := l.sorted.filter _
  nodup := l.nodup.sublist (List.filter_sublist.map _)

theorem mem_del {p : α} {l : Plist ι α} {x : ι × α} :
    x ∈ (l.del p).nodes ↔ x ∈ l.nodes ∧ x.2 ≠ p := by
  unfold del
  rw [List.mem_filter, decide_eq_true_eq]

/-- `plist_del`, `plist_node_init` and `plist_add`. -/
def add (prio : ι) (p : α) (l : Plist ι α) : Plist ι α where
  nodes := insertNode prio p (l.del p).nodes
  sorted := insertNode_sorted (l.del p).sorted
  nodup := by
    refine insertNode_nodup (l.del p).nodup ?_
    intro hp
    obtain ⟨x, hx, hxp⟩ := List.mem_map.mp hp
    exact (mem_del.mp hx).2 hxp

theorem mem_add {prio : ι} {p : α} {l : Plist ι α} {x : ι × α} :
    x ∈ (l.add prio p).nodes ↔ x = (prio, p) ∨ x ∈ l.nodes ∧ x.2 ≠ p := by
  show x ∈ insertNode prio p (l.del p).nodes ↔ _
  rw [mem_insertNode, mem_del]

omit [DecidableEq α] in
/-- The first node has the first priority. -/
theorem first_le {l : Plist ι α} {x y : ι × α} (hx : l.nodes.head? = some x) (hy : y ∈ l.nodes) :
    x.1 ≤ y.1 := by
  obtain ⟨xs, hxs⟩ := List.head?_eq_some_iff.mp hx
  rw [hxs, List.mem_cons] at hy
  rcases hy with rfl | hy
  · exact le_rfl
  · have hsorted := l.sorted
    rw [hxs, List.pairwise_cons] at hsorted
    exact hsorted.1 y hy

end Plist

end KernelHacking
