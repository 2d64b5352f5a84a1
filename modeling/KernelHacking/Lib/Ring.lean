import Mathlib

/-! # Doubly linked rings in a heap of nodes

A heap gives every node address its two link fields.  `Ring h xs` says that the nodes of `xs`,
in this order, are linked into one cycle by `next`, and by `prev` the other way round; it is
`Cycle.Chain` of the relation `Linked h`, so it is invariant under rotation of `xs`
(`Ring.rotate`) and empty sequences and one-node cycles need no separate definition.

The two surgeries on a ring are described by what they do to the links, not by the code that
does it: `Ring.link` puts a fresh node between the last and the first node of a ring, and
`Ring.unlink` closes a ring over its first node.  By rotation this covers every position. -/

namespace PtrRing

/-- The two link fields of a node; `none` is the null pointer. -/
structure ListHead (α : Type) where
  next : Option α
  prev : Option α
deriving DecidableEq, Repr

/-- The link fields of every node address. -/
abbrev Heap (α : Type) := α → ListHead α

variable {α : Type}

section writes
variable [DecidableEq α]

/-- Write a `next` field. -/
def setNext (h : Heap α) (x : α) (v : Option α) : Heap α :=
  Function.update h x { h x with next := v }

/-- Write a `prev` field. -/
def setPrev (h : Heap α) (x : α) (v : Option α) : Heap α :=
  Function.update h x { h x with prev := v }

@[simp] theorem setNext_next (h : Heap α) (x y : α) (v : Option α) :
    (setNext h x v y).next = if y = x then v else (h y).next := by
  by_cases e : y = x
  · subst e; simp [setNext]
  · simp [setNext, e]

@[simp] theorem setNext_prev (h : Heap α) (x y : α) (v : Option α) :
    (setNext h x v y).prev = (h y).prev := by
  by_cases e : y = x
  · subst e; simp [setNext]
  · simp [setNext, e]

@[simp] theorem setPrev_prev (h : Heap α) (x y : α) (v : Option α) :
    (setPrev h x v y).prev = if y = x then v else (h y).prev := by
  by_cases e : y = x
  · subst e; simp [setPrev]
  · simp [setPrev, e]

@[simp] theorem setPrev_next (h : Heap α) (x y : α) (v : Option α) :
    (setPrev h x v y).next = (h y).next := by
  by_cases e : y = x
  · subst e; simp [setPrev]
  · simp [setPrev, e]

theorem setNext_of_ne (h : Heap α) {x y : α} (v : Option α) (e : y ≠ x) :
    setNext h x v y = h y := Function.update_of_ne e _ _

theorem setPrev_of_ne (h : Heap α) {x y : α} (v : Option α) (e : y ≠ x) :
    setPrev h x v y = h y := Function.update_of_ne e _ _

end writes

/-- `b` follows `a`, and `a` precedes `b`. -/
def Linked (h : Heap α) (a b : α) : Prop := (h a).next = some b ∧ (h b).prev = some a

/-- The nodes of `xs` form one ring, in this order. -/
def Ring (h : Heap α) (xs : List α) : Prop := Cycle.Chain (Linked h) (xs : Cycle α)

theorem ring_nil (h : Heap α) : Ring h [] := Cycle.Chain.nil _

theorem ring_cons (h : Heap α) (a : α) (l : List α) :
    Ring h (a :: l) ↔ List.IsChain (Linked h) (a :: (l ++ [a])) := Cycle.chain_coe_cons _ _ _

/-- A ring is a chain whose last node is linked to the first one. -/
theorem ring_iff_last (h : Heap α) (a : α) (l : List α) :
    Ring h (a :: l) ↔
      Linked h ((a :: l).getLast (List.cons_ne_nil _ _)) a ∧ List.IsChain (Linked h) (a :: l) := by
  unfold Ring
  rw [Cycle.chain_ne_nil (Linked h) (List.cons_ne_nil a l), List.isChain_cons_cons]

/-- Neighbours of the sequence are linked. -/
theorem Ring.isChain {h : Heap α} {xs : List α} (hr : Ring h xs) : List.IsChain (Linked h) xs := by
  cases xs with
  | nil => exact List.isChain_nil
  | cons a l => exact ((ring_iff_last h a l).mp hr).2

theorem Ring.rotate {h : Heap α} {xs ys : List α} (hr : Ring h (xs ++ ys)) : Ring h (ys ++ xs) := by
  have e : ((xs ++ ys : List α) : Cycle α) = ((ys ++ xs : List α) : Cycle α) :=
    Cycle.coe_eq_coe.mpr List.isRotated_append
  unfold Ring at hr ⊢
  rwa [← e]

/-- Links between neighbours of a duplicate-free chain survive writes to the `next` field of
its last node and to the `prev` field of its first node. -/
theorem isChain_frame {h h' : Heap α} {a z : α} {l : List α} (hn : (a :: l).Nodup)
    (hz : (a :: l).getLast (List.cons_ne_nil _ _) = z)
    (hnext : ∀ u ∈ a :: l, u ≠ z → (h' u).next = (h u).next)
    (hprev : ∀ u ∈ a :: l, u ≠ a → (h' u).prev = (h u).prev)
    (hc : List.IsChain (Linked h) (a :: l)) : List.IsChain (Linked h') (a :: l) := by
  rw [List.isChain_iff_getElem] at hc ⊢
  intro i hi
  obtain ⟨h1, h2⟩ := hc i hi
  constructor
  · rw [hnext _ (List.getElem_mem _), h1]
    rw [← hz, List.getLast_eq_getElem]
    intro e
    have := (hn.getElem_inj_iff).mp e
    simp only [List.length_cons] at this hi
    omega
  · rw [hprev _ (List.getElem_mem _), h2]
    intro e
    have e0 : (a :: l)[i + 1] = (a :: l)[0] := e
    have := hn.getElem_inj_iff.mp e0
    omega

/-- A ring is untouched by writes outside its nodes. -/
theorem Ring.frame {h h' : Heap α} {xs : List α} (hr : Ring h xs) (he : ∀ u ∈ xs, h' u = h u) :
    Ring h' xs := by
  cases xs with
  | nil => exact ring_nil h'
  | cons a l =>
      rw [ring_cons] at hr ⊢
      refine List.IsChain.imp_of_mem_imp (fun u v hu hv huv => ?_) hr
      have mem : ∀ w, w ∈ a :: (l ++ [a]) → w ∈ a :: l := by
        intro w hw
        simp only [List.mem_cons, List.mem_append, List.not_mem_nil, or_false] at hw ⊢
        tauto
      exact ⟨by rw [he u (mem u hu)]; exact huv.1, by rw [he v (mem v hv)]; exact huv.2⟩

/-- A fresh node between the last and the first node of a ring. -/
theorem Ring.link {h h' : Heap α} {a n z : α} {l : List α} (hr : Ring h (a :: l))
    (hn : (a :: l).Nodup) (hz : (a :: l).getLast (List.cons_ne_nil _ _) = z)
    (hzn : Linked h' z n) (hna : Linked h' n a)
    (hnext : ∀ u ∈ a :: l, u ≠ z → (h' u).next = (h u).next)
    (hprev : ∀ u ∈ a :: l, u ≠ a → (h' u).prev = (h u).prev) : Ring h' (a :: l ++ [n]) := by
  rw [ring_iff_last] at hr
  rw [List.cons_append, ring_iff_last]
  have hc := isChain_frame hn hz hnext hprev hr.2
  refine ⟨by simpa using hna, ?_⟩
  rw [← List.cons_append, List.isChain_append]
  refine ⟨hc, List.isChain_singleton n, ?_⟩
  intro u hu v hv
  rw [List.getLast?_eq_getLast_of_ne_nil (List.cons_ne_nil a l), hz] at hu
  simp only [Option.mem_def, Option.some.injEq, List.head?_cons] at hu hv
  rw [← hu, ← hv]
  exact hzn

/-- Closing a ring over its first node. -/
theorem Ring.unlink {h h' : Heap α} {x r z : α} {l : List α} (hr : Ring h (x :: r :: l))
    (hn : (r :: l).Nodup) (hz : (r :: l).getLast (List.cons_ne_nil _ _) = z)
    (hzr : Linked h' z r)
    (hnext : ∀ u ∈ r :: l, u ≠ z → (h' u).next = (h u).next)
    (hprev : ∀ u ∈ r :: l, u ≠ r → (h' u).prev = (h u).prev) : Ring h' (r :: l) := by
  rw [ring_iff_last, List.isChain_cons_cons] at hr
  rw [ring_iff_last, hz]
  exact ⟨hzr, isChain_frame hn hz hnext hprev hr.2.2⟩

/-- The node before the first one is the last one. -/
theorem Ring.prev_head {h : Heap α} {a : α} {l : List α} (hr : Ring h (a :: l)) :
    (h a).prev = some ((a :: l).getLast (List.cons_ne_nil _ _)) :=
  ((ring_iff_last h a l).mp hr).1.2

/-- A step along a ring stays on it. -/
theorem Ring.next_mem {h : Heap α} {xs : List α} (hr : Ring h xs) {x : α} (hx : x ∈ xs) :
    ∃ y ∈ xs, (h x).next = some y := by
  obtain ⟨pre, post, rfl⟩ := List.append_of_mem hx
  have hring := hr.rotate
  rw [List.cons_append, ring_cons] at hring
  cases hl : post ++ pre with
  | nil =>
      rw [hl, List.nil_append, List.isChain_cons_cons] at hring
      exact ⟨x, hx, hring.1.1⟩
  | cons y ys =>
      rw [hl, List.cons_append, List.isChain_cons_cons] at hring
      have hy : y ∈ post ++ pre := by rw [hl]; exact List.mem_cons_self
      refine ⟨y, ?_, hring.1.1⟩
      simp only [List.mem_append, List.mem_cons] at hy ⊢
      tauto

/-- The order of a ring determines its links. -/
theorem Ring.links_eq {h h' : Heap α} {xs : List α} (hr : Ring h xs) (hr' : Ring h' xs) {x : α}
    (hx : x ∈ xs) : h' x = h x := by
  obtain ⟨pre, post, rfl⟩ := List.append_of_mem hx
  have hring := hr.rotate
  have hring' := hr'.rotate
  rw [List.cons_append] at hring hring'
  have hprev : (h' x).prev = (h x).prev := by rw [hring.prev_head, hring'.prev_head]
  have hnext : (h' x).next = (h x).next := by
    rw [ring_cons] at hring hring'
    cases hl : post ++ pre with
    | nil =>
        rw [hl, List.nil_append, List.isChain_cons_cons] at hring hring'
        rw [hring.1.1, hring'.1.1]
    | cons y ys =>
        rw [hl, List.cons_append, List.isChain_cons_cons] at hring hring'
        rw [hring.1.1, hring'.1.1]
  cases hv : h' x
  cases hw : h x
  rw [hv, hw] at hprev hnext
  simp_all

/-- A chain is determined by its first node and its length. -/
theorem isChain_unique {h : Heap α} {a : α} {l l' : List α} (hc : List.IsChain (Linked h) (a :: l))
    (hc' : List.IsChain (Linked h) (a :: l')) (hlen : l.length = l'.length) : l = l' := by
  induction l generalizing a l' with
  | nil =>
      cases l' with
      | nil => rfl
      | cons y ys => cases hlen
  | cons x xs ih =>
      cases l' with
      | nil => cases hlen
      | cons y ys =>
          rw [List.isChain_cons_cons] at hc hc'
          have e : x = y := Option.some.inj (hc.1.1.symm.trans hc'.1.1)
          subst e
          rw [ih hc.2 hc'.2 (Nat.succ.inj hlen)]

end PtrRing
