import KernelHacking.Lib.Prog
import KernelHacking.Lib.Ring
import KernelHacking.Lib.Word

/-! # The circular list of the run-queue

`circlist.c` and `circlist.h`: an intrusive ring of `struct list_head` nodes with a head
pointer and an element count.  The three functions are written on a heap of nodes and a list
structure; their loops take a budget of link steps.  `Represents h l xs` ties a list structure
to the finite sequence it stands for, and each function is proved to do to the sequence what
its name says (`circularlistInsert_spec`, `circularlistRemove_spec`,
`circularlistTraverseDebug_spec`). -/

namespace KernelHacking

open TraceProg PtrRing Word

/-- `struct circular_lista`. -/
structure CircularList (α : Type) where
  head : Option α
  lastChosen : Option α
  count : ℕ
deriving DecidableEq, Repr

/-- Read through a pointer: null faults. -/
def derefE {α : Type} : Option α → Except Fault α
  | none => .error .nullDeref
  | some a => .ok a

/-! ### The functions of `circlist.c` -/

section functions
variable {α : Type} [DecidableEq α]

/-- `circularlist_insert`: link `newNode` in before `afterNode`, or start the list with it. -/
def circularlistInsert (h : Heap α) (l : CircularList α) (afterNode newNode : Option α) :
    Except Fault (Heap α × CircularList α) :=
  match newNode with
  | none => .ok (h, l)
  | some n =>
      if 0 < l.count then do
        let h := setNext h n afterNode
        let a ← derefE afterNode
        let h := setPrev h n (h a).prev
        let p ← derefE (h n).prev
        let h := setNext h p (some n)
        let h := setPrev h a (some n)
        .ok (h, { l with count := u32Add l.count 1 })
      else
        let h := setNext h n (some n)
        let h := setPrev h n (some n)
        .ok (h, { l with head := some n, count := u32Add l.count 1 })

/-- The search loop of `circularlist_remove`, at its test with `link` and `numSeenHead`.  The
counter of passes over the head is kept but decides nothing. -/
def searchLoop (h : Heap α) (l : CircularList α) (node : α) :
    ℕ → Option α → ℕ → Except Fault Unit
  | 0, link, _ => if link = some node then .ok () else .error .fuel
  | fuel + 1, link, numSeenHead =>
      if link = some node then .ok ()
      else
        match link with
        | none => .error .nullDeref
        | some x =>
            searchLoop h l node fuel (h x).next
              (if link = l.head then numSeenHead + 1 else numSeenHead)

/-- `circularlist_remove`: find `node` from the head and unlink it. -/
def circularlistRemove (fuel : ℕ) (h : Heap α) (l : CircularList α) (node : α) :
    Except Fault (Heap α × CircularList α) :=
  match l.head with
  | none => .ok (h, l)
  | some _ => do
      searchLoop h l node fuel l.head 0
      if 1 < l.count then do
        let p ← derefE (h node).prev
        let h := setNext h p (h node).next
        let q ← derefE (h node).next
        let h := setPrev h q (h node).prev
        .ok (h, { l with
          head := if l.head = some node then (h node).next else l.head
          count := u32Sub l.count 1 })
      else
        .ok (h, { l with head := none, count := u32Sub l.count 1 })

/-- The do-while loop of `circularlist_traverse_debug`, at the top of its body. -/
def traverseLoop (h : Heap α) (l : CircularList α) : ℕ → Option α → Except Fault Unit
  | 0, _ => .error .fuel
  | _ + 1, none => .error .nullDeref
  | fuel + 1, some x =>
      if (h x).next = l.head then .ok () else traverseLoop h l fuel (h x).next

/-- `circularlist_traverse_debug`: walk once around the ring. -/
def circularlistTraverseDebug (fuel : ℕ) (h : Heap α) (l : CircularList α) : Except Fault Unit :=
  match l.head with
  | none => .ok ()
  | some _ => traverseLoop h l fuel l.head

/-! ### A larger budget changes no result -/

theorem searchLoop_mono {h : Heap α} {l : CircularList α} {node : α} :
    ∀ {n k : ℕ} {link : Option α} {i : ℕ}, n ≤ k →
      searchLoop h l node n link i = .ok () → searchLoop h l node k link i = .ok ()
  | 0, k, link, i, _, hs => by
      have e : link = some node := by
        by_contra hne
        simp [searchLoop, hne] at hs
      cases k <;> simp [searchLoop, e]
  | n + 1, 0, _, _, hnk, _ => by omega
  | n + 1, k + 1, link, i, hnk, hs => by
      by_cases e : link = some node
      · simp [searchLoop, e]
      · simp only [searchLoop, if_neg e] at hs ⊢
        cases link with
        | none => simp at hs
        | some x => exact searchLoop_mono (by omega) hs

theorem traverseLoop_mono {h : Heap α} {l : CircularList α} :
    ∀ {n k : ℕ} {link : Option α}, n ≤ k →
      traverseLoop h l n link = .ok () → traverseLoop h l k link = .ok ()
  | 0, _, _, _, hs => by simp [traverseLoop] at hs
  | n + 1, 0, _, hnk, _ => by omega
  | n + 1, k + 1, none, _, hs => by simp [traverseLoop] at hs
  | n + 1, k + 1, some x, hnk, hs => by
      simp only [traverseLoop] at hs ⊢
      split at hs
      · rename_i e; simp [e]
      · rename_i e; rw [if_neg e]; exact traverseLoop_mono (by omega) hs

theorem circularlistRemove_mono {n k : ℕ} {h : Heap α} {l : CircularList α} {node : α}
    {r : Heap α × CircularList α} (hnk : n ≤ k) (hr : circularlistRemove n h l node = .ok r) :
    circularlistRemove k h l node = .ok r := by
  unfold circularlistRemove at hr ⊢
  cases hl : l.head with
  | none => simpa [hl] using hr
  | some x =>
      simp only [hl] at hr ⊢
      cases hs : searchLoop h l node n (some x) 0 with
      | error e => simp [hs, Bind.bind, Except.bind] at hr
      | ok u =>
          rw [hs] at hr
          rw [searchLoop_mono hnk hs]
          exact hr

theorem circularlistTraverseDebug_mono {n k : ℕ} {h : Heap α} {l : CircularList α}
    (hnk : n ≤ k) (hr : circularlistTraverseDebug n h l = .ok ()) :
    circularlistTraverseDebug k h l = .ok () := by
  unfold circularlistTraverseDebug at hr ⊢
  cases hl : l.head with
  | none => rfl
  | some x => simp only [hl] at hr ⊢; exact traverseLoop_mono hnk hr

end functions

/-! ### The sequence a list stands for -/

variable {α : Type}

/-- The list structure `l` in the heap `h` stands for the sequence `xs`. -/
structure Represents (h : Heap α) (l : CircularList α) (xs : List α) : Prop where
  nodup : xs.Nodup
  head : l.head = xs.head?
  count : l.count = xs.length
  ring : Ring h xs

namespace Represents

variable {h h' : Heap α} {l : CircularList α} {xs : List α}

theorem frame (hr : Represents h l xs) (he : ∀ u ∈ xs, h' u = h u) : Represents h' l xs :=
  ⟨hr.nodup, hr.head, hr.count, hr.ring.frame he⟩

theorem nil (h : Heap α) {l : CircularList α} (hh : l.head = none) (hc : l.count = 0) :
    Represents h l [] := ⟨List.nodup_nil, hh, hc, ring_nil h⟩

/-- A list represents one sequence. -/
theorem unique {ys : List α} (hr : Represents h l xs) (hr' : Represents h l ys) : xs = ys := by
  have hlen : xs.length = ys.length := hr.count.symm.trans hr'.count
  have hhead : xs.head? = ys.head? := hr.head.symm.trans hr'.head
  cases xs with
  | nil =>
      cases ys with
      | nil => rfl
      | cons y ys => cases hlen
  | cons x xs =>
      cases ys with
      | nil => cases hlen
      | cons y ys =>
          have e : x = y := Option.some.inj hhead
          subst e
          rw [isChain_unique hr.ring.isChain hr'.ring.isChain (Nat.succ.inj hlen)]

end Represents

section specs
variable [DecidableEq α] {h : Heap α} {l : CircularList α} {xs : List α}

/-- `x` put immediately before the first occurrence of `a`. -/
def insertBefore (x a : α) : List α → List α
  | [] => [x]
  | b :: ys => if b = a then x :: b :: ys else b :: insertBefore x a ys

/-- The sequence after an insertion before `a` in ring order: before the head is at the end. -/
def ringInsert (xs : List α) (a x : α) : List α :=
  if xs.head? = some a then xs ++ [x] else insertBefore x a xs

theorem insertBefore_append {x a : α} {pre post : List α} (ha : a ∉ pre) :
    insertBefore x a (pre ++ a :: post) = pre ++ x :: a :: post := by
  induction pre with
  | nil => simp [insertBefore]
  | cons b pre ih =>
      rw [List.mem_cons, not_or] at ha
      simp [insertBefore, Ne.symm ha.1, ih ha.2]

theorem erase_append_cons {x : α} {pre post : List α} (hx : x ∉ pre) :
    (pre ++ x :: post).erase x = pre ++ post := by
  rw [List.erase_append_right _ hx, List.erase_cons_head]

/-- **Insertion.**  A node outside the list goes in before `a`; the head stays, and no node
but those of the list and the new one is written. -/
theorem circularlistInsert_spec (hr : Represents h l xs) {a x : α} (ha : a ∈ xs) (hx : x ∉ xs)
    (hlen : xs.length + 1 < 2 ^ 32) :
    ∃ h' l', circularlistInsert h l (some a) (some x) = .ok (h', l') ∧
      Represents h' l' (ringInsert xs a x) ∧ l'.head = l.head ∧
      ∀ y, y ∉ xs → y ≠ x → h' y = h y := by
  obtain ⟨pre, post, rfl, hpre⟩ := List.eq_append_cons_of_mem ha
  have hring : Ring h (a :: (post ++ pre)) := by simpa using hr.ring.rotate
  have hnd : (a :: (post ++ pre)).Nodup := by
    have := List.nodup_append_comm.mp hr.nodup
    simpa using this
  obtain ⟨z, hz⟩ : ∃ z, (a :: (post ++ pre)).getLast (List.cons_ne_nil _ _) = z := ⟨_, rfl⟩
  have hprev : (h a).prev = some z := by rw [hring.prev_head, hz]
  have hzmem : z ∈ a :: (post ++ pre) := hz ▸ List.getLast_mem _
  have hmem : ∀ y, y ∈ pre ++ a :: post ↔ y ∈ a :: (post ++ pre) := by
    intro y
    simp only [List.mem_append, List.mem_cons]
    tauto
  have hxa : x ≠ a := fun e => hx (by simp [e])
  have hxz : x ≠ z := fun e => hx ((hmem x).mpr (e ▸ hzmem))
  have hcount : 0 < l.count := by rw [hr.count]; simp
  refine ⟨setPrev (setNext (setPrev (setNext h x (some a)) x (some z)) z (some x)) a (some x),
    { l with count := u32Add l.count 1 }, ?_, ?_, rfl, ?_⟩
  · simp [circularlistInsert, hcount, derefE, hprev, Bind.bind, Except.bind]
  · have hux : ∀ u ∈ a :: (post ++ pre), u ≠ x := fun u hu e => hx ((hmem x).mpr (e ▸ hu))
    have hlink : Ring
        (setPrev (setNext (setPrev (setNext h x (some a)) x (some z)) z (some x)) a (some x))
        (a :: (post ++ pre) ++ [x]) :=
      Ring.link hring hnd hz ⟨by simp, by simp [hxa]⟩ ⟨by simp [hxz], by simp⟩
        (fun u hu huz => by simp [huz, hux u hu]) (fun u hu hua => by simp [hua, hux u hu])
    have hseq : ringInsert (pre ++ a :: post) a x =
        if pre = [] then a :: post ++ [x] else pre ++ x :: a :: post := by
      cases pre with
      | nil => simp [ringInsert]
      | cons b pre =>
          have : b ≠ a := fun e => hpre (by simp [e])
          simp only [ringInsert, List.cons_append, List.head?_cons, Option.some.injEq, this,
            if_false]
          rw [← List.cons_append, insertBefore_append hpre]
          simp
    rw [hseq]
    refine ⟨?_, ?_, ?_, ?_⟩
    · have hnx : (a :: (post ++ pre) ++ [x]).Nodup := by
        rw [List.nodup_append]
        refine ⟨hnd, List.nodup_singleton x, ?_⟩
        intro u hu v hv e
        simp only [List.mem_singleton] at hv
        exact hx ((hmem x).mpr (hv ▸ e ▸ hu))
      have hp : List.Perm (a :: (post ++ pre) ++ [x])
          (if pre = [] then a :: post ++ [x] else pre ++ x :: a :: post) := by
        split
        · rename_i e; simp [e]
        · have hc : List.Perm (a :: post ++ (pre ++ [x])) (pre ++ [x] ++ a :: post) :=
            List.perm_append_comm
          simpa using hc
      exact hp.nodup_iff.mp hnx
    · rw [hr.head]
      cases pre <;> simp
    · rw [hr.count, u32Add_of_lt hlen]
      split
      · rename_i e; simp [e]
      · simp only [List.length_append, List.length_cons]; omega
    · split
      · rename_i e; simpa [e] using hlink
      · have e : a :: (post ++ pre) ++ [x] = (a :: post) ++ (pre ++ [x]) := by simp
        rw [e] at hlink
        simpa using hlink.rotate
  · intro y hy hyx
    have hya : y ≠ a := fun e => hy (by simp [e])
    have hyz : y ≠ z := fun e => hy ((hmem y).mpr (e ▸ hzmem))
    rw [setPrev_of_ne _ _ hya, setNext_of_ne _ _ hyz, setPrev_of_ne _ _ hyx,
      setNext_of_ne _ _ hyx]

/-- Insertion into the empty list makes a one-node ring. -/
theorem circularlistInsert_nil (hr : Represents h l []) (after : Option α) (x : α) :
    ∃ h' l', circularlistInsert h l after (some x) = .ok (h', l') ∧ Represents h' l' [x] ∧
      ∀ y, y ≠ x → h' y = h y := by
  have hc : l.count = 0 := hr.count
  refine ⟨setPrev (setNext h x (some x)) x (some x),
    { l with head := some x, count := u32Add l.count 1 }, ?_, ?_, ?_⟩
  · simp [circularlistInsert, hc]
  · refine ⟨List.nodup_singleton x, rfl, by simp [hc, u32Add], ?_⟩
    rw [ring_iff_last]
    exact ⟨⟨by simp, by simp⟩, List.isChain_singleton x⟩
  · intro y hy
    rw [setPrev_of_ne _ _ hy, setNext_of_ne _ _ hy]

/-- Insertion before the head, as the scheduler does it: the node goes to the end. -/
theorem circularlistInsert_head (hr : Represents h l xs) {x : α} (hx : x ∉ xs)
    (hlen : xs.length + 1 < 2 ^ 32) :
    ∃ h' l', circularlistInsert h l l.head (some x) = .ok (h', l') ∧
      Represents h' l' (xs ++ [x]) ∧ ∀ y, y ∉ xs → y ≠ x → h' y = h y := by
  cases xs with
  | nil =>
      obtain ⟨h', l', hi, hr', hf⟩ := circularlistInsert_nil hr l.head x
      exact ⟨h', l', hi, hr', fun y _ hy => hf y hy⟩
  | cons a ys =>
      obtain ⟨h', l', hi, hr', -, hf⟩ := circularlistInsert_spec hr (List.mem_cons_self) hx hlen
      have hh : l.head = some a := hr.head
      rw [hh]
      exact ⟨h', l', hi, by simpa [ringInsert] using hr', hf⟩

/-! ### The loops -/

/-- The search finds a linked node after as many link steps as there are nodes before it. -/
theorem searchLoop_spec {x : α} {pre : List α} (hx : x ∉ pre)
    (hc : List.IsChain (Linked h) (pre ++ [x])) :
    ∀ {fuel i : ℕ}, pre.length ≤ fuel → searchLoop h l x fuel (pre ++ [x]).head? i = .ok () := by
  induction pre with
  | nil => intro fuel i _; cases fuel <;> simp [searchLoop]
  | cons b pre ih =>
      intro fuel i hf
      rw [List.mem_cons, not_or] at hx
      cases fuel with
      | zero => simp at hf
      | succ fuel =>
          have hbx : ¬ b = x := fun e => hx.1 e.symm
          have hnext : (h b).next = (pre ++ [x]).head? := by
            cases pre with
            | nil => exact (List.isChain_cons_cons.mp hc).1.1
            | cons c pre => exact (List.isChain_cons_cons.mp hc).1.1
          simp only [searchLoop, List.cons_append, List.head?_cons, Option.some.injEq, hbx,
            if_false, hnext]
          exact ih hx.2 hc.tail (by simpa using hf)

/-- The walk comes back to the head after as many link steps as there are nodes left. -/
theorem traverseLoop_spec {a : α} (hh : l.head = some a) {ys : List α} :
    ∀ {y : α} {fuel : ℕ}, a ∉ ys → List.IsChain (Linked h) (y :: (ys ++ [a])) →
      ys.length + 1 ≤ fuel → traverseLoop h l fuel (some y) = .ok () := by
  induction ys with
  | nil =>
      intro y fuel _ hc hf
      obtain ⟨fuel, rfl⟩ : ∃ f, fuel = f + 1 := ⟨fuel - 1, by omega⟩
      have hnext : (h y).next = some a := (List.isChain_cons_cons.mp hc).1.1
      simp [traverseLoop, hnext, hh]
  | cons b ys ih =>
      intro y fuel ha hc hf
      obtain ⟨fuel, rfl⟩ : ∃ f, fuel = f + 1 := ⟨fuel - 1, by omega⟩
      rw [List.mem_cons, not_or] at ha
      have hba : ¬ b = a := fun e => ha.1 e.symm
      rw [List.cons_append, List.isChain_cons_cons] at hc
      have hnext : (h y).next = some b := hc.1.1
      simp only [traverseLoop, hnext, hh, Option.some.injEq, hba, if_false]
      exact ih ha.2 hc.2 (by simpa using hf)

/-- **Traversal** of a list that stands for a sequence ends within `count` link steps. -/
theorem circularlistTraverseDebug_spec (hr : Represents h l xs) {fuel : ℕ}
    (hf : xs.length ≤ fuel) : circularlistTraverseDebug fuel h l = .ok () := by
  cases xs with
  | nil => simp [circularlistTraverseDebug, hr.head]
  | cons a ys =>
      have hh : l.head = some a := hr.head
      simp only [circularlistTraverseDebug, hh]
      exact traverseLoop_spec hh (List.nodup_cons.mp hr.nodup).1 ((ring_cons h a ys).mp hr.ring)
        (by simpa using hf)

/-- **Removal** of a linked node ends within `count` link steps and erases it from the
sequence; no node outside the list is written. -/
theorem circularlistRemove_spec (hr : Represents h l xs) {x : α} (hx : x ∈ xs)
    (hlen : xs.length < 2 ^ 32) :
    ∃ h' l', (∀ fuel, xs.idxOf x ≤ fuel → circularlistRemove fuel h l x = .ok (h', l')) ∧
      Represents h' l' (xs.erase x) ∧
      (l'.head = if xs = [x] then none else if l.head = some x then (h x).next else l.head) ∧
      ∀ y, y ∉ xs → h' y = h y := by
  obtain ⟨pre, post, rfl, hpre⟩ := List.eq_append_cons_of_mem hx
  have hidx : (pre ++ x :: post).idxOf x = pre.length := by
    rw [List.idxOf_append_of_notMem hpre, List.idxOf_cons_self, Nat.add_zero]
  have hsearch : ∀ fuel, pre.length ≤ fuel → searchLoop h l x fuel l.head 0 = .ok () := by
    intro fuel hf
    have e : l.head = (pre ++ [x]).head? := by rw [hr.head]; cases pre <;> rfl
    rw [e]
    refine searchLoop_spec hpre ?_ hf
    refine hr.ring.isChain.prefix ⟨post, ?_⟩
    simp
  obtain ⟨c, hc⟩ : ∃ c, l.head = some c := by
    rw [hr.head]; cases pre <;> simp
  rw [hidx, erase_append_cons hpre]
  have hcount := hr.count
  cases hrest : post ++ pre with
  | nil =>
      -- the only node: the links are left as they are
      obtain ⟨rfl, rfl⟩ := List.append_eq_nil_iff.mp hrest
      refine ⟨h, { l with head := none, count := u32Sub l.count 1 }, ?_, ?_, by simp, fun _ _ => rfl⟩
      · intro fuel hf
        have hs := hsearch fuel hf
        simp only [circularlistRemove, hc] at hs ⊢
        simp [hs, hcount, Bind.bind, Except.bind]
      · exact Represents.nil h rfl (by simp [hcount, u32Sub])
  | cons r ys =>
      have hring : Ring h (x :: r :: ys) := by
        have := hr.ring.rotate
        rwa [List.cons_append, hrest] at this
      have hnd : (x :: r :: ys).Nodup := by
        have := List.nodup_append_comm.mp hr.nodup
        rwa [List.cons_append, hrest] at this
      obtain ⟨hxr, hnd'⟩ := List.nodup_cons.mp hnd
      obtain ⟨z, hz⟩ : ∃ z, (r :: ys).getLast (List.cons_ne_nil _ _) = z := ⟨_, rfl⟩
      have hzmem : z ∈ r :: ys := hz ▸ List.getLast_mem _
      have hprev : (h x).prev = some z := by
        rw [hring.prev_head, ← hz, List.getLast_cons (List.cons_ne_nil _ _)]
      have hnext : (h x).next = some r := (List.isChain_cons_cons.mp hring.isChain).1.1
      have hxz : x ≠ z := fun e => hxr (e ▸ hzmem)
      have hxr' : x ≠ r := fun e => hxr (by simp [e])
      have hmem : ∀ y, y ∈ pre ++ x :: post ↔ y = x ∨ y ∈ r :: ys := by
        intro y
        rw [← hrest]
        simp only [List.mem_append, List.mem_cons]
        tauto
      have hlen2 : (pre ++ x :: post).length = (r :: ys).length + 1 := by
        rw [← hrest]; simp only [List.length_append, List.length_cons]; omega
      have hc1 : 1 < l.count := by rw [hcount, hlen2]; simp
      have hne : pre ++ x :: post ≠ [x] := by
        intro e
        rw [e] at hlen2
        simp at hlen2
      refine ⟨setPrev (setNext h z (some r)) r (some z),
        { l with head := if l.head = some x then some r else l.head,
                 count := u32Sub l.count 1 }, ?_, ?_, by simp [hne, hnext], ?_⟩
      · intro fuel hf
        have hs := hsearch fuel hf
        simp only [circularlistRemove, hc] at hs ⊢
        simp [hs, hc1, derefE, hprev, hnext, hxz, Bind.bind, Except.bind]
      · have hunlink : Ring (setPrev (setNext h z (some r)) r (some z)) (r :: ys) :=
          Ring.unlink hring hnd' hz ⟨by simp, by simp⟩ (fun u _ hu => by simp [hu])
            (fun u _ hu => by simp [hu])
        refine ⟨?_, ?_, ?_, ?_⟩
        · have := List.nodup_append_comm.mp (hrest ▸ hnd')
          exact this
        · have hh := hr.head
          cases pre with
          | nil =>
              simp only [List.nil_append, List.append_nil] at hh hrest ⊢
              simp [hh, hrest]
          | cons b pre =>
              have hbx : ¬ b = x := fun e => hpre (by simp [e])
              simp only [List.cons_append, List.head?_cons] at hh ⊢
              simp [hh, hbx]
        · rw [hcount, u32Sub_of_le (by rw [hlen2]; omega) hlen]
          simp
        · rw [← hrest] at hunlink
          exact hunlink.rotate
      · intro y hy
        rw [hmem, not_or] at hy
        have hyr : y ≠ r := fun e => hy.2 (by simp [e])
        have hyz : y ≠ z := fun e => hy.2 (e ▸ hzmem)
        rw [setPrev_of_ne _ _ hyr, setNext_of_ne _ _ hyz]

/-! ### The field no function writes -/

/-- A read through a pointer that does not fault. -/
theorem derefE_bind_ok {β γ : Type} {o : Option β} {f : β → Except Fault γ} {r : γ}
    (hf : (derefE o >>= f) = .ok r) : ∃ a, o = some a ∧ f a = .ok r := by
  cases o with
  | none => cases hf
  | some a => exact ⟨a, rfl, hf⟩

/-- No list function writes `last_chosen`. -/
theorem circularlistInsert_lastChosen {after : Option α} {n : α} {r : Heap α × CircularList α}
    (hi : circularlistInsert h l after (some n) = .ok r) : r.2.lastChosen = l.lastChosen := by
  simp only [circularlistInsert] at hi
  split at hi
  · obtain ⟨a, -, hi⟩ := derefE_bind_ok hi
    obtain ⟨p, -, hi⟩ := derefE_bind_ok hi
    cases hi
    rfl
  · cases hi
    rfl

theorem circularlistRemove_lastChosen {fuel : ℕ} {x : α} {r : Heap α × CircularList α}
    (hrem : circularlistRemove fuel h l x = .ok r) : r.2.lastChosen = l.lastChosen := by
  unfold circularlistRemove at hrem
  cases hl : l.head with
  | none =>
      rw [hl] at hrem
      cases hrem
      rfl
  | some y =>
      simp only [hl] at hrem
      cases hs : searchLoop h l x fuel (some y) 0 with
      | error e => rw [hs] at hrem; cases hrem
      | ok u =>
          rw [hs] at hrem
          change (if 1 < l.count then _ else _) = _ at hrem
          split at hrem
          · obtain ⟨p, -, hrem⟩ := derefE_bind_ok hrem
            obtain ⟨q, -, hrem⟩ := derefE_bind_ok hrem
            cases hrem
            rfl
          · cases hrem
            rfl

/-! ### Sequences of calls -/

/-- A call of the list functions that change the list. -/
inductive ListCall (α : Type) where
  | insert (after : Option α) (x : α)
  | remove (x : α)

/-- The abstract behaviour of a call, on the sequence; `none` outside its precondition: the
inserted node is not in the list, `after` is (unless the list is empty) and the count does not
wrap, the removed node is in the list. -/
def ListCall.onSeq : ListCall α → List α → Option (List α)
  | .insert after x, xs =>
      if x ∈ xs ∨ 2 ^ 32 ≤ xs.length + 1 then none
      else if xs = [] then some [x]
      else
        match after with
        | none => none
        | some a => if a ∈ xs then some (ringInsert xs a x) else none
  | .remove x, xs => if x ∈ xs then some (xs.erase x) else none

/-- The call itself, on the heap and the list structure. -/
def ListCall.exec (fuel : ℕ) : ListCall α → Heap α × CircularList α →
    Except Fault (Heap α × CircularList α)
  | .insert after x, (h, l) => circularlistInsert h l after (some x)
  | .remove x, (h, l) => circularlistRemove fuel h l x

theorem ringInsert_length {a x : α} (ha : a ∈ xs) : (ringInsert xs a x).length = xs.length + 1 := by
  unfold ringInsert
  split
  · simp
  · obtain ⟨pre, post, rfl, hpre⟩ := List.eq_append_cons_of_mem ha
    rw [insertBefore_append hpre]
    simp only [List.length_append, List.length_cons]
    omega

/-- One call does to the list what it does to the sequence. -/
theorem ListCall.exec_spec (hr : Represents h l xs) (hlen : xs.length < 2 ^ 32) {c : ListCall α}
    {ys : List α} (hc : c.onSeq xs = some ys) :
    ∃ h' l', (∀ fuel, xs.length ≤ fuel → c.exec fuel (h, l) = .ok (h', l')) ∧
      Represents h' l' ys ∧ ys.length < 2 ^ 32 := by
  cases c with
  | insert after x =>
      simp only [onSeq] at hc
      split at hc
      · cases hc
      · rename_i hpre
        rw [not_or, not_le] at hpre
        split at hc
        · rename_i he
          subst he
          obtain ⟨h', l', hi, hr', -⟩ := circularlistInsert_nil hr after x
          obtain rfl := Option.some.inj hc
          exact ⟨h', l', fun _ _ => hi, hr', by simp⟩
        · cases after with
          | none => cases hc
          | some a =>
              dsimp only at hc
              split at hc
              · rename_i ha
                obtain ⟨h', l', hi, hr', -⟩ := circularlistInsert_spec hr ha hpre.1 hpre.2
                obtain rfl := Option.some.inj hc
                refine ⟨h', l', fun _ _ => hi, hr', ?_⟩
                rw [ringInsert_length ha]
                exact hpre.2
              · cases hc
  | remove x =>
      simp only [onSeq] at hc
      split at hc
      · rename_i hx
        obtain ⟨h', l', hrem, hr', -⟩ := circularlistRemove_spec hr hx hlen
        obtain rfl := Option.some.inj hc
        refine ⟨h', l', fun fuel hf => hrem fuel ?_, hr', ?_⟩
        · have := List.idxOf_le_length (a := x) (l := xs)
          omega
        · have := List.length_erase_of_mem hx
          omega
      · cases hc

/-- A sequence of calls within their preconditions keeps the list a ring. -/
theorem ListCall.run_spec : ∀ (calls : List (ListCall α)) {h : Heap α} {l : CircularList α}
    {xs ys : List α}, Represents h l xs → xs.length < 2 ^ 32 →
    calls.foldlM (fun xs c => c.onSeq xs) xs = some ys →
    ∃ h' l' n, (∀ fuel, n ≤ fuel →
        calls.foldlM (fun s c => c.exec fuel s) (h, l) = .ok (h', l')) ∧
      Represents h' l' ys
  | [], h, l, xs, ys, hr, _, hc => by
      obtain rfl : xs = ys := by simpa using hc
      exact ⟨h, l, 0, fun _ _ => rfl, hr⟩
  | c :: calls, h, l, xs, ys, hr, hlen, hc => by
      rw [List.foldlM_cons] at hc
      cases hx : c.onSeq xs with
      | none => rw [hx] at hc; cases hc
      | some xs₁ =>
          rw [hx] at hc
          obtain ⟨h₁, l₁, he, hr₁, hlen₁⟩ := exec_spec hr hlen hx
          obtain ⟨h', l', n, hrun, hr'⟩ := run_spec calls hr₁ hlen₁ hc
          refine ⟨h', l', max xs.length n, fun fuel hf => ?_, hr'⟩
          rw [List.foldlM_cons, he fuel (by omega)]
          exact hrun fuel (by omega)

/-- **The pointer-level list refines a finite sequence.**  On a list that stands for `xs`,
insertion of a fresh node before a linked one, insertion into the empty list and removal of a
linked node end, do to the sequence what is meant and write no other node; so does every
sequence of such calls. -/
theorem circlist_refines_sequence (hr : Represents h l xs) (hcount : l.count < 2 ^ 32) :
    (∀ a x, a ∈ xs → x ∉ xs → l.count + 1 < 2 ^ 32 →
      ∃ h' l', circularlistInsert h l (some a) (some x) = .ok (h', l') ∧
        Represents h' l' (ringInsert xs a x) ∧ l'.head = l.head ∧
        ∀ y, y ∉ xs → y ≠ x → h' y = h y) ∧
    (xs = [] → ∀ after x, ∃ h' l', circularlistInsert h l after (some x) = .ok (h', l') ∧
      Represents h' l' [x] ∧ ∀ y, y ≠ x → h' y = h y) ∧
    (∀ x, x ∈ xs → ∃ h' l',
      (∀ fuel, l.count ≤ fuel → circularlistRemove fuel h l x = .ok (h', l')) ∧
      Represents h' l' (xs.erase x) ∧
      (l'.head = if xs = [x] then none else if l.head = some x then (h x).next else l.head) ∧
      ∀ y, y ∉ xs → h' y = h y) ∧
    (∀ (calls : List (ListCall α)) ys, calls.foldlM (fun xs c => c.onSeq xs) xs = some ys →
      ∃ h' l' n, (∀ fuel, n ≤ fuel →
          calls.foldlM (fun s c => c.exec fuel s) (h, l) = .ok (h', l')) ∧
        Represents h' l' ys ∧ l'.count = ys.length) := by
  have hlen : xs.length < 2 ^ 32 := hr.count ▸ hcount
  refine ⟨?_, ?_, ?_, ?_⟩
  · intro a x ha hx hc
    rw [hr.count] at hc
    exact circularlistInsert_spec hr ha hx hc
  · rintro rfl after x
    exact circularlistInsert_nil hr after x
  · intro x hx
    obtain ⟨h', l', hrem, hr', hh, hf⟩ := circularlistRemove_spec hr hx hlen
    refine ⟨h', l', fun fuel hfu => hrem fuel ?_, hr', hh, hf⟩
    have := List.idxOf_le_length (a := x) (l := xs)
    have := hr.count
    omega
  · intro calls ys hc
    obtain ⟨h', l', n, hrun, hr'⟩ := ListCall.run_spec calls hr hlen hc
    exact ⟨h', l', n, hrun, hr', hr'.count⟩

end specs

/-- A two-node ring: `0` is the head, `1` follows it. -/
def twoNodes : Heap ℕ := fun x => if x = 0 then ⟨some 1, some 1⟩ else ⟨some 0, some 0⟩

theorem twoNodes_represents : Represents twoNodes ⟨some 0, none, 2⟩ [0, 1] := by
  refine ⟨by decide, rfl, rfl, ?_⟩
  rw [ring_cons]
  simp [Linked, twoNodes]

/-- On the two-node ring, inserting `5` before the head and removing the old head. -/
theorem circlist_refines_sequence_twoNodes :
    ∃ h' l' n, (∀ fuel, n ≤ fuel →
        [ListCall.insert (some 0) 5, .remove 0].foldlM (fun s c => c.exec fuel s)
          (twoNodes, ⟨some 0, none, 2⟩) = .ok (h', l')) ∧
      Represents h' l' [1, 5] ∧ l'.count = [1, 5].length :=
  (circlist_refines_sequence twoNodes_represents (by norm_num)).2.2.2 _ [1, 5] (by decide)

/-! ### Removal of a node that is not linked -/

section absent
variable [DecidableEq α] {h : Heap α} {l : CircularList α} {xs : List α}

/-- The search for a node outside the ring goes round it until the budget is used up: every
link it looks at is a node of the ring, and the counter of passes over the head ends nothing. -/
theorem searchLoop_absent (hr : Ring h xs) {x : α} (hx : x ∉ xs) :
    ∀ (fuel i : ℕ) {y : α}, y ∈ xs → searchLoop h l x fuel (some y) i = .error .fuel
  | 0, i, y, hy => by
      have hyx : ¬ y = x := fun e => hx (e ▸ hy)
      simp [searchLoop, hyx]
  | fuel + 1, i, y, hy => by
      have hyx : ¬ y = x := fun e => hx (e ▸ hy)
      obtain ⟨z, hz, hnext⟩ := hr.next_mem hy
      simp only [searchLoop, Option.some.injEq, hyx, if_false, hnext]
      exact searchLoop_absent hr hx fuel _ hz

/-- No budget is enough to remove a node that is not in a nonempty list. -/
theorem circularlistRemove_absent (hr : Represents h l xs) (hne : xs ≠ []) {x : α} (hx : x ∉ xs)
    (fuel : ℕ) : circularlistRemove fuel h l x = .error .fuel := by
  obtain ⟨a, ys, rfl⟩ := List.exists_cons_of_ne_nil hne
  have hh : l.head = some a := hr.head
  have hs : searchLoop h l x fuel (some a) 0 = .error .fuel :=
    searchLoop_absent hr.ring hx fuel 0 List.mem_cons_self
  simp [circularlistRemove, hh, hs, Bind.bind, Except.bind]

/-- **`circularlist_remove` returns exactly on members and on the empty list.**  On a list that
stands for `xs` it ends, with nothing changed if `x` is not in `xs`, if and only if `x` is in
`xs` or there is no node to search. -/
theorem circularlistRemove_total_iff (hr : Represents h l xs) (hcount : l.count < 2 ^ 32) (x : α) :
    (∃ fuel h' l', circularlistRemove fuel h l x = .ok (h', l') ∧
      (x ∉ xs → h' = h ∧ l' = l)) ↔ x ∈ xs ∨ xs = [] := by
  constructor
  · rintro ⟨fuel, h', l', hrem, -⟩
    by_contra hno
    rw [not_or] at hno
    rw [circularlistRemove_absent hr hno.2 hno.1 fuel] at hrem
    cases hrem
  · rintro (hx | rfl)
    · obtain ⟨h', l', hrem, -⟩ := circularlistRemove_spec hr hx (hr.count ▸ hcount)
      exact ⟨_, h', l', hrem _ le_rfl, fun hn => absurd hx hn⟩
    · have hh : l.head = none := hr.head
      exact ⟨0, h, l, by simp [circularlistRemove, hh], fun _ => ⟨rfl, rfl⟩⟩

end absent

/-- On the two-node ring the removal of node `1` returns. -/
theorem circularlistRemove_total_iff_twoNodes :
    ∃ fuel h' l', circularlistRemove fuel twoNodes ⟨some 0, none, 2⟩ 1 = .ok (h', l') ∧
      (1 ∉ [0, 1] → h' = twoNodes ∧ l' = ⟨some 0, none, 2⟩) :=
  (circularlistRemove_total_iff twoNodes_represents (by norm_num) 1).mpr (.inl (by simp))

/-- Node `5` is not in the two-node ring, and the search for it goes round for ever. -/
theorem circularlistRemove_not_total :
    Represents twoNodes ⟨some 0, none, 2⟩ [0, 1] ∧ 5 ∉ [0, 1] ∧
      ¬ ∃ fuel h' l', circularlistRemove fuel twoNodes ⟨some 0, none, 2⟩ 5 = .ok (h', l') := by
  refine ⟨twoNodes_represents, by simp, ?_⟩
  rintro ⟨fuel, h', l', hrem⟩
  rw [circularlistRemove_absent twoNodes_represents (by simp) (by simp) fuel] at hrem
  cases hrem

end KernelHacking
