import KernelHacking.Smp.PushQueue

/-! # The accounts of the real-time run-queues

For each CPU, which tasks are on its real-time run-queue, at which priority, and whether they may go to
another CPU; and which tasks may be pushed.  Every operation keeps the counters, the best priorities,
the lists and the mask equal to these accounts, and its `BUG_ON` and `WARN_ON` do not fire. -/

namespace KernelHacking.Push

open KernelHacking.Sched Function

variable {n : ℕ} {α : Type} [DecidableEq α]

/-! ### Accounts -/

/-- What a queue knows of a task. -/
structure Entry where
  prio : ℤ
  migratory : Bool

def Task.entry (t : Task n) : Entry := ⟨t.prio, decide (1 < t.nrCpusAllowed)⟩

/-- The number of tasks with an entry of a kind. -/
def tally [Fintype α] (A : α → Option Entry) (f : Entry → Bool) : ℕ :=
  (Finset.univ.filter fun p => (A p).any f = true).card

/-- An entry that another task has after one was struck out. -/
theorem update_none_eq_some {β : Type} {A : α → Option β} {p q : α} {v : β}
    (h : update A p none q = some v) : q ≠ p ∧ A q = some v := by
  have hq : q ≠ p := by
    rintro rfl
    rw [update_self] at h
    cases h
  rw [update_of_ne hq] at h
  exact ⟨hq, h⟩

/-- An entry after one was written. -/
theorem update_some_eq_some {β : Type} {A : α → Option β} {p q : α} {v w : β}
    (h : update A p (some w) q = some v) : (q = p ∧ w = v) ∨ A q = some v := by
  by_cases hq : q = p
  · subst hq
    rw [update_self, Option.some_inj] at h
    exact .inl ⟨rfl, h⟩
  · rw [update_of_ne hq] at h
    exact .inr h

/-- The priorities that occur. -/
def prios (A : α → Option Entry) : Set ℤ := {z | ∃ p e, A p = some e ∧ e.prio = z}

section
variable {A : α → Option Entry} {p : α} {e : Entry}

theorem tally_insert [Fintype α] (hp : A p = none) (f : Entry → Bool) :
    tally (update A p (some e)) f = tally A f + if f e then 1 else 0 := by
  have hnot : p ∉ Finset.univ.filter fun q => (A q).any f = true := by simp [hp]
  unfold tally
  cases hf : f e with
  | true =>
      rw [if_pos rfl, ← Finset.card_insert_of_notMem hnot]
      congr 1
      ext q
      by_cases hq : q = p
      · subst hq; simp [hf]
      · simp [hq]
  | false =>
      rw [if_neg Bool.false_ne_true, Nat.add_zero]
      congr 1
      ext q
      by_cases hq : q = p
      · subst hq; simp [hf, hp]
      · simp [hq]

theorem tally_erase [Fintype α] (hp : A p = some e) (f : Entry → Bool) :
    tally A f = tally (update A p none) f + if f e then 1 else 0 := by
  rw [← tally_insert (update_self p none A) f, update_idem, ← hp, update_eq_self]

theorem prios_insert (hp : A p = none) : prios (update A p (some e)) = insert e.prio (prios A) := by
  ext z
  constructor
  · rintro ⟨q, e', hq, rfl⟩
    rcases update_some_eq_some hq with ⟨-, rfl⟩ | hq'
    · exact .inl rfl
    · exact .inr ⟨q, e', hq', rfl⟩
  · rintro (rfl | ⟨q, e', hq, rfl⟩)
    · exact ⟨p, e, update_self .., rfl⟩
    · refine ⟨q, e', ?_, rfl⟩
      rw [update_of_ne, hq]
      rintro rfl
      rw [hp] at hq
      cases hq

end

/-! ### The priority array -/

/-- The array, the number of tasks and the best priority are those of the account. -/
structure QueueOk [Fintype α] (A : α → Option Entry) (rt : RtRq α) : Prop where
  range : ∀ p e, A p = some e → RtRange e.prio
  mem : ∀ i p, p ∈ rt.active.queue i ↔ ∃ e, A p = some e ∧ e.prio = i
  nodup : ∀ i, (rt.active.queue i).Nodup
  bitmap : ∀ i, rt.active.bitmap i = true ↔ rt.active.queue i ≠ []
  running : rt.rtNrRunning = tally A fun _ => true
  highest : IsLeast (insert MAX_RT_PRIO (prios A)) rt.highestPrio.curr

section
variable [Fintype α] {A : α → Option Entry} {rt : RtRq α} {p : α} {e : Entry}

theorem RtRange.toNat {z : ℤ} (h : RtRange z) : (z.toNat : ℤ) = z := Int.toNat_of_nonneg h.1

omit [DecidableEq α] in
/-- `on_rt_rq`. -/
theorem QueueOk.onRtRq_iff (h : QueueOk A rt) : onRtRq rt.active p ↔ (A p).isSome := by
  constructor
  · rintro ⟨i, -, hi⟩
    obtain ⟨e, he, -⟩ := (h.mem i p).mp hi
    rw [he]
    rfl
  · intro hp
    obtain ⟨e, he⟩ := Option.isSome_iff_exists.mp hp
    have hr := h.range p e he
    refine ⟨e.prio.toNat, ?_, (h.mem _ p).mpr ⟨e, he, hr.toNat.symm⟩⟩
    rw [List.mem_range]
    exact (Int.toNat_lt_toNat (by decide)).mpr hr.2

omit [DecidableEq α] [Fintype α] in
/-- `sched_find_first_bit` finds the best priority. -/
theorem firstPrio_isLeast {a : RtPrioArray α} (hrange : ∀ p e, A p = some e → RtRange e.prio)
    (hmem : ∀ i p, p ∈ a.queue i ↔ ∃ e, A p = some e ∧ e.prio = i)
    (hbitmap : ∀ i, a.bitmap i = true ↔ a.queue i ≠ []) :
    IsLeast (insert MAX_RT_PRIO (prios A)) (firstPrio a) := by
  have hbit : ∀ p e, A p = some e → a.bitmap e.prio.toNat = true := by
    intro p e he
    refine (hbitmap _).mpr (List.ne_nil_of_mem ((hmem _ p).mpr ⟨e, he, ?_⟩))
    exact (hrange p e he).toNat.symm
  have hlt : ∀ p e, A p = some e → e.prio.toNat < MAX_RT_PRIO.toNat := fun p e he =>
    (Int.toNat_lt_toNat (by decide)).mpr (hrange p e he).2
  unfold firstPrio
  cases hf : schedFindFirstBit a with
  | none =>
      refine ⟨.inl rfl, ?_⟩
      rintro z (rfl | ⟨p, e, he, rfl⟩)
      · exact le_rfl
      · exact absurd (hbit p e he)
          (List.find?_eq_none.mp hf _ (List.mem_range.mpr (hlt p e he)))
  | some i =>
      obtain ⟨hi, hi', hfirst⟩ := List.find?_range_eq_some.mp hf
      constructor
      · obtain ⟨p, hp⟩ := List.exists_mem_of_ne_nil _ ((hbitmap i).mp hi)
        obtain ⟨e, he, hei⟩ := (hmem i p).mp hp
        exact .inr ⟨p, e, he, hei⟩
      · rintro z (rfl | ⟨p, e, he, rfl⟩)
        · have h := List.mem_range.mp hi'
          show (i : ℤ) ≤ MAX_RT_PRIO
          unfold MAX_RT_PRIO at h ⊢
          omega
        · by_contra hc
          change ¬ (i : ℤ) ≤ e.prio at hc
          have hr := hrange p e he
          have hz := hr.toNat
          have hb := hfirst e.prio.toNat (by have := hr.toNat; show _ < _; omega)
          rw [hbit p e he] at hb
          cases hb

omit [DecidableEq α] [Fintype α] in
/-- `inc_rt_prio` touches the best priority only. -/
theorem incRtPrio_frame (prio : ℤ) (rt : RtRq α) : incRtPrio prio rt = { rt with
    highestPrio := { rt.highestPrio with curr := min prio rt.highestPrio.curr } } := by
  unfold incRtPrio
  split
  · rename_i hlt
    rw [min_eq_left (le_of_lt hlt)]
  · rename_i hge
    rw [min_eq_right (not_lt.mp hge)]

/-- `__enqueue_rt_entity`, the array. -/
theorem QueueOk.link (h : QueueOk A rt) (hp : A p = none) (hr : RtRange e.prio) (head : Bool) :
    QueueOk (update A p (some e)) (incRtPrio e.prio { rt with
      active := linkEntity e.prio p head rt.active
      rtNrRunning := rt.rtNrRunning + 1 }) := by
  obtain ⟨rt', hrt'⟩ : ∃ rt', rt' = incRtPrio e.prio { rt with
      active := linkEntity e.prio p head rt.active
      rtNrRunning := rt.rtNrRunning + 1 } := ⟨_, rfl⟩
  have hact : rt'.active = linkEntity e.prio p head rt.active := by rw [hrt', incRtPrio_frame]
  have hrun : rt'.rtNrRunning = rt.rtNrRunning + 1 := by rw [hrt', incRtPrio_frame]
  have hcurr : rt'.highestPrio.curr = min e.prio rt.highestPrio.curr := by rw [hrt', incRtPrio_frame]
  have hno : ∀ i, p ∉ rt.active.queue i := by
    intro i hi
    obtain ⟨e', he', -⟩ := (h.mem i p).mp hi
    rw [hp] at he'
    cases he'
  have hqueue : ∀ i q, q ∈ (linkEntity e.prio p head rt.active).queue i ↔
      (q = p ∧ i = e.prio.toNat) ∨ q ∈ rt.active.queue i := by
    intro i q
    unfold linkEntity
    dsimp only
    by_cases hi : i = e.prio.toNat
    · subst hi
      rw [update_self]
      cases head <;> simp [or_comm]
    · rw [update_of_ne hi]
      simp [hi]
  rw [← hrt']
  refine ⟨?_, ?_, ?_, ?_, ?_, ?_⟩
  · intro q e' hq
    rcases update_some_eq_some hq with ⟨-, rfl⟩ | hq'
    · exact hr
    · exact h.range q e' hq'
  · intro i q
    rw [hact, hqueue]
    by_cases hqp : q = p
    · subst hqp
      have hz := hr.toNat
      constructor
      · rintro (⟨-, rfl⟩ | hq)
        · exact ⟨e, update_self .., hz.symm⟩
        · exact absurd hq (hno i)
      · rintro ⟨e', he', hei⟩
        rw [update_self, Option.some_inj] at he'
        subst he'
        exact .inl ⟨rfl, by omega⟩
    · rw [update_of_ne hqp, ← h.mem i q]
      simp [hqp]
  · intro i
    rw [hact]
    unfold linkEntity
    dsimp only
    by_cases hi : i = e.prio.toNat
    · subst hi
      rw [update_self]
      have hnd := h.nodup e.prio.toNat
      cases head with
      | true => exact List.nodup_cons.mpr ⟨hno _, hnd⟩
      | false =>
          refine hnd.append (List.nodup_singleton p) ?_
          rw [List.disjoint_singleton]
          exact hno _
    · rw [update_of_ne hi]
      exact h.nodup i
  · intro i
    rw [hact]
    unfold linkEntity
    dsimp only
    by_cases hi : i = e.prio.toNat
    · subst hi
      rw [update_self, update_self]
      cases head <;> simp
    · rw [update_of_ne hi, update_of_ne hi]
      exact h.bitmap i
  · rw [hrun, tally_insert hp, h.running]
    rfl
  · rw [hcurr, prios_insert hp, Set.insert_comm]
    exact h.highest.insert e.prio

/-- `__dequeue_rt_entity`, the array. -/
theorem QueueOk.unlink (h : QueueOk A rt) (hp : A p = some e) :
    ∃ rt', decRtPrio e.prio { rt with
        active := unlinkEntity e.prio p rt.active
        rtNrRunning := rt.rtNrRunning - 1 } = some rt' ∧ QueueOk (update A p none) rt' ∧
      rt' = { rt with
        active := unlinkEntity e.prio p rt.active
        rtNrRunning := rt.rtNrRunning - 1
        highestPrio := { rt.highestPrio with curr := rt'.highestPrio.curr } } := by
  have hr := h.range p e hp
  have hrange : ∀ q e', update A p none q = some e' → RtRange e'.prio := fun q e' hq =>
    h.range q e' (update_none_eq_some hq).2
  have hmem : ∀ i q, q ∈ (unlinkEntity e.prio p rt.active).queue i ↔
      ∃ e', update A p none q = some e' ∧ e'.prio = i := by
    intro i q
    unfold unlinkEntity
    dsimp only
    rw [(h.nodup i).mem_erase_iff]
    by_cases hqp : q = p
    · subst hqp
      simp
    · rw [update_of_ne hqp, ← h.mem i q]
      simp [hqp]
  have hbitmap : ∀ i, (unlinkEntity e.prio p rt.active).bitmap i = true ↔
      (unlinkEntity e.prio p rt.active).queue i ≠ [] := by
    intro i
    unfold unlinkEntity
    dsimp only
    by_cases hi : i = e.prio.toNat
    · subst hi
      split
      · rename_i hnil
        rw [update_self]
        simp [hnil]
      · rename_i hne
        refine iff_of_true ?_ hne
        refine (h.bitmap _).mpr ?_
        intro hnil
        rw [hnil] at hne
        exact hne rfl
    · have hnot : p ∉ rt.active.queue i := by
        intro hpi
        obtain ⟨e', he', hei⟩ := (h.mem i p).mp hpi
        rw [hp, Option.some_inj] at he'
        subst he'
        exact hi (by omega)
      rw [List.erase_of_not_mem hnot, ← h.bitmap i]
      split
      · rw [update_of_ne hi]
      · exact Iff.rfl
  have hnodup : ∀ i, ((unlinkEntity e.prio p rt.active).queue i).Nodup := fun i =>
    (h.nodup i).erase p
  have hrunning : rt.rtNrRunning - 1 = tally (update A p none) fun _ => true := by
    rw [h.running, tally_erase hp]
    rfl
  have hleast := firstPrio_isLeast hrange hmem hbitmap
  have hbest : rt.highestPrio.curr ≤ e.prio := h.highest.2 (.inr ⟨p, e, hp, rfl⟩)
  have hsub : insert MAX_RT_PRIO (prios (update A p none)) ⊆ insert MAX_RT_PRIO (prios A) := by
    refine Set.insert_subset_insert ?_
    rintro z ⟨q, e', hq, rfl⟩
    exact ⟨q, e', (update_none_eq_some hq).2, rfl⟩
  unfold decRtPrio
  dsimp only
  by_cases hzero : rt.rtNrRunning - 1 = 0
  · rw [if_neg (not_not.mpr hzero)]
    refine ⟨_, rfl, ⟨hrange, hmem, hnodup, hbitmap, hrunning, .inl rfl, ?_⟩, rfl⟩
    -- nobody is left
    have hempty : ∀ q e', update A p none q ≠ some e' := by
      intro q e' hq
      have hcard := hrunning.symm.trans hzero
      unfold tally at hcard
      have hnot := Finset.eq_empty_iff_forall_notMem.mp (Finset.card_eq_zero.mp hcard) q
      exact hnot (by simp [hq])
    rintro z (rfl | ⟨q, e', hq, -⟩)
    · exact le_rfl
    · exact absurd hq (hempty q e')
  · rw [if_pos hzero, if_neg (not_lt.mpr hbest)]
    by_cases heq : e.prio = rt.highestPrio.curr
    · rw [if_pos heq]
      exact ⟨_, rfl, ⟨hrange, hmem, hnodup, hbitmap, hrunning, hleast⟩, rfl⟩
    · rw [if_neg heq]
      refine ⟨_, rfl, ⟨hrange, hmem, hnodup, hbitmap, hrunning, ?_, ?_⟩, rfl⟩
      · rcases h.highest.1 with hmax | ⟨q, e', hq, hqe⟩
        · exact .inl hmax
        · refine .inr ⟨q, e', ?_, hqe⟩
          rw [update_of_ne, hq]
          rintro rfl
          rw [hp, Option.some_inj] at hq
          exact heq (hq ▸ hqe)
      · exact fun z hz => h.highest.2 (hsub hz)

/-- `requeue_rt_entity`. -/
theorem QueueOk.requeue {t : Task n} (h : QueueOk A rt) (ht : ∀ e, A p = some e → e.prio = t.prio)
    (head : Bool) : QueueOk A (requeueRtEntity t p head rt) := by
  unfold requeueRtEntity
  split
  · rename_i hon
    obtain ⟨e, he⟩ := Option.isSome_iff_exists.mp (h.onRtRq_iff.mp hon)
    have hz := (h.range p e he).toNat
    have hmem : ∀ i q, q ∈ (Function.update (fun j => (rt.active.queue j).erase p) t.prio.toNat
        (if head then p :: (rt.active.queue t.prio.toNat).erase p
          else (rt.active.queue t.prio.toNat).erase p ++ [p])) i ↔ q ∈ rt.active.queue i := by
      intro i q
      have hp : p ∈ rt.active.queue i ↔ i = t.prio.toNat := by
        rw [h.mem i p, he]
        have := ht e he
        simp only [Option.some_inj, exists_eq_left']
        omega
      by_cases hi : i = t.prio.toNat
      · subst hi
        have hpi := hp.mpr rfl
        rw [update_self]
        cases head
        · simp only [Bool.false_eq_true, if_false, List.mem_append, (h.nodup _).mem_erase_iff,
            List.mem_singleton]
          grind
        · simp only [if_true, List.mem_cons, (h.nodup _).mem_erase_iff]
          grind
      · rw [update_of_ne hi, (h.nodup i).mem_erase_iff]
        have hpi := mt hp.mp hi
        grind
    refine ⟨h.range, fun i q => (hmem i q).trans (h.mem i q), ?_, ?_, h.running, h.highest⟩
    · intro i
      dsimp only
      by_cases hi : i = t.prio.toNat
      · subst hi
        have hnd := (h.nodup t.prio.toNat).erase p
        have hno : p ∉ (rt.active.queue t.prio.toNat).erase p := (h.nodup _).not_mem_erase
        rw [update_self]
        cases head with
        | true => exact List.nodup_cons.mpr ⟨hno, hnd⟩
        | false =>
            refine hnd.append (List.nodup_singleton p) ?_
            rw [List.disjoint_singleton]
            exact hno
      · rw [update_of_ne hi]
        exact (h.nodup i).erase p
    · intro i
      refine (h.bitmap i).trans (not_congr ?_)
      dsimp only
      rw [List.eq_nil_iff_forall_not_mem, List.eq_nil_iff_forall_not_mem]
      exact forall_congr' fun q => not_congr (hmem i q).symm
  · exact h

end

/-! ### Counters and overload -/

/-- The run-queue is exact. -/
structure RtOk [Fintype α] (A : α → Option Entry) (rt : RtRq α) : Prop extends QueueOk A rt where
  total : rt.rtNrTotal = tally A fun _ => true
  migratory : rt.rtNrMigratory = tally A Entry.migratory
  overloaded : rt.overloaded = decide (rt.rtNrMigratory ≠ 0 ∧ 1 < rt.rtNrTotal)

theorem requeueRtEntity_frame (t : Task n) (p : α) (head : Bool) (rt : RtRq α) :
    requeueRtEntity t p head rt = { rt with active := (requeueRtEntity t p head rt).active } := by
  unfold requeueRtEntity
  split <;> rfl

theorem RtOk.requeue [Fintype α] {A : α → Option Entry} {rt : RtRq α} (h : RtOk A rt) {t : Task n}
    {p : α} (ht : ∀ e, A p = some e → e.prio = t.prio) (head : Bool) :
    RtOk A (requeueRtEntity t p head rt) := by
  refine ⟨h.toQueueOk.requeue ht head, ?_, ?_, ?_⟩
  · rw [requeueRtEntity_frame]
    exact h.total
  · rw [requeueRtEntity_frame]
    exact h.migratory
  · rw [requeueRtEntity_frame]
    exact h.overloaded

/-- The mask has the overloaded CPUs that are online, and the counter their number. -/
structure MaskOk (rd : RootDomain n α) : Prop where
  mem : ∀ c, c ∈ rd.rtoMask ↔ rd.online c = true ∧ (rd.rt c).overloaded = true
  count : rd.rtoCount = rd.rtoMask.card

section
variable {rd : RootDomain n α} {c : Fin n}

omit [DecidableEq α] in
@[simp] theorem RootDomain.setRt_rt (rt : RtRq α) : (rd.setRt c rt).rt = update rd.rt c rt := rfl
omit [DecidableEq α] in
theorem updateRtMigration_rt (c : Fin n) (rd : RootDomain n α) : (updateRtMigration c rd).rt =
    update rd.rt c { rd.rt c with
      overloaded := decide ((rd.rt c).rtNrMigratory ≠ 0 ∧ 1 < (rd.rt c).rtNrTotal) } := by
  unfold updateRtMigration rtSetOverload rtClearOverload
  dsimp only
  split
  · rename_i hover
    split
    · rw [RootDomain.setRt_rt, decide_eq_true hover]
      split <;> rfl
    · rename_i hset
      rw [Bool.not_eq_false] at hset
      rw [decide_eq_true hover, ← hset, update_eq_self]
  · rename_i hover
    split
    · rw [RootDomain.setRt_rt, decide_eq_false hover]
      split <;> rfl
    · rename_i hset
      rw [Bool.not_eq_true] at hset
      rw [decide_eq_false hover, ← hset, update_eq_self]

omit [DecidableEq α] in
/-- One CPU changes: the others keep their bits. -/
theorem MaskOk.change (h : MaskOk rd) {rd' : RootDomain n α}
    (hother : ∀ d, d ≠ c → (d ∈ rd'.rtoMask ↔ d ∈ rd.rtoMask) ∧ rd'.online d = rd.online d ∧
      (rd'.rt d).overloaded = (rd.rt d).overloaded)
    (hself : c ∈ rd'.rtoMask ↔ rd'.online c = true ∧ (rd'.rt c).overloaded = true)
    (hcount : rd'.rtoCount = rd'.rtoMask.card) : MaskOk rd' := by
  refine ⟨?_, hcount⟩
  intro d
  by_cases hd : d = c
  · subst hd
    exact hself
  · obtain ⟨hmask, honline, hover⟩ := hother d hd
    rw [hmask, honline, hover]
    exact h.mem d

omit [DecidableEq α] in
/-- Nothing changes for the mask. -/
theorem MaskOk.setRt (h : MaskOk rd) {rt : RtRq α} (hrt : rt.overloaded = (rd.rt c).overloaded) :
    MaskOk (rd.setRt c rt) := by
  refine h.change (c := c) ?_ ?_ h.count
  · intro d hd
    simp [RootDomain.setRt, hd]
  · simp [RootDomain.setRt, hrt, h.mem c]

omit [DecidableEq α] in
/-- `rt_set_overload`. -/
theorem MaskOk.count_insert (h : MaskOk rd) (hc : c ∉ rd.rtoMask) :
    rd.rtoCount + 1 = (insert c rd.rtoMask).card := by
  rw [Finset.card_insert_of_notMem hc, h.count]
  push_cast
  rfl

omit [DecidableEq α] in
/-- `rt_clear_overload`. -/
theorem MaskOk.count_erase (h : MaskOk rd) (hc : c ∈ rd.rtoMask) :
    rd.rtoCount - 1 = (rd.rtoMask.erase c).card := by
  have hcard := Finset.card_erase_add_one hc
  have hcount := h.count
  omega

omit [DecidableEq α] in
/-- `update_rt_migration` keeps the mask. -/
theorem MaskOk.migration (h : MaskOk rd) (c : Fin n) : MaskOk (updateRtMigration c rd) := by
  have hmem := h.mem c
  unfold updateRtMigration rtSetOverload rtClearOverload
  dsimp only
  split
  · split
    · rename_i hset
      have hnot : c ∉ rd.rtoMask := by
        rw [hmem, hset]
        exact fun hc => Bool.noConfusion hc.2
      split
      · rename_i hon
        refine h.change (c := c) ?_ ?_ (h.count_insert hnot)
        · intro d hd
          simp [RootDomain.setRt, hd]
        · simp [RootDomain.setRt, hon]
      · rename_i hoff
        refine h.change (c := c) ?_ ?_ h.count
        · intro d hd
          simp [RootDomain.setRt, hd]
        · simp [RootDomain.setRt, hoff, hnot]
    · exact h
  · split
    · rename_i hset
      split
      · rename_i hon
        refine h.change (c := c) ?_ ?_ (h.count_erase (hmem.mpr ⟨hon, hset⟩))
        · intro d hd
          simp [RootDomain.setRt, hd]
        · simp [RootDomain.setRt]
      · rename_i hoff
        refine h.change (c := c) ?_ ?_ h.count
        · intro d hd
          simp [RootDomain.setRt, hd]
        · simp [RootDomain.setRt, hoff, hmem]
    · exact h

omit [DecidableEq α] in
theorem RootDomain.setRt_setRt (rt rt' : RtRq α) : (rd.setRt c rt).setRt c rt' = rd.setRt c rt' := by
  unfold RootDomain.setRt
  dsimp only
  rw [update_idem]

omit [DecidableEq α] in
theorem incRtMigration_setRt (t : Task n) (rt : RtRq α) : incRtMigration t c (rd.setRt c rt) =
    updateRtMigration c (rd.setRt c { rt with
      rtNrTotal := rt.rtNrTotal + 1, rtNrMigratory := rt.rtNrMigratory + t.migratory }) := by
  unfold incRtMigration
  dsimp only
  rw [RootDomain.setRt_setRt, RootDomain.setRt_rt, update_self]

omit [DecidableEq α] in
theorem decRtMigration_setRt (t : Task n) (rt : RtRq α) : decRtMigration t c (rd.setRt c rt) =
    updateRtMigration c (rd.setRt c { rt with
      rtNrTotal := rt.rtNrTotal - 1, rtNrMigratory := rt.rtNrMigratory - t.migratory }) := by
  unfold decRtMigration
  dsimp only
  rw [RootDomain.setRt_setRt, RootDomain.setRt_rt, update_self]

end

/-! ### Pushable tasks -/

/-- The list of the pushable tasks and its best priority are those of the account. -/
structure PushOk (P : α → Option ℤ) (rt : RtRq α) : Prop where
  range : ∀ q z, P q = some z → z < MAX_RT_PRIO
  mem : ∀ x, x ∈ rt.pushableTasks.nodes ↔ P x.2 = some x.1
  next : IsLeast (insert MAX_RT_PRIO {z | ∃ q, P q = some z}) rt.highestPrio.next

section
variable {P : α → Option ℤ} {rt : RtRq α} {p : α}

omit [DecidableEq α] in
theorem pushOk_empty {rt : RtRq α} (hnodes : rt.pushableTasks.nodes = [])
    (hnext : rt.highestPrio.next = MAX_RT_PRIO) : PushOk (fun _ => none) rt := by
  refine ⟨nofun, ?_, ?_⟩
  · intro x
    rw [hnodes]
    simp
  · rw [hnext]
    simp [isLeast_singleton]

/-- `enqueue_pushable_task` touches the list and its best priority only. -/
theorem enqueuePushableTask_frame (prio : ℤ) (p : α) (rt : RtRq α) :
    enqueuePushableTask prio p rt = { rt with
      pushableTasks := rt.pushableTasks.add prio p
      highestPrio := { rt.highestPrio with next := min prio rt.highestPrio.next } } := by
  unfold enqueuePushableTask
  dsimp only
  split
  · rename_i hlt
    rw [min_eq_left (le_of_lt hlt)]
  · rename_i hge
    rw [min_eq_right (not_lt.mp hge)]

/-- So does `dequeue_pushable_task`. -/
theorem dequeuePushableTask_frame (task : α → Task n) (p : α) (rt : RtRq α) :
    dequeuePushableTask task p rt = { rt with
      pushableTasks := rt.pushableTasks.del p
      highestPrio := { rt.highestPrio with
        next := (dequeuePushableTask task p rt).highestPrio.next } } := by
  unfold dequeuePushableTask
  dsimp only
  split <;> rfl

theorem PushOk.add (h : PushOk P rt) (hp : P p = none) {prio : ℤ} (hr : prio < MAX_RT_PRIO) :
    PushOk (update P p (some prio)) (enqueuePushableTask prio p rt) := by
  have hset : {z | ∃ q, update P p (some prio) q = some z} = insert prio {z | ∃ q, P q = some z} := by
    ext z
    constructor
    · rintro ⟨q, hq⟩
      rcases update_some_eq_some hq with ⟨-, rfl⟩ | hq'
      · exact .inl rfl
      · exact .inr ⟨q, hq'⟩
    · rintro (rfl | ⟨q, hq⟩)
      · exact ⟨p, update_self ..⟩
      · refine ⟨q, ?_⟩
        rw [update_of_ne, hq]
        rintro rfl
        rw [hp] at hq
        cases hq
  rw [enqueuePushableTask_frame]
  refine ⟨?_, ?_, ?_⟩
  · intro q z hq
    rcases update_some_eq_some hq with ⟨-, rfl⟩ | hq'
    · exact hr
    · exact h.range q z hq'
  · rintro ⟨z, q⟩
    show _ ∈ (rt.pushableTasks.add prio p).nodes ↔ _
    rw [Plist.mem_add, h.mem]
    dsimp only
    by_cases hqp : q = p
    · subst hqp
      rw [update_self]
      simp [eq_comm]
    · rw [update_of_ne hqp]
      simp [hqp]
  · rw [hset, Set.insert_comm]
    exact h.next.insert prio

theorem PushOk.del (h : PushOk P rt) {task : α → Task n}
    (htask : ∀ q z, P q = some z → (task q).prio = z) (p : α) :
    PushOk (update P p none) (dequeuePushableTask task p rt) := by
  have hlist : (dequeuePushableTask task p rt).pushableTasks = rt.pushableTasks.del p := by
    rw [dequeuePushableTask_frame]
  have hmem : ∀ x, x ∈ (rt.pushableTasks.del p).nodes ↔ update P p none x.2 = some x.1 := by
    rintro ⟨z, q⟩
    rw [Plist.mem_del, h.mem]
    dsimp only
    by_cases hqp : q = p
    · subst hqp
      simp
    · rw [update_of_ne hqp]
      simp [hqp]
  have hrange : ∀ q z, update P p none q = some z → P q = some z := fun q z hq =>
    (update_none_eq_some hq).2
  refine ⟨fun q z hq => h.range q z (hrange q z hq), fun x => by rw [hlist, hmem], ?_⟩
  unfold dequeuePushableTask
  dsimp only
  split
  · rename_i first hfirst
    have hin := (hmem first).mp (List.mem_of_mem_head? hfirst)
    have hprio : (task first.2).prio = first.1 := htask _ _ (hrange _ _ hin)
    show IsLeast _ (task first.2).prio
    rw [hprio]
    refine ⟨.inr ⟨_, hin⟩, ?_⟩
    rintro z (rfl | ⟨q, hq⟩)
    · exact le_of_lt (h.range _ _ (hrange _ _ hin))
    · exact Plist.first_le hfirst ((hmem (z, q)).mpr hq)
  · rename_i hnil
    refine ⟨.inl rfl, ?_⟩
    rintro z (rfl | ⟨q, hq⟩)
    · exact le_rfl
    · have hzq := (hmem (z, q)).mpr hq
      rw [List.head?_eq_none_iff.mp hnil] at hzq
      cases hzq

end

end KernelHacking.Push
