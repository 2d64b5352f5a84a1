import KernelHacking.Sched.Inv

/-! # The circular class keeps the invariant

One specification for each function of the class: what it does to the account, to
`circ_rq->curr` and to the ring.  The list functions are used through their specifications on
sequences only. -/

namespace KernelHacking.Sched

open TraceProg PtrRing Word Prog

variable {α : Type} [DecidableEq α] [Fintype α] {K : Kernel α}
variable {T : α → TaskStruct} {a : Account α} {c : Ctx α} {s : Cpu K} {xs g : List α} {p : α}

/-! ### List calls -/

/-- An insertion before the head puts the node at the end of the ring, and writes no other node. -/
theorem listInsert_frame (hr : Represents s.node s.rq.circ.circList xs) (hp : p ∉ xs)
    {Q : Unit → Cpu K → List α → Prop}
    (hQ : ∀ h l, Represents h l (xs ++ [p]) →
      l.lastChosen = s.rq.circ.circList.lastChosen → (∀ q, q ∉ xs → q ≠ p → h q = s.node q) →
      Q () (s.setList (h, l)) (g ++ [p])) :
    (listInsert s.rq.circ.circList.head p).mwp ringMonitor s g Q := by
  have hnd : (xs ++ [p]).Nodup := by
    rw [List.nodup_append]
    refine ⟨hr.nodup, List.nodup_singleton p, ?_⟩
    intro u hu v hv e
    rw [List.mem_singleton] at hv
    exact hp (hv ▸ e ▸ hu)
  have hlen : xs.length + 1 < 2 ^ 32 := by
    have := lt_of_le_of_lt hnd.length_le_card K.card_lt
    simpa using this
  obtain ⟨h', l', hi, hr', hf⟩ := circularlistInsert_head hr hp hlen
  unfold listInsert
  rw [mwp_bind, mwp_get, mwp_bind, mwp_emit]
  refine ⟨?_, xs, hr, hp, hr.head⟩
  refine mwp_budgeted (n := 0) ?_ (hQ h' l' hr' (circularlistInsert_lastChosen hi) hf)
  simp only [hi, Except.map]

theorem listInsert_runs (hr : Represents s.node s.rq.circ.circList xs) (hp : p ∉ xs)
    {Q : Unit → Cpu K → List α → Prop}
    (hQ : ∀ h l, Represents h l (xs ++ [p]) → Q () (s.setList (h, l)) (g ++ [p])) :
    (listInsert s.rq.circ.circList.head p).mwp ringMonitor s g Q :=
  listInsert_frame hr hp fun h l hrep _ _ => hQ h l hrep

/-- A removal of a linked node erases it from the ring, and writes no node outside. -/
theorem listRemove_frame (hr : Represents s.node s.rq.circ.circList xs) (hp : p ∈ xs)
    {Q : Unit → Cpu K → List α → Prop}
    (hQ : ∀ h l, Represents h l (xs.erase p) →
      l.lastChosen = s.rq.circ.circList.lastChosen → (∀ q, q ∉ xs → h q = s.node q) →
      Q () (s.setList (h, l)) g) :
    (listRemove p).mwp ringMonitor s g Q := by
  have hlen : xs.length < 2 ^ 32 := lt_of_le_of_lt hr.nodup.length_le_card K.card_lt
  obtain ⟨h', l', hrem, hr', -, hf⟩ := circularlistRemove_spec hr hp hlen
  have hlast := circularlistRemove_lastChosen (hrem _ le_rfl)
  unfold listRemove
  rw [mwp_bind, mwp_get, mwp_bind, mwp_emit]
  refine ⟨?_, xs, hr, hp⟩
  refine mwp_budgeted (n := xs.idxOf p) ?_ (hQ h' l' hr' hlast hf)
  simp only [hrem _ le_rfl, Except.map]

theorem listRemove_runs (hr : Represents s.node s.rq.circ.circList xs) (hp : p ∈ xs)
    {Q : Unit → Cpu K → List α → Prop}
    (hQ : ∀ h l, Represents h l (xs.erase p) → Q () (s.setList (h, l)) g) :
    (listRemove p).mwp ringMonitor s g Q :=
  listRemove_frame hr hp fun h l hrep _ _ => hQ h l hrep

/-- A traversal changes nothing. -/
theorem listTraverse_runs (hr : Represents s.node s.rq.circ.circList xs)
    {Q : Unit → Cpu K → List α → Prop} (hQ : Q () s g) : listTraverse.mwp ringMonitor s g Q := by
  unfold listTraverse
  rw [mwp_bind, mwp_get, mwp_bind, mwp_emit]
  refine ⟨?_, xs, hr⟩
  refine mwp_budgeted (n := xs.length) ?_ hQ
  simp only [circularlistTraverseDebug_spec hr le_rfl, Except.map]

/-! ### Queueing and unqueueing -/

/-- A task that is put on the account of the circular class. -/
theorem CircSane.enqueue (h : CircSane a s xs) (hp : a p = none) {s' : Cpu K} {xs' : List α}
    (hlt : (onClass a .circular).card + 1 < 2 ^ 32)
    (hrep : Represents s'.node s'.rq.circ.circList xs')
    (hxs : xs' = if s.rq.circ.curr = some p then xs else xs ++ [p])
    (hcurr : s'.rq.circ.curr = s.rq.circ.curr)
    (hse : s'.se = Function.update s.se p { s.se p with onRq := true })
    (hnr : s'.rq.circ.nrRunning = u32Add s.rq.circ.nrRunning 1)
    (hhNr : s'.rq.circ.hNrRunning = u32Add s.rq.circ.hNrRunning 1) :
    CircSane (Function.update a p (some .circular)) s' xs' := by
  have hcard : (onClass (Function.update a p (some .circular)) .circular).card =
      (onClass a .circular).card + 1 := by
    rw [onClass_update_self, Finset.card_insert_of_notMem]
    rw [mem_onClass, hp]
    simp
  refine ⟨hrep, ?_, ?_, ?_, ?_⟩
  · intro q
    by_cases e : q = p
    · subst e; simp [hse]
    · simp [hse, e, h.onRq q]
  · intro q
    rw [hxs, hcurr]
    by_cases e : q = p
    · subst e
      have hq : q ∉ xs := by rw [h.mem, hp]; simp
      split
      · rename_i hc; simp [hq, hc]
      · rename_i hc; simp [hc]
    · have hqp : ¬ p = q := fun e' => e e'.symm
      split
      · rename_i hc; rw [h.mem]; simp [e, hc]
      · rw [List.mem_append, List.mem_singleton, h.mem]; simp [e]
  · rw [hnr, h.nr, u32Add_of_lt hlt, hcard]
  · rw [hhNr, h.hNr, u32Add_of_lt hlt, hcard]

/-- A task that is taken off the account of the circular class. -/
theorem CircSane.dequeue (h : CircSane a s xs) (hp : a p = some .circular) {s' : Cpu K}
    {xs' : List α} (hrep : Represents s'.node s'.rq.circ.circList xs')
    (hxs : xs' = xs.erase p) (hcurr : s'.rq.circ.curr = s.rq.circ.curr)
    (hse : s'.se = Function.update s.se p { s.se p with onRq := false })
    (hnr : s'.rq.circ.nrRunning = u32Sub s.rq.circ.nrRunning 1)
    (hhNr : s'.rq.circ.hNrRunning = u32Sub s.rq.circ.hNrRunning 1) :
    CircSane (Function.update a p none) s' xs' := by
  have hmem : p ∈ onClass a .circular := mem_onClass.mpr hp
  have hpos : 1 ≤ (onClass a .circular).card := Finset.card_pos.mpr ⟨p, hmem⟩
  have hlt : (onClass a .circular).card < 2 ^ 32 :=
    lt_of_le_of_lt (Finset.card_le_univ _) K.card_lt
  have hcard : (onClass (Function.update a p none) .circular).card =
      (onClass a .circular).card - 1 := by
    rw [onClass_update_none, Finset.card_erase_of_mem hmem]
  refine ⟨hrep, ?_, ?_, ?_, ?_⟩
  · intro q
    by_cases e : q = p
    · subst e; simp [hse]
    · simp [hse, e, h.onRq q]
  · intro q
    rw [hxs, hcurr, h.rep.nodup.mem_erase_iff, h.mem]
    by_cases e : q = p
    · subst e; simp
    · simp [e]
  · rw [hnr, h.nr, u32Sub_of_le hpos hlt, hcard]
  · rw [hhNr, h.hNr, u32Sub_of_le hpos hlt, hcard]

/-- `enqueue_task_circular` queues a task; as `circ_rq->curr` it stays out of the ring. -/
theorem enqueueTaskCircular_spec (h : Sane T a c s xs) (hp : a p = none) :
    (enqueueTaskCircular p).mwp ringMonitor s xs
      (fun _ => Sane T (Function.update a p (some .circular)) c) := by
  have hon : (s.se p).onRq = false := by
    rw [← Bool.not_eq_true, h.circ.onRq, hp]; simp
  have hp' : p ∉ xs := by rw [h.circ.mem, hp]; simp
  obtain ⟨hnr, hcard⟩ := h.nrRunning_succ_lt hp
  have hforeign : ∀ f q, q ∈ s.rq.queued f →
      Function.update a p (some .circular) q = some f.schedClass := by
    intro f q hq
    rw [account_update_iff (.inl hp) (.inr rfl) q _ (by cases f <;> decide)]
    exact h.foreign f q hq
  have hrt : RtSane T (Function.update a p (some .circular)) s.rq.rt :=
    h.rt.update (by rw [hp]; simp) (by decide)
  have hcirc : s.rq.circ.nrRunning + 1 < 2 ^ 32 := by rw [h.circ.nr]; exact hcard
  have hsum := h.nr
  unfold enqueueTaskCircular
  rw [mwp_bind]
  refine listTraverse_runs h.circ.rep ?_
  rw [mwp_bind, mwp_get, mwp_bind, when_pos (by simp [hon])]
  unfold enqueueEntity modifyCirc modifySe addNrRunning modifyRq
  simp only [mwp_bind, mwp_modify, mwp_get]
  by_cases hc : s.rq.circ.curr = some p
  · rw [when_neg (by simp [hc]), mwp_ret]
    apply listTraverse_runs
    · exact h.circ.rep
    · refine ⟨h.ctx, h.circ.enqueue hp hcard h.circ.rep ?_ rfl rfl rfl rfl, hrt, hforeign, ?_, h.cfs⟩
      · rw [if_pos hc]
      · simp only [Rq.queued] at hsum ⊢
        rw [u32Add_of_lt hnr, u32Add_of_lt hcirc]
        omega
  · rw [when_pos (by simp [hc])]
    unfold __enqueueEntity
    rw [mwp_bind, mwp_get]
    refine listInsert_runs ?_ hp' ?_
    · exact h.circ.rep
    · intro h' l' hrep
      apply listTraverse_runs
      · exact hrep
      · refine ⟨h.ctx, h.circ.enqueue hp hcard hrep ?_ rfl rfl rfl rfl, hrt, hforeign, ?_, h.cfs⟩
        · rw [if_neg hc]
        · simp only [Rq.queued, Cpu.setList] at hsum ⊢
          rw [u32Add_of_lt hnr, u32Add_of_lt hcirc]
          omega

/-- `dequeue_task_circular` takes a queued task off; `circ_rq->curr` is left alone. -/
theorem dequeueTaskCircular_spec (h : Sane T a c s xs) (hp : a p = some .circular) :
    (dequeueTaskCircular p).mwp ringMonitor s xs
      (fun _ => Sane T (Function.update a p none) c) := by
  have hpos : 1 ≤ s.rq.circ.nrRunning := by
    rw [h.circ.nr]; exact Finset.card_pos.mpr ⟨p, mem_onClass.mpr hp⟩
  have hhpos : 1 ≤ s.rq.circ.hNrRunning := by rw [h.circ.hNr, ← h.circ.nr]; exact hpos
  have hsum := h.nr
  have hlt : s.rq.nrRunning < 2 ^ 32 := lt_of_le_of_lt h.nrRunning_le K.card_lt
  have hforeign : ∀ f q, q ∈ s.rq.queued f →
      Function.update a p none q = some f.schedClass := by
    intro f q hq
    rw [account_update_iff (.inr hp) (.inl rfl) q _ (by cases f <;> decide)]
    exact h.foreign f q hq
  have hrt : RtSane T (Function.update a p none) s.rq.rt :=
    h.rt.update (by rw [hp]; decide) (by decide)
  unfold dequeueTaskCircular
  rw [mwp_bind]
  apply listTraverse_runs
  · exact h.circ.rep
  unfold dequeueEntity modifyCirc modifySe subNrRunning modifyRq
  simp only [mwp_bind, mwp_modify, mwp_get]
  by_cases hc : s.rq.circ.curr = some p
  · have hp' : p ∉ xs := by rw [h.circ.mem]; simp [hc]
    rw [when_neg (by simp [hc]), mwp_ret]
    simp only [mwp_emit]
    refine ⟨⟨⟨?_, ?_⟩, hhpos⟩, hpos⟩
    · apply listTraverse_runs
      · exact h.circ.rep
      · refine ⟨⟨h.ctx, ?_, hrt, hforeign, ?_, h.cfs⟩, trivial⟩
        · refine h.circ.dequeue hp ?_ rfl rfl rfl rfl rfl
          show Represents s.node s.rq.circ.circList (xs.erase p)
          rw [List.erase_of_not_mem hp']
          exact h.circ.rep
        · simp only [Rq.queued] at hsum ⊢
          rw [u32Sub_of_le (by omega) hlt, u32Sub_of_le hpos (by omega)]
          omega
    · show 1 ≤ s.rq.nrRunning
      omega
  · have hp' : p ∈ xs := by rw [h.circ.mem]; exact ⟨hp, hc⟩
    rw [when_pos (by simp [hc])]
    unfold __dequeueEntity
    refine listRemove_runs ?_ hp' ?_
    · exact h.circ.rep
    intro h' l' hrep
    simp only [mwp_emit]
    refine ⟨⟨⟨?_, ?_⟩, hhpos⟩, hpos⟩
    · apply listTraverse_runs
      · exact hrep
      · refine ⟨⟨h.ctx, ?_, hrt, hforeign, ?_, h.cfs⟩, trivial⟩
        · exact h.circ.dequeue hp hrep rfl rfl rfl rfl rfl
        · simp only [Rq.queued, Cpu.setList] at hsum ⊢
          rw [u32Sub_of_le (by omega) hlt, u32Sub_of_le hpos (by omega)]
          omega
    · show 1 ≤ s.rq.nrRunning
      omega

/-! ### The running entity -/

/-- Moving `circ_rq->curr` and the ring together. -/
theorem Sane.setCurr (h : Sane T a c s xs) {s' : Cpu K} {v : Option α} {xs' : List α}
    (hrep : Represents s'.node s'.rq.circ.circList xs')
    (hmem : ∀ q, q ∈ xs' ↔ a q = some .circular ∧ v ≠ some q)
    (hse : s'.se = s.se)
    (hrq : s'.rq = { s.rq with circ := { s.rq.circ with curr := v, circList := s'.rq.circ.circList } }) :
    Sane T a { c with circCurr := v } s' xs' := by
  have hcurr : s'.rq.circ.curr = v := by rw [hrq]
  have hq : ∀ f, s'.rq.queued f = s.rq.queued f := fun f => by unfold Rq.queued; rw [hrq]
  refine ⟨?_, ⟨hrep, ?_, ?_, ?_, ?_⟩, ?_, ?_, ?_, ?_⟩
  · unfold Cpu.ctx
    rw [hrq, ← h.ctx]
    rfl
  · rw [hse]; exact h.circ.onRq
  · rw [hcurr]; exact hmem
  · rw [hrq]; exact h.circ.nr
  · rw [hrq]; exact h.circ.hNr
  · rw [hrq]; exact h.rt
  · intro f q; rw [hq]; exact h.foreign f q
  · rw [hq, hq, hrq]; exact h.nr
  · rw [hrq]; exact h.cfs

/-- `put_prev_task_circular` gives up `circ_rq->curr`: the entity goes back to the end of the ring if
it is still queued. -/
theorem putPrevTaskCircular_spec (h : Sane T a c s xs)
    (hcurr : a p = some .circular → c.circCurr = some p)
    (hother : ∀ q, c.circCurr = some q → q = p) :
    (putPrevTaskCircular p).mwp ringMonitor s xs (fun _ s' xs' =>
      xs' = xs ++ (if (s.se p).onRq then [p] else []) ∧
        Sane T a { c with circCurr := none } s' xs') := by
  unfold putPrevTaskCircular putPrevEntity modifyCirc
  rw [mwp_bind, mwp_get, mwp_bind]
  by_cases hon : (s.se p).onRq = true
  · have hap : a p = some .circular := (h.circ.onRq p).mp hon
    have hp : p ∉ xs := by rw [h.circ.mem, h.circCurr_eq, hcurr hap]; simp
    rw [when_pos (by simp [hon])]
    unfold __enqueueEntity
    rw [mwp_bind, mwp_get]
    apply listInsert_runs h.circ.rep hp
    intro h' l' hrep
    rw [mwp_modify, if_pos hon]
    refine ⟨rfl, h.setCurr hrep ?_ rfl rfl⟩
    intro q
    rw [List.mem_append, List.mem_singleton, h.circ.mem, h.circCurr_eq, hcurr hap]
    by_cases e : q = p
    · subst e; simp [hap]
    · have : ¬ p = q := fun e' => e e'.symm
      simp [e, this]
  · have hap : a p ≠ some .circular := fun e => hon ((h.circ.onRq p).mpr e)
    rw [when_neg (by simp [hon]), mwp_ret, mwp_modify, if_neg hon, List.append_nil]
    refine ⟨rfl, h.setCurr h.circ.rep ?_ rfl rfl⟩
    intro q
    rw [h.circ.mem, h.circCurr_eq]
    constructor
    · intro hq; exact ⟨hq.1, by simp⟩
    · intro hq
      refine ⟨hq.1, fun e => hap ?_⟩
      rw [← hother q e]
      exact hq.1

/-- `set_next_entity` of a queued entity takes it out of the ring. -/
theorem setNextEntity_spec (h : Sane T a c s xs) (hp : p ∈ xs) (hc : c.circCurr = none) :
    (setNextEntity p).mwp ringMonitor s g (fun _ s' g' =>
      g' = g ∧ Sane T a { c with circCurr := some p } s' (xs.erase p)) := by
  have hap : a p = some .circular := ((h.circ.mem p).mp hp).1
  have hon : (s.se p).onRq = true := (h.circ.onRq p).mpr hap
  unfold setNextEntity modifyCirc
  rw [mwp_bind, mwp_get, mwp_bind, when_pos (by simp [hon])]
  unfold __dequeueEntity
  apply listRemove_runs h.circ.rep hp
  intro h' l' hrep
  rw [mwp_modify]
  refine ⟨rfl, h.setCurr hrep ?_ rfl rfl⟩
  intro q
  rw [h.circ.rep.nodup.mem_erase_iff, h.circ.mem, h.circCurr_eq, hc]
  constructor
  · intro hq; exact ⟨hq.2.1, fun e => hq.1 (Option.some.inj e).symm⟩
  · intro hq; exact ⟨fun e => hq.2 (by rw [e]), hq.1, by simp⟩

/-- `set_curr_task_circular` in the middle of a class change: the entity is not queued yet. -/
theorem setCurrTaskCircular_spec (h : Sane T a c s xs) (hp : a c.curr = none)
    (hc : c.circCurr = none) :
    setCurrTaskCircular.mwp ringMonitor s xs (fun _ =>
      Sane T a { c with circCurr := some c.curr }) := by
  have hcurr := h.curr_eq
  have hon : ¬ (s.se s.rq.curr).onRq = true := by rw [h.circ.onRq, hcurr, hp]; simp
  unfold setCurrTaskCircular setNextEntity modifyCirc
  rw [mwp_bind, mwp_get, mwp_bind, mwp_get, mwp_bind, when_neg (by simp [hon]), mwp_ret, mwp_modify,
    hcurr]
  refine h.setCurr h.circ.rep ?_ rfl rfl
  intro q
  rw [h.circ.mem, h.circCurr_eq, hc]
  constructor
  · intro hq
    refine ⟨hq.1, fun e => ?_⟩
    rw [← Option.some.inj e, hp] at hq
    cases hq.1
  · intro hq; exact ⟨hq.1, by simp⟩

/-! ### Clock, accounting and resched flags -/

/-- The clock of the run-queue, with the number of readings taken. -/
def Cpu.setClock (s : Cpu K) (reads : ℕ) (clock clockTask : U64) : Cpu K :=
  { s with reads := reads, rq := { s.rq with clock := clock, clockTask := clockTask } }

/-- `update_rq_clock` only moves the clock. -/
theorem updateRqClock_runs {Q : Unit → Cpu K → List α → Prop}
    (hQ : ∀ reads clock clockTask, Q () (s.setClock reads clock clockTask) g) :
    updateRqClock.mwp ringMonitor s g Q := by
  unfold updateRqClock modifyRq
  rw [mwp_bind, mwp_get]
  apply mwp_when
  · intro _
    rw [mwp_bind, mwp_modify]
    apply mwp_when
    · intro _
      rw [mwp_bind, mwp_emit, mwp_modify]
      exact ⟨hQ _ _ _, trivial⟩
    · intro _
      exact hQ _ _ _
  · intro _
    exact hQ _ _ _

theorem updateRqClock_spec (h : Sane T a c s xs) :
    updateRqClock.mwp ringMonitor s g (fun _ s' g' => g' = g ∧ Sane T a c s' xs) := by
  apply updateRqClock_runs
  intro _ _ _
  exact ⟨rfl, h.congr_state rfl (fun _ _ => rfl) (fun _ => rfl) rfl rfl rfl rfl rfl⟩

/-- `resched_curr` only sets a flag. -/
theorem reschedCurr_spec (h : Sane T a c s xs) :
    reschedCurr.mwp ringMonitor s g (fun _ s' g' => g' = g ∧ Sane T a c s' xs) := by
  unfold reschedCurr
  rw [mwp_modify]
  exact ⟨rfl, h.congr_state rfl (fun _ _ => rfl) (fun _ => rfl) rfl rfl rfl rfl rfl⟩

/-- Accounting writes no field of an entity that the invariant reads. -/
theorem modifySe_spec (h : Sane T a c s xs) {f : SchedEntity → SchedEntity}
    (hf : ∀ e, (f e).onRq = e.onRq) :
    (modifySe p f).mwp ringMonitor s g (fun _ s' g' => g' = g ∧ Sane T a c s' xs) := by
  unfold modifySe
  rw [mwp_modify]
  refine ⟨rfl, h.congr_state rfl (fun _ _ => rfl) ?_ rfl rfl rfl rfl rfl⟩
  intro q
  by_cases e : q = p
  · subst e; simp [hf]
  · simp [e]

/-- `update_curr_circular` only charges the running task. -/
theorem updateCurrCircular_spec (h : Sane T a c s xs) :
    updateCurrCircular.mwp ringMonitor s g (fun _ s' g' => g' = g ∧ Sane T a c s' xs) := by
  unfold updateCurrCircular
  rw [mwp_bind, mwp_get]
  apply mwp_when
  · intro _
    rw [mwp_bind, mwp_emit]
    exact ⟨modifySe_spec h fun _ => rfl, trivial⟩
  · intro _; exact ⟨rfl, h⟩

/-- `check_preempt_wakeup` only charges and sets a flag. -/
theorem checkPreemptWakeup_spec (h : Sane T a c s xs) {T' : α → TaskStruct} :
    (checkPreemptWakeup T' p).mwp ringMonitor s g (fun _ s' g' => g' = g ∧ Sane T a c s' xs) := by
  unfold checkPreemptWakeup
  rw [mwp_bind, mwp_get]
  dsimp only
  split
  · exact mwp_ret.mpr ⟨rfl, h⟩
  split
  · exact reschedCurr_spec h
  split
  · exact mwp_ret.mpr ⟨rfl, h⟩
  · refine mwp.seq (updateCurrCircular_spec h) ?_
    rintro _ s' g' ⟨rfl, h'⟩
    exact reschedCurr_spec h'

/-- `yield_task_circular` leaves the ring as it is. -/
theorem yieldTaskCircular_spec (h : Sane T a c s xs) {T' : α → TaskStruct} :
    (yieldTaskCircular T').mwp ringMonitor s g (fun _ s' g' => g' = g ∧ Sane T a c s' xs) := by
  unfold yieldTaskCircular
  rw [mwp_bind, mwp_get]
  apply mwp_when
  · intro _
    refine mwp.seq (updateRqClock_spec h) ?_
    rintro _ s₁ g₁ ⟨rfl, h₁⟩
    refine mwp.seq (updateCurrCircular_spec h₁) ?_
    rintro _ s₂ g₂ ⟨rfl, h₂⟩
    unfold modifyRq
    rw [mwp_modify]
    exact ⟨rfl, h₂.congr_state rfl (fun _ _ => rfl) (fun _ => rfl) rfl rfl rfl rfl rfl⟩
  · intro _; exact ⟨rfl, h⟩

end KernelHacking.Sched
