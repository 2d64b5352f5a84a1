import KernelHacking.Sched.CircularSpec

/-! # The real-time class keeps the invariant

The priority array is changed with the class taken off `rq->nr_running` as a whole
(`dequeueTopRtRq`) and put back afterwards (`enqueueTopRtRq`); throttling only ever leaves out
the second half.  No function of the class touches the ring. -/

namespace KernelHacking.Sched

open TraceProg PtrRing Word Prog

variable {α : Type} [DecidableEq α] [Fintype α] {K : Kernel α}
variable {T : α → TaskStruct} {a : Account α} {c : Ctx α} {s : Cpu K} {xs g : List α} {p : α}

/-! ### Changing the real-time part -/

/-- A change of the real-time run-queue, of its account and of what it adds to
`rq->nr_running`. -/
theorem Sane.of_rt (h : Sane T a c s xs) {s' : Cpu K} {a' : Account α}
    (ha : ∀ q k, k ≠ .rt → (a' q = some k ↔ a q = some k)) (hctx : s'.ctx = s.ctx)
    (hnode : s'.node = s.node) (hse : ∀ q, (s'.se q).onRq = (s.se q).onRq)
    (hcirc : s'.rq.circ = s.rq.circ) (hforeign : s'.rq.foreign = s.rq.foreign)
    (hcfs : s'.rq.cfs = s.rq.cfs) (hrt : RtSane T a' s'.rq.rt)
    (hnr : s'.rq.nrRunning + s.rq.rt.added = s.rq.nrRunning + s'.rq.rt.added) :
    Sane T a' c s' xs := by
  have hq : ∀ f, s'.rq.queued f = s.rq.queued f := fun f => by unfold Rq.queued; rw [hforeign]
  have hc : onClass a' .circular = onClass a .circular := by
    ext q
    rw [mem_onClass, mem_onClass, ha q _ (by decide)]
  refine ⟨hctx.trans h.ctx, ⟨?_, ?_, ?_, ?_, ?_⟩, hrt, ?_, ?_, ?_⟩
  · rw [hnode, hcirc]; exact h.circ.rep
  · intro q; rw [hse, h.circ.onRq, ha q _ (by decide)]
  · intro q; rw [hcirc, h.circ.mem, ha q _ (by decide)]
  · rw [hcirc, hc]; exact h.circ.nr
  · rw [hcirc, hc]; exact h.circ.hNr
  · intro f q
    rw [hq]
    intro hm
    rw [ha q _ (by cases f <;> decide)]
    exact h.foreign f q hm
  · have hsum := h.nr
    rw [hq, hq, hcirc]
    omega
  · rw [hcfs]; exact h.cfs

/-- Fields of the real-time run-queue that the invariant does not read. -/
theorem modifyRt_spec (h : Sane T a c s xs) {f : RtRq α → RtRq α}
    (hact : ∀ rt, (f rt).active = rt.active) (hnr : ∀ rt, (f rt).rtNrRunning = rt.rtNrRunning)
    (hqd : ∀ rt, (f rt).rtQueued = rt.rtQueued) :
    (modifyRt f).mwp ringMonitor s g (fun _ s' g' => g' = g ∧ Sane T a c s' xs) := by
  unfold modifyRt
  rw [mwp_modify]
  refine ⟨rfl, h.of_rt (fun _ _ _ => Iff.rfl) rfl rfl (fun _ => rfl) rfl rfl rfl ?_ ?_⟩
  · refine ⟨?_, h.rt.prio, ?_, ?_, ?_, ?_⟩
    · rw [hact]; exact h.rt.mem
    · rw [hact]; exact h.rt.nodup
    · rw [hact]; exact h.rt.bitmap
    · rw [hnr]; exact h.rt.nr
    · rw [hqd, hnr]; exact h.rt.queued
  · simp only [RtRq.added, hnr, hqd]

/-! ### The contribution to `rq->nr_running` -/

/-- `dequeue_top_rt_rq` takes the whole class off `rq->nr_running`. -/
theorem dequeueTopRtRq_spec (h : Sane T a c s xs) :
    dequeueTopRtRq.mwp ringMonitor s g (fun _ s' g' =>
      g' = g ∧ Sane T a c s' xs ∧ s'.rq.rt = { s.rq.rt with rtQueued := false }) := by
  have hsum := h.nr
  have hlt : s.rq.nrRunning < 2 ^ 32 := lt_of_le_of_lt h.nrRunning_le K.card_lt
  unfold dequeueTopRtRq
  rw [mwp_bind, mwp_get]
  apply mwp_when
  · intro hq
    have hadd : s.rq.rt.added = s.rq.rt.rtNrRunning := if_pos hq
    have hpos : 0 < s.rq.rt.rtNrRunning := h.rt.queued hq
    have hle : s.rq.rt.rtNrRunning ≤ s.rq.nrRunning := by omega
    rw [mwp_bind, when_neg (by omega), mwp_ret]
    unfold subNrRunning modifyRq modifyRt
    rw [mwp_bind, mwp_bind, mwp_get, mwp_bind, mwp_emit]
    refine ⟨?_, hle⟩
    rw [mwp_modify, mwp_modify]
    refine ⟨rfl, h.of_rt (fun _ _ _ => Iff.rfl) rfl rfl (fun _ => rfl) rfl rfl rfl ?_ ?_, rfl⟩
    · exact ⟨h.rt.mem, h.rt.prio, h.rt.nodup, h.rt.bitmap, h.rt.nr, fun e => by cases e⟩
    · show u32Sub s.rq.nrRunning s.rq.rt.rtNrRunning + s.rq.rt.added = s.rq.nrRunning + 0
      rw [hadd, u32Sub_of_le hle hlt]
      omega
  · intro hq
    refine ⟨rfl, h, ?_⟩
    rw [Bool.not_eq_true] at hq
    rw [← hq]

/-- `enqueue_top_rt_rq` puts it back, unless it is throttled or empty. -/
theorem enqueueTopRtRq_spec (h : Sane T a c s xs) :
    enqueueTopRtRq.mwp ringMonitor s g (fun _ s' g' => g' = g ∧ Sane T a c s' xs) := by
  unfold enqueueTopRtRq
  rw [mwp_bind, mwp_get]
  apply mwp_when
  · rintro ⟨hq, -, hne⟩
    have hadd : s.rq.rt.added = 0 := if_neg (by rw [hq]; decide)
    have hlt : s.rq.nrRunning + s.rq.rt.rtNrRunning < 2 ^ 32 := by
      have h₁ := h.card_queued_le .stop
      have h₂ := h.card_queued_le .dl
      have h₃ : (onClass a .circular).card + (onClass a .rt).card + (onClass a .stop).card +
        (onClass a .dl).card ≤ Fintype.card α := card_classes_le
      have h₄ := h.nr
      have h₅ := h.circ.nr
      have h₆ := h.rt.nr
      have h₇ := K.card_lt
      simp only [Foreign.schedClass] at h₁ h₂
      omega
    unfold addNrRunning modifyRq modifyRt
    rw [mwp_bind, mwp_modify, mwp_modify]
    refine ⟨rfl, h.of_rt (fun _ _ _ => Iff.rfl) rfl rfl (fun _ => rfl) rfl rfl rfl ?_ ?_⟩
    · exact ⟨h.rt.mem, h.rt.prio, h.rt.nodup, h.rt.bitmap, h.rt.nr,
        fun _ => Nat.pos_of_ne_zero hne⟩
    · show u32Add s.rq.nrRunning s.rq.rt.rtNrRunning + s.rq.rt.added =
        s.rq.nrRunning + s.rq.rt.rtNrRunning
      rw [hadd, u32Add_of_lt hlt]
      omega
  · intro _; exact ⟨rfl, h⟩

/-! ### The priority array -/

theorem onRtRq_iff (h : RtSane T a s.rq.rt) : onRtRq s.rq.rt.active p ↔ a p = some .rt := by
  unfold onRtRq
  constructor
  · rintro ⟨i, -, hi⟩
    exact ((h.mem p i).mp hi).1
  · intro hp
    obtain ⟨h0, h1⟩ := h.prio p hp
    refine ⟨(T p).prio.toNat, ?_, ?_⟩
    · rw [List.mem_range]
      exact (Int.toNat_lt_toNat (by decide)).mpr h1
    · exact (h.mem p _).mpr ⟨hp, Int.toNat_of_nonneg h0⟩

/-- The queue a task belongs to. -/
theorem rtSePrio_spec (h0 : 0 ≤ (T p).prio) (h1 : (T p).prio < MAX_RT_PRIO)
    {Q : ℕ → Cpu K → List α → Prop} (hQ : Q (T p).prio.toNat s g) :
    (rtSePrio T p).mwp ringMonitor s g Q := by
  unfold rtSePrio
  rw [if_pos ⟨h0, h1⟩]
  exact mwp_ret.mpr hQ

/-- `__enqueue_rt_entity` links the task into the queue of its priority. -/
theorem __enqueueRtEntity_spec (h : Sane T a c s xs) (hq : s.rq.rt.rtQueued = false)
    (hp : a p = none) (h0 : 0 ≤ (T p).prio) (h1 : (T p).prio < MAX_RT_PRIO) (head : Bool) :
    (__enqueueRtEntity T p head).mwp ringMonitor s g (fun _ s' g' =>
      g' = g ∧ Sane T (Function.update a p (some .rt)) c s' xs) := by
  have hne : ∀ k, a p ≠ some k := fun k e => by rw [hp] at e; cases e
  have hcard : (onClass (Function.update a p (some .rt)) .rt).card = (onClass a .rt).card + 1 := by
    rw [onClass_update_self, Finset.card_insert_of_notMem (fun e => hne _ (mem_onClass.mp e))]
  have hlt : s.rq.rt.rtNrRunning + 1 < 2 ^ 32 := by
    have hle := Finset.card_le_univ (onClass (Function.update a p (some .rt)) .rt)
    have hk := K.card_lt
    have hn := h.rt.nr
    omega
  have hmemq : ∀ q i, q ∈ (if head then p :: s.rq.rt.active.queue i
      else s.rq.rt.active.queue i ++ [p]) ↔ q = p ∨ q ∈ s.rq.rt.active.queue i := by
    intro q i
    cases head <;> simp [or_comm]
  have hnp : ∀ i, p ∉ s.rq.rt.active.queue i := fun i hi => hne _ ((h.rt.mem p i).mp hi).1
  unfold __enqueueRtEntity
  rw [mwp_bind]
  refine rtSePrio_spec h0 h1 ?_
  unfold modifyRt
  rw [mwp_modify]
  refine ⟨rfl, h.of_rt (account_update_iff (.inl hp) (.inr rfl)) rfl rfl (fun _ => rfl) rfl rfl rfl ?_ ?_⟩
  · refine ⟨?_, ?_, ?_, ?_, ?_, ?_⟩
    · intro q i
      show q ∈ Function.update s.rq.rt.active.queue _ _ i ↔ _
      by_cases ei : i = (T p).prio.toNat
      · subst ei
        rw [Function.update_self, hmemq, h.rt.mem]
        by_cases e : q = p
        · subst e; simp [h0]
        · simp [e]
      · rw [Function.update_of_ne ei, h.rt.mem]
        by_cases e : q = p
        · subst e
          have : ¬ (i : ℤ) = (T q).prio := fun e' => ei (by omega)
          simp [this]
        · simp [e]
    · intro q hq'
      by_cases e : q = p
      · subst e; exact ⟨h0, h1⟩
      · rw [Function.update_of_ne e] at hq'; exact h.rt.prio q hq'
    · intro i
      show (Function.update s.rq.rt.active.queue _ _ i).Nodup
      by_cases ei : i = (T p).prio.toNat
      · subst ei
        rw [Function.update_self]
        cases head with
        | true => exact List.nodup_cons.mpr ⟨hnp _, h.rt.nodup _⟩
        | false =>
            have : (p :: s.rq.rt.active.queue (T p).prio.toNat).Nodup :=
              List.nodup_cons.mpr ⟨hnp _, h.rt.nodup _⟩
            exact (List.perm_append_singleton p _).nodup_iff.mpr this
      · rw [Function.update_of_ne ei]; exact h.rt.nodup i
    · intro i
      show Function.update s.rq.rt.active.bitmap _ true i = true ↔
        Function.update s.rq.rt.active.queue _ _ i ≠ []
      by_cases ei : i = (T p).prio.toNat
      · subst ei
        rw [Function.update_self, Function.update_self]
        cases head <;> simp
      · rw [Function.update_of_ne ei, Function.update_of_ne ei]; exact h.rt.bitmap i
    · show u32Add s.rq.rt.rtNrRunning 1 = _
      rw [u32Add_of_lt hlt, h.rt.nr, hcard]
    · intro e
      rw [show s.rq.rt.rtQueued = true from e] at hq
      cases hq
  · simp only [RtRq.added, hq]
    rfl

/-- `__dequeue_rt_entity` unlinks it. -/
theorem __dequeueRtEntity_spec (h : Sane T a c s xs) (hq : s.rq.rt.rtQueued = false)
    (hp : a p = some .rt) :
    (__dequeueRtEntity T p).mwp ringMonitor s g (fun _ s' g' =>
      g' = g ∧ Sane T (Function.update a p none) c s' xs ∧ s'.rq.rt.rtQueued = false) := by
  obtain ⟨h0, h1⟩ := h.rt.prio p hp
  have hmem : p ∈ onClass a .rt := mem_onClass.mpr hp
  have hpos : 1 ≤ s.rq.rt.rtNrRunning := by rw [h.rt.nr]; exact Finset.card_pos.mpr ⟨p, hmem⟩
  have hlt : s.rq.rt.rtNrRunning < 2 ^ 32 := by
    rw [h.rt.nr]
    exact lt_of_le_of_lt (Finset.card_le_univ _) K.card_lt
  have hother : ∀ i, i ≠ (T p).prio.toNat →
      (s.rq.rt.active.queue i).erase p = s.rq.rt.active.queue i := by
    intro i hi
    apply List.erase_of_not_mem
    intro hpi
    have := ((h.rt.mem p i).mp hpi).2
    omega
  unfold __dequeueRtEntity
  rw [mwp_bind]
  refine rtSePrio_spec h0 h1 ?_
  unfold modifyRt
  rw [mwp_bind, mwp_get, mwp_bind, mwp_emit]
  refine ⟨?_, hpos⟩
  rw [mwp_modify]
  refine ⟨rfl, h.of_rt (account_update_iff (.inr hp) (.inl rfl)) rfl rfl (fun _ => rfl) rfl rfl rfl ?_ ?_,
    hq⟩
  · refine ⟨?_, ?_, ?_, ?_, ?_, ?_⟩
    · intro q i
      show q ∈ (s.rq.rt.active.queue i).erase p ↔ _
      rw [(h.rt.nodup i).mem_erase_iff, h.rt.mem]
      by_cases e : q = p
      · subst e; simp
      · simp [e]
    · intro q hq'
      by_cases e : q = p
      · subst e; simp at hq'
      · rw [Function.update_of_ne e] at hq'; exact h.rt.prio q hq'
    · intro i
      exact (h.rt.nodup i).erase p
    · intro i
      show (if (s.rq.rt.active.queue (T p).prio.toNat).erase p = [] then
          Function.update s.rq.rt.active.bitmap (T p).prio.toNat false
        else s.rq.rt.active.bitmap) i = true ↔ (s.rq.rt.active.queue i).erase p ≠ []
      by_cases ei : i = (T p).prio.toNat
      · subst ei
        split
        · rename_i he; simp [he]
        · rename_i he
          refine iff_of_true ?_ he
          rw [h.rt.bitmap]
          intro e; rw [e] at he; exact he rfl
      · rw [hother i ei]
        split
        · rw [Function.update_of_ne ei]; exact h.rt.bitmap i
        · exact h.rt.bitmap i
    · show u32Sub s.rq.rt.rtNrRunning 1 = _
      rw [u32Sub_of_le hpos hlt, h.rt.nr, onClass_update_none, Finset.card_erase_of_mem hmem]
    · intro e
      rw [show s.rq.rt.rtQueued = true from e] at hq
      cases hq
  · simp only [RtRq.added, hq]
    rfl

/-- `dequeue_rt_stack` takes the task off, if it is on. -/
theorem dequeueRtStack_spec (h : Sane T a c s xs) :
    (dequeueRtStack T p).mwp ringMonitor s g (fun _ s' g' => g' = g ∧
      Sane T (if a p = some .rt then Function.update a p none else a) c s' xs ∧
      s'.rq.rt.rtQueued = false) := by
  unfold dequeueRtStack
  refine mwp.seq (dequeueTopRtRq_spec h) ?_
  rintro _ s₁ g₁ ⟨rfl, h₁, hrt⟩
  have hq : s₁.rq.rt.rtQueued = false := by rw [hrt]
  rw [mwp_bind, mwp_get]
  apply mwp_when
  · intro hon
    have hp : a p = some .rt := (onRtRq_iff h₁.rt).mp hon
    rw [if_pos hp]
    exact __dequeueRtEntity_spec h₁ hq hp
  · intro hon
    have hp : ¬ a p = some .rt := fun e => hon ((onRtRq_iff h₁.rt).mpr e)
    rw [if_neg hp]
    exact ⟨rfl, h₁, hq⟩

/-- `enqueue_task_rt`. -/
theorem enqueueTaskRt_spec (h : Sane T a c s xs) (hp : a p = none) (h0 : 0 ≤ (T p).prio)
    (h1 : (T p).prio < MAX_RT_PRIO) (flags : ℕ) :
    (enqueueTaskRt T p flags).mwp ringMonitor s g (fun _ s' g' =>
      g' = g ∧ Sane T (Function.update a p (some .rt)) c s' xs) := by
  have hbody : ∀ {s : Cpu K}, Sane T a c s xs → ∀ b,
      (enqueueRtEntity T p b).mwp ringMonitor s g (fun _ s' g' =>
        g' = g ∧ Sane T (Function.update a p (some .rt)) c s' xs) := by
    intro s h b
    unfold enqueueRtEntity
    refine mwp.seq (dequeueRtStack_spec h) ?_
    rintro _ s₁ g₁ ⟨rfl, h₁, hq⟩
    rw [if_neg (by rw [hp]; simp)] at h₁
    refine mwp.seq (__enqueueRtEntity_spec h₁ hq hp h0 h1 b) ?_
    rintro _ s₂ g₂ ⟨rfl, h₂⟩
    exact enqueueTopRtRq_spec h₂
  unfold enqueueTaskRt
  rw [mwp_bind]
  apply mwp_when
  · intro _
    rw [mwp_modify]
    apply hbody
    exact h.congr_state rfl (fun _ _ => rfl) (fun _ => rfl) rfl rfl rfl rfl rfl
  · intro _
    exact hbody h _

/-! ### Accounting and the callbacks -/

/-- `sched_rt_runtime_exceeded` may throttle the class. -/
theorem schedRtRuntimeExceeded_spec (h : Sane T a c s xs) :
    schedRtRuntimeExceeded.mwp ringMonitor s g (fun _ s' g' => g' = g ∧ Sane T a c s' xs) := by
  unfold schedRtRuntimeExceeded
  rw [mwp_bind, mwp_get]
  dsimp only
  split
  · exact mwp_ret.mpr ⟨rfl, h⟩
  split
  · exact mwp_ret.mpr ⟨rfl, h⟩
  split
  · exact mwp_ret.mpr ⟨rfl, h⟩
  split
  · exact mwp_ret.mpr ⟨rfl, h⟩
  split
  · refine mwp.seq (modifyRt_spec h (fun _ => rfl) (fun _ => rfl) (fun _ => rfl)) ?_
    rintro _ s₁ g₁ ⟨rfl, h₁⟩
    refine mwp.seq (dequeueTopRtRq_spec h₁) ?_
    rintro _ s₂ g₂ ⟨rfl, h₂, -⟩
    exact mwp_ret.mpr ⟨rfl, h₂⟩
  · refine mwp.seq (modifyRt_spec h (fun _ => rfl) (fun _ => rfl) (fun _ => rfl)) ?_
    rintro _ s₁ g₁ ⟨rfl, h₁⟩
    exact mwp_ret.mpr ⟨rfl, h₁⟩

/-- `update_curr_rt` charges the running task and may throttle the class. -/
theorem updateCurrRt_spec (h : Sane T a c s xs) {T' : α → TaskStruct} :
    (updateCurrRt T').mwp ringMonitor s g (fun _ s' g' => g' = g ∧ Sane T a c s' xs) := by
  unfold updateCurrRt
  rw [mwp_bind, mwp_get]
  apply mwp_when
  · intro _
    rw [mwp_bind, mwp_emit]
    refine ⟨?_, trivial⟩
    refine mwp.seq (modifySe_spec h fun _ => rfl) ?_
    rintro _ s₁ g₁ ⟨rfl, h₁⟩
    apply mwp_when
    · intro _
      refine mwp.seq (modifyRt_spec h₁ (fun _ => rfl) (fun _ => rfl) (fun _ => rfl)) ?_
      rintro _ s₂ g₂ ⟨rfl, h₂⟩
      refine mwp.seq (schedRtRuntimeExceeded_spec h₂) ?_
      rintro b s₃ g₃ ⟨rfl, h₃⟩
      apply mwp_when
      · intro _; exact reschedCurr_spec h₃
      · intro _; exact ⟨rfl, h₃⟩
    · intro _; exact ⟨rfl, h₁⟩
  · intro _; exact ⟨rfl, h⟩

/-- `dequeue_task_rt`. -/
theorem dequeueTaskRt_spec (h : Sane T a c s xs) (hp : a p = some .rt) :
    (dequeueTaskRt T p).mwp ringMonitor s g (fun _ s' g' =>
      g' = g ∧ Sane T (Function.update a p none) c s' xs) := by
  unfold dequeueTaskRt dequeueRtEntity
  refine mwp.seq (updateCurrRt_spec h) ?_
  rintro _ s₁ g₁ ⟨rfl, h₁⟩
  refine mwp.seq (dequeueRtStack_spec h₁) ?_
  rintro _ s₂ g₂ ⟨rfl, h₂, -⟩
  rw [if_pos hp] at h₂
  exact enqueueTopRtRq_spec h₂

/-- `set_curr_task_rt` stamps the running task. -/
theorem setCurrTaskRt_spec (h : Sane T a c s xs) :
    setCurrTaskRt.mwp ringMonitor s g (fun _ s' g' => g' = g ∧ Sane T a c s' xs) := by
  unfold setCurrTaskRt
  rw [mwp_bind, mwp_get]
  exact modifySe_spec h fun _ => rfl

/-- `yield_task_rt` moves the running task within its queue. -/
theorem yieldTaskRt_spec (h : Sane T a c s xs) :
    (yieldTaskRt T).mwp ringMonitor s g (fun _ s' g' => g' = g ∧ Sane T a c s' xs) := by
  unfold yieldTaskRt
  rw [mwp_bind, mwp_get]
  apply mwp_when
  · intro hon
    have hp : a s.rq.curr = some .rt := (onRtRq_iff h.rt).mp hon
    obtain ⟨h0, h1⟩ := h.rt.prio _ hp
    have hin : s.rq.curr ∈ s.rq.rt.active.queue (T s.rq.curr).prio.toNat :=
      (h.rt.mem _ _).mpr ⟨hp, Int.toNat_of_nonneg h0⟩
    have hperm : ((s.rq.rt.active.queue (T s.rq.curr).prio.toNat).erase s.rq.curr ++
        [s.rq.curr]).Perm (s.rq.rt.active.queue (T s.rq.curr).prio.toNat) :=
      (List.perm_append_singleton _ _).trans (List.perm_cons_erase hin).symm
    have hqueue : ∀ i, (Function.update (fun j => (s.rq.rt.active.queue j).erase s.rq.curr)
        (T s.rq.curr).prio.toNat ((s.rq.rt.active.queue (T s.rq.curr).prio.toNat).erase
          s.rq.curr ++ [s.rq.curr]) i).Perm (s.rq.rt.active.queue i) := by
      intro i
      by_cases ei : i = (T s.rq.curr).prio.toNat
      · subst ei; rw [Function.update_self]; exact hperm
      · rw [Function.update_of_ne ei, List.erase_of_not_mem]
        intro hi
        have := ((h.rt.mem _ i).mp hi).2
        omega
    rw [mwp_bind]
    refine rtSePrio_spec h0 h1 ?_
    unfold modifyRt
    rw [mwp_modify]
    refine ⟨rfl, h.of_rt (fun _ _ _ => Iff.rfl) rfl rfl (fun _ => rfl) rfl rfl rfl ?_ rfl⟩
    refine ⟨?_, h.rt.prio, ?_, ?_, h.rt.nr, h.rt.queued⟩
    · intro q i
      exact (hqueue i).mem_iff.trans (h.rt.mem q i)
    · intro i
      exact (hqueue i).nodup_iff.mpr (h.rt.nodup i)
    · intro i
      rw [h.rt.bitmap]
      exact not_congr (by rw [← List.length_eq_zero_iff, ← List.length_eq_zero_iff,
        (hqueue i).length_eq])
  · intro _; exact ⟨rfl, h⟩

/-- `check_preempt_curr_rt` only sets a flag. -/
theorem checkPreemptCurrRt_spec (h : Sane T a c s xs) {T' : α → TaskStruct} :
    (checkPreemptCurrRt T' p).mwp ringMonitor s g (fun _ s' g' => g' = g ∧ Sane T a c s' xs) := by
  unfold checkPreemptCurrRt
  rw [mwp_bind, mwp_get]
  apply mwp_when
  · intro _; exact reschedCurr_spec h
  · intro _; exact ⟨rfl, h⟩

/-- `switched_to_rt` only sets a flag. -/
theorem switchedToRt_spec (h : Sane T a c s xs) {T' : α → TaskStruct} :
    (switchedToRt T' p).mwp ringMonitor s g (fun _ s' g' => g' = g ∧ Sane T a c s' xs) := by
  unfold switchedToRt
  rw [mwp_bind, mwp_get]
  apply mwp_when
  · intro _; exact reschedCurr_spec h
  · intro _; exact ⟨rfl, h⟩

/-- `prio_changed_rt` only sets a flag. -/
theorem prioChangedRt_spec (h : Sane T a c s xs) {T' : α → TaskStruct} {oldprio : ℤ} :
    (prioChangedRt T' p oldprio).mwp ringMonitor s g
      (fun _ s' g' => g' = g ∧ Sane T a c s' xs) := by
  unfold prioChangedRt
  rw [mwp_bind, mwp_get]
  apply mwp_when
  · intro _
    split
    · apply mwp_when
      · intro _; exact reschedCurr_spec h
      · intro _; exact ⟨rfl, h⟩
    · apply mwp_when
      · intro _; exact reschedCurr_spec h
      · intro _; exact ⟨rfl, h⟩
  · intro _; exact ⟨rfl, h⟩

/-- `_pick_next_task_rt` finds a queued task when there is one. -/
theorem _pickNextTaskRt_spec (h : Sane T a c s xs) (hq : (onClass a .rt).Nonempty) :
    _pickNextTaskRt.mwp ringMonitor s g (fun p s' g' =>
      g' = g ∧ Sane T a c s' xs ∧ a p = some .rt) := by
  obtain ⟨q, hqm⟩ := hq
  have hq' : a q = some .rt := mem_onClass.mp hqm
  obtain ⟨h0, h1⟩ := h.rt.prio q hq'
  have hbit : s.rq.rt.active.bitmap (T q).prio.toNat = true := by
    rw [h.rt.bitmap]
    exact List.ne_nil_of_mem ((h.rt.mem q _).mpr ⟨hq', Int.toNat_of_nonneg h0⟩)
  unfold _pickNextTaskRt
  rw [mwp_bind, mwp_get]
  cases hf : schedFindFirstBit s.rq.rt.active with
  | none =>
      exfalso
      have hnone := List.find?_eq_none.mp hf (T q).prio.toNat
        (List.mem_range.mpr ((Int.toNat_lt_toNat (by decide)).mpr h1))
      exact hnone hbit
  | some idx =>
      have hset : s.rq.rt.active.bitmap idx = true := List.find?_some hf
      have hne := (h.rt.bitmap idx).mp hset
      cases hh : s.rq.rt.active.queue idx with
      | nil => exact absurd hh hne
      | cons p ps =>
          have hp : a p = some .rt := ((h.rt.mem p idx).mp (by rw [hh]; simp)).1
          simp only [hh, List.head?_cons]
          refine mwp.seq (modifySe_spec h fun _ => rfl) ?_
          rintro _ s₁ g₁ ⟨rfl, h₁⟩
          exact mwp_ret.mpr ⟨rfl, h₁, hp⟩

end KernelHacking.Sched
