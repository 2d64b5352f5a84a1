import KernelHacking.Sched.RtSpec

/-! # Dispatch and the picks keep the invariant

The specifications of the class functions are put together along the indirect calls.  A call into
a foreign class is covered by what is assumed of it; the fair class is excluded by a hypothesis
that the core discharges. -/

namespace KernelHacking.Sched

open TraceProg PtrRing Word Prog

variable {α : Type} [DecidableEq α] [Fintype α] {K : Kernel α}
variable {T : α → TaskStruct} {a a' : Account α} {c : Ctx α} {s : Cpu K} {xs g : List α} {p : α}

/-! ### The foreign classes -/

/-- A change of the state of a foreign class, of its account and of what it adds to
`rq->nr_running`. -/
theorem Sane.of_foreign (h : Sane T a c s xs) {f : Foreign} {s' : Cpu K}
    (ha : ∀ q k, k ≠ f.schedClass → (a' q = some k ↔ a q = some k)) (hctx : s'.ctx = s.ctx)
    (hnode : s'.node = s.node) (hse : s'.se = s.se) (hcirc : s'.rq.circ = s.rq.circ)
    (hrt : s'.rq.rt = s.rq.rt) (hcfs : s'.rq.cfs = s.rq.cfs)
    (hother : ∀ f', f' ≠ f → s'.rq.foreign f' = s.rq.foreign f')
    (hq : ∀ q ∈ s'.rq.queued f, a' q = some f.schedClass)
    (hnr : s'.rq.nrRunning + (s.rq.queued f).card = s.rq.nrRunning + (s'.rq.queued f).card) :
    Sane T a' c s' xs := by
  have hqo : ∀ f', f' ≠ f → s'.rq.queued f' = s.rq.queued f' := fun f' e => by
    unfold Rq.queued; rw [hother f' e]
  have hne : ∀ f' : Foreign, f'.schedClass ≠ .circular ∧ f'.schedClass ≠ .rt := by
    intro f'; cases f' <;> decide
  have hinj : ∀ f' : Foreign, f' ≠ f → f'.schedClass ≠ f.schedClass := by
    intro f' e; cases f' <;> cases f <;> first | exact absurd rfl e | decide
  have hc : onClass a' .circular = onClass a .circular := by
    ext q
    rw [mem_onClass, mem_onClass, ha q _ (hne f).1.symm]
  refine ⟨hctx.trans h.ctx, ⟨?_, ?_, ?_, ?_, ?_⟩, ?_, ?_, ?_, ?_⟩
  · rw [hnode, hcirc]; exact h.circ.rep
  · intro q; rw [hse, h.circ.onRq, ha q _ (hne f).1.symm]
  · intro q; rw [hcirc, h.circ.mem, ha q _ (hne f).1.symm]
  · rw [hcirc, hc]; exact h.circ.nr
  · rw [hcirc, hc]; exact h.circ.hNr
  · rw [hrt]; exact h.rt.congr_account fun q => ha q _ (hne f).2.symm
  · intro f' q hm
    by_cases e : f' = f
    · subst e; exact hq q hm
    · rw [hqo f' e] at hm
      rw [ha q _ (hinj f' e)]
      exact h.foreign f' q hm
  · have hsum := h.nr
    rw [hcirc, hrt]
    cases f with
    | stop => rw [hqo .dl (by decide)]; omega
    | dl => rw [hqo .stop (by decide)]; omega
  · rw [hcfs]; exact h.cfs

/-- A call into a foreign class, by what the call does to its queue. -/
theorem foreignCall_spec' (h : Sane T a c s xs) {f : Foreign} {call : ClassCall}
    {T' : α → TaskStruct}
    (ha : ∀ q k, k ≠ f.schedClass → (a' q = some k ↔ a q = some k))
    (hq : ∀ q ∈ (K.foreign f).queued
      ((K.foreign f).call call T' s.rq.clock (s.rq.foreign f) p).1, a' q = some f.schedClass) :
    (foreignCall f call T' p).mwp ringMonitor s g (fun _ s' g' => g' = g ∧ Sane T a' c s' xs) := by
  have hlt : s.rq.nrRunning < 2 ^ 32 := lt_of_le_of_lt h.nrRunning_le K.card_lt
  have hold : (s.rq.queued f).card ≤ s.rq.nrRunning := by
    have hsum := h.nr
    cases f <;> omega
  have hnew : s.rq.nrRunning - (s.rq.queued f).card + ((K.foreign f).queued
      ((K.foreign f).call call T' s.rq.clock (s.rq.foreign f) p).1).card < 2 ^ 32 := by
    have hn : ((K.foreign f).queued ((K.foreign f).call call T' s.rq.clock
        (s.rq.foreign f) p).1).card ≤ (onClass a' f.schedClass).card :=
      Finset.card_le_card fun q hm => mem_onClass.mpr (hq q hm)
    have hc : ∀ k, k ≠ f.schedClass → (onClass a' k).card = (onClass a k).card := by
      intro k hk
      congr 1
      ext q
      rw [mem_onClass, mem_onClass, ha q k hk]
    have h₁ := h.card_queued_le .stop
    have h₂ := h.card_queued_le .dl
    have h₃ : (onClass a' .circular).card + (onClass a' .rt).card + (onClass a' .stop).card +
      (onClass a' .dl).card ≤ Fintype.card α := card_classes_le
    have h₄ := h.nr
    have h₅ := h.circ.nr
    have h₆ := h.rt.added_le
    have h₇ := K.card_lt
    cases f with
    | stop =>
        rw [hc .circular (by decide), hc .rt (by decide), hc .dl (by decide)] at h₃
        simp only [Foreign.schedClass] at h₁ h₂ hn
        omega
    | dl =>
        rw [hc .circular (by decide), hc .rt (by decide), hc .stop (by decide)] at h₃
        simp only [Foreign.schedClass] at h₁ h₂ hn
        omega
  -- the flag at the end does not matter, so the state before it is what has to be sane
  have hflag : ∀ {s' : Cpu K} {b : Bool} {g' : List α}, g' = g → Sane T a' c s' xs →
      (when (b = true) reschedCurr).mwp ringMonitor s' g'
        (fun _ s'' g'' => g'' = g ∧ Sane T a' c s'' xs) := by
    intro s' b g' hg hs
    subst hg
    apply mwp_when
    · intro _; exact reschedCurr_spec hs
    · intro _; exact ⟨rfl, hs⟩
  unfold foreignCall
  rw [mwp_bind, mwp_get]
  unfold addNrRunning subNrRunning modifyRq
  rw [mwp_bind, mwp_modify, mwp_bind]
  generalize hr : (K.foreign f).call call T' s.rq.clock (s.rq.foreign f) p = r at hq hnew
  have hqd : ∀ n, ({ s.rq with
      nrRunning := n, foreign := Function.update s.rq.foreign f r.1 } : Rq K).queued f =
        (K.foreign f).queued r.1 := by
    intro n
    show (K.foreign f).queued (Function.update s.rq.foreign f r.1 f) = _
    rw [Function.update_self]
  have hsane : ∀ n, n + (s.rq.queued f).card = s.rq.nrRunning + ((K.foreign f).queued r.1).card →
      Sane T a' c { s with rq := { s.rq with
        nrRunning := n, foreign := Function.update s.rq.foreign f r.1 } } xs := by
    intro n hn
    refine h.of_foreign ha rfl rfl rfl rfl rfl rfl ?_ ?_ ?_
    · intro f' e
      exact Function.update_of_ne e _ _
    · rw [hqd]; exact hq
    · rw [hqd]; exact hn
  apply mwp_when
  · intro hlt'
    rw [mwp_modify, mwp_bind, when_neg (by omega), mwp_ret]
    apply hflag rfl
    refine hsane (u32Add s.rq.nrRunning _) ?_
    rw [u32Add_of_lt (by omega)]
    omega
  · intro hge
    rw [mwp_bind]
    apply mwp_when
    · intro hlt'
      rw [mwp_bind, mwp_get, mwp_bind, mwp_emit]
      refine ⟨?_, ?_⟩
      · rw [mwp_modify]
        apply hflag rfl
        refine hsane (u32Sub s.rq.nrRunning _) ?_
        rw [u32Sub_of_le (by omega) hlt]
        omega
      · show (s.rq.queued f).card - ((K.foreign f).queued r.1).card ≤ s.rq.nrRunning
        omega
    · intro hge'
      apply hflag rfl
      refine hsane s.rq.nrRunning ?_
      omega

/-- A foreign class queues a task. -/
theorem foreignCall_enqueue (h : Sane T a c s xs) {f : Foreign} {T' : α → TaskStruct}
    (hp : a p = none) (flags : ℕ) :
    (foreignCall f (.enqueue flags) T' p).mwp ringMonitor s g (fun _ s' g' =>
      g' = g ∧ Sane T (Function.update a p (some f.schedClass)) c s' xs) := by
  refine foreignCall_spec' h (account_update_iff (.inl hp) (.inr rfl)) ?_
  intro q hq
  by_cases e : q = p
  · subst e; rw [Function.update_self]
  · rw [Function.update_of_ne e]
    have hm := (K.foreign f).queued_enqueue flags T' _ _ p hq
    exact h.foreign f q ((Finset.mem_insert.mp hm).resolve_left e)

/-- A foreign class gives a task up. -/
theorem foreignCall_dequeue (h : Sane T a c s xs) {f : Foreign} {T' : α → TaskStruct}
    (hp : a p = some f.schedClass) (flags : ℕ) :
    (foreignCall f (.dequeue flags) T' p).mwp ringMonitor s g (fun _ s' g' =>
      g' = g ∧ Sane T (Function.update a p none) c s' xs) := by
  refine foreignCall_spec' h (account_update_iff (.inr hp) (.inl rfl)) ?_
  intro q hq
  have hm := Finset.mem_erase.mp ((K.foreign f).queued_dequeue flags T' _ _ p hq)
  rw [Function.update_of_ne hm.1]
  exact h.foreign f q hm.2

/-- Any other call into a foreign class. -/
theorem foreignCall_spec (h : Sane T a c s xs) {f : Foreign} {call : ClassCall}
    {T' : α → TaskStruct} (hcall : ∀ flags, call ≠ .enqueue flags) :
    (foreignCall f call T' p).mwp ringMonitor s g (fun _ s' g' => g' = g ∧ Sane T a c s' xs) :=
  foreignCall_spec' h (fun _ _ _ => Iff.rfl)
    fun q hq => h.foreign f q ((K.foreign f).queued_call _ _ _ _ _ hcall hq)

/-! ### Dispatch -/

/-- `enqueue_task` queues a task in its class. -/
theorem enqueueTask_spec (h : Sane T a c s xs) (hp : a p = none)
    (hfair : (T p).schedClass ≠ .fair) (hidle : (T p).schedClass ≠ .idle)
    (hrt : (T p).schedClass = .rt → 0 ≤ (T p).prio ∧ (T p).prio < MAX_RT_PRIO) (flags : ℕ) :
    (enqueueTask T p flags).mwp ringMonitor s xs
      (fun _ => Sane T (Function.update a p (some (T p).schedClass)) c) := by
  unfold enqueueTask
  refine mwp.seq (updateRqClock_spec h) ?_
  rintro _ s₁ g₁ ⟨rfl, h₁⟩
  unfold classEnqueue
  cases hk : (T p).schedClass with
  | stop =>
      refine (foreignCall_enqueue h₁ hp flags).mono ?_
      rintro _ s₂ g₂ ⟨rfl, h₂⟩
      exact h₂
  | dl =>
      refine (foreignCall_enqueue h₁ hp flags).mono ?_
      rintro _ s₂ g₂ ⟨rfl, h₂⟩
      exact h₂
  | rt =>
      refine (enqueueTaskRt_spec h₁ hp (hrt hk).1 (hrt hk).2 flags).mono ?_
      rintro _ s₂ g₂ ⟨rfl, h₂⟩
      exact h₂
  | fair => exact absurd hk hfair
  | circular => exact enqueueTaskCircular_spec h₁ hp
  | idle => exact absurd hk hidle

/-- `dequeue_task` takes a task off its class. -/
theorem dequeueTask_spec (h : Sane T a c s xs) (hp : a p = some (T p).schedClass)
    (hfair : (T p).schedClass ≠ .fair) (hidle : (T p).schedClass ≠ .idle) (flags : ℕ) :
    (dequeueTask T p flags).mwp ringMonitor s xs
      (fun _ => Sane T (Function.update a p none) c) := by
  unfold dequeueTask
  refine mwp.seq (updateRqClock_spec h) ?_
  rintro _ s₁ g₁ ⟨rfl, h₁⟩
  unfold classDequeue
  cases hk : (T p).schedClass with
  | stop =>
      refine (foreignCall_dequeue h₁ (hp.trans (by rw [hk]; rfl)) flags).mono ?_
      rintro _ s₂ g₂ ⟨rfl, h₂⟩
      exact h₂
  | dl =>
      refine (foreignCall_dequeue h₁ (hp.trans (by rw [hk]; rfl)) flags).mono ?_
      rintro _ s₂ g₂ ⟨rfl, h₂⟩
      exact h₂
  | rt =>
      refine (dequeueTaskRt_spec h₁ (hp.trans (by rw [hk]))).mono ?_
      rintro _ s₂ g₂ ⟨rfl, h₂⟩
      exact h₂
  | fair => exact absurd hk hfair
  | circular => exact dequeueTaskCircular_spec h₁ (hp.trans (by rw [hk]))
  | idle => exact absurd hk hidle

/-- `put_prev_task` of the running task: afterwards `circ_rq->curr` is null, and a circular task that
is still queued is at the end of the ring. -/
theorem putPrevTask_spec (h : Sane T a c s xs) (hcurr : c.circCurr = currOf T p)
    (hfair : (T p).schedClass ≠ .fair) :
    (putPrevTask T p).mwp ringMonitor s xs (fun _ s' xs' =>
      xs' = xs ++ putBack T s p ∧ Sane T a { c with circCurr := none } s' xs') := by
  have hother : (T p).schedClass ≠ .circular →
      xs = xs ++ putBack T s p ∧ { c with circCurr := none } = c := by
    intro hne
    refine ⟨?_, ?_⟩
    · simp [putBack, hne]
    · rw [currOf, if_neg hne] at hcurr
      rw [← hcurr]
  -- a class that leaves the ring alone finds `circ_rq->curr` null already
  have hquiet : (T p).schedClass ≠ .circular → ∀ {x : SchedM K Unit},
      x.mwp ringMonitor s xs (fun _ s' g' => g' = xs ∧ Sane T a c s' xs) →
      x.mwp ringMonitor s xs (fun _ s' xs' =>
        xs' = xs ++ putBack T s p ∧ Sane T a { c with circCurr := none } s' xs') := by
    intro hne x hx
    obtain ⟨hxs, hctx⟩ := hother hne
    refine hx.mono ?_
    rintro _ s' g' ⟨rfl, h'⟩
    rw [hctx]
    exact ⟨hxs, h'⟩
  unfold putPrevTask
  cases hk : (T p).schedClass with
  | stop => exact hquiet (by rw [hk]; decide) (foreignCall_spec h (by simp))
  | dl => exact hquiet (by rw [hk]; decide) (foreignCall_spec h (by simp))
  | rt => exact hquiet (by rw [hk]; decide) (updateCurrRt_spec h)
  | fair => exact absurd hk hfair
  | circular =>
      rw [currOf, if_pos hk] at hcurr
      refine (putPrevTaskCircular_spec h (fun _ => hcurr) ?_).mono ?_
      · intro q hq
        rw [hcurr] at hq
        exact (Option.some.inj hq).symm
      · rintro _ s' g' ⟨rfl, h'⟩
        refine ⟨?_, h'⟩
        simp [putBack, hk]
  | idle => exact hquiet (by rw [hk]; decide) (mwp_ret.mpr ⟨rfl, h⟩)

/-- `set_curr_task` of a running task that is not queued. -/
theorem setCurrTask_spec (h : Sane T a c s xs) (hp : c.curr = p) (hap : a p = none)
    (hc : c.circCurr = none) (hfair : (T p).schedClass ≠ .fair) :
    (setCurrTask T p).mwp ringMonitor s xs
      (fun _ => Sane T a { c with circCurr := currOf T p }) := by
  have hquiet : (T p).schedClass ≠ .circular → ∀ {x : SchedM K Unit},
      x.mwp ringMonitor s xs (fun _ s' g' => g' = xs ∧ Sane T a c s' xs) →
      x.mwp ringMonitor s xs (fun _ => Sane T a { c with circCurr := currOf T p }) := by
    intro hne x hx
    refine hx.mono ?_
    rintro _ s' g' ⟨rfl, h'⟩
    rw [currOf, if_neg hne, ← hc]
    exact h'
  unfold setCurrTask
  cases hk : (T p).schedClass with
  | stop => exact hquiet (by rw [hk]; decide) (foreignCall_spec h (by simp))
  | dl => exact hquiet (by rw [hk]; decide) (foreignCall_spec h (by simp))
  | rt => exact hquiet (by rw [hk]; decide) (setCurrTaskRt_spec h)
  | fair => exact absurd hk hfair
  | circular =>
      rw [currOf, if_pos hk, ← hp]
      exact setCurrTaskCircular_spec h (by rw [hp]; exact hap) hc
  | idle => exact hquiet (by rw [hk]; decide) (mwp_ret.mpr ⟨rfl, h⟩)

/-- `update_curr` of the class. -/
theorem updateCurr_spec (h : Sane T a c s xs) (hfair : (T p).schedClass ≠ .fair) :
    (updateCurr T p).mwp ringMonitor s g (fun _ s' g' => g' = g ∧ Sane T a c s' xs) := by
  unfold updateCurr
  cases hk : (T p).schedClass with
  | stop => exact foreignCall_spec h (by simp)
  | dl => exact foreignCall_spec h (by simp)
  | rt => exact updateCurrRt_spec h
  | fair => exact absurd hk hfair
  | circular => exact updateCurrCircular_spec h
  | idle => exact mwp_ret.mpr ⟨rfl, h⟩

/-- `yield_task` of the class. -/
theorem yieldTask_spec (h : Sane T a c s xs) (hfair : (T p).schedClass ≠ .fair)
    (hidle : (T p).schedClass ≠ .idle) :
    (yieldTask T p).mwp ringMonitor s g (fun _ s' g' => g' = g ∧ Sane T a c s' xs) := by
  unfold yieldTask
  cases hk : (T p).schedClass with
  | stop => exact foreignCall_spec h (by simp)
  | dl => exact foreignCall_spec h (by simp)
  | rt => exact yieldTaskRt_spec h
  | fair => exact absurd hk hfair
  | circular => exact yieldTaskCircular_spec h
  | idle => exact absurd hk hidle

/-! ### Preemption and class changes -/

theorem checkPreemptWalk_spec (h : Sane T a c s xs) {k k' : SchedClass} :
    ∀ cs : List SchedClass, (checkPreemptWalk k k' cs).mwp ringMonitor s g
      (fun _ s' g' => g' = g ∧ Sane T a c s' xs)
  | [] => mwp_ret.mpr ⟨rfl, h⟩
  | k₀ :: cs => by
      unfold checkPreemptWalk
      split
      · exact mwp_ret.mpr ⟨rfl, h⟩
      split
      · exact reschedCurr_spec h
      · exact checkPreemptWalk_spec h cs

/-- `check_preempt_curr` only charges and sets flags. -/
theorem checkPreemptCurr_spec (h : Sane T a c s xs) (hfair : (T p).schedClass ≠ .fair)
    (flags : ℕ) :
    (checkPreemptCurr T p flags).mwp ringMonitor s g
      (fun _ s' g' => g' = g ∧ Sane T a c s' xs) := by
  have hcheck : (checkPreempt T s.rq.curr p flags).mwp ringMonitor s g
      (fun _ s' g' => g' = g ∧ Sane T a c s' xs) := by
    unfold checkPreempt
    split
    · unfold classCheckPreempt
      cases hk : (T p).schedClass with
      | stop => exact foreignCall_spec h (by simp)
      | dl => exact foreignCall_spec h (by simp)
      | rt => exact checkPreemptCurrRt_spec h
      | fair => exact absurd hk hfair
      | circular => exact checkPreemptWakeup_spec h
      | idle => exact reschedCurr_spec h
    · exact checkPreemptWalk_spec h _
  unfold checkPreemptCurr
  rw [mwp_bind, mwp_get]
  refine mwp.seq hcheck ?_
  rintro _ s₁ g₁ ⟨rfl, h₁⟩
  rw [mwp_bind, mwp_get]
  apply mwp_when
  · intro _
    unfold modifyRq
    rw [mwp_modify]
    exact ⟨rfl, h₁.congr_state rfl (fun _ _ => rfl) (fun _ => rfl) rfl rfl rfl rfl rfl⟩
  · intro _; exact ⟨rfl, h₁⟩

theorem prioChangedCircular_spec (h : Sane T a c s xs) (hfair : (T p).schedClass ≠ .fair)
    {oldprio : ℤ} :
    (prioChangedCircular T p oldprio).mwp ringMonitor s g
      (fun _ s' g' => g' = g ∧ Sane T a c s' xs) := by
  unfold prioChangedCircular
  rw [mwp_bind, mwp_get]
  split
  · apply mwp_when
    · intro _; exact reschedCurr_spec h
    · intro _; exact ⟨rfl, h⟩
  · exact checkPreemptCurr_spec h hfair 0

theorem switchedToCircular_spec (h : Sane T a c s xs) (hfair : (T p).schedClass ≠ .fair) :
    (switchedToCircular T p).mwp ringMonitor s g (fun _ s' g' => g' = g ∧ Sane T a c s' xs) := by
  unfold switchedToCircular
  rw [mwp_bind, mwp_get]
  apply mwp_when
  · intro _
    split
    · exact reschedCurr_spec h
    · exact checkPreemptCurr_spec h hfair 0
  · intro _; exact ⟨rfl, h⟩

/-- `check_class_changed` only charges, sets flags and informs the foreign classes. -/
theorem checkClassChanged_spec (h : Sane T a c s xs) {prevClass : SchedClass} {oldprio : ℤ}
    (hprev : prevClass ≠ .fair) (hfair : (T p).schedClass ≠ .fair)
    (hidle : (T p).schedClass ≠ .idle) :
    (checkClassChanged T p prevClass oldprio).mwp ringMonitor s g
      (fun _ s' g' => g' = g ∧ Sane T a c s' xs) := by
  have hfrom : (switchedFrom T p prevClass).mwp ringMonitor s g
      (fun _ s' g' => g' = g ∧ Sane T a c s' xs) := by
    unfold switchedFrom
    cases prevClass with
    | stop => exact foreignCall_spec h (by simp)
    | dl => exact foreignCall_spec h (by simp)
    | fair => exact absurd rfl hprev
    | rt => exact mwp_ret.mpr ⟨rfl, h⟩
    | circular => exact mwp_ret.mpr ⟨rfl, h⟩
    | idle => exact mwp_ret.mpr ⟨rfl, h⟩
  unfold checkClassChanged
  split
  · refine mwp.seq hfrom ?_
    rintro _ s₁ g₁ ⟨rfl, h₁⟩
    unfold switchedTo
    cases hk : (T p).schedClass with
    | stop => exact foreignCall_spec h₁ (by simp)
    | dl => exact foreignCall_spec h₁ (by simp)
    | rt => exact switchedToRt_spec h₁
    | fair => exact absurd hk hfair
    | circular => exact switchedToCircular_spec h₁ hfair
    | idle => exact absurd hk hidle
  · apply mwp_when
    · intro _
      unfold prioChanged
      cases hk : (T p).schedClass with
      | stop => exact foreignCall_spec h (by simp)
      | dl => exact foreignCall_spec h (by simp)
      | rt => exact prioChangedRt_spec h
      | fair => exact absurd hk hfair
      | circular => exact prioChangedCircular_spec h hfair
      | idle => exact absurd hk hidle
    · intro _; exact ⟨rfl, h⟩

end KernelHacking.Sched
