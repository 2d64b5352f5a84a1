import KernelHacking.Sched.Prompt

/-! # Strict priorities

`__schedule` lets a task of the best rank run among those that can be picked, and clears all marks
(`__schedule_best`).  Between two calls of it no preemption is missed (`Prompt`).  Together: in every
run, with wake-ups, forks, changes of class and priority, ticks and the bandwidth timer in any order,
a running task that is not marked is outranked by nobody (`strict_priority`). -/

namespace KernelHacking.Sched

open TraceProg PtrRing Word Prog

variable {α : Type} [DecidableEq α] [Fintype α] {K : Kernel α}
variable {T : α → TaskStruct} {a : Account α} {c : Ctx α} {s : Cpu K} {xs : List α} {prev p : α}
variable {m m' m₀ : Machine K}

/-! ### The real-time pick -/

/-- The running task has been charged up to now. -/
def Charged (s : Cpu K) : Prop :=
  s64NonPos (s.rq.clockTask - (s.se s.rq.curr).execStart) = true

/-- The parts of the state a charge is about are the same. -/
structure SameCharge (s s' : Cpu K) : Prop where
  curr : s'.rq.curr = s.rq.curr
  clock : s'.rq.clockTask = s.rq.clockTask
  se : s'.se = s.se

instance : IsTrans (Cpu K) SameCharge := ⟨fun _ _ _ h h' =>
  ⟨h'.curr.trans h.curr, h'.clock.trans h.clock, h'.se.trans h.se⟩⟩

theorem schedRtRuntimeExceeded_sameCharge :
    Within SameCharge (schedRtRuntimeExceeded : SchedM K Bool) := by
  have hmod : ∀ f : RtRq α → RtRq α, Within SameCharge (modifyRt f : SchedM K Unit) := fun f =>
    within_modify fun _ => ⟨rfl, rfl, rfl⟩
  unfold schedRtRuntimeExceeded dequeueTopRtRq subNrRunning
  refine keeps_bind keeps_get fun _ => ?_
  refine keeps_ite (keeps_ret _) (keeps_ite (keeps_ret _) (keeps_ite (keeps_ret _) ?_))
  refine keeps_ite (keeps_ret _) (keeps_ite ?_ ?_)
  · refine keeps_bind (hmod _) fun _ => keeps_bind ?_ fun _ => keeps_ret _
    refine keeps_bind keeps_get fun _ => keeps_when fun _ => ?_
    refine keeps_bind (keeps_when fun _ => keeps_fail) fun _ => keeps_bind ?_ fun _ => hmod _
    refine keeps_bind keeps_get fun _ => keeps_bind within_emit fun _ => ?_
    exact within_modify fun _ => ⟨rfl, rfl, rfl⟩
  · exact keeps_bind (hmod _) fun _ => keeps_ret _

/-- After `update_curr_rt` a real-time task is charged. -/
theorem updateCurrRt_charged : (updateCurrRt T : SchedM K Unit).wlp s fun _ s' =>
    (T s.rq.curr).schedClass = .rt → Charged s' := by
  unfold updateCurrRt
  apply wlp_get_bind
  apply wlp_when
  · intro _
    refine wlp_bind (P := fun _ s₁ => s₁ = s) (wlp_emit rfl) ?_
    intro _ s₁ e₁
    rw [e₁]
    refine wlp_bind (P := fun _ s₁ => Charged s₁) (wlp_modify ?_) ?_
    · have hself : (Function.update s.se s.rq.curr ((s.se s.rq.curr).charge s.rq.clockTask)
          s.rq.curr).execStart = s.rq.clockTask := by
        rw [Function.update_self]
        rfl
      show s64NonPos (s.rq.clockTask - (Function.update s.se s.rq.curr
        ((s.se s.rq.curr).charge s.rq.clockTask) s.rq.curr).execStart) = true
      rw [hself, BitVec.sub_self]
      decide
    · intro _ s₁ h₁
      have hkeep : ∀ delta : U64, Within SameCharge (do
          modifyRt fun rt => { rt with rtTime := rt.rtTime + delta }
          let exceeded ← schedRtRuntimeExceeded
          when (exceeded) reschedCurr : SchedM K Unit) := by
        intro delta
        refine keeps_bind (within_modify fun _ => ⟨rfl, rfl, rfl⟩) fun _ => ?_
        refine keeps_bind schedRtRuntimeExceeded_sameCharge fun _ => keeps_when fun _ => ?_
        exact within_modify fun _ => ⟨rfl, rfl, rfl⟩
      have hs₁ : SameCharge s₁ s₁ := ⟨rfl, rfl, rfl⟩
      refine (Within.wlp (keeps_when fun _ => hkeep _) hs₁).mono ?_
      intro _ s₂ h₂ _
      unfold Charged
      rw [h₂.curr, h₂.clock, h₂.se]
      exact h₁
  · intro hn hrt
    rw [not_and, Bool.not_eq_false] at hn
    exact hn hrt

/-- Putting back a task that is charged does not throttle the class. -/
theorem putPrevTask_rt (hT : AllRanked T) (hch : (T prev).schedClass = .rt → Charged s) :
    (putPrevTask T prev).wlp s fun _ s' => s'.rq.rt = s.rq.rt := by
  unfold putPrevTask
  rcases (hT prev).cases with e | e | e
  · rw [e]
    unfold putPrevTaskRt updateCurrRt
    apply wlp_get_bind
    refine wlp_when ?_ fun _ => rfl
    rintro ⟨-, hpos⟩
    have := hch e
    unfold Charged at this
    rw [this] at hpos
    cases hpos
  · rw [e]
    have hs : Aside s s := ⟨rfl, rfl, rfl, rfl⟩
    exact (putPrevTaskCircular_aside.wlp hs).mono fun _ _ h => h.rt
  · rw [e]
    exact wlp_ret rfl

/-- The first bit of the array belongs to the best priority. -/
theorem _pickNextTaskRt_best (h : Sane T a c s xs) : (_pickNextTaskRt : SchedM K α).wlp s
    fun p s' => s'.rq.rt = s.rq.rt ∧ ∀ q, a q = some .rt → (T p).prio ≤ (T q).prio := by
  unfold _pickNextTaskRt
  apply wlp_get_bind
  cases hf : schedFindFirstBit s.rq.rt.active with
  | none => exact wlp_fail
  | some idx =>
      dsimp only
      cases hh : (s.rq.rt.active.queue idx).head? with
      | none => exact wlp_fail
      | some p =>
          have hmem : p ∈ s.rq.rt.active.queue idx := List.mem_of_mem_head? hh
          refine wlp_bind (P := fun _ s₁ => s₁.rq.rt = s.rq.rt) (wlp_modify rfl) ?_
          intro _ s₁ h₁
          refine wlp_ret ⟨h₁, ?_⟩
          intro q hq
          obtain ⟨h0, h1⟩ := h.rt.prio q hq
          rw [← ((h.rt.mem p idx).mp hmem).2]
          have hle : idx ≤ (T q).prio.toNat := by
            by_contra hlt
            have hno := List.find?_range_eq_some.mp hf
            have hbit := hno.2.2 (T q).prio.toNat (not_le.mp hlt)
            have hset : s.rq.rt.active.bitmap (T q).prio.toNat = true := by
              rw [h.rt.bitmap]
              exact List.ne_nil_of_mem ((h.rt.mem q _).mpr ⟨hq, Int.toNat_of_nonneg h0⟩)
            simp [hset] at hbit
          omega

/-- **The real-time pick** returns a task of the best priority, unless the class is throttled or has
no tasks. -/
theorem pickNextTaskRt_best (h : Sane T a c s xs) (hcurr : c.circCurr = currOf T prev)
    (hT : AllRanked T) (hprev : prev = s.rq.curr) (hc : s.rq.rt.Counted) :
    (pickNextTaskRt T prev).mwp ringMonitor s xs (fun r s' xs' => Kept s s' ∧
      match r with
      | none => Sane T a c s' xs' ∧ (s'.rq.rt.rtThrottled = true ∨ onClass a .rt = ∅)
      | some p => a p = some .rt ∧ s'.rq.rt.rtThrottled = false ∧
          ∀ q, a q = some .rt → (T p).prio ≤ (T q).prio) := by
  have hfair : (T prev).schedClass ≠ .fair := by
    rcases (hT prev).cases with e | e | e <;> rw [e] <;> decide
  unfold pickNextTaskRt
  have hupd : (when ((T prev).schedClass = .rt) (updateCurrRt T) : SchedM K Unit).mwp ringMonitor s xs
      (fun _ s' g' => (g' = xs ∧ Sane T a c s' xs) ∧ Kept s s' ∧
        ((T prev).schedClass = .rt → Charged s')) := by
    refine (mwp_when (fun _ => updateCurrRt_spec h) fun _ => ⟨rfl, h⟩).and_wlp (wlp.and ?_ ?_)
    · exact Within.wlp (keeps_when fun _ => updateCurrRt_kept) (Kept.refl s)
    · refine wlp_when (fun _ => ?_) fun hn e => absurd e hn
      rw [hprev]
      exact updateCurrRt_charged
  refine mwp.seq hupd ?_
  rintro _ s₁ g₁ ⟨⟨rfl, h₁⟩, hk₁, hch⟩
  have hc₁ := hk₁.counted hc
  rw [mwp_bind, mwp_get]
  split
  · rename_i hq
    obtain ⟨ht₁, hn₁⟩ := hc₁.mp hq
    have hne : (onClass a .rt).Nonempty := by
      apply Finset.card_pos.mp
      rw [← h₁.rt.nr]
      exact Nat.pos_of_ne_zero hn₁
    refine mwp.seq ((putPrevTask_spec h₁ hcurr hfair).and_wlp
      ((putPrevTask_rt hT hch).and (putPrevTask_kept.wlp hk₁))) ?_
    rintro _ s₂ xs₂ ⟨⟨-, h₂⟩, hrt₂, hk₂⟩
    refine mwp.seq ((_pickNextTaskRt_spec h₂ hne).and_wlp
      ((_pickNextTaskRt_best h₂).and ((within_aside _pickNextTaskRt_aside).wlp hk₂))) ?_
    rintro p s₃ g₃ ⟨⟨rfl, h₃, hp⟩, ⟨hrt₃, hbest⟩, hk₃⟩
    have ht₃ : s₃.rq.rt.rtThrottled = false := by rw [hrt₃, hrt₂]; exact ht₁
    exact mwp_ret.mpr ⟨hk₃, hp, ht₃, hbest⟩
  · rename_i hq
    refine mwp_ret.mpr ⟨hk₁, h₁, ?_⟩
    by_cases ht : s₁.rq.rt.rtThrottled = true
    · exact .inl ht
    · refine .inr ?_
      rw [Bool.not_eq_true] at ht
      have hn : s₁.rq.rt.rtNrRunning = 0 := by
        by_contra hn
        exact hq (hc₁.mpr ⟨ht, hn⟩)
      rw [h₁.rt.nr] at hn
      exact Finset.card_eq_zero.mp hn

/-! ### `pick_next_task` -/

/-- A class without queued tasks picks nothing. -/
theorem pickNextTaskForeign_none (h : Sane T a c s xs) (hT : AllRanked T) {f : Foreign}
    (hno : ∀ q, a q ≠ some f.schedClass) : (pickNextTaskForeign f T prev).mwp ringMonitor s xs
      (fun r s' xs' => r = none ∧ s' = s ∧ xs' = xs) := by
  have hne : (T prev).schedClass ≠ f.schedClass := by
    rcases (hT prev).cases with e | e | e <;> rw [e] <;> cases f <;> decide
  unfold pickNextTaskForeign
  rw [when_neg hne, mwp_bind, mwp_ret, mwp_bind, mwp_get]
  cases hp : (K.foreign f).pick T s.rq.clock (s.rq.foreign f) with
  | none => exact mwp_ret.mpr ⟨rfl, rfl, rfl⟩
  | some p => exact absurd (h.foreign f p ((K.foreign f).pick_mem _ _ _ _ hp)) (hno p)

theorem pickNextTaskCircular_kept : Within Kept (pickNextTaskCircular T prev : SchedM K (Option α)) := by
  unfold pickNextTaskCircular
  refine keeps_bind keeps_get fun _ => keeps_ite (keeps_bind within_emit fun _ => keeps_ret _) ?_
  refine keeps_bind putPrevTask_kept fun _ => keeps_bind (within_aside chooseEntity_aside) fun _ => ?_
  refine keeps_bind (within_aside listTraverse_aside) fun _ => keeps_bind (keeps_deref _) fun _ => ?_
  exact keeps_bind keeps_get fun _ => keeps_bind within_emit fun _ => keeps_ret _

theorem pickNextTaskIdle_kept : Within Kept (pickNextTaskIdle T prev : SchedM K α) :=
  keeps_bind putPrevTask_kept fun _ => keeps_bind keeps_get fun _ => keeps_ret _

/-- The picked task: one of the best priority in the real-time class; or else that class is throttled or
empty, and the task is a circular one, or the idle task if there is none. -/
def BestPick (T : α → TaskStruct) (a : Account α) (c : Ctx α) (p : α) (s : Cpu K) : Prop :=
  (a p = some .rt ∧ s.rq.rt.rtThrottled = false ∧ ∀ q, a q = some .rt → (T p).prio ≤ (T q).prio) ∨
    (s.rq.rt.rtThrottled = true ∨ onClass a .rt = ∅) ∧
      (a p = some .circular ∨ p = c.idle ∧ onClass a .circular = ∅)

/-- The picks of the circular and the idle class, in this order. -/
theorem pickShortcut_best (h : Sane T a c s xs) (hcurr : c.circCurr = currOf T prev)
    (hfair : (T prev).schedClass ≠ .fair)
    (hrt : s.rq.rt.rtThrottled = true ∨ onClass a .rt = ∅) :
    (pickShortcut T prev).mwp ringMonitor s xs (fun p s' _ => Kept s s' ∧ BestPick T a c p s') := by
  have hlater : ∀ {s' : Cpu K}, Kept s s' → s'.rq.rt.rtThrottled = true ∨ onClass a .rt = ∅ := by
    intro s' hk
    refine hrt.imp_left fun ht => ?_
    rw [← Bool.not_eq_false]
    intro hf
    rw [hk.throttled hf] at ht
    cases ht
  unfold pickShortcut
  refine mwp.seq ((pickNextTaskCircular_spec h hcurr hfair).and_wlp
    (pickNextTaskCircular_kept.wlp (Kept.refl s))) ?_
  rintro r s₁ xs₁ ⟨hr, hk⟩
  cases r with
  | none =>
      obtain ⟨rfl, rfl, he⟩ := hr
      refine ((pickNextTaskIdle_spec h hcurr hfair).and_wlp (pickNextTaskIdle_kept.wlp hk)).mono ?_
      rintro p s' xs' ⟨⟨rfl, -⟩, hk'⟩
      exact ⟨hk', .inr ⟨hlater hk', .inr ⟨rfl, he⟩⟩⟩
  | some p => exact mwp_ret.mpr ⟨hk, .inr ⟨hlater hk, .inl hr.1⟩⟩

/-- The walk over the classes: without stop and deadline tasks, the real-time class, and then as in
the shortcut. -/
theorem pickWalk_eq {β : Type} {Q : α → Cpu K → β → Prop} {M : Monitor (Event K) β} {g : β}
    (h : (pickShortcut T prev).mwp M s g Q) : (pickWalk T prev [.circular, .idle]).mwp M s g Q := by
  unfold pickShortcut at h
  unfold pickWalk
  rw [mwp_bind] at h ⊢
  refine h.mono ?_
  intro r s' g' hr
  cases r with
  | some p => exact hr
  | none =>
      unfold pickWalk
      show ((do let p ← pickNextTaskIdle T prev; pure (some p)) >>= _).mwp M s' g' Q
      rw [mwp_bind, mwp_bind]
      refine hr.mono ?_
      intro p s'' g'' hp
      rw [mwp_ret]
      exact mwp_ret.mpr hp

/-- **`pick_next_task`** makes the best pick, on the shortcut too. -/
theorem pickNextTask_best (h : Sane T a c s xs) (hcurr : c.circCurr = currOf T prev)
    (hT : AllRanked T) (hprev : prev = s.rq.curr) (hc : s.rq.rt.Counted)
    (hno : ∀ (f : Foreign) q, a q ≠ some f.schedClass) :
    (pickNextTask T prev).mwp ringMonitor s xs (fun p s' _ => Kept s s' ∧ BestPick T a c p s') := by
  have hfair : (T prev).schedClass ≠ .fair := by
    rcases (hT prev).cases with e | e | e <;> rw [e] <;> decide
  unfold pickNextTask
  rw [mwp_bind, mwp_get]
  split
  · rename_i hshort
    refine pickShortcut_best h hcurr hfair ?_
    -- nothing is counted in `rq->nr_running`, so the real-time class is throttled or empty
    have hnr := h.nr
    rw [hshort.2, h.cfs] at hnr
    by_cases ht : s.rq.rt.rtThrottled = true
    · exact .inl ht
    · refine .inr (Finset.card_eq_zero.mp ?_)
      rw [← h.rt.nr]
      by_contra hn
      have hq := hc.mpr ⟨Bool.not_eq_true _ ▸ ht, hn⟩
      have hadded : s.rq.rt.added = s.rq.rt.rtNrRunning := if_pos hq
      omega
  · unfold classChain pickWalk
    refine mwp.seq (pickNextTaskForeign_none h hT (hno .stop)) ?_
    rintro _ _ _ ⟨rfl, rfl, rfl⟩
    unfold pickWalk
    refine mwp.seq (pickNextTaskForeign_none h hT (hno .dl)) ?_
    rintro _ _ _ ⟨rfl, rfl, rfl⟩
    unfold pickWalk
    refine mwp.seq (pickNextTaskRt_best h hcurr hT hprev hc) ?_
    rintro r s₁ xs₁ ⟨hk, hr⟩
    cases r with
    | some p => exact mwp_ret.mpr ⟨hk, .inl hr⟩
    | none =>
        refine (pickWalk_eq (pickShortcut_best hr.1 hcurr hfair hr.2)).mono ?_
        rintro p s' _ ⟨hk', hp⟩
        exact ⟨hk.trans hk', hp⟩

/-! ### `__schedule` -/

theorem touches_calm {β : Type} {x : CoreM K β} (h : Within (Touches p) x) : Within Calm x :=
  h.mono fun _ _ ht => ht.toCalm

/-- Up to the pick, class and priority of all tasks stay. -/
theorem scheduleEnter_calm {signalPending preemptActive : Bool} {toWakeup : Option α} :
    Within Calm (scheduleEnter signalPending preemptActive toWakeup : CoreM K α) := by
  unfold scheduleEnter schedulePrev deactivateTask
  refine keeps_bind keeps_get fun m => keeps_bind (keeps_bind keeps_get fun _ => ?_) fun _ => ?_
  · refine keeps_when fun _ => keeps_ite (touches_calm (p := m.cpu.rq.curr) ?_) ?_
    · exact modifyTask_touches (fun _ => rfl) fun _ => rfl
    · refine keeps_bind (touches_calm (p := m.cpu.rq.curr) ?_) fun _ =>
        keeps_bind (touches_calm (p := m.cpu.rq.curr) ?_) fun _ => keeps_when fun _ => ?_
      · exact onCpu_touches fun _ => dequeueTask_kept
      · exact modifyTask_touches (fun _ => rfl) fun _ => rfl
      · cases toWakeup with
        | none => exact keeps_ret ()
        | some q => exact touches_calm tryToWakeUpLocal_touches
  · refine keeps_bind keeps_get fun _ => keeps_bind (keeps_when fun _ => ?_) fun _ => keeps_ret _
    refine touches_calm (p := m.cpu.rq.curr) ?_
    exact onCpu_touches fun _ => within_aside updateRqClock_aside

/-- The running task can be picked, and nobody who can be picked outranks it. -/
structure Best (m : Machine K) : Prop where
  eligible : Eligible m.cpu.rq.rt (m.task m.cpu.rq.curr)
  first : ∀ q, Eligible m.cpu.rq.rt (m.task q) → rank (m.task m.cpu.rq.curr) ≤ rank (m.task q)

/-- A best pick has the best rank. -/
theorem BestPick.best (h : Settled m xs) (hT : AllRanked m.task) {next : α}
    (hb : BestPick m.task (home m.task) m.cpu.ctx next s) {f : α → Bool} :
    Best { m with cpu := { s with
      needResched := f, rq := { s.rq with skipClockUpdate := 0, curr := next } } } := by
  have hin : ∀ {q k}, home m.task q = some k → taskOnRqQueued (m.task q) = true ∧
      (m.task q).schedClass = k := fun e => home_eq_some.mp e
  rcases hb with ⟨hrt, ht, hle⟩ | ⟨hno, hnext⟩
  · obtain ⟨hq, hcls⟩ := hin hrt
    have hnext : Ranked .rt (m.task next).prio := by rw [← hcls]; exact hT next
    refine ⟨⟨hq, fun _ => ht⟩, ?_⟩
    intro q hel
    show rank (m.task next) ≤ rank (m.task q)
    unfold rank
    rw [hcls]
    by_cases hqrt : (m.task q).schedClass = .rt
    · rw [hqrt]
      refine hle q ?_
      rw [home_of_queued hel.1, hqrt]
    · exact hnext.rank_le (hT q) hqrt
  · have hnrt : ∀ q, Eligible s.rq.rt (m.task q) → (m.task q).schedClass ≠ .rt := by
      intro q hel e
      rcases hno with ht | hempty
      · have hf := hel.2 e
        rw [ht] at hf
        cases hf
      · have hmem : q ∈ onClass (home m.task) .rt := by
          rw [mem_onClass, home_of_queued hel.1, e]
        rw [hempty] at hmem
        cases hmem
    rcases hnext with hcirc | ⟨rfl, hempty⟩
    · obtain ⟨hq, hcls⟩ := hin hcirc
      refine ⟨⟨hq, fun e => ?_⟩, ?_⟩
      · have e' := hcls.symm.trans e
        cases e'
      · intro q hel
        show rank (m.task next) ≤ rank (m.task q)
        unfold rank
        rw [hcls]
        rcases (hT q).cases with e | e | e
        · exact absurd e (hnrt q hel)
        · rw [e]; exact le_rfl
        · rw [e]
          have hnext := hT next
          rw [hcls] at hnext
          exact hnext.rank_le_idle _
    · have hcls : (m.task m.cpu.rq.idle).schedClass = .idle := h.tasks.idleClass
      refine ⟨⟨h.tasks.idleQueued, fun e => ?_⟩, ?_⟩
      · have e' := hcls.symm.trans e
        cases e'
      · intro q hel
        show rank (m.task m.cpu.rq.idle) ≤ rank (m.task q)
        unfold rank
        rw [hcls]
        rcases (hT q).cases with e | e | e
        · exact absurd e (hnrt q hel)
        · have hmem : q ∈ onClass (home m.task) .circular := by
            rw [mem_onClass, home_of_queued hel.1, e]
          rw [hempty] at hmem
          cases hmem
        · rw [e]; exact le_rfl

/-- **`__schedule`** lets a task of the best rank run, and clears the marks. -/
theorem __schedule_best (h : Inv m xs) (hp : Prompt m) (signalPending preemptActive : Bool)
    (toWakeup : Option α) :
    (__schedule signalPending preemptActive toWakeup).mwp ringMonitor m xs
      (fun _ m' _ => Prompt m' ∧ Best m' ∧ ∀ q, m'.cpu.needResched q = false) := by
  unfold __schedule
  refine mwp.seq ((scheduleEnter_spec h signalPending preemptActive toWakeup).and_wlp
    (scheduleEnter_calm.wlp (Calm.refl m))) ?_
  rintro prev m₂ xs₂ ⟨⟨rfl, h₂, -⟩, hcalm⟩
  have hT₂ : AllRanked m₂.task := hcalm.ranked hp.ranked
  have hno : ∀ (f : Foreign) q, home m₂.task q ≠ some f.schedClass := by
    intro f q e
    have hcls := (home_eq_some.mp e).2
    rcases (hT₂ q).cases with e' | e' | e' <;> rw [e'] at hcls <;> cases f <;> cases hcls
  rw [mwp_bind, mwp_onCpu]
  refine (pickNextTask_best h₂.sane h₂.curr hT₂ rfl (hcalm.kept.counted hp.counted) hno).mono ?_
  rintro next s₃ xs₃ ⟨hk, hbest⟩
  rw [mwp_onCpu, mwp_modify]
  -- only the task that was running may be marked, and its mark is cleared
  have hclear : ∀ q, Function.update s₃.needResched m₂.cpu.rq.curr false q = false := by
    intro q
    by_cases e : q = m₂.cpu.rq.curr
    · rw [e, Function.update_self]
    · rw [Function.update_of_ne e, ← Bool.not_eq_true]
      intro hq
      rcases hk.only q hq with hq' | hq'
      · rcases hcalm.kept.only q hq' with hq'' | hq''
        · exact e ((hp.marked q hq'').trans hcalm.kept.curr.symm)
        · exact e (hq''.trans hcalm.kept.curr.symm)
      · exact e hq'
  have hb := hbest.best (f := Function.update s₃.needResched m₂.cpu.rq.curr false) h₂ hT₂
  refine ⟨⟨hT₂, hk.counted (hcalm.kept.counted hp.counted), ?_, ?_⟩, hb, hclear⟩
  · intro q hq
    have hno' := (hclear q).symm.trans hq
    cases hno'
  · intro q hel
    exact .inr (hb.first q hel)

/-! ### Runs -/

/-- Nobody has the deadline policy. -/
def NoDeadline (T : α → TaskStruct) : Prop := ∀ q, dlPolicy (T q).policy = false

/-- No step gives it to a task. -/
theorem Step.prog_noDeadline (h : NoDeadline m.task) {e : Step α} (he : e.Plain) :
    e.prog.wlp m (fun b m' => b = true → NoDeadline m'.task) := by
  have hset : ∀ {m' : Machine K} {p : α} {a : Params},
      paramsOf m'.task = Function.update (paramsOf m.task) p a → dlPolicy a.policy = false →
      NoDeadline m'.task := by
    intro m' p a hm ha q
    have hq : (m'.task q).params = Function.update (paramsOf m.task) p a q := congrFun hm q
    by_cases e : q = p
    · subst e
      rw [Function.update_self] at hq
      have hpol : (m'.task q).policy = a.policy := congrArg Params.policy hq
      rw [hpol]
      exact ha
    · rw [Function.update_of_ne e] at hq
      have hpol : (m'.task q).policy = (m.task q).policy := congrArg Params.policy hq
      rw [hpol]
      exact h q
  refine (Step.prog_params e).mono ?_
  intro b m' hb hb'
  rcases (hb hb').cases with ⟨hsame, -⟩ | ⟨p, nice, rfl, -, hs⟩ | ⟨p, attr, env, rfl, -, hs⟩ |
    ⟨p, mm, kthread, rfl, hs⟩
  · intro q
    have hpol : (m'.task q).policy = (m.task q).policy := congrArg Params.policy (congrFun hsame q)
    rw [hpol]
    exact h q
  · refine hset hs ?_
    unfold Params.reniced
    split
    · exact h p
    · exact h p
  · refine hset hs ?_
    unfold SchedAttr.result
    split
    · exact h p
    · show dlPolicy (attr.storedPolicy (m.task p)) = false
      unfold SchedAttr.storedPolicy
      split
      · exact h p
      · exact decide_eq_false he
  · refine hset hs ?_
    unfold Params.child
    split
    · dsimp only
      split
      · rfl
      · exact h _
    · exact h _

/-- **Every step keeps `Prompt`.** -/
theorem Step.prog_prompt (hinv : Inv m xs) (h : Prompt m) (hpol : NoDeadline m.task) {e : Step α}
    (he : e.Enabled m) (hplain : e.Plain) :
    e.prog.wlp m (fun b m' => b = true → Prompt m') := by
  cases e with
  | setState p state =>
      exact completed_wlp (modifyTask_prompt h (fun _ => rfl) (fun _ => rfl) fun _ => rfl)
  | tryToWakeUp p state wakeFlags => exact completed_wlp (tryToWakeUp_prompt h state wakeFlags)
  | wakeUpNewTask p => exact completed_wlp (wakeUpNewTask_prompt h)
  | fork p mm kthread =>
      have hp : m.cpu.rq.curr ≠ p := by
        rintro rfl
        have hoff : taskOnRqQueued (m.task m.cpu.rq.curr) = false := he
        rw [hinv.running] at hoff
        cases hoff
      refine wlp_bind (fork_prompt h hp mm kthread) ?_
      intro r m₁ h₁
      exact wlp_ret fun hb => h₁ (of_decide_eq_true hb)
  | schedule signalPending preemptActive toWakeup =>
      refine completed_wlp ?_
      intro _ m' t hends
      exact ((__schedule_best hinv h signalPending preemptActive toWakeup).ends hends).1.1
  | setUserNice p nice => exact completed_wlp (setUserNice_prompt h nice)
  | rtMutexSetprio p prio piPreempts =>
      exact completed_wlp (rtMutexSetprio_prompt h hinv.running hplain piPreempts)
  | schedSetscheduler p attr env =>
      refine completed_wlp (__schedSetscheduler_prompt h hinv.running (hinv.tasks.static p) he.2 ?_ env)
      unfold SchedAttr.storedPolicy
      split
      · exact hpol p
      · exact decide_eq_false hplain
  | schedMoveTask p => exact completed_wlp (schedMoveTask_prompt h)
  | schedYield =>
      exact completed_wlp (onCpu_prompt h fun T => keeps_bind keeps_get fun _ => yieldTask_kept)
  | taskSchedRuntime p =>
      refine completed_wlp ?_
      unfold Sched.taskSchedRuntime
      apply wlp_get_bind
      refine wlp_bind (P := fun _ m₁ => Prompt m₁) (wlp_when ?_ fun _ => h) ?_
      · intro _
        exact onCpu_prompt h fun T => keeps_bind (within_aside updateRqClock_aside) fun _ =>
          updateCurr_kept
      · intro _ m₁ h₁
        apply wlp_get_bind
        exact wlp_ret h₁

/-- A machine as it boots, without stop and deadline tasks, and nobody marked. -/
structure PlainBoot (m : Machine K) : Prop extends Boot m where
  ranked : AllRanked m.task
  noDeadline : NoDeadline m.task
  marks : ∀ q, m.cpu.needResched q = false

theorem PlainBoot.prompt (h : PlainBoot m) : Prompt m := by
  refine ⟨h.ranked, ?_, ?_, ?_⟩
  · unfold RtRq.Counted
    rw [h.rtQueued, h.rtNr]
    exact ⟨fun e => (by cases e), fun e => absurd rfl e.2⟩
  · intro q hq
    rw [h.marks q] at hq
    cases hq
  · intro q hel
    by_cases e : q = m.cpu.rq.idle
    · refine .inr ?_
      rw [h.curr, e]
    · have hoff := h.toBoot.off_queued e
      rw [hel.1] at hoff
      cases hoff

/-- **The run lemma.** -/
theorem RtRun.prompt {ts₀ ts : α → ℕ} (hb : PlainBoot m₀) (h : RtRun m₀ ts₀ m ts) :
    Prompt m ∧ NoDeadline m.task := by
  induction h with
  | refl => exact ⟨hb.prompt, hb.noDeadline⟩
  | step e hr he hplain hends ih =>
      obtain ⟨xs, hinv⟩ := hr.inv ⟨[], hb.toBoot.inv⟩
      exact ⟨Step.prog_prompt hinv ih.1 ih.2 he hplain _ _ _ hends rfl,
        Step.prog_noDeadline ih.2 hplain _ _ _ hends rfl⟩
  | tick counts slice hr hends ih =>
      refine ⟨schedulerTick_prompt ih.1 counts slice _ _ _ _ hends, ?_⟩
      exact wlp_onCpu_keeps (P := NoDeadline) ih.2 _ _ _ hends
  | timer overrun hr hends ih =>
      obtain ⟨xs, hinv⟩ := hr.inv ⟨[], hb.toBoot.inv⟩
      refine ⟨doSchedRtPeriodTimer_prompt ih.1 ?_ overrun _ _ _ hends, ?_⟩
      · intro q hq hcls
        rw [hinv.sane.rt.nr]
        refine Finset.card_ne_zero_of_mem (a := q) ?_
        rw [mem_onClass, home_of_queued hq, hcls]
      · exact wlp_onCpu_keeps (P := NoDeadline) ih.2 _ _ _ hends

/-- **Strict priorities.**  In every state of every run, a running task that is not marked is
outranked by no task that can be picked; and from every state `__schedule` ends, with a task running
that can be picked and is outranked by none, and no marks. -/
theorem strict_priority {ts₀ ts : α → ℕ} (hb : PlainBoot m₀) (h : RtRun m₀ ts₀ m ts) :
    (m.cpu.needResched m.cpu.rq.curr = false →
      ∀ q, Eligible m.cpu.rq.rt (m.task q) → rank (m.task m.cpu.rq.curr) ≤ rank (m.task q)) ∧
    ∀ signalPending preemptActive toWakeup, ∃ m' t,
      (__schedule signalPending preemptActive toWakeup).Ends m () m' t ∧ Best m' ∧
        ∀ q, m'.cpu.needResched q = false := by
  obtain ⟨hp, -⟩ := h.prompt hb
  constructor
  · intro hclear q hel
    rcases hp.served q hel with hmark | hle
    · rw [hclear] at hmark
      cases hmark
    · exact hle
  · intro signalPending preemptActive toWakeup
    obtain ⟨xs, hinv⟩ := h.inv ⟨[], hb.toBoot.inv⟩
    obtain ⟨_, m', t, hends, ⟨-, hbest, hclear⟩, -⟩ :=
      __schedule_best hinv hp signalPending preemptActive toWakeup
    exact ⟨m', t, hends, hbest, hclear⟩

theorem smallBoot_plain : PlainBoot smallBoot := by
  refine ⟨smallBoot_boot, ?_, by unfold NoDeadline; decide, fun _ => rfl⟩
  intro q
  have hq : q = 0 ∨ q = 1 ∨ q = 2 ∨ q = 3 := by revert q; decide
  rcases hq with rfl | rfl | rfl | rfl
  · exact .inr ⟨.inr rfl, by decide⟩
  · exact .inr ⟨.inl rfl, by decide⟩
  · exact .inr ⟨.inl rfl, by decide⟩
  · exact .inl ⟨rfl, by decide⟩

/-- A normal task runs until the real-time task is woken up, which runs after the next `__schedule`,
through a tick and a period of the bandwidth timer. -/
theorem strict_priority_small : ∃ (m : Machine smallKernel) (ts : Fin 4 → ℕ),
    PlainBoot smallBoot ∧ RtRun smallBoot (fun _ => 0) m ts ∧ m.cpu.rq.curr = 3 ∧
      m.cpu.needResched 3 = false ∧ Eligible m.cpu.rq.rt (m.task 1) ∧
      rank (m.task 3) ≤ rank (m.task 1) := by
  have h₀ : RtRun smallBoot (fun _ => 0) smallBoot fun _ => 0 := .refl
  have h₁ := RtRun.step (.tryToWakeUp 1 TASK_NORMAL 0) h₀ trivial trivial ⟨3, rfl⟩
  have h₂ := RtRun.step (.schedule false false none) h₁ trivial trivial ⟨3, rfl⟩
  have h₃ := RtRun.step (.tryToWakeUp 3 TASK_NORMAL 0) h₂ trivial trivial ⟨3, rfl⟩
  have h₄ := RtRun.step (.schedule false false none) h₃ trivial trivial ⟨3, rfl⟩
  have h₅ := RtRun.tick false 25 h₄ ⟨3, rfl⟩
  have h₆ := RtRun.timer 1 h₅ ⟨3, rfl⟩
  refine ⟨_, _, smallBoot_plain, h₆, rfl, rfl, ⟨rfl, fun _ => rfl⟩, ?_⟩
  exact (strict_priority smallBoot_plain h₆).1 rfl 1 ⟨rfl, fun _ => rfl⟩

end KernelHacking.Sched
