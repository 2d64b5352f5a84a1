import KernelHacking.Lib.Frame
import KernelHacking.Sched.Tick

/-! # Resched marks

`TIF_NEED_RESCHED` is set by `resched_curr` and cleared by `__schedule`.  Every other function keeps
the marks there are and adds none but that of the running task; it does not lift the throttling of
the real-time class; and where it finds the class counted in `rq->nr_running` as it should be
(`RtRq.Counted`), it leaves it so.  This is `Kept`, and most of the code does not even touch these
parts of the state (`Aside`). -/

namespace KernelHacking.Sched

open TraceProg PtrRing Word Prog

variable {α : Type} [DecidableEq α] [Fintype α] {K : Kernel α}
variable {T : α → TaskStruct} {p : α} {s s' s'' : Cpu K}

/-! ### The relations -/

/-- The real-time class is counted in `rq->nr_running` unless it is throttled or has no tasks. -/
def RtRq.Counted (rt : RtRq α) : Prop :=
  rt.rtQueued = true ↔ rt.rtThrottled = false ∧ rt.rtNrRunning ≠ 0

/-- Marks, the running task and the real-time run-queue are untouched. -/
structure Aside (s s' : Cpu K) : Prop where
  curr : s'.rq.curr = s.rq.curr
  idle : s'.rq.idle = s.rq.idle
  marks : s'.needResched = s.needResched
  rt : s'.rq.rt = s.rq.rt

/-- Only the running task is marked, and throttling is not lifted. -/
structure Framed (s s' : Cpu K) : Prop where
  curr : s'.rq.curr = s.rq.curr
  idle : s'.rq.idle = s.rq.idle
  marks : ∀ q, s.needResched q = true → s'.needResched q = true
  only : ∀ q, s'.needResched q = true → s.needResched q = true ∨ q = s.rq.curr
  throttled : s'.rq.rt.rtThrottled = false → s.rq.rt.rtThrottled = false

/-- In addition the real-time class is counted as it should be, if it was. -/
structure Kept (s s' : Cpu K) : Prop extends Framed s s' where
  counted : s.rq.rt.Counted → s'.rq.rt.Counted

theorem Aside.kept (h : Aside s s') : Kept s s' := by
  refine ⟨⟨h.curr, h.idle, ?_, ?_, ?_⟩, ?_⟩
  · intro q hq; rw [h.marks]; exact hq
  · intro q hq; rw [h.marks] at hq; exact .inl hq
  · intro ht; rw [h.rt] at ht; exact ht
  · intro hc; rw [h.rt]; exact hc

theorem Aside.trans (h : Aside s s') (h' : Aside s' s'') : Aside s s'' :=
  ⟨h'.curr.trans h.curr, h'.idle.trans h.idle, h'.marks.trans h.marks, h'.rt.trans h.rt⟩

theorem Framed.trans (h : Framed s s') (h' : Framed s' s'') : Framed s s'' := by
  refine ⟨h'.curr.trans h.curr, h'.idle.trans h.idle, ?_, ?_, ?_⟩
  · intro q hq; exact h'.marks q (h.marks q hq)
  · intro q hq
    rcases h'.only q hq with hq' | rfl
    · exact h.only q hq'
    · exact .inr h.curr
  · intro ht; exact h.throttled (h'.throttled ht)

theorem Kept.trans (h : Kept s s') (h' : Kept s' s'') : Kept s s'' :=
  ⟨h.toFramed.trans h'.toFramed, fun hc => h'.counted (h.counted hc)⟩

theorem Kept.refl (s : Cpu K) : Kept s s := Aside.kept ⟨rfl, rfl, rfl, rfl⟩

instance : Std.Refl (Aside (K := K)) := ⟨fun _ => ⟨rfl, rfl, rfl, rfl⟩⟩
instance : IsTrans (Cpu K) Aside := ⟨fun _ _ _ => Aside.trans⟩
instance : IsTrans (Cpu K) Kept := ⟨fun _ _ _ => Kept.trans⟩

theorem within_aside {β : Type} {x : SchedM K β} (h : Within Aside x) : Within Kept x :=
  h.mono fun _ _ => Aside.kept

/-- A mark of the running task stays. -/
theorem Framed.curr_marked (h : Framed s s') (hs : s.needResched s.rq.curr = true) :
    s'.needResched s'.rq.curr = true := by
  rw [h.curr]
  exact h.marks _ hs

/-! ### Code that is about something else -/

theorem modifyCirc_aside {f : CircRq α → CircRq α} : Within Aside (modifyCirc f : SchedM K Unit) :=
  within_modify fun _ => ⟨rfl, rfl, rfl, rfl⟩

theorem modifySe_aside {f : SchedEntity → SchedEntity} :
    Within Aside (modifySe p f : SchedM K Unit) := within_modify fun _ => ⟨rfl, rfl, rfl, rfl⟩

theorem addNrRunning_aside {count : ℕ} : Within Aside (addNrRunning count : SchedM K Unit) :=
  within_modify fun _ => ⟨rfl, rfl, rfl, rfl⟩

theorem subNrRunning_aside {count : ℕ} : Within Aside (subNrRunning count : SchedM K Unit) :=
  keeps_bind keeps_get fun _ => keeps_bind within_emit fun _ =>
    within_modify fun _ => ⟨rfl, rfl, rfl, rfl⟩

theorem updateRqClock_aside : Within Aside (updateRqClock : SchedM K Unit) := by
  unfold updateRqClock
  refine keeps_bind keeps_get fun _ => keeps_when fun _ => ?_
  refine keeps_bind (within_modify fun _ => ⟨rfl, rfl, rfl, rfl⟩) fun _ => keeps_when fun _ => ?_
  exact keeps_bind within_emit fun _ => within_modify fun _ => ⟨rfl, rfl, rfl, rfl⟩

theorem updateCurrCircular_aside : Within Aside (updateCurrCircular : SchedM K Unit) := by
  unfold updateCurrCircular
  refine keeps_bind keeps_get fun _ => keeps_when fun _ => ?_
  exact keeps_bind within_emit fun _ => modifySe_aside

theorem setCurrTaskRt_aside : Within Aside (setCurrTaskRt : SchedM K Unit) :=
  keeps_bind keeps_get fun _ => modifySe_aside

/-- Storing a list structure. -/
theorem setList_aside (f : ℕ → Cpu K → Except Fault (Heap α × CircularList α)) (n : ℕ)
    (s s' s₀ : Cpu K) (hs : (f n s).map s.setList = .ok s') (h : Aside s₀ s) : Aside s₀ s' := by
  cases hr : f n s with
  | error e => rw [hr] at hs; cases hs
  | ok r =>
      rw [hr] at hs
      cases hs
      exact h.trans ⟨rfl, rfl, rfl, rfl⟩

theorem listInsert_aside {after : Option α} {new : α} :
    Within Aside (listInsert after new : SchedM K Unit) := by
  unfold listInsert
  refine keeps_bind keeps_get fun _ => keeps_bind within_emit fun _ => ?_
  exact keeps_budgeted
    (setList_aside fun _ s => circularlistInsert s.node s.rq.circ.circList after (some new))

theorem listRemove_aside {node : α} : Within Aside (listRemove node : SchedM K Unit) := by
  unfold listRemove
  refine keeps_bind keeps_get fun _ => keeps_bind within_emit fun _ => ?_
  exact keeps_budgeted
    (setList_aside fun n s => circularlistRemove n s.node s.rq.circ.circList node)

theorem listTraverse_aside : Within Aside (listTraverse : SchedM K Unit) := by
  unfold listTraverse
  refine keeps_bind keeps_get fun _ => keeps_bind within_emit fun _ => ?_
  apply keeps_budgeted
  intro n s s' s₀ hs h
  cases hr : circularlistTraverseDebug n s.node s.rq.circ.circList with
  | error e => rw [hr] at hs; cases hs
  | ok r => rw [hr] at hs; cases hs; exact h

theorem __enqueueEntity_aside : Within Aside (__enqueueEntity p : SchedM K Unit) :=
  keeps_bind keeps_get fun _ => listInsert_aside

theorem putPrevTaskCircular_aside : Within Aside (putPrevTaskCircular p : SchedM K Unit) := by
  unfold putPrevTaskCircular putPrevEntity
  refine keeps_bind keeps_get fun _ => ?_
  exact keeps_bind (keeps_when fun _ => __enqueueEntity_aside) fun _ => modifyCirc_aside

theorem enqueueTaskCircular_aside : Within Aside (enqueueTaskCircular p : SchedM K Unit) := by
  unfold enqueueTaskCircular enqueueEntity
  refine keeps_bind listTraverse_aside fun _ => keeps_bind keeps_get fun _ => ?_
  refine keeps_bind (keeps_when fun _ => ?_) fun _ => ?_
  · refine keeps_bind ?_ fun _ => modifyCirc_aside
    refine keeps_bind modifyCirc_aside fun _ => keeps_bind keeps_get fun _ => ?_
    exact keeps_bind (keeps_when fun _ => __enqueueEntity_aside) fun _ => modifySe_aside
  · exact keeps_bind addNrRunning_aside fun _ => listTraverse_aside

theorem dequeueTaskCircular_aside : Within Aside (dequeueTaskCircular p : SchedM K Unit) := by
  unfold dequeueTaskCircular dequeueEntity
  refine keeps_bind listTraverse_aside fun _ => keeps_bind ?_ fun _ => ?_
  · refine keeps_bind keeps_get fun _ => ?_
    refine keeps_bind (keeps_when fun _ => listRemove_aside) fun _ => ?_
    refine keeps_bind modifySe_aside fun _ => ?_
    exact keeps_bind within_emit fun _ => modifyCirc_aside
  · refine keeps_bind keeps_get fun _ => keeps_bind within_emit fun _ => ?_
    refine keeps_bind modifyCirc_aside fun _ => keeps_bind subNrRunning_aside fun _ => ?_
    exact keeps_bind listTraverse_aside fun _ => within_emit

theorem setNextEntity_aside : Within Aside (setNextEntity p : SchedM K Unit) := by
  unfold setNextEntity
  refine keeps_bind keeps_get fun _ => ?_
  exact keeps_bind (keeps_when fun _ => listRemove_aside) fun _ => modifyCirc_aside

theorem setCurrTaskCircular_aside : Within Aside (setCurrTaskCircular : SchedM K Unit) :=
  keeps_bind keeps_get fun _ => setNextEntity_aside

theorem chooseEntity_aside : Within Aside (chooseEntity : SchedM K (Option α)) := by
  unfold chooseEntity pickNextEntity
  refine keeps_bind (keeps_bind keeps_get fun _ => keeps_ret _) fun se => ?_
  cases se with
  | none => exact keeps_bind within_emit fun _ => keeps_bind keeps_get fun _ => keeps_ret _
  | some q => exact keeps_bind setNextEntity_aside fun _ => keeps_ret _

theorem yieldTaskCircular_aside : Within Aside (yieldTaskCircular T : SchedM K Unit) := by
  unfold yieldTaskCircular
  refine keeps_bind keeps_get fun _ => keeps_when fun _ => ?_
  refine keeps_bind updateRqClock_aside fun _ => ?_
  exact keeps_bind updateCurrCircular_aside fun _ => within_modify fun _ => ⟨rfl, rfl, rfl, rfl⟩

theorem _pickNextTaskRt_aside : Within Aside (_pickNextTaskRt : SchedM K α) := by
  unfold _pickNextTaskRt
  refine keeps_bind keeps_get fun _ => ?_
  split
  · exact keeps_fail
  split
  · exact keeps_fail
  · exact keeps_bind modifySe_aside fun _ => keeps_ret _

/-! ### Marking -/

theorem reschedCurr_kept : Within Kept (reschedCurr : SchedM K Unit) := by
  refine within_modify fun s => ⟨⟨rfl, rfl, ?_, ?_, fun h => h⟩, fun h => h⟩
  · intro q hq
    show Function.update s.needResched s.rq.curr true q = true
    by_cases e : q = s.rq.curr
    · rw [e, Function.update_self]
    · rw [Function.update_of_ne e]; exact hq
  · intro q hq
    by_cases e : q = s.rq.curr
    · exact .inr e
    · refine .inl ?_
      change Function.update s.needResched s.rq.curr true q = true at hq
      rw [Function.update_of_ne e] at hq
      exact hq

theorem reschedCurr_marks :
    (reschedCurr : SchedM K Unit).wlp s fun _ s' => s'.needResched s.rq.curr = true :=
  wlp_modify (Function.update_self ..)

theorem foreignCall_kept {f : Foreign} {c : ClassCall} :
    Within Kept (foreignCall f c T p : SchedM K Unit) := by
  unfold foreignCall
  refine keeps_bind keeps_get fun _ => ?_
  refine keeps_bind (within_modify fun _ => Aside.kept ⟨rfl, rfl, rfl, rfl⟩) fun _ => ?_
  refine keeps_bind (keeps_when fun _ => within_aside addNrRunning_aside) fun _ => ?_
  refine keeps_bind (keeps_when fun _ => within_aside subNrRunning_aside) fun _ => ?_
  exact keeps_when fun _ => reschedCurr_kept

theorem checkPreemptWakeup_kept : Within Kept (checkPreemptWakeup T p : SchedM K Unit) := by
  unfold checkPreemptWakeup
  refine keeps_bind keeps_get fun _ => keeps_ite (keeps_ret ()) ?_
  refine keeps_ite reschedCurr_kept (keeps_ite (keeps_ret ()) ?_)
  exact keeps_bind (within_aside updateCurrCircular_aside) fun _ => reschedCurr_kept

/-! ### The real-time class

Enqueueing and dequeueing take the class off `rq->nr_running` and put it back with its new count. -/

/-- The class is off `rq->nr_running`. -/
structure Uncounted (s s' : Cpu K) : Prop extends Framed s s' where
  off : s'.rq.rt.rtQueued = false

theorem modifyRt_uncounted {s₀ : Cpu K} {f : RtRq α → RtRq α}
    (hq : ∀ rt, (f rt).rtQueued = rt.rtQueued) (ht : ∀ rt, (f rt).rtThrottled = rt.rtThrottled)
    (h : Uncounted s₀ s) : (modifyRt f : SchedM K Unit).wlp s fun _ s' => Uncounted s₀ s' := by
  refine wlp_modify ⟨⟨h.curr, h.idle, h.marks, h.only, ?_⟩, ?_⟩
  · intro hf
    change (f s.rq.rt).rtThrottled = false at hf
    rw [ht] at hf
    exact h.throttled hf
  · show (f s.rq.rt).rtQueued = false
    rw [hq]
    exact h.off

theorem dequeueTopRtRq_uncounted :
    (dequeueTopRtRq : SchedM K Unit).wlp s fun _ s' =>
      Uncounted s s' ∧ s'.rq.rt.rtThrottled = s.rq.rt.rtThrottled := by
  unfold dequeueTopRtRq
  apply wlp_get_bind
  apply wlp_when
  · intro _
    refine wlp_bind (P := fun _ s' => Aside s s')
      (wlp_when (fun _ => wlp_fail) fun _ => ⟨rfl, rfl, rfl, rfl⟩) ?_
    intro _ s₁ h₁
    refine wlp_bind (subNrRunning_aside.wlp h₁) ?_
    intro _ s₂ h₂
    have hk := h₂.kept
    refine wlp_modify ⟨⟨⟨hk.curr, hk.idle, hk.marks, hk.only, hk.throttled⟩, rfl⟩, ?_⟩
    show s₂.rq.rt.rtThrottled = _
    rw [h₂.rt]
  · intro hq
    exact ⟨⟨(Kept.refl s).toFramed, Bool.not_eq_true _ ▸ hq⟩, rfl⟩

/-- Once the class is off, it is put back as it should be. -/
theorem enqueueTopRtRq_counted {s₀ : Cpu K} (h : Uncounted s₀ s) :
    (enqueueTopRtRq : SchedM K Unit).wlp s fun _ s' => Framed s₀ s' ∧ s'.rq.rt.Counted := by
  unfold enqueueTopRtRq
  apply wlp_get_bind
  apply wlp_when
  · rintro ⟨-, ht, hn⟩
    refine wlp_bind (addNrRunning_aside.wlp ⟨rfl, rfl, rfl, rfl⟩) ?_
    intro _ s₁ h₁
    have hk := h.toFramed.trans h₁.kept.toFramed
    refine wlp_modify ⟨⟨hk.curr, hk.idle, hk.marks, hk.only, hk.throttled⟩, ?_⟩
    show true = true ↔ s₁.rq.rt.rtThrottled = false ∧ s₁.rq.rt.rtNrRunning ≠ 0
    rw [h₁.rt]
    exact ⟨fun _ => ⟨ht, hn⟩, fun _ => rfl⟩
  · intro hn
    refine ⟨h.toFramed, ?_⟩
    constructor
    · intro hq
      rw [h.off] at hq
      cases hq
    · rintro ⟨ht, hr⟩
      exact absurd ⟨h.off, ht, hr⟩ hn

theorem rtSePrio_uncounted {s₀ : Cpu K} (h : Uncounted s₀ s) :
    (rtSePrio T p : SchedM K ℕ).wlp s fun _ s' => Uncounted s₀ s' := by
  unfold rtSePrio
  split
  · exact wlp_ret h
  · exact wlp_fail

theorem dequeueRtStack_uncounted : (dequeueRtStack T p : SchedM K Unit).wlp s
    fun _ s' => Uncounted s s' := by
  unfold dequeueRtStack __dequeueRtEntity
  refine wlp_bind dequeueTopRtRq_uncounted ?_
  rintro _ s₁ ⟨h₁, -⟩
  apply wlp_get_bind
  refine wlp_when ?_ fun _ => h₁
  intro _
  refine wlp_bind (rtSePrio_uncounted h₁) ?_
  intro i s₂ h₂
  apply wlp_get_bind
  refine wlp_bind (P := fun _ s' => Uncounted s s') (wlp_emit h₂) ?_
  intro _ s₃ h₃
  exact modifyRt_uncounted (fun _ => rfl) (fun _ => rfl) h₃

theorem enqueueTaskRt_kept {flags : ℕ} : Within Kept (enqueueTaskRt T p flags : SchedM K Unit) := by
  unfold enqueueTaskRt
  refine keeps_bind (keeps_when fun _ => ?_) fun _ => within_of_wlp fun s => ?_
  · exact within_modify fun _ => Aside.kept ⟨rfl, rfl, rfl, rfl⟩
  · unfold enqueueRtEntity __enqueueRtEntity
    refine wlp_bind dequeueRtStack_uncounted ?_
    intro _ s₁ h₁
    refine wlp_bind (P := fun _ s' => Uncounted s s') (wlp_bind (rtSePrio_uncounted h₁) ?_) ?_
    · intro i s₂ h₂
      exact modifyRt_uncounted (fun _ => rfl) (fun _ => rfl) h₂
    · intro _ s₂ h₂
      exact (enqueueTopRtRq_counted h₂).mono fun _ _ h₃ => ⟨h₃.1, fun _ => h₃.2⟩

/-- Throttling takes the class off `rq->nr_running`. -/
theorem schedRtRuntimeExceeded_kept :
    Within Kept (schedRtRuntimeExceeded : SchedM K Bool) := by
  refine within_of_wlp fun s => ?_
  unfold schedRtRuntimeExceeded
  apply wlp_get_bind
  dsimp only
  have hdone : ∀ b, (pure b : SchedM K Bool).wlp s fun _ s' => Kept s s' := fun b =>
    wlp_ret (Kept.refl s)
  split
  · exact hdone _
  split
  · exact hdone _
  split
  · exact hdone _
  split
  · exact hdone _
  split
  · refine wlp_bind (P := fun _ s' => Framed s s' ∧ s'.rq.rt.rtThrottled = true)
      (wlp_modify ⟨⟨rfl, rfl, fun _ h => h, fun _ h => .inl h, fun h => by cases h⟩, rfl⟩) ?_
    rintro _ s₁ ⟨h₁, ht₁⟩
    refine wlp_bind dequeueTopRtRq_uncounted ?_
    rintro _ s₂ ⟨h₂, ht₂⟩
    refine wlp_ret ⟨h₁.trans h₂.toFramed, fun _ => ?_⟩
    unfold RtRq.Counted
    rw [h₂.off, ht₂, ht₁]
    exact ⟨fun h => (by cases h), fun h => (by cases h.1)⟩
  · refine wlp_bind (wlp_modify ?_) fun _ s₁ (h₁ : Kept s s₁) => wlp_ret h₁
    exact ⟨⟨rfl, rfl, fun _ h => h, fun _ h => .inl h, fun h => h⟩, fun h => h⟩

theorem updateCurrRt_kept : Within Kept (updateCurrRt T : SchedM K Unit) := by
  unfold updateCurrRt
  refine keeps_bind keeps_get fun _ => keeps_when fun _ => keeps_bind within_emit fun _ => ?_
  refine keeps_bind (within_aside modifySe_aside) fun _ => keeps_when fun _ => ?_
  refine keeps_bind (within_modify fun _ => ?_) fun _ => ?_
  · exact ⟨⟨rfl, rfl, fun _ h => h, fun _ h => .inl h, fun h => h⟩, fun h => h⟩
  · exact keeps_bind schedRtRuntimeExceeded_kept fun _ => keeps_when fun _ => reschedCurr_kept

theorem dequeueTaskRt_kept : Within Kept (dequeueTaskRt T p : SchedM K Unit) := by
  unfold dequeueTaskRt dequeueRtEntity
  refine keeps_bind updateCurrRt_kept fun _ => within_of_wlp fun s => ?_
  refine wlp_bind dequeueRtStack_uncounted ?_
  intro _ s₁ h₁
  exact (enqueueTopRtRq_counted h₁).mono fun _ _ h₂ => ⟨h₂.1, fun _ => h₂.2⟩

theorem yieldTaskRt_kept : Within Kept (yieldTaskRt T : SchedM K Unit) := by
  unfold yieldTaskRt rtSePrio
  refine keeps_bind keeps_get fun _ => keeps_when fun _ => ?_
  refine keeps_bind (keeps_ite (keeps_ret _) keeps_fail) fun _ => within_modify fun _ => ?_
  exact ⟨⟨rfl, rfl, fun _ h => h, fun _ h => .inl h, fun h => h⟩, fun h => h⟩

/-! ### Calls through the classes -/

theorem enqueueTask_kept {flags : ℕ} : Within Kept (enqueueTask T p flags : SchedM K Unit) := by
  unfold enqueueTask classEnqueue
  refine keeps_bind (within_aside updateRqClock_aside) fun _ => ?_
  split
  · exact foreignCall_kept
  · exact foreignCall_kept
  · exact enqueueTaskRt_kept
  · exact keeps_fail
  · exact within_aside enqueueTaskCircular_aside
  · exact keeps_fail

theorem dequeueTask_kept {flags : ℕ} : Within Kept (dequeueTask T p flags : SchedM K Unit) := by
  unfold dequeueTask classDequeue
  refine keeps_bind (within_aside updateRqClock_aside) fun _ => ?_
  split
  · exact foreignCall_kept
  · exact foreignCall_kept
  · exact dequeueTaskRt_kept
  · exact keeps_fail
  · exact within_aside dequeueTaskCircular_aside
  · exact keeps_ret ()

theorem putPrevTask_kept : Within Kept (putPrevTask T p : SchedM K Unit) := by
  unfold putPrevTask
  split
  · exact foreignCall_kept
  · exact foreignCall_kept
  · exact updateCurrRt_kept
  · exact keeps_fail
  · exact within_aside putPrevTaskCircular_aside
  · exact keeps_ret ()

theorem setCurrTask_kept : Within Kept (setCurrTask T p : SchedM K Unit) := by
  unfold setCurrTask
  split
  · exact foreignCall_kept
  · exact foreignCall_kept
  · exact within_aside setCurrTaskRt_aside
  · exact keeps_fail
  · exact within_aside setCurrTaskCircular_aside
  · exact keeps_ret ()

theorem updateCurr_kept : Within Kept (updateCurr T p : SchedM K Unit) := by
  unfold updateCurr
  split
  · exact foreignCall_kept
  · exact foreignCall_kept
  · exact updateCurrRt_kept
  · exact keeps_fail
  · exact within_aside updateCurrCircular_aside
  · exact keeps_ret ()

theorem yieldTask_kept : Within Kept (yieldTask T p : SchedM K Unit) := by
  unfold yieldTask
  split
  · exact foreignCall_kept
  · exact foreignCall_kept
  · exact yieldTaskRt_kept
  · exact keeps_fail
  · exact within_aside yieldTaskCircular_aside
  · exact keeps_fail

theorem checkPreemptWalk_kept {k k' : SchedClass} : ∀ cs : List SchedClass,
    Within Kept (checkPreemptWalk k k' cs : SchedM K Unit)
  | [] => keeps_ret ()
  | _ :: cs => keeps_ite (keeps_ret ()) (keeps_ite reschedCurr_kept (checkPreemptWalk_kept cs))

theorem checkPreempt_kept {curr : α} {flags : ℕ} :
    Within Kept (checkPreempt T curr p flags : SchedM K Unit) := by
  unfold checkPreempt
  refine keeps_ite ?_ (checkPreemptWalk_kept classChain)
  unfold classCheckPreempt
  split
  · exact foreignCall_kept
  · exact foreignCall_kept
  · exact keeps_bind keeps_get fun _ => keeps_when fun _ => reschedCurr_kept
  · exact keeps_fail
  · exact checkPreemptWakeup_kept
  · exact reschedCurr_kept

theorem checkPreemptCurr_kept {flags : ℕ} :
    Within Kept (checkPreemptCurr T p flags : SchedM K Unit) := by
  unfold checkPreemptCurr
  refine keeps_bind keeps_get fun _ => keeps_bind checkPreempt_kept fun _ => ?_
  refine keeps_bind keeps_get fun _ => keeps_when fun _ => ?_
  exact within_modify fun _ => Aside.kept ⟨rfl, rfl, rfl, rfl⟩

theorem switchedFrom_kept {k : SchedClass} : Within Kept (switchedFrom T p k : SchedM K Unit) := by
  unfold switchedFrom
  split
  · exact foreignCall_kept
  · exact foreignCall_kept
  · exact keeps_fail
  · exact keeps_ret ()
  · exact keeps_ret ()
  · exact keeps_ret ()

theorem switchedTo_kept : Within Kept (switchedTo T p : SchedM K Unit) := by
  unfold switchedTo
  split
  · exact foreignCall_kept
  · exact foreignCall_kept
  · exact keeps_bind keeps_get fun _ => keeps_when fun _ => reschedCurr_kept
  · exact keeps_fail
  · exact keeps_fail
  · exact keeps_bind keeps_get fun _ => keeps_when fun _ =>
      keeps_ite reschedCurr_kept checkPreemptCurr_kept

theorem prioChanged_kept {oldprio : ℤ} : Within Kept (prioChanged T p oldprio : SchedM K Unit) := by
  unfold prioChanged
  split
  · exact foreignCall_kept
  · exact foreignCall_kept
  · refine keeps_bind keeps_get fun _ => keeps_when fun _ => keeps_ite ?_ ?_
    · exact keeps_when fun _ => reschedCurr_kept
    · exact keeps_when fun _ => reschedCurr_kept
  · exact keeps_fail
  · exact keeps_fail
  · refine keeps_bind keeps_get fun _ => keeps_ite ?_ checkPreemptCurr_kept
    exact keeps_when fun _ => reschedCurr_kept

theorem checkClassChanged_kept {k : SchedClass} {oldprio : ℤ} :
    Within Kept (checkClassChanged T p k oldprio : SchedM K Unit) := by
  unfold checkClassChanged
  refine keeps_ite ?_ (keeps_when fun _ => prioChanged_kept)
  exact keeps_bind switchedFrom_kept fun _ => switchedTo_kept

theorem taskTickRt_kept {counts : Bool} {slice : ℕ} {ts : α → ℕ} :
    Within Kept (taskTickRt T p counts slice ts : SchedM K (α → ℕ)) := by
  unfold taskTickRt watchdog
  refine keeps_bind updateCurrRt_kept fun _ => ?_
  refine keeps_bind (keeps_when fun _ => within_modify fun _ => ?_) fun _ => ?_
  · exact Aside.kept ⟨rfl, rfl, rfl, rfl⟩
  refine keeps_ite (keeps_ret _) (keeps_ite (keeps_ret _) (keeps_bind keeps_get fun _ => ?_))
  refine keeps_bind (keeps_when fun _ => ?_) fun _ => keeps_ret _
  exact keeps_bind yieldTaskRt_kept fun _ => reschedCurr_kept

end KernelHacking.Sched
