import KernelHacking.Sched.Run

/-! # Where the scheduler touches time

Of all the code, only `update_rq_clock`, `update_curr_circular`, `update_curr_rt`, the two functions of
the real-time class that set `exec_start`, and `__sched_fork` touch `rq->clock_task` and the fields
`exec_start` and `sum_exec_runtime` of the entities.  `Meters M J` says that a relation `J` between
the state and the ghost of a monitor `M` is kept at these places and does not look elsewhere.  Then
every function keeps it, and so does every run (`Run.keeps`). -/

namespace KernelHacking.Sched

open TraceProg PtrRing Word Prog

variable {α : Type} [DecidableEq α] [Fintype α] {K : Kernel α}

/-- The events that concern time. -/
def Event.timed : Event K → Bool
  | .clock .. | .charge .. | .forked _ => true
  | _ => false

/-- The entities agree on the fields that concern time. -/
def SameTimes (s s' : Cpu K) : Prop := ∀ q, (s'.se q).execStart = (s.se q).execStart ∧
  (s'.se q).sumExecRuntime = (s.se q).sumExecRuntime

/-- A relation that follows time alone, and is kept wherever time is touched. -/
structure Meters {G : Type} (M : Monitor (Event K) G) (J : Cpu K → G → Prop) : Prop where
  frame : ∀ {s s' g}, J s g → SameTimes s s' → s'.rq.clockTask = s.rq.clockTask → J s' g
  silent : ∀ {e g}, e.timed = false → M.step g e = g
  tick : ∀ {s s' g} {new : U64}, J s g → M.ok g (.clock s.rq.curr s.rq.clockTask new) →
    SameTimes s s' → s'.rq.clockTask = new → J s' (M.step g (.clock s.rq.curr s.rq.clockTask new))
  charge : ∀ {s s' g} {p : α}, J s g →
    s64NonPos (s.rq.clockTask - (s.se p).execStart) = false →
    M.ok g (.charge p (s.se p).execStart s.rq.clockTask) →
    s'.se = Function.update s.se p ((s.se p).charge s.rq.clockTask) →
    s'.rq.clockTask = s.rq.clockTask →
    J s' (M.step g (.charge p (s.se p).execStart s.rq.clockTask))
  start : ∀ {s s' g} {p : α}, J s g →
    s'.se = Function.update s.se p { s.se p with execStart := s.rq.clockTask } →
    s'.rq.clockTask = s.rq.clockTask → J s' g
  forked : ∀ {s s' g} {p : α}, J s g →
    (∀ q, q ≠ p → s'.se q = s.se q) →
    s'.se p = { onRq := false, execStart := 0, sumExecRuntime := 0, vruntime := 0, execMax := 0 } →
    s'.rq.clockTask = s.rq.clockTask → J s' (M.step g (.forked p))

section
variable {G : Type} {M : Monitor (Event K) G} {J : Cpu K → G → Prop} (h : Meters M J)
include h

/-! ### Field updates -/

theorem modify_keeps {f : Cpu K → Cpu K} (hse : ∀ s, SameTimes s (f s))
    (hclock : ∀ s, (f s).rq.clockTask = s.rq.clockTask) : Keeps M J (modify f) :=
  keeps_modify fun s _ hJ => h.frame hJ (hse s) (hclock s)

theorem modifyRq_keeps {f : Rq K → Rq K} (hf : ∀ rq, (f rq).clockTask = rq.clockTask) :
    Keeps M J (modifyRq f) := modify_keeps h (fun _ _ => ⟨rfl, rfl⟩) fun s => hf s.rq

theorem modifyCirc_keeps {f : CircRq α → CircRq α} : Keeps M J (modifyCirc f) :=
  modify_keeps h (fun _ _ => ⟨rfl, rfl⟩) fun _ => rfl

theorem modifyRt_keeps {f : RtRq α → RtRq α} : Keeps M J (modifyRt f) :=
  modify_keeps h (fun _ _ => ⟨rfl, rfl⟩) fun _ => rfl

theorem modifySe_keeps {p : α} {f : SchedEntity → SchedEntity}
    (hf : ∀ e, (f e).execStart = e.execStart ∧ (f e).sumExecRuntime = e.sumExecRuntime) :
    Keeps M J (modifySe p f) := by
  refine modify_keeps h ?_ fun _ => rfl
  intro s q
  show (Function.update s.se p (f (s.se p)) q).execStart = _ ∧
    (Function.update s.se p (f (s.se p)) q).sumExecRuntime = _
  by_cases e : q = p
  · subst e; rw [Function.update_self]; exact hf _
  · rw [Function.update_of_ne e]; exact ⟨rfl, rfl⟩

theorem emit_keeps {e : Event K} (he : e.timed = false) :
    Keeps M J (emit e : SchedM K Unit) := by
  refine keeps_emit ?_
  intro s g hJ _
  rw [h.silent he]
  exact hJ

theorem reschedCurr_keeps : Keeps M J (reschedCurr : SchedM K Unit) :=
  modify_keeps h (fun _ _ => ⟨rfl, rfl⟩) fun _ => rfl

theorem addNrRunning_keeps {count : ℕ} : Keeps M J (addNrRunning count : SchedM K Unit) :=
  modifyRq_keeps h fun _ => rfl

theorem subNrRunning_keeps {count : ℕ} : Keeps M J (subNrRunning count : SchedM K Unit) := by
  unfold subNrRunning
  refine keeps_bind keeps_get fun s => ?_
  exact keeps_bind (emit_keeps h rfl) fun _ => modifyRq_keeps h fun _ => rfl

/-! ### The places where time is touched -/

theorem updateRqClock_keeps : Keeps M J (updateRqClock : SchedM K Unit) := by
  unfold updateRqClock
  apply keeps_get_bind
  intro s g b s' t hJ hends hok
  by_cases hskip : ¬ 0 < s.rq.skipClockUpdate
  · rw [when_pos hskip] at hends
    obtain ⟨_, s₁, t₁, t₂, h₁, h₂, rfl⟩ := ends_bind.mp hends
    obtain ⟨rfl, rfl⟩ := ends_modify.mp h₁
    obtain ⟨d, hd⟩ : ∃ d, d = K.schedClockCpu s.reads - s.rq.clock := ⟨_, rfl⟩
    rw [← hd] at h₂
    by_cases hneg : s64Neg d = false
    · rw [when_pos hneg] at h₂
      obtain ⟨_, s₂, t₃, t₄, h₃, h₄, rfl⟩ := ends_bind.mp h₂
      obtain ⟨rfl, rfl⟩ := ends_emit.mp h₃
      obtain ⟨rfl, rfl⟩ := ends_modify.mp h₄
      exact h.tick hJ hok.1 (fun _ => ⟨rfl, rfl⟩) rfl
    · rw [when_neg hneg] at h₂
      obtain ⟨-, rfl, rfl⟩ := ends_ret.mp h₂
      exact h.frame hJ (fun _ => ⟨rfl, rfl⟩) rfl
  · rw [when_neg hskip] at hends
    obtain ⟨-, rfl, rfl⟩ := ends_ret.mp hends
    exact hJ

/-- A charge of the running task, as both classes do it. -/
theorem charge_ends {s s' : Cpu K} {g : G} {t : List (Event K)} {u : Unit} {p : α} (hJ : J s g)
    (hpos : s64NonPos (s.rq.clockTask - (s.se p).execStart) = false)
    (hends : ((emit (.charge p (s.se p).execStart s.rq.clockTask) : SchedM K Unit) >>= fun _ =>
      modifySe p fun e => e.charge s.rq.clockTask).Ends s u s' t) (hok : M.Accepts g t) :
    J s' (M.after g t) := by
  obtain ⟨_, s₁, t₁, t₂, h₁, h₂, rfl⟩ := ends_bind.mp hends
  obtain ⟨rfl, rfl⟩ := ends_emit.mp h₁
  obtain ⟨rfl, rfl⟩ := ends_modify.mp h₂
  exact h.charge hJ hpos hok.1 rfl rfl

theorem updateCurrCircular_keeps : Keeps M J (updateCurrCircular : SchedM K Unit) := by
  unfold updateCurrCircular
  apply keeps_get_bind
  intro s g b s' t hJ hends hok
  dsimp only at hends
  by_cases hpos : s64NonPos (s.rq.clockTask - (s.se s.rq.curr).execStart) = false
  · rw [when_pos hpos] at hends
    exact charge_ends h hJ hpos hends hok
  · rw [when_neg hpos] at hends
    obtain ⟨-, rfl, rfl⟩ := ends_ret.mp hends
    exact hJ

theorem start_keeps (p : α) {s : Cpu K} {g : G} {s' : Cpu K} {t : List (Event K)} {u : Unit}
    (hJ : J s g)
    (hends : (modifySe p fun e => { e with execStart := s.rq.clockTask }).Ends s u s' t) :
    J s' (M.after g t) := by
  obtain ⟨rfl, rfl⟩ := ends_modify.mp hends
  exact h.start hJ rfl rfl

theorem setCurrTaskRt_keeps : Keeps M J (setCurrTaskRt : SchedM K Unit) := by
  unfold setCurrTaskRt
  apply keeps_get_bind
  intro s g b s' t hJ hends _
  exact start_keeps h _ hJ hends

theorem _pickNextTaskRt_keeps : Keeps M J (_pickNextTaskRt : SchedM K α) := by
  unfold _pickNextTaskRt
  apply keeps_get_bind
  intro s g b s' t hJ hends hok
  cases hbit : schedFindFirstBit s.rq.rt.active with
  | none =>
      rw [hbit] at hends
      exact keeps_fail s g b s' t hJ hends hok
  | some i =>
      rw [hbit] at hends
      dsimp only at hends
      cases hq : (s.rq.rt.active.queue i).head? with
      | none =>
          rw [hq] at hends
          exact keeps_fail s g b s' t hJ hends hok
      | some p =>
          rw [hq] at hends
          obtain ⟨_, s₁, t₁, t₂, h₁, h₂, rfl⟩ := ends_bind.mp hends
          obtain ⟨-, rfl, rfl⟩ := ends_ret.mp h₂
          rw [List.append_nil]
          exact start_keeps h p hJ h₁

/-! ### The circular class -/

/-- Storing a list structure is not about time. -/
theorem setList_keeps (f : ℕ → Cpu K → Except Fault (Heap α × CircularList α)) (n : ℕ)
    (s s' : Cpu K) (g : G) (hs : (f n s).map s.setList = .ok s') (hJ : J s g) : J s' g := by
  cases hr : f n s with
  | error e => rw [hr] at hs; cases hs
  | ok r =>
      rw [hr] at hs
      cases hs
      exact h.frame hJ (fun _ => ⟨rfl, rfl⟩) rfl

theorem listInsert_keeps {after : Option α} {new : α} :
    Keeps M J (listInsert after new : SchedM K Unit) := by
  unfold listInsert
  refine keeps_bind keeps_get fun _ => keeps_bind (emit_keeps h rfl) fun _ => ?_
  exact keeps_budgeted
    (setList_keeps h fun _ s => circularlistInsert s.node s.rq.circ.circList after (some new))

theorem listRemove_keeps {node : α} : Keeps M J (listRemove node : SchedM K Unit) := by
  unfold listRemove
  refine keeps_bind keeps_get fun _ => keeps_bind (emit_keeps h rfl) fun _ => ?_
  exact keeps_budgeted
    (setList_keeps h fun n s => circularlistRemove n s.node s.rq.circ.circList node)

theorem listTraverse_keeps : Keeps M J (listTraverse : SchedM K Unit) := by
  unfold listTraverse
  refine keeps_bind keeps_get fun _ => keeps_bind (emit_keeps h rfl) fun _ => ?_
  apply keeps_budgeted
  intro n s s' g hs hJ
  cases hr : circularlistTraverseDebug n s.node s.rq.circ.circList with
  | error e => rw [hr] at hs; cases hs
  | ok r => rw [hr] at hs; cases hs; exact hJ

theorem __enqueueEntity_keeps {p : α} : Keeps M J (__enqueueEntity p : SchedM K Unit) := by
  unfold __enqueueEntity
  exact keeps_bind keeps_get fun _ => listInsert_keeps h

theorem putPrevTaskCircular_keeps {p : α} :
    Keeps M J (putPrevTaskCircular p : SchedM K Unit) := by
  unfold putPrevTaskCircular putPrevEntity
  refine keeps_bind keeps_get fun _ => ?_
  exact keeps_bind (keeps_when fun _ => __enqueueEntity_keeps h) fun _ => modifyCirc_keeps h

theorem enqueueEntity_keeps {p : α} : Keeps M J (enqueueEntity p : SchedM K Unit) := by
  unfold enqueueEntity
  refine keeps_bind (modifyCirc_keeps h) fun _ => keeps_bind keeps_get fun _ => ?_
  refine keeps_bind (keeps_when fun _ => __enqueueEntity_keeps h) fun _ => ?_
  exact modifySe_keeps h fun _ => ⟨rfl, rfl⟩

theorem enqueueTaskCircular_keeps {p : α} :
    Keeps M J (enqueueTaskCircular p : SchedM K Unit) := by
  unfold enqueueTaskCircular
  refine keeps_bind (listTraverse_keeps h) fun _ => keeps_bind keeps_get fun _ => ?_
  refine keeps_bind (keeps_when fun _ => ?_) fun _ => ?_
  · exact keeps_bind (enqueueEntity_keeps h) fun _ => modifyCirc_keeps h
  · exact keeps_bind (addNrRunning_keeps h) fun _ => listTraverse_keeps h

theorem dequeueEntity_keeps {p : α} : Keeps M J (dequeueEntity p : SchedM K Unit) := by
  unfold dequeueEntity
  refine keeps_bind keeps_get fun _ => ?_
  refine keeps_bind (keeps_when fun _ => listRemove_keeps h) fun _ => ?_
  refine keeps_bind (modifySe_keeps h fun _ => ⟨rfl, rfl⟩) fun _ => ?_
  exact keeps_bind (emit_keeps h rfl) fun _ => modifyCirc_keeps h

theorem dequeueTaskCircular_keeps {p : α} :
    Keeps M J (dequeueTaskCircular p : SchedM K Unit) := by
  unfold dequeueTaskCircular
  refine keeps_bind (listTraverse_keeps h) fun _ => keeps_bind (dequeueEntity_keeps h) fun _ => ?_
  refine keeps_bind keeps_get fun _ => keeps_bind (emit_keeps h rfl) fun _ => ?_
  refine keeps_bind (modifyCirc_keeps h) fun _ => keeps_bind (subNrRunning_keeps h) fun _ => ?_
  exact keeps_bind (listTraverse_keeps h) fun _ => emit_keeps h rfl

theorem setNextEntity_keeps {p : α} : Keeps M J (setNextEntity p : SchedM K Unit) := by
  unfold setNextEntity
  refine keeps_bind keeps_get fun _ => ?_
  exact keeps_bind (keeps_when fun _ => listRemove_keeps h) fun _ => modifyCirc_keeps h

theorem setCurrTaskCircular_keeps : Keeps M J (setCurrTaskCircular : SchedM K Unit) := by
  unfold setCurrTaskCircular
  exact keeps_bind keeps_get fun _ => setNextEntity_keeps h

theorem checkPreemptWakeup_keeps {T : α → TaskStruct} {p : α} :
    Keeps M J (checkPreemptWakeup T p : SchedM K Unit) := by
  unfold checkPreemptWakeup
  refine keeps_bind keeps_get fun _ => keeps_ite (keeps_ret ()) ?_
  refine keeps_ite (reschedCurr_keeps h) (keeps_ite (keeps_ret ()) ?_)
  exact keeps_bind (updateCurrCircular_keeps h) fun _ => reschedCurr_keeps h

theorem yieldTaskCircular_keeps {T : α → TaskStruct} :
    Keeps M J (yieldTaskCircular T : SchedM K Unit) := by
  unfold yieldTaskCircular
  refine keeps_bind keeps_get fun _ => keeps_when fun _ => ?_
  refine keeps_bind (updateRqClock_keeps h) fun _ => ?_
  exact keeps_bind (updateCurrCircular_keeps h) fun _ => modifyRq_keeps h fun _ => rfl

/-! ### The real-time class -/

theorem dequeueTopRtRq_keeps : Keeps M J (dequeueTopRtRq : SchedM K Unit) := by
  unfold dequeueTopRtRq
  refine keeps_bind keeps_get fun _ => keeps_when fun _ => ?_
  refine keeps_bind (keeps_when fun _ => keeps_fail) fun _ => ?_
  exact keeps_bind (subNrRunning_keeps h) fun _ => modifyRt_keeps h

theorem enqueueTopRtRq_keeps : Keeps M J (enqueueTopRtRq : SchedM K Unit) := by
  unfold enqueueTopRtRq
  refine keeps_bind keeps_get fun _ => keeps_when fun _ => ?_
  exact keeps_bind (addNrRunning_keeps h) fun _ => modifyRt_keeps h

omit h in
theorem rtSePrio_keeps {T : α → TaskStruct} {p : α} : Keeps M J (rtSePrio T p : SchedM K ℕ) :=
  keeps_ite (keeps_ret _) keeps_fail

theorem __enqueueRtEntity_keeps {T : α → TaskStruct} {p : α} {head : Bool} :
    Keeps M J (__enqueueRtEntity T p head : SchedM K Unit) := by
  unfold __enqueueRtEntity
  exact keeps_bind rtSePrio_keeps fun _ => modifyRt_keeps h

theorem __dequeueRtEntity_keeps {T : α → TaskStruct} {p : α} :
    Keeps M J (__dequeueRtEntity T p : SchedM K Unit) := by
  unfold __dequeueRtEntity
  refine keeps_bind rtSePrio_keeps fun _ => keeps_bind keeps_get fun _ => ?_
  exact keeps_bind (emit_keeps h rfl) fun _ => modifyRt_keeps h

theorem dequeueRtStack_keeps {T : α → TaskStruct} {p : α} :
    Keeps M J (dequeueRtStack T p : SchedM K Unit) := by
  unfold dequeueRtStack
  refine keeps_bind (dequeueTopRtRq_keeps h) fun _ => keeps_bind keeps_get fun _ => ?_
  exact keeps_when fun _ => __dequeueRtEntity_keeps h

theorem enqueueTaskRt_keeps {T : α → TaskStruct} {p : α} {flags : ℕ} :
    Keeps M J (enqueueTaskRt T p flags : SchedM K Unit) := by
  unfold enqueueTaskRt enqueueRtEntity
  refine keeps_bind (keeps_when fun _ => ?_) fun _ => ?_
  · exact modify_keeps h (fun _ _ => ⟨rfl, rfl⟩) fun _ => rfl
  · refine keeps_bind (dequeueRtStack_keeps h) fun _ => ?_
    exact keeps_bind (__enqueueRtEntity_keeps h) fun _ => enqueueTopRtRq_keeps h

theorem schedRtRuntimeExceeded_keeps : Keeps M J (schedRtRuntimeExceeded : SchedM K Bool) := by
  unfold schedRtRuntimeExceeded
  refine keeps_bind keeps_get fun _ => ?_
  dsimp only
  refine keeps_ite (keeps_ret _) (keeps_ite (keeps_ret _) (keeps_ite (keeps_ret _) ?_))
  refine keeps_ite (keeps_ret _) (keeps_ite ?_ ?_)
  · refine keeps_bind (modifyRt_keeps h) fun _ => ?_
    exact keeps_bind (dequeueTopRtRq_keeps h) fun _ => keeps_ret _
  · exact keeps_bind (modifyRt_keeps h) fun _ => keeps_ret _

theorem updateCurrRt_keeps {T : α → TaskStruct} : Keeps M J (updateCurrRt T : SchedM K Unit) := by
  unfold updateCurrRt
  apply keeps_get_bind
  intro s g b s' t hJ hends hok
  dsimp only at hends
  by_cases hc : (T s.rq.curr).schedClass = .rt ∧
      s64NonPos (s.rq.clockTask - (s.se s.rq.curr).execStart) = false
  · rw [when_pos hc] at hends
    -- the charge, which is about time, and the throttling after it, which is not
    obtain ⟨u, s₁, t₁, t₂, h₁, h₂, rfl⟩ := ends_bind.mp hends
    obtain ⟨v, s₂, t₃, t₄, h₃, h₄, rfl⟩ := ends_bind.mp h₂
    rw [← List.append_assoc] at hok ⊢
    rw [M.accepts_append] at hok
    rw [M.after_append]
    have hcharge := charge_ends h hJ hc.2 (ends_bind.mpr ⟨u, s₁, t₁, t₃, h₁, h₃, rfl⟩) hok.1
    refine keeps_when (fun _ => ?_) s₂ _ b s' t₄ hcharge h₄ hok.2
    refine keeps_bind (modifyRt_keeps h) fun _ => ?_
    exact keeps_bind (schedRtRuntimeExceeded_keeps h) fun _ =>
      keeps_when fun _ => reschedCurr_keeps h
  · rw [when_neg hc] at hends
    obtain ⟨-, rfl, rfl⟩ := ends_ret.mp hends
    exact hJ

theorem dequeueTaskRt_keeps {T : α → TaskStruct} {p : α} :
    Keeps M J (dequeueTaskRt T p : SchedM K Unit) := by
  unfold dequeueTaskRt dequeueRtEntity
  refine keeps_bind (updateCurrRt_keeps h) fun _ => ?_
  exact keeps_bind (dequeueRtStack_keeps h) fun _ => enqueueTopRtRq_keeps h

theorem yieldTaskRt_keeps {T : α → TaskStruct} : Keeps M J (yieldTaskRt T : SchedM K Unit) := by
  unfold yieldTaskRt
  refine keeps_bind keeps_get fun _ => keeps_when fun _ => ?_
  exact keeps_bind rtSePrio_keeps fun _ => modifyRt_keeps h

theorem checkPreemptCurrRt_keeps {T : α → TaskStruct} {p : α} :
    Keeps M J (checkPreemptCurrRt T p : SchedM K Unit) :=
  keeps_bind keeps_get fun _ => keeps_when fun _ => reschedCurr_keeps h

theorem switchedToRt_keeps {T : α → TaskStruct} {p : α} :
    Keeps M J (switchedToRt T p : SchedM K Unit) :=
  keeps_bind keeps_get fun _ => keeps_when fun _ => reschedCurr_keeps h

theorem prioChangedRt_keeps {T : α → TaskStruct} {p : α} {oldprio : ℤ} :
    Keeps M J (prioChangedRt T p oldprio : SchedM K Unit) := by
  unfold prioChangedRt
  refine keeps_bind keeps_get fun _ => keeps_when fun _ => keeps_ite ?_ ?_
  · exact keeps_when fun _ => reschedCurr_keeps h
  · exact keeps_when fun _ => reschedCurr_keeps h

/-! ### Calls through the classes -/

theorem foreignCall_keeps {f : Foreign} {c : ClassCall} {T : α → TaskStruct} {p : α} :
    Keeps M J (foreignCall f c T p : SchedM K Unit) := by
  unfold foreignCall
  refine keeps_bind keeps_get fun _ => keeps_bind (modifyRq_keeps h fun _ => rfl) fun _ => ?_
  refine keeps_bind (keeps_when fun _ => addNrRunning_keeps h) fun _ => ?_
  refine keeps_bind (keeps_when fun _ => subNrRunning_keeps h) fun _ => ?_
  exact keeps_when fun _ => reschedCurr_keeps h

theorem classEnqueue_keeps {T : α → TaskStruct} {p : α} {flags : ℕ} :
    Keeps M J (classEnqueue T p flags : SchedM K Unit) := by
  unfold classEnqueue
  split
  · exact foreignCall_keeps h
  · exact foreignCall_keeps h
  · exact enqueueTaskRt_keeps h
  · exact keeps_fail
  · exact enqueueTaskCircular_keeps h
  · exact keeps_fail

theorem classDequeue_keeps {T : α → TaskStruct} {p : α} {flags : ℕ} :
    Keeps M J (classDequeue T p flags : SchedM K Unit) := by
  unfold classDequeue
  split
  · exact foreignCall_keeps h
  · exact foreignCall_keeps h
  · exact dequeueTaskRt_keeps h
  · exact keeps_fail
  · exact dequeueTaskCircular_keeps h
  · exact keeps_ret ()

theorem putPrevTask_keeps {T : α → TaskStruct} {prev : α} :
    Keeps M J (putPrevTask T prev : SchedM K Unit) := by
  unfold putPrevTask
  split
  · exact foreignCall_keeps h
  · exact foreignCall_keeps h
  · exact updateCurrRt_keeps h
  · exact keeps_fail
  · exact putPrevTaskCircular_keeps h
  · exact keeps_ret ()

theorem setCurrTask_keeps {T : α → TaskStruct} {p : α} :
    Keeps M J (setCurrTask T p : SchedM K Unit) := by
  unfold setCurrTask
  split
  · exact foreignCall_keeps h
  · exact foreignCall_keeps h
  · exact setCurrTaskRt_keeps h
  · exact keeps_fail
  · exact setCurrTaskCircular_keeps h
  · exact keeps_ret ()

theorem updateCurr_keeps {T : α → TaskStruct} {p : α} :
    Keeps M J (updateCurr T p : SchedM K Unit) := by
  unfold updateCurr
  split
  · exact foreignCall_keeps h
  · exact foreignCall_keeps h
  · exact updateCurrRt_keeps h
  · exact keeps_fail
  · exact updateCurrCircular_keeps h
  · exact keeps_ret ()

theorem yieldTask_keeps {T : α → TaskStruct} {p : α} :
    Keeps M J (yieldTask T p : SchedM K Unit) := by
  unfold yieldTask
  split
  · exact foreignCall_keeps h
  · exact foreignCall_keeps h
  · exact yieldTaskRt_keeps h
  · exact keeps_fail
  · exact yieldTaskCircular_keeps h
  · exact keeps_fail

theorem enqueueTask_keeps {T : α → TaskStruct} {p : α} {flags : ℕ} :
    Keeps M J (enqueueTask T p flags : SchedM K Unit) :=
  keeps_bind (updateRqClock_keeps h) fun _ => classEnqueue_keeps h

theorem dequeueTask_keeps {T : α → TaskStruct} {p : α} {flags : ℕ} :
    Keeps M J (dequeueTask T p flags : SchedM K Unit) :=
  keeps_bind (updateRqClock_keeps h) fun _ => classDequeue_keeps h

theorem checkPreemptWalk_keeps {c c' : SchedClass} (cs : List SchedClass) :
    Keeps M J (checkPreemptWalk c c' cs : SchedM K Unit) := by
  induction cs with
  | nil => exact keeps_ret ()
  | cons d cs ih => exact keeps_ite (keeps_ret ()) (keeps_ite (reschedCurr_keeps h) ih)

theorem checkPreempt_keeps {T : α → TaskStruct} {curr p : α} {flags : ℕ} :
    Keeps M J (checkPreempt T curr p flags : SchedM K Unit) := by
  unfold checkPreempt
  refine keeps_ite ?_ (checkPreemptWalk_keeps h _)
  unfold classCheckPreempt
  split
  · exact foreignCall_keeps h
  · exact foreignCall_keeps h
  · exact checkPreemptCurrRt_keeps h
  · exact keeps_fail
  · exact checkPreemptWakeup_keeps h
  · exact reschedCurr_keeps h

theorem checkPreemptCurr_keeps {T : α → TaskStruct} {p : α} {flags : ℕ} :
    Keeps M J (checkPreemptCurr T p flags : SchedM K Unit) := by
  unfold checkPreemptCurr
  refine keeps_bind keeps_get fun _ => keeps_bind (checkPreempt_keeps h) fun _ => ?_
  exact keeps_bind keeps_get fun _ => keeps_when fun _ => modifyRq_keeps h fun _ => rfl

theorem switchedFrom_keeps {T : α → TaskStruct} {p : α} {c : SchedClass} :
    Keeps M J (switchedFrom T p c : SchedM K Unit) := by
  unfold switchedFrom
  split
  · exact foreignCall_keeps h
  · exact foreignCall_keeps h
  · exact keeps_fail
  all_goals exact keeps_ret ()

theorem switchedTo_keeps {T : α → TaskStruct} {p : α} :
    Keeps M J (switchedTo T p : SchedM K Unit) := by
  unfold switchedTo
  split
  · exact foreignCall_keeps h
  · exact foreignCall_keeps h
  · exact switchedToRt_keeps h
  · exact keeps_fail
  · exact keeps_fail
  · unfold switchedToCircular
    refine keeps_bind keeps_get fun _ => keeps_when fun _ => ?_
    exact keeps_ite (reschedCurr_keeps h) (checkPreemptCurr_keeps h)

theorem prioChanged_keeps {T : α → TaskStruct} {p : α} {oldprio : ℤ} :
    Keeps M J (prioChanged T p oldprio : SchedM K Unit) := by
  unfold prioChanged
  split
  · exact foreignCall_keeps h
  · exact foreignCall_keeps h
  · exact prioChangedRt_keeps h
  · exact keeps_fail
  · exact keeps_fail
  · unfold prioChangedCircular
    refine keeps_bind keeps_get fun _ => keeps_ite ?_ (checkPreemptCurr_keeps h)
    exact keeps_when fun _ => reschedCurr_keeps h

theorem checkClassChanged_keeps {T : α → TaskStruct} {p : α} {c : SchedClass} {oldprio : ℤ} :
    Keeps M J (checkClassChanged T p c oldprio : SchedM K Unit) := by
  unfold checkClassChanged
  refine keeps_ite ?_ (keeps_when fun _ => prioChanged_keeps h)
  exact keeps_bind (switchedFrom_keeps h) fun _ => switchedTo_keeps h

/-! ### The picks -/

theorem pickNextTaskCircular_keeps {T : α → TaskStruct} {prev : α} :
    Keeps M J (pickNextTaskCircular T prev : SchedM K (Option α)) := by
  have hchoose : Keeps M J (chooseEntity : SchedM K (Option α)) := by
    unfold chooseEntity pickNextEntity
    refine keeps_bind (keeps_bind keeps_get fun _ => keeps_ret _) fun se => ?_
    cases se with
    | none =>
        exact keeps_bind (emit_keeps h rfl) fun _ => keeps_bind keeps_get fun _ => keeps_ret _
    | some p => exact keeps_bind (setNextEntity_keeps h) fun _ => keeps_ret _
  unfold pickNextTaskCircular
  refine keeps_bind keeps_get fun _ => keeps_ite ?_ ?_
  · exact keeps_bind (emit_keeps h rfl) fun _ => keeps_ret _
  · refine keeps_bind (putPrevTask_keeps h) fun _ => keeps_bind hchoose fun se => ?_
    refine keeps_bind (listTraverse_keeps h) fun _ => keeps_bind (keeps_deref se) fun _ => ?_
    refine keeps_bind keeps_get fun _ => ?_
    exact keeps_bind (emit_keeps h rfl) fun _ => keeps_ret _

theorem pickNextTaskRt_keeps {T : α → TaskStruct} {prev : α} :
    Keeps M J (pickNextTaskRt T prev : SchedM K (Option α)) := by
  unfold pickNextTaskRt
  refine keeps_bind (keeps_when fun _ => updateCurrRt_keeps h) fun _ => ?_
  refine keeps_bind keeps_get fun _ => keeps_ite ?_ (keeps_ret _)
  refine keeps_bind (putPrevTask_keeps h) fun _ => ?_
  exact keeps_bind (_pickNextTaskRt_keeps h) fun _ => keeps_ret _

theorem pickNextTaskForeign_keeps {f : Foreign} {T : α → TaskStruct} {prev : α} :
    Keeps M J (pickNextTaskForeign f T prev : SchedM K (Option α)) := by
  unfold pickNextTaskForeign
  refine keeps_bind (keeps_when fun _ => foreignCall_keeps h) fun _ => ?_
  refine keeps_bind keeps_get fun s => ?_
  split
  · exact keeps_ret _
  · refine keeps_bind (putPrevTask_keeps h) fun _ => ?_
    exact keeps_bind (foreignCall_keeps h) fun _ => keeps_ret _

theorem pickNextTaskIdle_keeps {T : α → TaskStruct} {prev : α} :
    Keeps M J (pickNextTaskIdle T prev : SchedM K α) :=
  keeps_bind (putPrevTask_keeps h) fun _ => keeps_bind keeps_get fun _ => keeps_ret _

theorem pickWalk_keeps {T : α → TaskStruct} {prev : α} (cs : List SchedClass) :
    Keeps M J (pickWalk T prev cs : SchedM K α) := by
  induction cs with
  | nil => exact keeps_fail
  | cons c cs ih =>
      have hpick : Keeps M J (classPick T prev c : SchedM K (Option α)) := by
        cases c with
        | stop => exact pickNextTaskForeign_keeps h
        | dl => exact pickNextTaskForeign_keeps h
        | rt => exact pickNextTaskRt_keeps h
        | fair => exact keeps_fail
        | circular => exact pickNextTaskCircular_keeps h
        | idle => exact keeps_bind (pickNextTaskIdle_keeps h) fun _ => keeps_ret _
      refine keeps_bind hpick fun p => ?_
      cases p with
      | none => exact ih
      | some p => exact keeps_ret p

theorem pickNextTask_keeps {T : α → TaskStruct} {prev : α} :
    Keeps M J (pickNextTask T prev : SchedM K α) := by
  unfold pickNextTask
  refine keeps_bind keeps_get fun _ => keeps_ite ?_ (pickWalk_keeps h _)
  unfold pickShortcut
  refine keeps_bind (pickNextTaskCircular_keeps h) fun p => ?_
  cases p with
  | none => exact pickNextTaskIdle_keeps h
  | some p => exact keeps_ret p

/-! ### The core -/

/-- The relation on the whole machine. -/
def onMachine (J : Cpu K → G → Prop) (m : Machine K) (g : G) : Prop := J m.cpu g

omit h in
theorem onCpu_keeps {β : Type} {f : (α → TaskStruct) → SchedM K β} (hf : ∀ T, Keeps M J (f T)) :
    Keeps M (onMachine J) (onCpu f) := by
  unfold onCpu
  exact keeps_bind keeps_get fun m => keeps_zoom (fun _ _ => rfl) (hf m.task)

omit h in
theorem modifyTask_keeps {p : α} {f : TaskStruct → TaskStruct} :
    Keeps M (onMachine J) (modifyTask p f : CoreM K Unit) :=
  keeps_modify fun _ _ hJ => hJ

omit h in
theorem updateTask_keeps {p : α} {f : TaskStruct → Option TaskStruct} :
    Keeps M (onMachine J) (updateTask p f : CoreM K Unit) := by
  unfold updateTask
  refine keeps_bind keeps_get fun m => ?_
  split
  · exact keeps_fail
  · exact modifyTask_keeps

theorem ttwuActivate_keeps {p : α} {flags : ℕ} :
    Keeps M (onMachine J) (ttwuActivate p flags : CoreM K Unit) :=
  keeps_bind (onCpu_keeps fun _ => enqueueTask_keeps h) fun _ => modifyTask_keeps

theorem ttwuDoWakeup_keeps {p : α} {wakeFlags : ℕ} :
    Keeps M (onMachine J) (ttwuDoWakeup p wakeFlags : CoreM K Unit) :=
  keeps_bind (onCpu_keeps fun _ => checkPreemptCurr_keeps h) fun _ => modifyTask_keeps

theorem ttwuDoActivate_keeps {p : α} {wakeFlags : ℕ} :
    Keeps M (onMachine J) (ttwuDoActivate p wakeFlags : CoreM K Unit) :=
  keeps_bind (ttwuActivate_keeps h) fun _ => ttwuDoWakeup_keeps h

theorem tryToWakeUp_keeps {p : α} {state wakeFlags : ℕ} :
    Keeps M (onMachine J) (tryToWakeUp p state wakeFlags : CoreM K Bool) := by
  unfold tryToWakeUp ttwuRemote
  refine keeps_bind keeps_get fun _ => keeps_ite (keeps_ret _) (keeps_ite ?_ ?_)
  · refine keeps_bind (keeps_bind keeps_get fun _ => keeps_ite ?_ (keeps_ret _)) fun _ => ?_
    · refine keeps_bind (onCpu_keeps fun _ => updateRqClock_keeps h) fun _ => ?_
      exact keeps_bind (ttwuDoWakeup_keeps h) fun _ => keeps_ret _
    · exact keeps_bind (keeps_when fun _ => ttwuDoActivate_keeps h) fun _ => keeps_ret _
  · exact keeps_bind (ttwuDoActivate_keeps h) fun _ => keeps_ret _

theorem tryToWakeUpLocal_keeps {p : α} :
    Keeps M (onMachine J) (tryToWakeUpLocal p : CoreM K Unit) := by
  unfold tryToWakeUpLocal
  refine keeps_bind keeps_get fun _ => keeps_when fun _ => ?_
  exact keeps_bind (keeps_when fun _ => ttwuActivate_keeps h) fun _ => ttwuDoWakeup_keeps h

theorem wakeUpNewTask_keeps {p : α} :
    Keeps M (onMachine J) (wakeUpNewTask p : CoreM K Unit) := by
  unfold wakeUpNewTask
  refine keeps_bind (onCpu_keeps fun _ => enqueueTask_keeps h) fun _ => ?_
  exact keeps_bind modifyTask_keeps fun _ => onCpu_keeps fun _ => checkPreemptCurr_keeps h

/-- The copy made for a child and what `__sched_fork` then sets. -/
theorem dup_schedFork_ends {p : α} {mm kthread : Bool} {m m₁ m₂ : Machine K} {g : G} {u v : Unit}
    {t₁ t₂ : List (Event K)} (hJ : onMachine J m g)
    (h₁ : (dupTaskStruct p mm kthread : CoreM K Unit).Ends m u m₁ t₁)
    (h₂ : (__schedFork p : CoreM K Unit).Ends m₁ v m₂ t₂) :
    onMachine J m₂ (M.after g (t₁ ++ t₂)) := by
  obtain ⟨rfl, rfl⟩ := ends_modify.mp h₁
  unfold __schedFork onCpu at h₂
  obtain ⟨_, m₃, t₃, t₄, h₃, h₄, rfl⟩ := ends_bind.mp h₂
  obtain ⟨rfl, rfl⟩ := ends_modify.mp h₃
  obtain ⟨_, m₅, t₅, t₆, h₅, h₆, rfl⟩ := ends_bind.mp h₄
  obtain ⟨m₇, m₈, t₇, t₈, h₇, h₈, rfl⟩ := ends_bind.mp h₅
  obtain ⟨rfl, rfl, rfl⟩ := ends_get.mp h₇
  obtain ⟨s, hs, rfl⟩ := ends_zoom.mp h₈
  obtain ⟨rfl, rfl⟩ := ends_modify.mp hs
  obtain ⟨rfl, rfl⟩ := ends_emit.mp h₆
  refine h.forked hJ ?_ ?_ rfl
  · intro q hq
    show Function.update (Function.update m.cpu.se p _) p _ q = _
    rw [Function.update_of_ne hq, Function.update_of_ne hq]
  · show Function.update (Function.update m.cpu.se p _) p _ p = _
    rw [Function.update_self]

theorem schedForkClass_keeps {p : α} :
    Keeps M (onMachine J) (schedForkClass p : CoreM K ℤ) := by
  have hfork : Keeps M J (taskForkCircular p : SchedM K Unit) := by
    unfold taskForkCircular
    refine keeps_bind (updateRqClock_keeps h) fun _ => keeps_when fun _ => ?_
    refine keeps_bind keeps_get fun _ => ?_
    refine keeps_bind (modifySe_keeps h fun _ => ⟨rfl, rfl⟩) fun _ => ?_
    exact keeps_bind (modifySe_keeps h fun _ => ⟨rfl, rfl⟩) fun _ => reschedCurr_keeps h
  unfold schedForkClass
  refine keeps_bind keeps_get fun _ => keeps_ite (keeps_ret _) (keeps_ite ?_ ?_)
  · exact keeps_bind modifyTask_keeps fun _ => keeps_ret _
  · refine keeps_bind modifyTask_keeps fun _ => ?_
    exact keeps_bind (onCpu_keeps fun _ => hfork) fun _ => keeps_ret _

theorem fork_keeps {p : α} {mm kthread : Bool} :
    Keeps M (onMachine J) (fork p mm kthread : CoreM K ℤ) := by
  intro m g r m' t hJ hends hok
  unfold fork schedFork at hends
  obtain ⟨u, m₁, t₁, t', h₁, h', rfl⟩ := ends_bind.mp hends
  obtain ⟨v, m₂, t₂, t₃, h₂, h₃, rfl⟩ := ends_bind.mp h'
  rw [← List.append_assoc] at hok ⊢
  rw [M.accepts_append] at hok
  rw [M.after_append]
  refine keeps_bind keeps_get (fun m => ?_) m₂ _ r m' t₃ (dup_schedFork_ends h hJ h₁ h₂) h₃ hok.2
  refine keeps_bind modifyTask_keeps fun _ => ?_
  exact keeps_bind (keeps_when fun _ => updateTask_keeps) fun _ => schedForkClass_keeps h

theorem __schedule_keeps {signalPending preemptActive : Bool} {toWakeup : Option α} :
    Keeps M (onMachine J) (__schedule signalPending preemptActive toWakeup : CoreM K Unit) := by
  have hprev : ∀ prev, Keeps M (onMachine J)
      (schedulePrev prev signalPending preemptActive toWakeup : CoreM K Unit) := by
    intro prev
    unfold schedulePrev
    refine keeps_bind keeps_get fun _ => keeps_when fun _ => keeps_ite modifyTask_keeps ?_
    refine keeps_bind (onCpu_keeps fun _ => dequeueTask_keeps h) fun _ => ?_
    refine keeps_bind modifyTask_keeps fun _ => keeps_when fun _ => ?_
    cases toWakeup with
    | none => exact keeps_ret ()
    | some p => exact tryToWakeUpLocal_keeps h
  unfold __schedule scheduleEnter
  refine keeps_bind (keeps_bind keeps_get fun m => keeps_bind (hprev _) fun _ => ?_) fun _ => ?_
  · refine keeps_bind keeps_get fun _ => ?_
    exact keeps_bind (keeps_when fun _ => onCpu_keeps fun _ => updateRqClock_keeps h) fun _ =>
      keeps_ret _
  · refine keeps_bind (onCpu_keeps fun _ => pickNextTask_keeps h) fun _ => ?_
    exact onCpu_keeps fun _ => modify_keeps h (fun _ _ => ⟨rfl, rfl⟩) fun _ => rfl

theorem taskSchedRuntime_keeps {p : α} :
    Keeps M (onMachine J) (taskSchedRuntime p : CoreM K U64) := by
  unfold taskSchedRuntime
  refine keeps_bind keeps_get fun _ => keeps_bind (keeps_when fun _ => ?_) fun _ => ?_
  · exact onCpu_keeps fun _ => keeps_bind (updateRqClock_keeps h) fun _ => updateCurr_keeps h
  · exact keeps_bind keeps_get fun _ => keeps_ret _

theorem changeTask_keeps {p : α} {change : TaskStruct → Option TaskStruct}
    {flags : TaskStruct → TaskStruct → ℕ} :
    Keeps M (onMachine J) (changeTask p change flags : CoreM K Unit) := by
  unfold changeTask
  refine keeps_bind keeps_get fun _ => ?_
  refine keeps_bind (keeps_when fun _ => onCpu_keeps fun _ => dequeueTask_keeps h) fun _ => ?_
  refine keeps_bind (keeps_when fun _ => onCpu_keeps fun _ => putPrevTask_keeps h) fun _ => ?_
  refine keeps_bind updateTask_keeps fun _ => ?_
  refine keeps_bind (keeps_when fun _ => onCpu_keeps fun _ => setCurrTask_keeps h) fun _ => ?_
  refine keeps_bind keeps_get fun _ => ?_
  exact keeps_when fun _ => onCpu_keeps fun _ => enqueueTask_keeps h

theorem rtMutexSetprio_keeps {p : α} {prio : ℤ} {piPreempts : Bool} :
    Keeps M (onMachine J) (rtMutexSetprio p prio piPreempts : CoreM K Unit) := by
  unfold rtMutexSetprio
  refine keeps_bind (keeps_when fun _ => keeps_fail) fun _ => keeps_bind keeps_get fun _ => ?_
  refine keeps_when fun _ => keeps_bind (changeTask_keeps h) fun _ => ?_
  exact onCpu_keeps fun _ => checkClassChanged_keeps h

theorem setUserNice_keeps {p : α} {nice : ℤ} :
    Keeps M (onMachine J) (setUserNice p nice : CoreM K Unit) := by
  unfold setUserNice
  refine keeps_bind keeps_get fun _ => keeps_when fun _ => keeps_ite modifyTask_keeps ?_
  refine keeps_bind (keeps_when fun _ => onCpu_keeps fun _ => dequeueTask_keeps h) fun _ => ?_
  refine keeps_bind updateTask_keeps fun _ => keeps_bind keeps_get fun _ => keeps_when fun _ => ?_
  refine keeps_bind (onCpu_keeps fun _ => enqueueTask_keeps h) fun _ => keeps_when fun _ => ?_
  exact onCpu_keeps fun _ => reschedCurr_keeps h

theorem schedSetschedulerChange_keeps {p : α} {attr : SchedAttr} {boosted : Bool} :
    Keeps M (onMachine J) (schedSetschedulerChange p attr boosted : CoreM K ℤ) := by
  unfold schedSetschedulerChange
  refine keeps_bind keeps_get fun _ => keeps_bind modifyTask_keeps fun _ => keeps_ite ?_ ?_
  · exact keeps_bind updateTask_keeps fun _ => keeps_ret _
  · refine keeps_bind (changeTask_keeps h) fun _ => ?_
    exact keeps_bind (onCpu_keeps fun _ => checkClassChanged_keeps h) fun _ => keeps_ret _

theorem __schedSetscheduler_keeps {p : α} {attr : SchedAttr} {env : SetschedEnv} :
    Keeps M (onMachine J) (__schedSetscheduler p attr env : CoreM K ℤ) := by
  unfold __schedSetscheduler
  refine keeps_bind keeps_get fun m => ?_
  dsimp only
  refine keeps_ite (keeps_ret _) (keeps_ite (keeps_ret _) (keeps_ite (keeps_ret _) ?_))
  refine keeps_ite (keeps_ret _) (keeps_ite ?_ (keeps_ite ?_ (schedSetschedulerChange_keeps h)))
  · exact keeps_bind modifyTask_keeps fun _ => keeps_ret _
  · split
    · exact keeps_ret _
    · refine keeps_bind (onCpu_keeps fun _ => modifyRq_keeps h fun _ => rfl) fun _ => ?_
      exact schedSetschedulerChange_keeps h

/-! ### Runs -/

/-- **Every step keeps what follows time alone.** -/
theorem Step.prog_keeps (e : Step α) : Keeps M (onMachine J) (e.prog : CoreM K Bool) := by
  have hcompleted : ∀ {β : Type} {x : CoreM K β}, Keeps M (onMachine J) x →
      Keeps M (onMachine J) (completed x) := fun hx => keeps_bind hx fun _ => keeps_ret _
  cases e with
  | setState p state => exact hcompleted modifyTask_keeps
  | tryToWakeUp p state wakeFlags => exact hcompleted (tryToWakeUp_keeps h)
  | wakeUpNewTask p => exact hcompleted (wakeUpNewTask_keeps h)
  | fork p mm kthread => exact keeps_bind (fork_keeps h) fun _ => keeps_ret _
  | schedule signalPending preemptActive toWakeup => exact hcompleted (__schedule_keeps h)
  | setUserNice p nice => exact hcompleted (setUserNice_keeps h)
  | rtMutexSetprio p prio piPreempts => exact hcompleted (rtMutexSetprio_keeps h)
  | schedSetscheduler p attr env => exact hcompleted (__schedSetscheduler_keeps h)
  | schedMoveTask p => exact hcompleted (changeTask_keeps h)
  | schedYield =>
      exact hcompleted (onCpu_keeps fun _ => keeps_bind keeps_get fun _ => yieldTask_keeps h)
  | taskSchedRuntime p => exact hcompleted (taskSchedRuntime_keeps h)

/-- **So does every run** whose trace the monitor accepts. -/
theorem Run.keeps {m₀ m : Machine K} {t : List (Event K)} {g : G} (hr : Run m₀ t m)
    (hJ : J m₀.cpu g) (hok : M.Accepts g t) : J m.cpu (M.after g t) := by
  induction hr with
  | refl => exact hJ
  | step e hr he hends ih =>
      rw [M.accepts_append] at hok
      rw [M.after_append]
      exact Step.prog_keeps h e _ _ _ _ _ (ih hok.1) hends hok.2

end

end KernelHacking.Sched
