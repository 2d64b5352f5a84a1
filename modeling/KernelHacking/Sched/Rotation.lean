import KernelHacking.Sched.FastPath
import KernelHacking.Sched.SaveRestore

/-! # The rotation of the ring

While only circular tasks are runnable and nobody goes to sleep, `__schedule` puts the running task
back at the end of the ring and takes the head out.  With the running task written before the ring,
each call rotates the sequence by one (`schedule_rotates`), so as many calls as there are tasks give
every task its turn, in order, and lead back to the start (`exact_rotation`). -/

namespace KernelHacking.Sched

open TraceProg PtrRing Word Prog

variable {α : Type} [DecidableEq α] [Fintype α] {K : Kernel α}

/-! ### Runs of `__schedule` -/

/-- The surroundings of a call of `__schedule`. -/
structure ScheduleCall (α : Type) where
  signalPending : Bool
  preemptActive : Bool
  toWakeup : Option α

/-- The call. -/
def ScheduleCall.prog (call : ScheduleCall α) : CoreM K Unit :=
  __schedule call.signalPending call.preemptActive call.toWakeup

/-- The call does not put the task to sleep: it is `TASK_RUNNING`, preempted, or has a signal. -/
def ScheduleCall.Awake (call : ScheduleCall α) (t : TaskStruct) : Prop :=
  t.state = TASK_RUNNING ∨ call.preemptActive = true ∨ call.signalPending = true

/-- Calls of `__schedule` one after the other, with the tasks they switch to; nobody sleeps. -/
inductive Calls : Machine K → List α → Machine K → Prop where
  | nil {m : Machine K} : Calls m [] m
  | cons {m m₁ m' : Machine K} {ps : List α} {u : List (Event K)} (call : ScheduleCall α) :
      call.Awake (m.task m.cpu.rq.curr) → call.prog.Ends m () m₁ u → Calls m₁ ps m' →
      Calls m (m₁.cpu.rq.curr :: ps) m'

/-- No other class has a task on the run-queue. -/
structure OnlyCircular (m : Machine K) : Prop where
  foreign : ∀ f, m.cpu.rq.queued f = ∅
  rt : m.cpu.rq.rt.rtQueued = false

/-- So it is when the runnable tasks are circular tasks, the idle task apart. -/
theorem Inv.onlyCircular {m : Machine K} {xs : List α} (h : Inv m xs)
    (hq : ∀ q, taskOnRqQueued (m.task q) = true → q = m.cpu.rq.idle ∨
      (m.task q).schedClass = .circular) : OnlyCircular m := by
  have hnone : ∀ k, k ≠ .circular → k ≠ .idle → ∀ q, home m.task q ≠ some k := by
    intro k hc hi q hk
    obtain ⟨hqueued, hcls⟩ := home_eq_some.mp hk
    rcases hq q hqueued with e | e
    · rw [e, h.tasks.idleClass] at hcls
      exact hi hcls.symm
    · exact hc (hcls.symm.trans e)
  refine ⟨?_, ?_⟩
  · intro f
    rw [Finset.eq_empty_iff_forall_notMem]
    intro q hmem
    refine hnone f.schedClass ?_ ?_ q (h.sane.foreign f q hmem)
    · cases f <;> decide
    · cases f <;> decide
  · rw [← Bool.not_eq_true]
    intro hrt
    have hpos := h.sane.rt.queued hrt
    rw [h.sane.rt.nr] at hpos
    obtain ⟨q, hmem⟩ := Finset.card_pos.mp hpos
    exact hnone .rt (by decide) (by decide) q (mem_onClass.mp hmem)

/-! ### One call -/

section call
variable {s : Cpu K} {T : α → TaskStruct} {c a : α} {as ys g : List α}

/-- The run-queue after a pick: another list and another `circ_rq->curr`. -/
def Cpu.picked (s : Cpu K) (r : Heap α × CircularList α) (p : Option α) : Cpu K :=
  { s with
    node := r.1
    rq := { s.rq with circ := { s.rq.circ with circList := r.2, curr := p } } }

/-- `put_prev_task` of a queued task links it at the end of the ring. -/
theorem putPrevTask_queued (hT : (T c).schedClass = .circular)
    (hr : Represents s.node s.rq.circ.circList as) (hc : c ∉ as) (hon : (s.se c).onRq = true) :
    (putPrevTask T c).mwp ringMonitor s g (fun _ s' _ => ∃ r,
      Represents r.1 r.2 (as ++ [c]) ∧ r.2.lastChosen = s.rq.circ.circList.lastChosen ∧
      s' = s.picked r none) := by
  unfold putPrevTask putPrevTaskCircular putPrevEntity modifyCirc
  rw [hT]
  simp only [mwp_bind, mwp_get]
  rw [when_pos hon]
  unfold __enqueueEntity
  rw [mwp_bind, mwp_get]
  refine listInsert_frame hr hc ?_
  intro h l hrep hlast _
  rw [mwp_modify]
  exact ⟨(h, l), hrep, hlast, rfl⟩

/-- The head of the ring is chosen and unlinked. -/
theorem chooseEntity_head (hr : Represents s.node s.rq.circ.circList (a :: ys))
    (hon : (s.se a).onRq = true) :
    chooseEntity.mwp ringMonitor s g (fun p s' _ => p = some a ∧ ∃ r,
      Represents r.1 r.2 ys ∧ r.2.lastChosen = s.rq.circ.circList.lastChosen ∧
      s' = s.picked r (some a)) := by
  have hhead : s.rq.circ.circList.head = some a := hr.head
  unfold chooseEntity pickNextEntity
  rw [mwp_bind, mwp_bind, mwp_get, mwp_ret, hhead]
  unfold setNextEntity modifyCirc
  simp only [mwp_bind, mwp_get]
  rw [when_pos hon]
  unfold __dequeueEntity
  refine listRemove_frame hr List.mem_cons_self ?_
  intro h l hrep hlast _
  rw [List.erase_cons_head] at hrep
  rw [mwp_modify, mwp_ret]
  exact ⟨rfl, (h, l), hrep, hlast, rfl⟩

theorem listTraverse_wp {xs : List α} (hr : Represents s.node s.rq.circ.circList xs)
    {Q : Unit → Cpu K → Prop} (hQ : Q () s) : listTraverse.wp s fun p s' _ => Q p s' :=
  (listTraverse_runs (g := xs) hr (Q := fun p s' _ => Q p s') hQ).wp

/-- **The circular pick** turns the ring by one. -/
theorem pickNextTaskCircular_rotates (hT : (T c).schedClass = .circular)
    (hr : Represents s.node s.rq.circ.circList as) (hc : c ∉ as) (hon : (s.se c).onRq = true)
    (hnr : s.rq.circ.nrRunning ≠ 0) (hxs : as ++ [c] = a :: ys) (ha : (s.se a).onRq = true) :
    (pickNextTaskCircular T c).wp s (fun p s' _ => p = some a ∧ ∃ r,
      Represents r.1 r.2 ys ∧ r.2.lastChosen = s.rq.circ.circList.lastChosen ∧
      s' = s.picked r (some a)) := by
  unfold pickNextTaskCircular
  rw [wp_bind, wp_get, if_neg hnr, wp_bind]
  refine (putPrevTask_queued (g := as) hT hr hc hon).wp.mono ?_
  intro _ s₁ _ h₁
  obtain ⟨r₁, hr₁, hlast₁, rfl⟩ := h₁
  rw [hxs] at hr₁
  rw [wp_bind]
  refine (chooseEntity_head (s := s.picked r₁ none) (g := as) hr₁ ha).wp.mono ?_
  intro p s₂ _ h₂
  obtain ⟨rfl, r₂, hr₂, hlast₂, rfl⟩ := h₂
  rw [wp_bind]
  refine (listTraverse_wp (s := (s.picked r₁ none).picked r₂ (some a)) hr₂
    (Q := fun _ s' => s' = (s.picked r₁ none).picked r₂ (some a)) rfl).mono ?_
  intro _ s₃ _ h₃
  subst h₃
  rw [wp_bind, wp_deref rfl, wp_bind, wp_get, wp_bind, wp_emit, wp_ret]
  exact ⟨rfl, r₂, hr₂, hlast₂.trans hlast₁, rfl⟩

/-- So does `pick_next_task`: the classes before the circular one pass, and the shortcut asks the
circular class first. -/
theorem pickNextTask_rotates (hT : (T c).schedClass = .circular)
    (hforeign : ∀ f, s.rq.queued f = ∅) (hrt : s.rq.rt.rtQueued = false)
    (hr : Represents s.node s.rq.circ.circList as) (hc : c ∉ as) (hon : (s.se c).onRq = true)
    (hnr : s.rq.circ.nrRunning ≠ 0) (hxs : as ++ [c] = a :: ys) (ha : (s.se a).onRq = true) :
    (pickNextTask T c).wp s (fun p s' _ => p = a ∧ ∃ r,
      Represents r.1 r.2 ys ∧ r.2.lastChosen = s.rq.circ.circList.lastChosen ∧
      s' = s.picked r (some a)) := by
  have hshort : (pickShortcut T c).wp s (fun p s' _ => p = a ∧ ∃ r,
      Represents r.1 r.2 ys ∧ r.2.lastChosen = s.rq.circ.circList.lastChosen ∧
      s' = s.picked r (some a)) := by
    unfold pickShortcut
    rw [wp_bind]
    refine (pickNextTaskCircular_rotates hT hr hc hon hnr hxs ha).mono ?_
    intro p s₁ _ h₁
    obtain ⟨rfl, h₁⟩ := h₁
    rw [wp_ret]
    exact ⟨rfl, h₁⟩
  have hne : ∀ {k : SchedClass}, k ≠ .circular → (T c).schedClass ≠ k := by
    intro k hk e
    exact hk (e.symm.trans hT)
  have hstop : (classPick T c .stop).Ends s none s [] :=
    pickNextTaskForeign_ends (hne (by decide)) (hforeign .stop)
  have hdl : (classPick T c .dl).Ends s none s [] :=
    pickNextTaskForeign_ends (hne (by decide)) (hforeign .dl)
  have hrt' : (classPick T c .rt).Ends s none s [] := pickNextTaskRt_ends (hne (by decide)) hrt
  unfold pickNextTask
  rw [wp_bind, wp_get]
  split
  · exact hshort
  · obtain ⟨p, s', u, hends, hq⟩ := hshort
    refine ⟨p, s', u, ?_, hq⟩
    unfold classChain
    rw [pickWalk_skip hstop, pickWalk_skip hdl, pickWalk_skip hrt', pickWalk_circular]
    exact hends

theorem updateRqClock_wp : updateRqClock.wp s (fun _ s' _ => ∃ reads clock clockTask,
    s' = s.setClock reads clock clockTask) :=
  (updateRqClock_runs (g := []) (Q := fun _ s' _ => ∃ reads clock clockTask,
    s' = s.setClock reads clock clockTask) fun _ _ _ => ⟨_, _, _, rfl⟩).wp

/-- Up to the pick, a call that puts nobody to sleep writes `prev->state` and the clock at most. -/
theorem scheduleEnter_awake {m : Machine K} {call : ScheduleCall α}
    (hawake : call.Awake (m.task m.cpu.rq.curr)) :
    (scheduleEnter call.signalPending call.preemptActive call.toWakeup).wp m (fun prev m' _ =>
      prev = m.cpu.rq.curr ∧
      (∀ q, (m'.task q).onRq = (m.task q).onRq ∧
        (m'.task q).schedClass = (m.task q).schedClass) ∧
      ∃ reads clock clockTask, m'.cpu = m.cpu.setClock reads clock clockTask) := by
  have hprev : (schedulePrev m.cpu.rq.curr call.signalPending call.preemptActive
      call.toWakeup).wp m (fun _ m' _ =>
        (∀ q, (m'.task q).onRq = (m.task q).onRq ∧
          (m'.task q).schedClass = (m.task q).schedClass) ∧ m'.cpu = m.cpu) := by
    unfold schedulePrev
    rw [wp_bind, wp_get]
    by_cases hs : (m.task m.cpu.rq.curr).state ≠ TASK_RUNNING ∧ call.preemptActive = false
    · -- only a pending signal keeps it awake
      have hsig : call.signalPending = true := by
        rcases hawake with e | e | e
        · exact absurd e hs.1
        · rw [hs.2] at e; cases e
        · exact e
      unfold modifyTask
      rw [when_pos hs, if_pos hsig, wp_modify]
      refine ⟨?_, rfl⟩
      intro q
      dsimp only
      by_cases e : q = m.cpu.rq.curr
      · subst e; simp
      · simp [e]
    · rw [when_neg hs, wp_ret]
      exact ⟨fun q => ⟨rfl, rfl⟩, rfl⟩
  unfold scheduleEnter
  rw [wp_bind, wp_get, wp_bind]
  refine hprev.mono ?_
  intro _ m₁ _ h₁
  obtain ⟨htask, hcpu⟩ := h₁
  rw [wp_bind, wp_get, wp_bind]
  by_cases hclock : taskOnRqQueued (m₁.task m.cpu.rq.curr) = true ∨ m₁.cpu.rq.skipClockUpdate < 0
  · rw [when_pos hclock, wp_onCpu, hcpu]
    refine updateRqClock_wp.mono ?_
    intro _ s₂ _ h₂
    rw [wp_ret]
    exact ⟨rfl, htask, h₂⟩
  · rw [when_neg hclock, wp_ret, wp_ret]
    exact ⟨rfl, htask, m.cpu.reads, m.cpu.rq.clock, m.cpu.rq.clockTask, hcpu⟩

end call

/-! ### The turn of a task -/

/-- It is the turn of `c`, and `as` wait in the ring; no other task is runnable. -/
structure Turn (m : Machine K) (c : α) (as : List α) : Prop extends RunqueueInv m as,
    OnlyCircular m where
  isCurr : m.cpu.rq.curr = c
  isCircCurr : m.cpu.rq.circ.curr = some c
  isOnRq : (m.cpu.se c).onRq = true

/-- What a call of `__schedule` that puts nobody to sleep leaves alone: the entities, all counters,
and the run-queues of the other classes. -/
structure SameCounts (m m' : Machine K) : Prop where
  se : m'.cpu.se = m.cpu.se
  nr : m'.cpu.rq.nrRunning = m.cpu.rq.nrRunning
  circNr : m'.cpu.rq.circ.nrRunning = m.cpu.rq.circ.nrRunning
  circHNr : m'.cpu.rq.circ.hNrRunning = m.cpu.rq.circ.hNrRunning
  last : m'.cpu.rq.circ.circList.lastChosen = m.cpu.rq.circ.circList.lastChosen
  rt : m'.cpu.rq.rt = m.cpu.rq.rt
  cfs : m'.cpu.rq.cfs = m.cpu.rq.cfs
  foreign : m'.cpu.rq.foreign = m.cpu.rq.foreign

theorem SameCounts.refl (m : Machine K) : SameCounts m m :=
  ⟨rfl, rfl, rfl, rfl, rfl, rfl, rfl, rfl⟩

theorem SameCounts.trans {m m₁ m' : Machine K} (h : SameCounts m m₁) (h' : SameCounts m₁ m') :
    SameCounts m m' :=
  ⟨h'.se.trans h.se, h'.nr.trans h.nr, h'.circNr.trans h.circNr, h'.circHNr.trans h.circHNr,
    h'.last.trans h.last, h'.rt.trans h.rt, h'.cfs.trans h.cfs, h'.foreign.trans h.foreign⟩

section turn
variable {m m' : Machine K} {c a : α} {as ys ps : List α}

theorem Turn.notMem (h : Turn m c as) : c ∉ as := by
  intro hc
  rcases h.place c h.isOnRq with hp | hp
  · exact List.count_pos_iff.mpr hc |>.ne' hp.2
  · exact hp.1 h.isCircCurr

/-- The runnable tasks are `c` and those in the ring. -/
theorem Turn.onRq_iff (h : Turn m c as) (q : α) : (m.cpu.se q).onRq = true ↔ q ∈ as ++ [c] := by
  rw [List.mem_append, List.mem_singleton]
  constructor
  · intro hq
    rcases h.place q hq with hp | hp
    · rw [h.isCircCurr] at hp
      exact .inr (Option.some.inj hp.1).symm
    · exact .inl (List.count_pos_iff.mp (by omega))
  · intro hq
    rcases hq with hq | rfl
    · exact h.onRq q hq
    · exact h.isOnRq

theorem Turn.nodup (h : Turn m c as) : (as ++ [c]).Nodup := by
  rw [List.nodup_append]
  refine ⟨h.rep.nodup, List.nodup_singleton c, ?_⟩
  intro u hu w hw e
  rw [List.mem_singleton] at hw
  exact h.notMem (hw ▸ e ▸ hu)

theorem Turn.nrRunning_eq (h : Turn m c as) : m.cpu.rq.circ.nrRunning = as.length + 1 := by
  have hset : (Finset.univ.filter fun q => (m.cpu.se q).onRq = true) = (as ++ [c]).toFinset := by
    ext q
    rw [Finset.mem_filter, List.mem_toFinset, h.onRq_iff]
    exact ⟨fun hq => hq.2, fun hq => ⟨Finset.mem_univ q, hq⟩⟩
  rw [h.nr, hset, List.toFinset_card_of_nodup h.nodup, List.length_append, List.length_singleton]

/-- The head of the ring, with the running task put back at its end, has the next turn. -/
theorem Turn.next (h : Turn m c as) (hxs : as ++ [c] = a :: ys) (hsame : SameCounts m m')
    (htask : ∀ q, (m'.task q).onRq = (m.task q).onRq ∧
      (m'.task q).schedClass = (m.task q).schedClass)
    (hrep : Represents m'.cpu.node m'.cpu.rq.circ.circList ys) (hcurr : m'.cpu.rq.curr = a)
    (hcirc : m'.cpu.rq.circ.curr = some a) : Turn m' a ys := by
  have hon : ∀ q, (m'.cpu.se q).onRq = true ↔ q ∈ a :: ys := by
    intro q
    rw [hsame.se, ← hxs]
    exact h.onRq_iff q
  have hnd : (a :: ys).Nodup := hxs ▸ h.nodup
  have ha : a ∉ ys := (List.nodup_cons.mp hnd).1
  refine ⟨⟨⟨hrep, ?_, ?_, ?_, ?_⟩, ?_, ?_, ?_, ?_, ?_⟩, ⟨?_, ?_⟩, hcurr, hcirc, ?_⟩
  · intro q hq
    rw [hcirc]
    rcases List.mem_cons.mp ((hon q).mp hq) with rfl | hq
    · exact .inl ⟨rfl, List.count_eq_zero.mpr ha⟩
    · refine .inr ⟨?_, List.count_eq_one_of_mem hrep.nodup hq⟩
      intro e
      exact ha (Option.some.inj e ▸ hq)
  · intro q hq
    exact (hon q).mpr (List.mem_cons_of_mem a hq)
  · rw [hcirc, hcurr]
    exact .inr rfl
  · intro _ _
    rw [hcirc, hcurr]
  · intro q
    unfold taskOnRqQueued
    rw [hsame.se, (htask q).1, (htask q).2]
    exact h.runnable q
  · rw [hsame.circNr, hsame.se]
    exact h.nr
  · rw [hsame.circHNr, hsame.circNr]
    exact h.hNr
  · rw [hsame.circNr, hsame.nr]
    exact h.total
  · rw [hsame.nr]
    exact h.word
  · intro f
    unfold Rq.queued
    rw [hsame.foreign]
    exact h.foreign f
  · rw [hsame.rt]
    exact h.rt
  · exact (hon a).mpr List.mem_cons_self

/-- The same turn with the same counters is the same circular run-queue. -/
theorem Turn.circ_eq (h : Turn m c as) (h' : Turn m' c as) (hsame : SameCounts m m') :
    m'.cpu.rq.circ = m.cpu.rq.circ := by
  have hhead := h'.rep.head.trans h.rep.head.symm
  have hcount := h'.rep.count.trans h.rep.count.symm
  have hcurr := h'.isCircCurr.trans h.isCircCurr.symm
  have hlist : m'.cpu.rq.circ.circList = m.cpu.rq.circ.circList := by
    have hlast := hsame.last
    cases hl : m'.cpu.rq.circ.circList
    cases hl' : m.cpu.rq.circ.circList
    rw [hl, hl'] at hhead hcount hlast
    simp_all
  have hnr := hsame.circNr
  have hhNr := hsame.circHNr
  cases hc : m'.cpu.rq.circ
  cases hc' : m.cpu.rq.circ
  rw [hc, hc'] at hcurr hlist hnr hhNr
  simp_all

/-- **One call** passes the turn on to the head of the ring. -/
theorem schedule_rotates (h : Turn m c as) {call : ScheduleCall α}
    (hawake : call.Awake (m.task m.cpu.rq.curr)) (hxs : as ++ [c] = a :: ys) :
    (call.prog).wp m (fun _ m' _ => Turn m' a ys ∧ SameCounts m m') := by
  have ha : (m.cpu.se a).onRq = true := by
    rw [h.onRq_iff, hxs]
    exact List.mem_cons_self
  have hcls : (m.task c).schedClass = .circular := ((h.runnable c).mp h.isOnRq).2
  unfold ScheduleCall.prog __schedule
  rw [wp_bind]
  refine (scheduleEnter_awake hawake).mono ?_
  intro prev m₁ _ h₁
  obtain ⟨rfl, htask, reads, clock, clockTask, hcpu⟩ := h₁
  rw [wp_bind, wp_onCpu, hcpu, h.isCurr]
  refine (pickNextTask_rotates (s := m.cpu.setClock reads clock clockTask) ?_ h.foreign h.rt h.rep
    h.notMem h.isOnRq ?_ hxs ha).mono ?_
  · rw [(htask c).2]
    exact hcls
  · show m.cpu.rq.circ.nrRunning ≠ 0
    rw [h.nrRunning_eq]
    omega
  intro p s₂ _ h₂
  obtain ⟨rfl, r, hrep, hlast, rfl⟩ := h₂
  rw [wp_onCpu, wp_modify]
  have hsame : SameCounts m { m₁ with cpu := { (m.cpu.setClock reads clock clockTask).picked r
      (some p) with
        needResched := Function.update m.cpu.needResched c false
        rq := { ((m.cpu.setClock reads clock clockTask).picked r (some p)).rq with
          skipClockUpdate := 0, curr := p } } } := ⟨rfl, rfl, rfl, rfl, hlast, rfl, rfl, rfl⟩
  exact ⟨h.next hxs hsame htask hrep rfl rfl, hsame⟩

omit [DecidableEq α] [Fintype α] in
/-- The head of a rotated sequence. -/
theorem head?_rotate_succ (c : α) (as : List α) (i : ℕ) :
    ((c :: as).rotate (i + 1)).head? = (as ++ [c])[i % (as.length + 1)]? := by
  have hlt : i % (as.length + 1) < (c :: as).length := Nat.mod_lt i (Nat.succ_pos as.length)
  have hone : (c :: as).rotate 1 = as ++ [c] := by rw [List.rotate_cons_succ, List.rotate_zero]
  rw [List.head?_eq_getElem?, List.getElem?_rotate (Nat.succ_pos as.length), Nat.zero_add, ← hone,
    List.getElem?_rotate hlt, List.length_cons, Nat.mod_add_mod]

/-- With the running task written before the ring, `k` calls rotate the sequence by `k`; the `i`-th
of them switches to the task at its head then. -/
theorem Calls.rotates (hcalls : Calls m ps m') (h : Turn m c as) :
    (∃ c' as', (c :: as).rotate ps.length = c' :: as' ∧ Turn m' c' as') ∧ SameCounts m m' ∧
      ∀ i < ps.length, ps[i]? = ((c :: as).rotate (i + 1)).head? := by
  induction hcalls generalizing c as with
  | nil => exact ⟨⟨c, as, List.rotate_zero _, h⟩, .refl _, fun i hi => absurd hi (Nat.not_lt_zero i)⟩
  | cons call hawake hends _ ih =>
      obtain ⟨a, ys, hxs⟩ : ∃ a ys, as ++ [c] = a :: ys :=
        List.exists_cons_of_ne_nil (by simp)
      have hrot : (c :: as).rotate 1 = a :: ys := by
        rw [List.rotate_cons_succ, List.rotate_zero, hxs]
      obtain ⟨h₁, hsame₁⟩ := (schedule_rotates h hawake hxs).of_ends hends
      obtain ⟨⟨c', as', hrot', h'⟩, hsame', hps⟩ := ih h₁
      rw [← hrot, List.rotate_rotate, Nat.add_comm] at hrot'
      refine ⟨⟨c', as', hrot', h'⟩, hsame₁.trans hsame', ?_⟩
      intro i hi
      cases i with
      | zero => rw [Nat.zero_add, hrot, h₁.isCurr, List.getElem?_cons_zero, List.head?_cons]
      | succ i =>
          rw [List.getElem?_cons_succ, hps i (Nat.lt_of_succ_lt_succ hi), ← hrot,
            List.rotate_rotate, Nat.add_comm 1]

end turn

/-- **Exact rotation.**  On a consistent run-queue with no runnable task but the circular tasks `c`,
which runs, and `as`, which wait in this order, calls of `__schedule` that put nobody to sleep always
end.  They switch to the tasks of `as` and then to `c`, over and over; after as many calls as there
are tasks, each task has had one turn, and the ring with its order, head and count,
`circ_rq->curr`, `rq->curr` and all counters are as at the start. -/
theorem exact_rotation {m m' : Machine K} {c : α} {as ps : List α} (h : RunqueueInv m as)
    (honly : OnlyCircular m) (hcurr : m.cpu.rq.curr = c) (hcirc : m.cpu.rq.circ.curr = some c)
    (hon : (m.cpu.se c).onRq = true) (hcalls : Calls m ps m') :
    m.cpu.rq.circ.nrRunning = as.length + 1 ∧
    (∀ call : ScheduleCall α, call.Awake (m'.task m'.cpu.rq.curr) →
      ∃ m'' u, call.prog.Ends m' () m'' u) ∧
    (∀ i < ps.length, ps[i]? = (as ++ [c])[i % (as.length + 1)]?) ∧
    (as = [] → ∀ p ∈ ps, p = c) ∧
    (ps.length = m.cpu.rq.circ.nrRunning →
      ps = as ++ [c] ∧ ps.Nodup ∧ (∀ q, q ∈ ps ↔ (m.cpu.se q).onRq = true) ∧
      Represents m'.cpu.node m'.cpu.rq.circ.circList as ∧
      (∀ q ∈ as, m'.cpu.node q = m.cpu.node q) ∧
      m'.cpu.rq.circ = m.cpu.rq.circ ∧ m'.cpu.rq.curr = m.cpu.rq.curr ∧ SameCounts m m') := by
  have hturn : Turn m c as := ⟨h, honly, hcurr, hcirc, hon⟩
  obtain ⟨⟨c', as', hrot, hturn'⟩, hsame, hps⟩ := hcalls.rotates hturn
  have hnr := hturn.nrRunning_eq
  have hcycle : ∀ i < ps.length, ps[i]? = (as ++ [c])[i % (as.length + 1)]? := by
    intro i hi
    rw [hps i hi, head?_rotate_succ]
  refine ⟨hnr, ?_, hcycle, ?_, ?_⟩
  · intro call hawake
    obtain ⟨a, ys, hxs⟩ : ∃ a ys, as' ++ [c'] = a :: ys := List.exists_cons_of_ne_nil (by simp)
    obtain ⟨⟨⟩, m'', u, hends, -⟩ := schedule_rotates hturn' hawake hxs
    exact ⟨m'', u, hends⟩
  · intro hnil p hp
    obtain ⟨i, hi, rfl⟩ := List.mem_iff_getElem.mp hp
    have hi' := hcycle i hi
    rw [hnil, List.getElem?_eq_getElem hi] at hi'
    simpa [Nat.mod_one] using hi'
  · intro hlen
    rw [hnr] at hlen
    have hps' : ps = as ++ [c] := by
      apply List.ext_getElem?
      intro i
      by_cases hi : i < ps.length
      · rw [hcycle i hi, Nat.mod_eq_of_lt (by omega)]
      · rw [List.getElem?_eq_none (by omega), List.getElem?_eq_none (by simp; omega)]
    have hround : (c :: as).rotate ps.length = c :: as := by
      rw [hlen]
      exact List.rotate_length (c :: as)
    rw [hround] at hrot
    obtain ⟨rfl, rfl⟩ := List.cons.inj hrot
    have hrep := hturn'.rep
    refine ⟨hps', hps' ▸ hturn.nodup, ?_, hrep, ?_, ?_, ?_, hsame⟩
    · intro q
      rw [hps', hturn.onRq_iff]
    · intro q hq
      exact h.rep.ring.links_eq hrep.ring hq
    · exact hturn.circ_eq hturn' hsame
    · rw [hturn'.isCurr, hcurr]

/-- Two circular tasks: after two calls each has had its turn, and the first runs again. -/
theorem exact_rotation_small : ∃ (m' : Machine smallKernel) (as : List (Fin 4)),
    RunqueueInv smallRunning as ∧ OnlyCircular smallRunning ∧ smallRunning.cpu.rq.curr = 1 ∧
    Calls smallRunning [2, 1] m' ∧ [2, 1] = as ++ [1] ∧ m'.cpu.rq.circ = smallRunning.cpu.rq.circ ∧
    SameCounts smallRunning m' := by
  obtain ⟨u, hrun, -⟩ := smallRunning_run
  obtain ⟨hinv, -⟩ := hrun.inv smallBoot_boot.inv
  have honly := hinv.onlyCircular (by decide)
  have h₂ := Calls.nil (m := [.schedule false false none, .schedule false false none].foldl
    (Step.exec 3) smallRunning)
  have h₁ := Calls.cons (m := Step.exec 3 smallRunning (.schedule false false none))
    ⟨false, false, none⟩ (.inl rfl) ⟨3, rfl⟩ h₂
  have hcalls : Calls smallRunning [2, 1] _ :=
    Calls.cons ⟨false, false, none⟩ (.inl rfl) ⟨3, rfl⟩ h₁
  obtain ⟨-, -, -, -, hround⟩ := exact_rotation hinv.runqueueInv honly rfl rfl rfl hcalls
  obtain ⟨hps, -, -, -, -, hcirc, -, hsame⟩ := hround rfl
  exact ⟨_, _, hinv.runqueueInv, honly, rfl, hcalls, hps, hcirc, hsame⟩

end KernelHacking.Sched
