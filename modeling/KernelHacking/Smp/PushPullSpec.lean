import KernelHacking.Smp.RootDomainSpec
import KernelHacking.Smp.PushPull

/-! # The steps keep the run-queues exact

`Exact`: each run-queue holds what the records of the tasks say of its CPU.  A step changes the record of
one task, and the accounts of its old and of its new CPU with it. -/

namespace KernelHacking.Push

open KernelHacking.Sched Function

variable {n : ℕ} {α : Type} [DecidableEq α]

/-! ### The accounts of a state -/

/-- What the run-queue of its CPU knows of a task that is queued there. -/
def Task.onClass (t : Task n) : Option Entry := if t.schedClass = .rt then some t.entry else none

/-- What it knows of a task. -/
def Task.account (t : Task n) : Option Entry := if t.queued then t.onClass else none

/-- The run-queues, by what the tasks say. -/
def accounts (task : α → Task n) (c : Fin n) (p : α) : Option Entry :=
  if (task p).cpu = c then (task p).account else none

/-- What the list of the pushable tasks of its CPU knows of a task. -/
def Task.pushable (t : Task n) (running : Bool) : Option ℤ := pushEntry t t.account.isSome running

/-- The pushable tasks, by what the tasks say. -/
def pushables (task : α → Task n) (curr : Fin n → α) (c : Fin n) (p : α) : Option ℤ :=
  if (task p).cpu = c then (task p).pushable (decide (curr c = p)) else none

section
variable {task : α → Task n} {curr : Fin n → α} {c : Fin n} {p : α} {t : Task n}

omit [DecidableEq α] in
theorem accounts_self (hc : (task p).cpu = c) : accounts task c p = (task p).account := if_pos hc

theorem pushables_self (hc : (task p).cpu = c) :
    pushables task curr c p = (task p).pushable (decide (curr c = p)) := if_pos hc

theorem account_of_not_queued (h : t.queued = false) : t.account = none := by
  unfold Task.account
  rw [h]
  rfl

theorem pushable_of_account (h : t.account = none) (running : Bool) : t.pushable running = none := by
  unfold Task.pushable
  rw [h]
  exact pushEntry_off t running

theorem pushEntry_eq_some {queued running : Bool} {z : ℤ} (h : pushEntry t queued running = some z) :
    t.prio = z ∧ queued = true ∧ running = false ∧ 1 < t.nrCpusAllowed := by
  unfold pushEntry at h
  split at h
  · rename_i hc
    exact ⟨Option.some_inj.mp h, hc⟩
  · cases h

theorem account_isSome_of_class (h : t.schedClass = .rt) : t.account.isSome = t.queued := by
  unfold Task.account Task.onClass
  rw [if_pos h]
  cases t.queued <;> rfl

theorem account_eq_some {e : Entry} :
    t.account = some e ↔ t.queued = true ∧ t.schedClass = .rt ∧ e = t.entry := by
  unfold Task.account Task.onClass
  cases t.queued with
  | false => simp
  | true => by_cases h : t.schedClass = .rt <;> simp [h, eq_comm]

/-- The list holds the priorities of the tasks. -/
theorem pushables_prio (q : α) (z : ℤ) (h : pushables task curr c q = some z) :
    (task q).prio = z := by
  unfold pushables at h
  split at h
  · exact (pushEntry_eq_some h).1
  · cases h

/-- The record of one task changes: what it says of its CPU goes from the old one to the new one. -/
theorem place_update {β : Type} (f : Fin n → α → Task n → Option β) :
    (fun d q => if (update task p t q).cpu = d then f d q (update task p t q) else none) =
      setAt (setAt (fun d q => if (task q).cpu = d then f d q (task q) else none)
        (task p).cpu p none) t.cpu p (f t.cpu p t) := by
  funext d q
  rw [setAt_apply, setAt_apply]
  by_cases hq : q = p
  · subst hq
    rw [update_self]
    by_cases hd : d = t.cpu
    · subst hd
      simp
    · rw [if_neg (Ne.symm hd), if_neg fun h => hd h.1]
      by_cases hd' : d = (task q).cpu
      · simp [hd']
      · rw [if_neg fun h => hd' h.1, if_neg (Ne.symm hd')]
  · simp only [update_of_ne hq, hq, and_false, if_false]

theorem accounts_update : accounts (update task p t) =
    setAt (setAt (accounts task) (task p).cpu p none) t.cpu p t.account :=
  place_update fun _ _ t => t.account

theorem pushables_update : pushables (update task p t) curr =
    setAt (setAt (pushables task curr) (task p).cpu p none) t.cpu p
      (t.pushable (decide (curr t.cpu = p))) :=
  place_update fun d q t => t.pushable (decide (curr d = q))

end

/-! ### The invariant -/

variable [Fintype α]

/-- The run-queues are those of the tasks. -/
structure Exact (s : State n α) : Prop where
  dom : DomOk (accounts s.task) (pushables s.task s.curr) s.rd
  range : ∀ p, (s.task p).schedClass = .rt → RtRange (s.task p).prio
  cpu : ∀ c, (s.task (s.curr c)).cpu = c

section
variable {s s' : State n α} {p : α} {c : Fin n} {t : Task n} {A : Fin n → α → Option Entry}
  {P : Fin n → α → Option ℤ} {task : α → Task n} {curr : Fin n → α} {rd : RootDomain n α}

/-- A task that runs is not on two CPUs. -/
theorem Exact.not_curr (h : Exact s) (hne : s.curr (s.task p).cpu ≠ p) (d : Fin n) : s.curr d ≠ p := by
  rintro rfl
  rw [h.cpu d] at hne
  exact hne rfl

/-- The record of one task and the run-queues have changed. -/
theorem Exact.setTask (h : Exact s) (hrange : t.schedClass = .rt → RtRange t.prio)
    (hcpu : ∀ d, s.curr d = p → t.cpu = d)
    (hdom : DomOk (setAt (setAt (accounts s.task) (s.task p).cpu p none) t.cpu p t.account)
      (setAt (setAt (pushables s.task s.curr) (s.task p).cpu p none) t.cpu p
        (t.pushable (decide (s.curr t.cpu = p)))) rd) :
    Exact ⟨update s.task p t, s.curr, rd⟩ := by
  refine ⟨?_, ?_, ?_⟩
  · show DomOk (accounts (update s.task p t)) (pushables (update s.task p t) s.curr) rd
    rw [accounts_update, pushables_update]
    exact hdom
  · intro q
    show (update s.task p t q).schedClass = .rt → RtRange (update s.task p t q).prio
    by_cases hq : q = p
    · subst hq
      rw [update_self]
      exact hrange
    · rw [update_of_ne hq]
      exact h.range q
  · intro d
    show (update s.task p t (s.curr d)).cpu = d
    by_cases hd : s.curr d = p
    · rw [hd, update_self]
      exact hcpu d hd
    · rw [update_of_ne hd]
      exact h.cpu d

/-! ### Callbacks by class -/

/-- `enqueue_task`. -/
theorem enqueueTask_spec (hdom : DomOk A P s.rd) (hA : A c p = none) (hP : P c p = none)
    (hrange : (s.task p).schedClass = .rt → RtRange (s.task p).prio) (head : Bool) :
    ∃ rd, s.enqueueTask p head c = some { s with rd := rd } ∧
      DomOk (setAt A c p (s.task p).onClass)
        (setAt P c p (pushEntry (s.task p) (s.task p).onClass.isSome (decide (s.curr c = p)))) rd := by
  unfold State.enqueueTask Task.onClass
  by_cases hc : (s.task p).schedClass = .rt
  · obtain ⟨rd, henq, hrd⟩ := hdom.enqueueTaskRt s.task s.curr hA hP (hrange hc) head
    rw [if_pos hc, if_pos hc, henq]
    exact ⟨rd, rfl, hrd⟩
  · rw [if_neg hc, if_neg hc, setAt_same hA]
    refine ⟨s.rd, rfl, ?_⟩
    rw [Option.isSome_none, pushEntry_off, setAt_same hP]
    exact hdom

/-- `dequeue_task` of a queued task on its CPU. -/
theorem Exact.dequeueTask (h : Exact s) (hc : (s.task p).cpu = c) (hqueued : (s.task p).queued = true) :
    ∃ rd, s.dequeueTask p c = some { s with rd := rd } ∧
      DomOk (setAt (accounts s.task) c p none) (setAt (pushables s.task s.curr) c p none) rd := by
  have hself := accounts_self hc
  unfold Task.account Task.onClass at hself
  rw [hqueued, if_pos rfl] at hself
  unfold State.dequeueTask
  by_cases hrt : (s.task p).schedClass = .rt
  · rw [if_pos hrt] at hself
    obtain ⟨rd, hdeq, hrd⟩ := h.dom.dequeueTaskRt s.task (.inr hself) pushables_prio
    rw [if_pos hrt, hdeq]
    exact ⟨rd, rfl, hrd⟩
  · rw [if_neg hrt] at hself
    have haccount : (s.task p).account = none := by
      rw [← accounts_self hc, hself]
    have hpush : pushables s.task s.curr c p = none := by
      rw [pushables_self hc]
      exact pushable_of_account haccount _
    rw [if_neg hrt]
    refine ⟨s.rd, rfl, ?_⟩
    rw [setAt_same hself, setAt_same hpush]
    exact h.dom

/-- `set_curr_task`. -/
theorem setCurrTask_spec (hdom : DomOk A P s.rd) (hP : (s.task p).schedClass ≠ .rt → P c p = none)
    (htask : ∀ q z, P c q = some z → (s.task q).prio = z) :
    ∃ rd, s.setCurrTask p c = { s with rd := rd } ∧ DomOk A (setAt P c p none) rd := by
  unfold State.setCurrTask
  by_cases hc : (s.task p).schedClass = .rt
  · rw [if_pos hc]
    exact ⟨_, rfl, hdom.setCurrTaskRt htask⟩
  · rw [if_neg hc]
    refine ⟨s.rd, rfl, ?_⟩
    rw [setAt_same (hP hc)]
    exact hdom

/-! ### The core -/

omit [Fintype α] in
/-- A task is on no run-queue but that of its CPU. -/
theorem Exact.elsewhere (hne : (s.task p).cpu ≠ c) :
    accounts s.task c p = none ∧ pushables s.task s.curr c p = none :=
  ⟨if_neg hne, if_neg hne⟩

omit [Fintype α] in
/-- A task that is not queued is on none. -/
theorem Exact.off (hoff : (s.task p).account = none) (c : Fin n) :
    accounts s.task c p = none ∧ pushables s.task s.curr c p = none := by
  by_cases hc : (s.task p).cpu = c
  · rw [accounts_self hc, pushables_self hc]
    exact ⟨hoff, pushable_of_account hoff _⟩
  · exact Exact.elsewhere hc

theorem account_of_queued (h : t.queued = true) : t.account = t.onClass := by
  unfold Task.account
  rw [h, if_pos rfl]

theorem account_of_class (h : t.schedClass ≠ .rt) : t.account = none := by
  unfold Task.account Task.onClass
  rw [if_neg h, ite_self]

/-- A task that runs is not pushable. -/
theorem pushable_running (t : Task n) : t.pushable true = none := pushEntry_running t _

/-- `ttwu_activate`. -/
theorem Exact.ttwuActivate (h : Exact s) (hoff : (s.task p).onRq = 0) (hcurr : ∀ d, s.curr d ≠ p)
    (c : Fin n) : ∃ s', s.ttwuActivate p c = some s' ∧ Exact s' := by
  have hqueued : (s.task p).queued = false := by
    unfold Task.queued
    rw [hoff]
    rfl
  have hnone := Exact.off (s := s) (account_of_not_queued hqueued)
  have hself : (State.setTaskCpu p c s).task p = { s.task p with cpu := c } := update_self ..
  obtain ⟨rd, henq, hrd⟩ := enqueueTask_spec (s := State.setTaskCpu p c s) (p := p) (c := c)
    h.dom (hnone c).1 (hnone c).2 (by rw [hself]; exact h.range p) false
  rw [hself] at hrd
  refine ⟨⟨update s.task p { s.task p with cpu := c, onRq := TASK_ON_RQ_QUEUED }, s.curr, rd⟩, ?_,
    h.setTask (h.range p) (fun d hd => absurd hd (hcurr d)) ?_⟩
  · unfold State.ttwuActivate
    rw [henq]
    simp [State.setOnRq, State.setTask, State.setTaskCpu]
  · rw [setAt_same (hnone _).1, setAt_same (hnone _).2]
    exact hrd

/-- The task that runs blocks. -/
theorem Exact.deactivateCurr (h : Exact s) (hqueued : (s.task (s.curr c)).queued = true) :
    ∃ s', s.deactivateCurr c = some s' ∧ Exact s' := by
  obtain ⟨rd, hdeq, hrd⟩ := h.dequeueTask (h.cpu c) hqueued
  refine ⟨⟨update s.task (s.curr c) { s.task (s.curr c) with onRq := 0 }, s.curr, rd⟩, ?_,
    h.setTask (h.range _) ?_ ?_⟩
  · unfold State.deactivateCurr
    rw [hdeq]
    rfl
  · intro d hd
    rw [← hd]
    exact h.cpu d
  · have haccount : Task.account { s.task (s.curr c) with onRq := 0 } = none :=
      account_of_not_queued rfl
    rw [haccount, pushable_of_account haccount, setAt_setAt, setAt_setAt, h.cpu c]
    exact hrd

/-- `put_prev_task`. -/
theorem Exact.putPrevTask (h : Exact s) (c : Fin n) :
    ∃ rd, s.putPrevTask (s.curr c) c = { s with rd := rd } ∧ DomOk (accounts s.task)
      (setAt (pushables s.task s.curr) c (s.curr c) ((s.task (s.curr c)).pushable false)) rd := by
  have hA := accounts_self (h.cpu c)
  have hP : pushables s.task s.curr c (s.curr c) = none := by
    rw [pushables_self (h.cpu c), decide_eq_true rfl]
    exact pushable_running _
  unfold State.putPrevTask
  by_cases hc : (s.task (s.curr c)).schedClass = .rt
  · rw [if_pos hc]
    refine ⟨_, rfl, ?_⟩
    have hput := h.dom.putPrevTaskRt s.task hP ?_
    · rw [hA] at hput
      exact hput
    · rw [hA]
      unfold Task.account Task.onClass
      rw [if_pos hc]
      cases (s.task (s.curr c)).queued with
      | false => exact .inl rfl
      | true => exact .inr rfl
  · rw [if_neg hc, pushable_of_account (account_of_class hc), setAt_same hP]
    exact ⟨s.rd, rfl, h.dom⟩

/-- The pushable tasks after a switch: the task that goes is there, and the one that comes is not. -/
theorem Exact.pushables_switch (h : Exact s) {next : α} (hnext : (s.task next).cpu = c) :
    pushables s.task (update s.curr c next) =
      setAt (setAt (pushables s.task s.curr) c (s.curr c) ((s.task (s.curr c)).pushable false))
        c next none := by
  funext d q
  rw [setAt_apply, setAt_apply]
  unfold pushables
  by_cases hd : d = c
  · subst hd
    rw [update_self]
    by_cases hqn : q = next
    · subst hqn
      rw [if_pos hnext, decide_eq_true rfl, pushable_running, if_pos ⟨rfl, rfl⟩]
    · rw [if_neg (fun hc : d = d ∧ q = next => hqn hc.2), decide_eq_false (Ne.symm hqn)]
      by_cases hqc : q = s.curr d
      · subst hqc
        rw [if_pos (h.cpu d), if_pos ⟨rfl, rfl⟩]
      · rw [if_neg (fun hc : d = d ∧ q = s.curr d => hqc hc.2), decide_eq_false (Ne.symm hqc)]
  · simp only [update_of_ne hd, hd, false_and, if_false]

/-- `pick_next_task` and the switch. -/
theorem Exact.switchTo (h : Exact s) {next : α} (hnext : (s.task next).cpu = c) :
    Exact (s.switchTo c next) := by
  obtain ⟨rd, hput, hrd⟩ := h.putPrevTask c
  have hP : ∀ q z, setAt (pushables s.task s.curr) c (s.curr c)
      ((s.task (s.curr c)).pushable false) c q = some z → (s.task q).prio = z := by
    intro q z hq
    rw [setAt_apply] at hq
    split at hq
    · rename_i hc
      rw [hc.2]
      exact (pushEntry_eq_some hq).1
    · exact pushables_prio q z hq
  have hclass : (s.task next).schedClass ≠ .rt → setAt (pushables s.task s.curr) c (s.curr c)
      ((s.task (s.curr c)).pushable false) c next = none := by
    intro hc
    rw [setAt_apply]
    split
    · rename_i heq
      rw [← heq.2]
      exact pushable_of_account (account_of_class hc) _
    · exact (Exact.off (account_of_class hc) c).2
  obtain ⟨rd', hcurr, hrd'⟩ := setCurrTask_spec (s := { s with rd := rd }) (p := next) hrd hclass hP
  have hs : s.switchTo c next = ⟨s.task, update s.curr c next, rd'⟩ := by
    unfold State.switchTo
    rw [hput]
    dsimp only
    rw [hcurr]
  rw [hs]
  refine ⟨?_, h.range, ?_⟩
  · show DomOk (accounts s.task) (pushables s.task (update s.curr c next)) rd'
    rw [h.pushables_switch hnext]
    exact hrd'
  · intro d
    show (s.task (update s.curr c next d)).cpu = d
    by_cases hd : d = c
    · subst hd
      rw [update_self]
      exact hnext
    · rw [update_of_ne hd]
      exact h.cpu d

/-- Between `dequeue_task` and `enqueue_task` the record of the task changes: `put_prev_task` and
`set_curr_task` find it on no list. -/
theorem setTask_spec (hdom : DomOk A P s.rd) (hA : A c p = none) (hP : P c p = none)
    (htask : ∀ q z, P c q = some z → (s.task q).prio = z) (f : Task n → Task n)
    (running : Bool) :
    ∃ rd, (let s := if running then s.putPrevTask p c else s
        let s := s.setTask p (f (s.task p))
        if running then s.setCurrTask p c else s) =
          ⟨update s.task p (f (s.task p)), s.curr, rd⟩ ∧ DomOk A P rd := by
  cases running with
  | false => exact ⟨s.rd, rfl, hdom⟩
  | true =>
      obtain ⟨rd, hput, hrd⟩ : ∃ rd, s.putPrevTask p c = { s with rd := rd } ∧ DomOk A P rd := by
        unfold State.putPrevTask
        by_cases hc : (s.task p).schedClass = .rt
        · rw [if_pos hc]
          refine ⟨_, rfl, ?_⟩
          have hput := hdom.putPrevTaskRt s.task hP (.inl hA)
          rw [hA, Option.isSome_none, pushEntry_off, setAt_same hP] at hput
          exact hput
        · rw [if_neg hc]
          exact ⟨s.rd, rfl, hdom⟩
      have htask' : ∀ q z, P c q = some z → (update s.task p (f (s.task p)) q).prio = z := by
        intro q z hq
        rw [update_of_ne, htask q z hq]
        rintro rfl
        rw [hP] at hq
        cases hq
      obtain ⟨rd', hcurr, hrd'⟩ := setCurrTask_spec
        (s := ⟨update s.task p (f (s.task p)), s.curr, rd⟩) (p := p) hrd (fun _ => hP) htask'
      rw [setAt_same hP] at hrd'
      refine ⟨rd', ?_, hrd'⟩
      dsimp only
      rw [if_pos rfl, if_pos rfl, hput]
      exact hcurr

/-- `rt_mutex_setprio`. -/
theorem Exact.setprio (h : Exact s) {prio : ℤ} {schedClass : SchedClass}
    (hrange : schedClass = .rt → RtRange prio) (head : Bool) :
    ∃ s', s.setprio p prio schedClass head = some s' ∧ Exact s' := by
  obtain ⟨c, hc⟩ : ∃ c, c = (s.task p).cpu := ⟨_, rfl⟩
  obtain ⟨f, hf⟩ : ∃ f : Task n → Task n, f = fun t => { t with
    prio := prio, schedClass := schedClass } := ⟨_, rfl⟩
  obtain ⟨t, ht⟩ : ∃ t, t = f (s.task p) := ⟨_, rfl⟩
  have htc : t.cpu = c := by rw [ht, hf, hc]
  have hcpu : ∀ d, s.curr d = p → t.cpu = d := by
    intro d hd
    rw [htc, hc, ← hd]
    exact h.cpu d
  have htr : t.schedClass = .rt → RtRange t.prio := by
    rw [ht, hf]
    exact hrange
  have htq : t.queued = (s.task p).queued := by
    rw [ht, hf]
    rfl
  unfold State.setprio
  dsimp only
  cases hqueued : (s.task p).queued with
  | false =>
      rw [hqueued] at htq
      have hnone := Exact.off (s := s) (account_of_not_queued hqueued)
      obtain ⟨rd, hset, hrd⟩ := setTask_spec h.dom (hnone c).1 (hnone c).2 pushables_prio f
        (decide (s.curr c = p))
      rw [← ht] at hset
      refine ⟨⟨update s.task p t, s.curr, rd⟩, ?_, h.setTask htr hcpu ?_⟩
      · rw [if_neg Bool.false_ne_true, Option.bind_some, if_neg Bool.false_ne_true, ← hc, ← hset, hf]
      · have haccount := account_of_not_queued htq
        rw [haccount, pushable_of_account haccount, setAt_same (hnone _).1, setAt_same (hnone _).2,
          setAt_same (hnone _).1, setAt_same (hnone _).2]
        exact hrd
  | true =>
      rw [hqueued] at htq
      obtain ⟨rd, hdeq, hrd⟩ := h.dequeueTask hc.symm hqueued
      have hprio : ∀ q z, setAt (pushables s.task s.curr) c p none c q = some z →
          (s.task q).prio = z := by
        intro q z hq
        rw [setAt_apply] at hq
        split at hq
        · cases hq
        · exact pushables_prio q z hq
      obtain ⟨rd', hset, hrd'⟩ := setTask_spec (s := { s with rd := rd }) (p := p) hrd setAt_self
        setAt_self hprio f (decide (s.curr c = p))
      change _ = (⟨update s.task p (f (s.task p)), s.curr, rd'⟩ : State n α) at hset
      rw [← ht] at hset
      have hself : (⟨update s.task p t, s.curr, rd'⟩ : State n α).task p = t := update_self ..
      obtain ⟨rd'', henq, hrd''⟩ := enqueueTask_spec (s := ⟨update s.task p t, s.curr, rd'⟩) (p := p)
        (c := c) hrd' setAt_self setAt_self (by rw [hself]; exact htr) head
      rw [hself] at hrd''
      refine ⟨⟨update s.task p t, s.curr, rd''⟩, ?_, h.setTask htr hcpu ?_⟩
      · rw [if_pos rfl, ← hc, hdeq, Option.bind_some, if_pos rfl, ← henq, ← hset, hf]
      · unfold Task.pushable
        rw [← hc, htc, account_of_queued htq]
        exact hrd''

/-- `do_set_cpus_allowed`. -/
theorem Exact.doSetCpusAllowed (h : Exact s) (p : α) (newMask : Finset (Fin n)) :
    ∃ s', s.doSetCpusAllowed p newMask = some s' ∧ Exact s' := by
  have hcpu : ∀ d, s.curr d = p → (s.task p).cpu = d := fun d hd => hd ▸ h.cpu d
  unfold State.doSetCpusAllowed
  by_cases hc : (s.task p).schedClass = .rt
  · have hA : accounts s.task (s.task p).cpu p =
        if (s.task p).queued then some (s.task p).entry else none := by
      rw [accounts_self rfl]
      unfold Task.account Task.onClass
      rw [if_pos hc]
    have hP : pushables s.task s.curr (s.task p).cpu p =
        pushEntry (s.task p) (s.task p).queued (decide (s.curr (s.task p).cpu = p)) := by
      rw [pushables_self rfl]
      unfold Task.pushable
      rw [account_isSome_of_class hc]
    obtain ⟨rd, hset, hrd⟩ := h.dom.setCpusAllowedRt s.task s.curr (h.range p hc).2 rfl hA hP
      pushables_prio newMask
    rw [if_pos hc, hset]
    refine ⟨_, rfl, h.setTask (h.range p) hcpu ?_⟩
    rw [setAt_setAt, setAt_setAt]
    convert hrd using 2
    · unfold Task.account Task.onClass
      rw [if_pos hc]
      rfl
    · unfold Task.pushable
      rw [account_isSome_of_class (t := { s.task p with cpusAllowed := newMask }) hc]
      rfl
  · rw [if_neg hc]
    refine ⟨_, rfl, h.setTask (h.range p) hcpu ?_⟩
    have hnone := Exact.off (s := s) (account_of_class hc)
    have haccount : Task.account { s.task p with cpusAllowed := newMask } = none :=
      account_of_class hc
    rw [haccount, pushable_of_account haccount, setAt_same (hnone _).1, setAt_same (hnone _).2,
      setAt_same (hnone _).1, setAt_same (hnone _).2]
    exact h.dom

omit [Fintype α] in
/-- A task that is taken from its run-queue is on no other. -/
theorem setAt_elsewhere {β : Type} {B : Fin n → α → Option β} (hB : ∀ d, d ≠ c → B d p = none)
    (d : Fin n) : setAt B c p none d p = none := by
  rw [setAt_apply]
  split
  · rfl
  · rename_i hd
    exact hB d fun e => hd ⟨e, rfl⟩

/-- `move_queued_task`, the first half. -/
theorem Exact.leaveQueue (h : Exact s) (hqueued : (s.task p).queued = true)
    (hcurr : s.curr (s.task p).cpu ≠ p) (newCpu : Fin n) :
    ∃ s', s.leaveQueue p newCpu = some s' ∧ Exact s' := by
  obtain ⟨rd, hdeq, hrd⟩ := h.dequeueTask rfl hqueued
  refine ⟨⟨update s.task p { s.task p with cpu := newCpu, onRq := TASK_ON_RQ_MIGRATING }, s.curr, rd⟩,
    ?_, h.setTask (h.range p) (fun d hd => absurd hd (h.not_curr hcurr d)) ?_⟩
  · unfold State.leaveQueue
    rw [hdeq]
    simp [State.setOnRq, State.setTask, State.setTaskCpu]
  · have haccount : Task.account { s.task p with cpu := newCpu, onRq := TASK_ON_RQ_MIGRATING } = none :=
      account_of_not_queued rfl
    rw [haccount, pushable_of_account haccount,
      setAt_same (setAt_elsewhere (fun d hd => (Exact.elsewhere hd.symm).1) newCpu),
      setAt_same (setAt_elsewhere (fun d hd => (Exact.elsewhere (s := s) hd.symm).2) newCpu)]
    exact hrd

/-- `move_queued_task`, the second half. -/
theorem Exact.arriveQueue (h : Exact s) (hmigrating : (s.task p).onRq = TASK_ON_RQ_MIGRATING) :
    ∃ s', s.arriveQueue p = some s' ∧ Exact s' := by
  have hqueued : (s.task p).queued = false := by
    unfold Task.queued
    rw [hmigrating]
    rfl
  have hnone := Exact.off (s := s) (account_of_not_queued hqueued)
  have hself : (State.setOnRq p TASK_ON_RQ_QUEUED s).task p =
    { s.task p with onRq := TASK_ON_RQ_QUEUED } := update_self ..
  obtain ⟨rd, henq, hrd⟩ := enqueueTask_spec (s := State.setOnRq p TASK_ON_RQ_QUEUED s) (p := p)
    (c := (s.task p).cpu) h.dom (hnone _).1 (hnone _).2 (by rw [hself]; exact h.range p) false
  rw [hself] at hrd
  refine ⟨_, henq, h.setTask (h.range p) (fun d hd => hd ▸ h.cpu d) ?_⟩
  rw [setAt_same (hnone _).1, setAt_same (hnone _).2]
  exact hrd

/-- The move of a queued task that does not run. -/
theorem Exact.moveTask (h : Exact s) (hc : (s.task p).cpu = c) (hqueued : (s.task p).queued = true)
    (hcurr : s.curr c ≠ p) (dst : Fin n) : ∃ rd,
      s.moveTask p c dst = some ⟨update s.task p { s.task p with cpu := dst }, s.curr, rd⟩ ∧
      Exact ⟨update s.task p { s.task p with cpu := dst }, s.curr, rd⟩ := by
  subst hc
  obtain ⟨rd, hdeq, hrd⟩ := h.dequeueTask rfl hqueued
  obtain ⟨s₁, hs₁⟩ : ∃ s₁, s₁ = State.setTaskCpu p dst { s with rd := rd } := ⟨_, rfl⟩
  have hself : s₁.task p = { s.task p with cpu := dst } := by
    rw [hs₁]
    exact update_self ..
  have hrd₁ : s₁.rd = rd := by rw [hs₁]; rfl
  have hcurr₁ : s₁.curr = s.curr := by rw [hs₁]; rfl
  obtain ⟨rd', henq, hrd'⟩ := enqueueTask_spec (s := s₁) (p := p) (c := dst) (hrd₁ ▸ hrd)
    (setAt_elsewhere (fun d hd => (Exact.elsewhere hd.symm).1) dst)
    (setAt_elsewhere (fun d hd => (Exact.elsewhere (s := s) hd.symm).2) dst)
    (by rw [hself]; exact h.range p) false
  rw [hself, hcurr₁] at hrd'
  refine ⟨rd', ?_, h.setTask (h.range p) (fun d hd => absurd hd (h.not_curr hcurr d)) ?_⟩
  · unfold State.moveTask
    rw [hdeq, Option.bind_some, ← hs₁, henq, hs₁]
    rfl
  · unfold Task.pushable
    rw [account_of_queued (t := { s.task p with cpu := dst }) hqueued]
    exact hrd'

end

end KernelHacking.Push
