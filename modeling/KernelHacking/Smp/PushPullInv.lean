import KernelHacking.Smp.PushPullSpec

/-! # Balancing keeps the run-queues exact

In every state of every run, each queued real-time task is on the run-queue of its CPU and on no other, the
counters and best priorities are exact, the list of the pushable tasks is sorted and holds the queued tasks that
do not run and may use another CPU, and the mask has the online CPUs that are overloaded.  No
`BUG_ON` and no `WARN_ON` fires in the next step, and a task moves only to a CPU where it is the
best real-time task. -/

namespace KernelHacking.Push

open KernelHacking.Sched Function

variable {n : ℕ} {α : Type} [DecidableEq α] [Fintype α]

section
variable {s s' : State n α} {p : α} {c : Fin n} {rd : RootDomain n α}

/-! ### The other steps -/

/-- `requeue_task_rt`. -/
theorem Exact.requeueTaskRt (h : Exact s) (p : α) (head : Bool) : Exact (s.requeueTaskRt p head) := by
  refine ⟨?_, h.range, h.cpu⟩
  have hok := h.dom.rt (s.task p).cpu
  have hprio : ∀ e, accounts s.task (s.task p).cpu p = some e → e.prio = (s.task p).prio := by
    intro e he
    rw [accounts_self rfl] at he
    rw [(account_eq_some.mp he).2.2]
    rfl
  have hput := h.dom.put (c := (s.task p).cpu) (u := pushables s.task s.curr (s.task p).cpu)
    (r := requeueRtEntity (s.task p) p head (s.rd.rt (s.task p).cpu)) ?_ (hok.requeue hprio head) ?_
  · rw [update_eq_self] at hput
    exact hput
  · rw [requeueRtEntity_frame]
  · refine (h.dom.push _).congr ?_ ?_
    · rw [requeueRtEntity_frame]
    · rw [requeueRtEntity_frame]

omit [Fintype α] [DecidableEq α] in
/-- `rq_online_rt`. -/
theorem MaskOk.setOnline (h : MaskOk rd) (hoff : rd.online c = false) :
    MaskOk (if (rd.rt c).overloaded then
      rtSetOverload c { rd with online := update rd.online c true }
      else { rd with online := update rd.online c true }) := by
  have hnot : c ∉ rd.rtoMask := by
    rw [h.mem, hoff]
    exact fun hc => Bool.noConfusion hc.1
  unfold rtSetOverload
  rw [if_pos (update_self c true rd.online)]
  split
  · rename_i hover
    refine h.change (c := c) ?_ ?_ (h.count_insert hnot)
    · intro d hd
      simp [hd]
    · simp [hover]
  · rename_i hover
    refine h.change (c := c) ?_ ?_ h.count
    · intro d hd
      simp [hd]
    · simp [hover, hnot]

omit [Fintype α] [DecidableEq α] in
/-- `rq_offline_rt`. -/
theorem MaskOk.setOffline (h : MaskOk rd) (hon : rd.online c = true) {rd' : RootDomain n α}
    (hrd' : rd' = if (rd.rt c).overloaded then rtClearOverload c rd else rd) :
    MaskOk { rd' with online := update rd'.online c false } := by
  rw [hrd']
  unfold rtClearOverload
  rw [if_pos hon]
  split
  · rename_i hover
    refine h.change (c := c) ?_ ?_ (h.count_erase ((h.mem c).mpr ⟨hon, hover⟩))
    · intro d hd
      simp [hd]
    · simp
  · rename_i hover
    have hnot : c ∉ rd.rtoMask := fun hc => hover ((h.mem c).mp hc).2
    refine h.change (c := c) ?_ ?_ h.count
    · intro d hd
      simp [hd]
    · simp [hnot]

/-- `set_rq_online`. -/
theorem Exact.setRqOnline (h : Exact s) (c : Fin n) : Exact (s.setRqOnline c) := by
  unfold State.setRqOnline
  split
  · exact h
  · rename_i hoff
    have hmask := h.dom.mask.setOnline (Bool.not_eq_true _ ▸ hoff)
    refine ⟨⟨?_, ?_, hmask⟩, h.range, h.cpu⟩
    · intro d
      dsimp only
      unfold rtSetOverload
      split
      · split <;> exact h.dom.rt d
      · exact h.dom.rt d
    · intro d
      dsimp only
      unfold rtSetOverload
      split
      · split <;> exact h.dom.push d
      · exact h.dom.push d

/-- `set_rq_offline`. -/
theorem Exact.setRqOffline (h : Exact s) (c : Fin n) : Exact (s.setRqOffline c) := by
  unfold State.setRqOffline
  split
  · rename_i hon
    refine ⟨⟨?_, ?_, h.dom.mask.setOffline hon rfl⟩, h.range, h.cpu⟩
    · intro d
      dsimp only
      unfold rtClearOverload
      rw [if_pos hon]
      split
      · exact h.dom.rt d
      · exact h.dom.rt d
    · intro d
      dsimp only
      unfold rtClearOverload
      rw [if_pos hon]
      split
      · exact h.dom.push d
      · exact h.dom.push d
  · exact h

/-! ### Push and pull -/

/-- A task of the list of pushable tasks. -/
theorem Exact.pushable (h : Exact s) {x : ℤ × α} (hx : x ∈ (s.rd.rt c).pushableTasks.nodes) :
    (s.task x.2).cpu = c ∧ s.curr c ≠ x.2 ∧ 1 < (s.task x.2).nrCpusAllowed ∧
      (s.task x.2).queued = true ∧ (s.task x.2).prio < MAX_RT_PRIO := by
  have hP := ((h.dom.push c).mem x).mp hx
  unfold pushables at hP
  split at hP
  · rename_i hc
    obtain ⟨-, haccount, hrunning, hnr⟩ := pushEntry_eq_some hP
    obtain ⟨e, he⟩ := Option.isSome_iff_exists.mp haccount
    obtain ⟨hqueued, hclass, -⟩ := account_eq_some.mp he
    exact ⟨hc, of_decide_eq_false hrunning, hnr, hqueued, (h.range _ hclass).2⟩
  · cases hP

/-- The `BUG_ON`s of `pick_next_pushable_task` do not fire. -/
theorem Exact.pickNextPushableTask (h : Exact s) (c : Fin n) : ∃ o, s.pickNextPushableTask c = some o ∧
    ∀ p, o = some p → (s.task p).cpu = c ∧ s.curr c ≠ p ∧ (s.task p).queued = true := by
  unfold State.pickNextPushableTask
  split
  · exact ⟨none, rfl, nofun⟩
  · rename_i z p hfirst
    have hp := h.pushable (List.mem_of_mem_head? hfirst)
    dsimp only
    rw [if_pos hp]
    refine ⟨some p, rfl, ?_⟩
    rintro q ⟨⟩
    exact ⟨hp.1, hp.2.1, hp.2.2.2.1⟩

/-- Neither does the `WARN_ON` of `push_rt_task`. -/
theorem Exact.nextTask (h : Exact s) (c : Fin n) (retry : Bool) : ∃ o, s.nextTask c retry = some o ∧
    ∀ p, o = some p → (s.task p).cpu = c ∧ s.curr c ≠ p ∧ (s.task p).queued = true := by
  unfold State.nextTask
  split
  · exact ⟨none, rfl, nofun⟩
  · obtain ⟨o, hpick, ho⟩ := h.pickNextPushableTask c
    rw [hpick, Option.bind_some]
    cases o with
    | none => exact ⟨none, rfl, nofun⟩
    | some p =>
        have hp := ho p rfl
        dsimp only
        rw [if_neg (Ne.symm hp.2.1)]
        split
        · exact ⟨none, rfl, nofun⟩
        · exact ⟨some p, rfl, ho⟩

/-- The task may go from one CPU to the other: it is queued, it does not run, it may use the other CPU, and it
is better than every real-time task there. -/
structure Moves (s : State n α) (p : α) (src dst : Fin n) : Prop where
  cpu : (s.task p).cpu = src
  queued : (s.task p).queued = true
  idle : ∀ d, s.curr d ≠ p
  allowed : dst ∈ (s.task p).cpusAllowed
  best : ∀ q, (s.task q).cpu = dst → (s.task q).queued = true → (s.task q).schedClass = .rt →
    (s.task p).prio < (s.task q).prio

/-- What balancing does: nothing, or one move. -/
def Balances (s s' : State n α) : Prop := s' = s ∨ ∃ p src dst, Moves s p src dst ∧
  s'.task = update s.task p { s.task p with cpu := dst } ∧ s'.curr = s.curr

/-- The move of a task that is better than what the other CPU has. -/
theorem Exact.balance (h : Exact s) (hc : (s.task p).cpu = c) (hqueued : (s.task p).queued = true)
    (hcurr : s.curr c ≠ p) {dst : Fin n} (hallowed : dst ∈ (s.task p).cpusAllowed)
    (hbest : (s.task p).prio < (s.rd.rt dst).highestPrio.curr) :
    ∃ s', s.moveTask p c dst = some s' ∧ Exact s' ∧ Balances s s' := by
  obtain ⟨rd, hmove, hexact⟩ := h.moveTask hc hqueued hcurr dst
  refine ⟨_, hmove, hexact, .inr ⟨p, c, dst, ⟨hc, hqueued, ?_, hallowed, ?_⟩, rfl, rfl⟩⟩
  · subst hc
    exact h.not_curr hcurr
  · intro q hq hqq hqc
    have hA : accounts s.task dst q = some (s.task q).entry := by
      rw [accounts_self hq]
      exact account_eq_some.mpr ⟨hqq, hqc, rfl⟩
    exact hbest.trans_le ((h.dom.rt dst).highest.2 (.inr ⟨q, _, hA, rfl⟩))

theorem Exact.pushNowhere (h : Exact s) (c : Fin n) :
    ∃ s', s.pushNowhere c = some s' ∧ Exact s' ∧ Balances s s' := by
  obtain ⟨o, hpick, -⟩ := h.pickNextPushableTask c
  unfold State.pushNowhere
  rw [hpick]
  exact ⟨s, rfl, h, .inl rfl⟩

theorem Exact.pushTo (h : Exact s) (hc : (s.task p).cpu = c) (hqueued : (s.task p).queued = true)
    (hcurr : s.curr c ≠ p) {lowest : Fin n} (hallowed : lowest ∈ (s.task p).cpusAllowed) :
    ∃ s', s.pushTo p c lowest = some s' ∧ Exact s' ∧ Balances s s' := by
  unfold State.pushTo
  split
  · rename_i hbest
    exact h.balance hc hqueued hcurr hallowed hbest
  · exact h.pushNowhere c

/-- `push_rt_task`. -/
theorem Exact.pushRtTask (h : Exact s) {retry : Bool} {sur : Surroundings n}
    (hallowed : ∀ p, s.nextTask c retry = some (some p) →
      ∀ mask, sur.cpupriFind = some mask → mask ⊆ (s.task p).cpusAllowed) :
    ∃ s', s.pushRtTask c retry sur = some s' ∧ Exact s' ∧ Balances s s' := by
  obtain ⟨o, hnext, ho⟩ := h.nextTask c retry
  unfold State.pushRtTask
  rw [hnext, Option.bind_some]
  cases o with
  | none => exact ⟨s, rfl, h, .inl rfl⟩
  | some p =>
      obtain ⟨hc, hcurr, hqueued⟩ := ho p rfl
      dsimp only
      cases hlowest : findLowestRq (s.task p) sur with
      | none => exact h.pushNowhere c
      | some cpu =>
          obtain ⟨mask, hmask, hcpu⟩ := findLowestRq_mem hlowest
          dsimp only
          split
          · exact h.pushNowhere c
          · exact h.pushTo hc hqueued hcurr (hallowed p hnext mask hmask hcpu)

/-- `push_rt_task` after the lock was dropped: what may have changed meanwhile is read again. -/
theorem Exact.pushAgain (h : Exact s) (p : α) (c lowest : Fin n) (leaving : Finset α) :
    ∃ s', s.pushAgain p c lowest leaving = some s' ∧ Exact s' ∧ Balances s s' := by
  unfold State.pushAgain
  split
  · exact h.pushNowhere c
  · rename_i hstill
    simp only [not_or, not_not, Bool.not_eq_false] at hstill
    obtain ⟨hc, hallowed, hrunning, hqueued⟩ := hstill
    exact h.pushTo hc hqueued (fun hcurr => hrunning (.inl hcurr)) hallowed

/-- `pull_rt_task`. -/
theorem Exact.pullRtTask (h : Exact s) (c src : Fin n) (leaving : Finset α) :
    ∃ s', s.pullRtTask c src leaving = some s' ∧ Exact s' ∧ Balances s s' := by
  unfold State.pullRtTask State.pickHighestPushableTask
  cases hfind : (s.rd.rt src).pushableTasks.nodes.find? fun x =>
      decide (s.pickRtTask leaving src c x.2) with
  | none => exact ⟨s, rfl, h, .inl rfl⟩
  | some x =>
      have hsome := List.find?_some hfind
      have hpick : s.pickRtTask leaving src c x.2 := of_decide_eq_true hsome
      obtain ⟨hc, hcurr, -, hqueued, -⟩ := h.pushable (List.mem_of_find?_eq_some hfind)
      dsimp only [Option.map_some]
      split
      · rename_i hbest
        have hwarn : ¬ (x.2 = s.curr src ∨ (s.task x.2).queued = false) := by
          rw [hqueued]
          exact fun hw => hw.elim (fun e => hcurr e.symm) Bool.noConfusion
        rw [if_neg hwarn]
        split
        · exact ⟨s, rfl, h, .inl rfl⟩
        · exact h.balance hc hqueued hcurr hpick.2 hbest
      · exact ⟨s, rfl, h, .inl rfl⟩

/-! ### Runs -/

/-- The step is one of `push_rt_task` or `pull_rt_task`. -/
def Step.balances : Step n α → Bool
  | .push .. | .pushAgain .. | .pull .. => true
  | _ => false

/-- **The step lemma.** -/
theorem Exact.step (h : Exact s) {e : Step n α} (he : e.Enabled s) :
    ∃ s', e.apply s = some s' ∧ Exact s' ∧ (e.balances = true → Balances s s') := by
  have hno : ∀ {o : Option (State n α)}, (∃ s', o = some s' ∧ Exact s') →
      ∃ s', o = some s' ∧ Exact s' ∧ (false = true → Balances s s') := by
    rintro o ⟨s', hs', hexact⟩
    exact ⟨s', hs', hexact, nofun⟩
  have hyes : ∀ {o : Option (State n α)}, (∃ s', o = some s' ∧ Exact s' ∧ Balances s s') →
      ∃ s', o = some s' ∧ Exact s' ∧ (true = true → Balances s s') := by
    rintro o ⟨s', hs', hexact, hb⟩
    exact ⟨s', hs', hexact, fun _ => hb⟩
  cases e with
  | ttwuActivate p c => exact hno (h.ttwuActivate he.1 he.2 c)
  | deactivateCurr c => exact hno (h.deactivateCurr he)
  | switchTo c next => exact hno ⟨_, rfl, h.switchTo he.2⟩
  | setprio p prio schedClass head => exact hno (h.setprio he.2 head)
  | setCpusAllowed p newMask => exact hno (h.doSetCpusAllowed p newMask)
  | leaveQueue p newCpu => exact hno (h.leaveQueue he.1 he.2 newCpu)
  | arriveQueue p => exact hno (h.arriveQueue he)
  | requeue p head => exact hno ⟨_, rfl, h.requeueTaskRt p head⟩
  | setRqOnline c => exact hno ⟨_, rfl, h.setRqOnline c⟩
  | setRqOffline c => exact hno ⟨_, rfl, h.setRqOffline c⟩
  | push c retry sur => exact hyes (h.pushRtTask he)
  | pushAgain p c lowest leaving => exact hyes (h.pushAgain p c lowest leaving)
  | pull c src leaving => exact hyes (h.pullRtTask c src leaving)

omit [DecidableEq α] in
theorem tally_none {A : α → Option Entry} (hA : ∀ p, A p = none) (f : Entry → Bool) :
    tally A f = 0 := by
  unfold tally
  rw [Finset.card_eq_zero, Finset.filter_eq_empty_iff]
  intro p _
  rw [hA p]
  exact Bool.false_ne_true

omit [DecidableEq α] [Fintype α] in
theorem prios_none {A : α → Option Entry} (hA : ∀ p, A p = none) : prios A = ∅ := by
  refine Set.eq_empty_iff_forall_notMem.mpr ?_
  rintro z ⟨p, e, he, -⟩
  rw [hA p] at he
  cases he

theorem Boot.exact (hb : Boot s) : Exact s := by
  have haccount : ∀ p, (s.task p).account = none := by
    intro p
    by_cases hc : (s.task p).schedClass = .rt
    · exact account_of_not_queued (hb.off p hc)
    · exact account_of_class hc
  have hnone := fun c p => Exact.off (haccount p) (s := s) c
  have hover : ∀ c, (s.rd.rt c).overloaded = false := fun c => by rw [hb.rt c]; rfl
  refine ⟨⟨?_, ?_, ?_, ?_⟩, hb.range, hb.cpu⟩
  · intro c
    have hA : ∀ p, accounts s.task c p = none := fun p => (hnone c p).1
    rw [hb.rt c]
    refine ⟨⟨?_, ?_, fun i => List.nodup_nil, ?_, (tally_none hA _).symm, ?_⟩, (tally_none hA _).symm,
      (tally_none hA _).symm, rfl⟩
    · intro p e he
      rw [hA p] at he
      cases he
    · intro i p
      refine iff_of_false List.not_mem_nil ?_
      rintro ⟨e, he, -⟩
      rw [hA p] at he
      cases he
    · exact fun i => iff_of_false Bool.false_ne_true fun hne => hne rfl
    · rw [prios_none hA]
      simp [initRtRq, isLeast_singleton]
  · intro c
    have hP : pushables s.task s.curr c = fun _ => none := funext fun p => (hnone c p).2
    rw [hb.rt c, hP]
    exact pushOk_empty rfl rfl
  · intro c
    rw [hb.rtoMask, hover c]
    simp
  · rw [hb.rtoCount, hb.rtoMask]
    rfl

/-- **The run lemma.** -/
theorem Reaches.exact {s₀ : State n α} (hb : Boot s₀) (h : Reaches s₀ s) : Exact s := by
  induction h with
  | boot => exact hb.exact
  | step e _ he hs' ih =>
      obtain ⟨s₁, hs₁, hexact, -⟩ := ih.step he
      rw [hs₁, Option.some_inj] at hs'
      exact hs' ▸ hexact

/-! ### What the run-queues hold -/

/-- The task is queued on the real-time run-queue of the CPU. -/
def State.OnRq (s : State n α) (c : Fin n) (p : α) : Prop :=
  (s.task p).cpu = c ∧ (s.task p).queued = true ∧ (s.task p).schedClass = .rt

instance (s : State n α) (c : Fin n) (p : α) : Decidable (s.OnRq c p) :=
  inferInstanceAs (Decidable (_ ∧ _ ∧ _))

/-- The run-queue of a CPU shows what the tasks say. -/
structure RunQueueExact (s : State n α) (c : Fin n) : Prop where
  active : ∀ i p, ((s.rd.rt c).active.queue i).count p =
    if s.OnRq c p ∧ (s.task p).prio = i then 1 else 0
  running : (s.rd.rt c).rtNrRunning = (Finset.univ.filter (s.OnRq c)).card
  highest : IsLeast (insert MAX_RT_PRIO {z | ∃ p, s.OnRq c p ∧ (s.task p).prio = z})
    (s.rd.rt c).highestPrio.curr
  pushable : ∀ z p, (z, p) ∈ (s.rd.rt c).pushableTasks.nodes ↔
    s.OnRq c p ∧ s.curr c ≠ p ∧ 1 < (s.task p).nrCpusAllowed ∧ (s.task p).prio = z
  next : IsLeast (insert MAX_RT_PRIO {z | ∃ p, (z, p) ∈ (s.rd.rt c).pushableTasks.nodes})
    (s.rd.rt c).highestPrio.next
  rtoMask : c ∈ s.rd.rtoMask ↔ s.rd.online c = true ∧
    (∃ p, s.OnRq c p ∧ 1 < (s.task p).nrCpusAllowed) ∧ ∃ p q, p ≠ q ∧ s.OnRq c p ∧ s.OnRq c q

omit [Fintype α] [DecidableEq α] in
theorem accounts_eq_some {e : Entry} :
    accounts s.task c p = some e ↔ s.OnRq c p ∧ e = (s.task p).entry := by
  unfold accounts State.OnRq
  split
  · rename_i hc
    rw [account_eq_some]
    simp [hc, and_assoc]
  · rename_i hc
    simp [hc]

omit [DecidableEq α] in
theorem mem_tally {f : Entry → Bool} : p ∈ (Finset.univ.filter fun q =>
    (accounts s.task c q).any f = true) ↔ s.OnRq c p ∧ f (s.task p).entry = true := by
  rw [Finset.mem_filter, Option.any_eq_true]
  simp only [accounts_eq_some]
  simp

theorem Exact.runQueue (h : Exact s) (c : Fin n) : RunQueueExact s c := by
  have hrt := h.dom.rt c
  have htotal : (Finset.univ.filter fun q => (accounts s.task c q).any (fun _ => true) = true) =
      Finset.univ.filter (s.OnRq c) := by
    ext p
    rw [mem_tally, Finset.mem_filter]
    simp
  refine ⟨?_, ?_, ?_, ?_, ?_, ?_⟩
  · intro i p
    rw [(hrt.nodup i).count]
    refine if_congr ((hrt.mem i p).trans ?_) rfl rfl
    simp only [accounts_eq_some]
    constructor
    · rintro ⟨e, ⟨hon, rfl⟩, hi⟩
      exact ⟨hon, hi⟩
    · rintro ⟨hon, hi⟩
      exact ⟨_, ⟨hon, rfl⟩, hi⟩
  · rw [hrt.running, ← htotal]
    rfl
  · have hset : {z | ∃ p, s.OnRq c p ∧ (s.task p).prio = z} = prios (accounts s.task c) := by
      ext z
      constructor
      · rintro ⟨p, hon, rfl⟩
        exact ⟨p, _, accounts_eq_some.mpr ⟨hon, rfl⟩, rfl⟩
      · rintro ⟨p, e, he, rfl⟩
        obtain ⟨hon, rfl⟩ := accounts_eq_some.mp he
        exact ⟨p, hon, rfl⟩
    rw [hset]
    exact hrt.highest
  · intro z p
    rw [(h.dom.push c).mem (z, p)]
    unfold pushables
    constructor
    · intro hP
      dsimp only at hP
      split at hP
      · rename_i hc
        obtain ⟨hz, haccount, hrunning, hnr⟩ := pushEntry_eq_some hP
        obtain ⟨e, he⟩ := Option.isSome_iff_exists.mp haccount
        obtain ⟨hqueued, hclass, -⟩ := account_eq_some.mp he
        exact ⟨⟨hc, hqueued, hclass⟩, of_decide_eq_false hrunning, hnr, hz⟩
      · cases hP
    · rintro ⟨⟨hc, hqueued, hclass⟩, hcurr, hnr, rfl⟩
      dsimp only
      rw [if_pos hc, decide_eq_false hcurr]
      unfold Task.pushable
      rw [account_isSome_of_class hclass, hqueued]
      exact if_pos ⟨rfl, rfl, hnr⟩
  · have hset : {z | ∃ p, (z, p) ∈ (s.rd.rt c).pushableTasks.nodes} =
        {z | ∃ q, pushables s.task s.curr c q = some z} :=
      Set.ext fun z => exists_congr fun p => (h.dom.push c).mem (z, p)
    rw [hset]
    exact (h.dom.push c).next
  · rw [h.dom.mask.mem c, hrt.overloaded, hrt.migratory, hrt.total, decide_eq_true_eq]
    refine and_congr_right fun _ => and_congr ?_ ?_
    · unfold tally
      rw [Finset.card_ne_zero]
      refine exists_congr fun p => ?_
      rw [mem_tally]
      exact and_congr_right fun _ => decide_eq_true_iff
    · unfold tally
      rw [htotal, Finset.one_lt_card]
      constructor
      · rintro ⟨p, hp, q, hq, hne⟩
        exact ⟨p, q, hne, (Finset.mem_filter.mp hp).2, (Finset.mem_filter.mp hq).2⟩
      · rintro ⟨p, q, hne, hp, hq⟩
        exact ⟨p, Finset.mem_filter.mpr ⟨Finset.mem_univ p, hp⟩, q,
          Finset.mem_filter.mpr ⟨Finset.mem_univ q, hq⟩, hne⟩

/-- **The run-queues are exact.**  In every state of every run, each queued real-time task is on the
run-queue of its CPU, once and at its priority, and on no other; the best priority and that of the
pushable tasks are right; the pushable tasks are the queued ones that do not run and may use another
CPU; and the overload mask has the online CPUs with several real-time tasks of which one may
leave, and the overload counter their number. -/
theorem run_queues_exact {s₀ : State n α} (hb : Boot s₀) (h : Reaches s₀ s) :
    (∀ c, RunQueueExact s c) ∧ s.rd.rtoCount = s.rd.rtoMask.card :=
  ⟨(h.exact hb).runQueue, (h.exact hb).dom.mask.count⟩

/-- **Balancing is safe.**  In every state of every run, whatever a CPU does next, no `BUG_ON` and no
`WARN_ON` fires; and `push_rt_task` and `pull_rt_task`, also after they had to drop a lock, move only a
queued task that runs nowhere, to a CPU that it may use and where it is better than every
real-time task. -/
theorem balancing_safe {s₀ : State n α} (hb : Boot s₀) (h : Reaches s₀ s) {e : Step n α}
    (he : e.Enabled s) : ∃ s', e.apply s = some s' ∧ (e.balances = true → Balances s s') := by
  obtain ⟨s', hs', -, hbal⟩ := (h.exact hb).step he
  exact ⟨s', hs', hbal⟩

end

/-- Two CPUs with an idle task and a sleeping real-time task each. -/
def smallState : State 2 (Bool × Fin 2) where
  task p :=
    { cpu := p.2
      onRq := if p.1 then 0 else TASK_ON_RQ_QUEUED
      prio := if p.1 then 10 + p.2.val else MAX_PRIO
      schedClass := if p.1 then .rt else .idle
      cpusAllowed := if p.1 then Finset.univ else {p.2} }
  curr c := (false, c)
  rd :=
    { rt := fun _ => initRtRq
      online := fun _ => true
      rtoMask := ∅
      rtoCount := 0 }

theorem smallState_boot : Boot smallState where
  cpu _ := rfl
  range p := by revert p; decide
  off p := by revert p; decide
  rt _ := rfl
  rtoMask := rfl
  rtoCount := rfl

omit [Fintype α] in
theorem reaches_get {s₀ s : State n α} (h : Reaches s₀ s) (e : Step n α) (he : e.Enabled s)
    (hs : (e.apply s).isSome = true) : Reaches s₀ ((e.apply s).get hs) :=
  .step e h he (Option.some_get hs).symm

/-- Both real-time tasks wake up on the first CPU, which becomes overloaded. -/
theorem run_queues_exact_small : ∃ s, Reaches smallState s ∧ (∀ c, RunQueueExact s c) ∧
    0 ∈ s.rd.rtoMask ∧ (s.rd.rt 0).pushableTasks.nodes = [(11, (true, 1))] := by
  have h₀ : Reaches smallState smallState := .boot
  have h₁ := reaches_get h₀ (.ttwuActivate (true, 0) 0) ⟨rfl, by decide⟩ (by decide)
  have h₂ := reaches_get h₁ (.switchTo 0 (true, 0)) ⟨by decide, by decide⟩ rfl
  have h₃ := reaches_get h₂ (.ttwuActivate (true, 1) 0) ⟨by decide, by decide⟩ (by decide)
  exact ⟨_, h₃, (run_queues_exact smallState_boot h₃).1, by decide, by decide⟩

/-- `find_lowest_rq` on this CPU: `cpupri_find` finds the others, and the only domain has them all. -/
def smallSurroundings (c : Fin 2) : Surroundings 2 where
  thisCpu := c
  localCpuMask := true
  cpupriFind := some {c}ᶜ
  domains := [⟨true, Finset.univ⟩]

/-- The task that cannot run there is pushed to the second CPU. -/
theorem balancing_safe_small : ∃ s s', Reaches smallState s ∧
    (Step.push 0 false (smallSurroundings 0)).apply s = some s' ∧ Balances s s' ∧
    (s.task (true, 1)).cpu = 0 ∧ (s'.task (true, 1)).cpu = 1 := by
  have h₀ : Reaches smallState smallState := .boot
  have h₁ := reaches_get h₀ (.ttwuActivate (true, 0) 0) ⟨rfl, by decide⟩ (by decide)
  have h₂ := reaches_get h₁ (.switchTo 0 (true, 0)) ⟨by decide, by decide⟩ rfl
  have h₃ := reaches_get h₂ (.ttwuActivate (true, 1) 0) ⟨by decide, by decide⟩ (by decide)
  obtain ⟨s', hs', hbal⟩ := balancing_safe smallState_boot h₃ (e := .push 0 false (smallSurroundings 0))
    (by intro p hp mask hmask; cases hmask; revert p; decide)
  refine ⟨_, s', h₃, hs', hbal rfl, by decide, ?_⟩
  have hcpu := congrArg (Option.map fun s : State 2 (Bool × Fin 2) => (s.task (true, 1)).cpu) hs'
  have hone : some (s'.task (true, 1)).cpu = some 1 := hcpu.symm.trans (by decide)
  exact Option.some_inj.mp hone

end KernelHacking.Push
