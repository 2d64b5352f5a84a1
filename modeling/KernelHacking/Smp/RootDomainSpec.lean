import KernelHacking.Smp.PushQueueSpec

/-! # The callbacks of the real-time class keep the accounts -/

namespace KernelHacking.Push

open KernelHacking.Sched Function

variable {n : ℕ} {α : Type} [DecidableEq α] [Fintype α]

/-! ### A queue between two operations -/

section
variable {A A' : α → Option Entry} {P : α → Option ℤ} {rt rt' : RtRq α} {p : α}

omit [DecidableEq α] in
theorem tally_congr {f : Entry → Bool} {g : ℤ → Bool} (hf : ∀ e, f e = g e.prio)
    (hA : ∀ q, (A' q).map Entry.prio = (A q).map Entry.prio) : tally A' f = tally A f := by
  unfold tally
  congr 1
  ext q
  have hany : ∀ o : Option Entry, o.any f = (o.map Entry.prio).any g := by
    intro o
    cases o with
    | none => rfl
    | some e => exact hf e
  simp only [Finset.mem_filter, hany, hA q]

omit [DecidableEq α] in
/-- The array knows only the priorities. -/
theorem QueueOk.congr (h : QueueOk A rt) (hA : ∀ q, (A' q).map Entry.prio = (A q).map Entry.prio) :
    QueueOk A' rt := by
  have hentry : ∀ q z, (∃ e, A' q = some e ∧ e.prio = z) ↔ ∃ e, A q = some e ∧ e.prio = z := by
    intro q z
    rw [← Option.map_eq_some_iff, ← Option.map_eq_some_iff, hA q]
  have hprios : prios A' = prios A := Set.ext fun z => exists_congr fun q => hentry q z
  refine ⟨?_, fun i q => (h.mem i q).trans (hentry q i).symm, h.nodup, h.bitmap, ?_, ?_⟩
  · intro q e he
    obtain ⟨e', he', hee⟩ := (hentry q e.prio).mp ⟨e, he, rfl⟩
    exact hee ▸ h.range q e' he'
  · rw [h.running]
    exact (tally_congr (g := fun _ => true) (fun _ => rfl) hA).symm
  · rw [hprios]
    exact h.highest

omit [DecidableEq α] in
/-- The counters do not depend on the list of pushable tasks. -/
theorem RtOk.setPushables (h : RtOk A rt) (l : Plist ℤ α) (next : ℤ) : RtOk A { rt with
    pushableTasks := l, highestPrio := { rt.highestPrio with next := next } } :=
  ⟨⟨h.range, h.mem, h.nodup, h.bitmap, h.running, h.highest⟩, h.total, h.migratory, h.overloaded⟩

omit [DecidableEq α] [Fintype α] in
theorem PushOk.congr (h : PushOk P rt) (hlist : rt'.pushableTasks = rt.pushableTasks)
    (hnext : rt'.highestPrio.next = rt.highestPrio.next) : PushOk P rt' :=
  ⟨h.range, fun x => by rw [hlist, h.mem], by rw [hnext]; exact h.next⟩

omit [DecidableEq α] [Fintype α] in
theorem Task.migratory_eq (t : Task n) : t.migratory = if t.entry.migratory then 1 else 0 := by
  unfold Task.migratory Task.entry
  simp

end

/-! ### All the queues -/

/-- An account of one task changes. -/
def setAt {β : Type} (A : Fin n → α → β) (c : Fin n) (p : α) (v : β) : Fin n → α → β :=
  update A c (update (A c) p v)

section
variable {β : Type} {A : Fin n → α → β} {c : Fin n} {p : α} {v : β}

omit [Fintype α] in
theorem setAt_cpu : setAt A c p v c = update (A c) p v := update_self ..

omit [Fintype α] in
theorem setAt_other {d : Fin n} (hd : d ≠ c) : setAt A c p v d = A d := update_of_ne hd ..

omit [Fintype α] in
@[simp] theorem setAt_self : setAt A c p v c p = v := by rw [setAt_cpu, update_self]

omit [Fintype α] in
theorem setAt_same (h : A c p = v) : setAt A c p v = A := by
  unfold setAt
  rw [← h, update_eq_self, update_eq_self]

omit [Fintype α] in
theorem setAt_setAt (v' : β) : setAt (setAt A c p v) c p v' = setAt A c p v' := by
  unfold setAt
  rw [update_self, update_idem, update_idem]

omit [Fintype α] in
theorem setAt_apply (d : Fin n) (q : α) :
    setAt A c p v d q = if d = c ∧ q = p then v else A d q := by
  by_cases hd : d = c
  · subst hd
    rw [setAt_cpu]
    by_cases hq : q = p
    · subst hq
      simp
    · simp [hq]
  · rw [setAt_other hd]
    simp [hd]

end

/-- Every queue is exact, and so is the mask. -/
structure DomOk (A : Fin n → α → Option Entry) (P : Fin n → α → Option ℤ) (rd : RootDomain n α) :
    Prop where
  rt : ∀ c, RtOk (A c) (rd.rt c)
  push : ∀ c, PushOk (P c) (rd.rt c)
  mask : MaskOk rd

section
variable {A : Fin n → α → Option Entry} {P : Fin n → α → Option ℤ} {rd : RootDomain n α} {c : Fin n}
  {p : α} {t : Task n} {task : α → Task n} {curr : Fin n → α}

omit [DecidableEq α] in
/-- One queue has changed, and `update_rt_migration` follows. -/
theorem DomOk.settle (h : DomOk A P rd) {a : α → Option Entry} {u : α → Option ℤ} {r : RtRq α}
    (hover : r.overloaded = (rd.rt c).overloaded) (hq : QueueOk a r)
    (htotal : r.rtNrTotal = tally a fun _ => true)
    (hmigratory : r.rtNrMigratory = tally a Entry.migratory) (hpush : PushOk u r) :
    DomOk (update A c a) (update P c u) (updateRtMigration c (rd.setRt c r)) := by
  have hrt : (updateRtMigration c (rd.setRt c r)).rt = update rd.rt c { r with
      overloaded := decide (r.rtNrMigratory ≠ 0 ∧ 1 < r.rtNrTotal) } := by
    rw [updateRtMigration_rt, RootDomain.setRt_rt, update_self, update_idem]
  refine ⟨?_, ?_, (h.mask.setRt hover).migration c⟩
  · intro d
    rw [hrt]
    by_cases hd : d = c
    · subst hd
      rw [update_self, update_self]
      exact ⟨⟨hq.range, hq.mem, hq.nodup, hq.bitmap, hq.running, hq.highest⟩, htotal, hmigratory, rfl⟩
    · rw [update_of_ne hd, update_of_ne hd]
      exact h.rt d
  · intro d
    rw [hrt]
    by_cases hd : d = c
    · subst hd
      rw [update_self, update_self]
      exact hpush.congr rfl rfl
    · rw [update_of_ne hd, update_of_ne hd]
      exact h.push d

omit [DecidableEq α] in
/-- One queue has changed, and its counters have not. -/
theorem DomOk.put (h : DomOk A P rd) {u : α → Option ℤ} {r : RtRq α}
    (hover : r.overloaded = (rd.rt c).overloaded) (hrt : RtOk (A c) r) (hpush : PushOk u r) :
    DomOk A (update P c u) (rd.setRt c r) := by
  refine ⟨?_, ?_, h.mask.setRt hover⟩
  · intro d
    rw [RootDomain.setRt_rt]
    by_cases hd : d = c
    · subst hd
      rw [update_self]
      exact hrt
    · rw [update_of_ne hd]
      exact h.rt d
  · intro d
    rw [RootDomain.setRt_rt]
    by_cases hd : d = c
    · subst hd
      rw [update_self, update_self]
      exact hpush
    · rw [update_of_ne hd, update_of_ne hd]
      exact h.push d

/-! ### Entities -/

theorem DomOk.__enqueueRtEntity (h : DomOk A P rd) (hp : A c p = none) (hr : RtRange t.prio)
    (head : Bool) : ∃ rd', Push.__enqueueRtEntity t p head c rd = some rd' ∧
      DomOk (setAt A c p (some t.entry)) P rd' := by
  have hok := h.rt c
  unfold Push.__enqueueRtEntity
  rw [if_pos hr]
  refine ⟨_, rfl, ?_⟩
  rw [incRtMigration_setRt]
  obtain ⟨rt', hrt'⟩ : ∃ rt', rt' = incRtPrio t.prio { rd.rt c with
    active := linkEntity t.prio p head (rd.rt c).active
    rtNrRunning := (rd.rt c).rtNrRunning + 1 } := ⟨_, rfl⟩
  have hframe := hrt'
  rw [incRtPrio_frame] at hframe
  have hq : QueueOk (update (A c) p (some t.entry)) rt' := by
    rw [hrt']
    exact hok.toQueueOk.link hp hr head
  rw [← hrt']
  have htotal : rt'.rtNrTotal = (rd.rt c).rtNrTotal := by rw [hframe]
  have hmigratory : rt'.rtNrMigratory = (rd.rt c).rtNrMigratory := by rw [hframe]
  have hsettle := h.settle (c := c) (u := P c) (r := { rt' with
      rtNrTotal := rt'.rtNrTotal + 1, rtNrMigratory := rt'.rtNrMigratory + t.migratory })
    (a := update (A c) p (some t.entry)) ?_ ?_ ?_ ?_ ?_
  · rw [update_eq_self] at hsettle
    exact hsettle
  · show rt'.overloaded = _
    rw [hframe]
  · exact ⟨hq.range, hq.mem, hq.nodup, hq.bitmap, hq.running, hq.highest⟩
  · show rt'.rtNrTotal + 1 = _
    rw [htotal, hok.total, tally_insert hp]
    rfl
  · show rt'.rtNrMigratory + t.migratory = _
    rw [hmigratory, hok.migratory, tally_insert hp, Task.migratory_eq]
  · refine (h.push c).congr ?_ ?_
    · show rt'.pushableTasks = _
      rw [hframe]
    · show rt'.highestPrio.next = _
      rw [hframe]

theorem DomOk.__dequeueRtEntity (h : DomOk A P rd) (hp : A c p = some t.entry) :
    ∃ rd', Push.__dequeueRtEntity t p c rd = some rd' ∧ DomOk (setAt A c p none) P rd' := by
  have hok := h.rt c
  have hr : RtRange t.prio := hok.range p t.entry hp
  have hne : (rd.rt c).rtNrRunning ≠ 0 := by
    rw [hok.running, tally_erase hp]
    exact Nat.succ_ne_zero _
  obtain ⟨rt', hdec, hq, hrt'⟩ := hok.toQueueOk.unlink hp
  unfold Push.__dequeueRtEntity
  rw [if_pos ⟨hr, hne⟩]
  refine ⟨_, congrArg (Option.map _) hdec, ?_⟩
  dsimp only
  rw [decRtMigration_setRt]
  have htotal : rt'.rtNrTotal = (rd.rt c).rtNrTotal := by rw [hrt']
  have hmigratory : rt'.rtNrMigratory = (rd.rt c).rtNrMigratory := by rw [hrt']
  have hsettle := h.settle (c := c) (u := P c) (r := { rt' with
      rtNrTotal := rt'.rtNrTotal - 1, rtNrMigratory := rt'.rtNrMigratory - t.migratory })
    (a := update (A c) p none) ?_ ?_ ?_ ?_ ?_
  · rw [update_eq_self] at hsettle
    exact hsettle
  · show rt'.overloaded = _
    rw [hrt']
  · exact ⟨hq.range, hq.mem, hq.nodup, hq.bitmap, hq.running, hq.highest⟩
  · show rt'.rtNrTotal - 1 = _
    rw [htotal, hok.total, tally_erase hp]
    rfl
  · show rt'.rtNrMigratory - t.migratory = _
    rw [hmigratory, hok.migratory, tally_erase hp, Task.migratory_eq, Nat.add_sub_cancel]
  · refine (h.push c).congr ?_ ?_
    · show rt'.pushableTasks = _
      rw [hrt']
    · show rt'.highestPrio.next = _
      rw [hrt']

/-- `enqueue_rt_entity`. -/
theorem DomOk.enqueueRtEntity (h : DomOk A P rd) (hp : A c p = none) (hr : RtRange t.prio)
    (head : Bool) : ∃ rd', Push.enqueueRtEntity t p head c rd = some rd' ∧
      DomOk (setAt A c p (some t.entry)) P rd' := by
  have hoff : ¬ onRtRq (rd.rt c).active p := by
    rw [(h.rt c).onRtRq_iff, hp]
    exact Bool.false_ne_true
  unfold Push.enqueueRtEntity
  rw [if_neg hoff]
  exact h.__enqueueRtEntity hp hr head

/-- `dequeue_rt_entity`. -/
theorem DomOk.dequeueRtEntity (h : DomOk A P rd) (hp : A c p = none ∨ A c p = some t.entry) :
    ∃ rd', Push.dequeueRtEntity t p c rd = some rd' ∧ DomOk (setAt A c p none) P rd' := by
  unfold Push.dequeueRtEntity
  rcases hp with hp | hp
  · have hoff : ¬ onRtRq (rd.rt c).active p := by
      rw [(h.rt c).onRtRq_iff, hp]
      exact Bool.false_ne_true
    rw [if_neg hoff, setAt_same hp]
    exact ⟨rd, rfl, h⟩
  · have hon : onRtRq (rd.rt c).active p := by
      rw [(h.rt c).onRtRq_iff, hp]
      rfl
    rw [if_pos hon]
    exact h.__dequeueRtEntity hp

/-! ### Pushable tasks -/

/-- `enqueue_pushable_task`. -/
theorem DomOk.enqueuePushable (h : DomOk A P rd) (hp : P c p = none) {prio : ℤ}
    (hr : prio < MAX_RT_PRIO) :
    DomOk A (setAt P c p (some prio)) (rd.setRt c (enqueuePushableTask prio p (rd.rt c))) :=
  h.put (by rw [enqueuePushableTask_frame])
    (by rw [enqueuePushableTask_frame]; exact (h.rt c).setPushables _ _) ((h.push c).add hp hr)

/-- `dequeue_pushable_task`. -/
theorem DomOk.dequeuePushable (h : DomOk A P rd) (htask : ∀ q z, P c q = some z → (task q).prio = z)
    (p : α) :
    DomOk A (setAt P c p none) (rd.setRt c (dequeuePushableTask task p (rd.rt c))) :=
  h.put (by rw [dequeuePushableTask_frame])
    (by rw [dequeuePushableTask_frame]; exact (h.rt c).setPushables _ _) ((h.push c).del htask p)

/-! ### Callbacks -/

/-- What the list of pushable tasks shows of a task. -/
def pushEntry (t : Task n) (queued running : Bool) : Option ℤ :=
  if queued = true ∧ running = false ∧ 1 < t.nrCpusAllowed then some t.prio else none

variable (task curr) in
/-- `enqueue_task_rt`. -/
theorem DomOk.enqueueTaskRt (h : DomOk A P rd) (hp : A c p = none) (hP : P c p = none)
    (hr : RtRange (task p).prio) (head : Bool) :
    ∃ rd', Push.enqueueTaskRt task curr p head c rd = some rd' ∧
      DomOk (setAt A c p (some (task p).entry))
        (setAt P c p (pushEntry (task p) true (decide (curr c = p)))) rd' := by
  obtain ⟨rd', henq, hdom⟩ := h.enqueueRtEntity hp hr head
  unfold Push.enqueueTaskRt
  refine ⟨_, congrArg (Option.map _) henq, ?_⟩
  dsimp only
  unfold pushEntry
  by_cases hcond : curr c ≠ p ∧ 1 < (task p).nrCpusAllowed
  · rw [if_pos hcond, if_pos ⟨rfl, decide_eq_false hcond.1, hcond.2⟩]
    exact hdom.enqueuePushable hP hr.2
  · rw [if_neg hcond, if_neg (fun hc => hcond ⟨of_decide_eq_false hc.2.1, hc.2.2⟩), setAt_same hP]
    exact hdom

variable (task) in
/-- `dequeue_task_rt`. -/
theorem DomOk.dequeueTaskRt (h : DomOk A P rd) (hp : A c p = none ∨ A c p = some (task p).entry)
    (htask : ∀ q z, P c q = some z → (task q).prio = z) :
    ∃ rd', Push.dequeueTaskRt task p c rd = some rd' ∧
      DomOk (setAt A c p none) (setAt P c p none) rd' := by
  obtain ⟨rd', hdeq, hdom⟩ := h.dequeueRtEntity hp
  unfold Push.dequeueTaskRt
  exact ⟨_, congrArg (Option.map _) hdeq, hdom.dequeuePushable htask p⟩

variable (task) in
/-- `put_prev_task_rt`. -/
theorem DomOk.putPrevTaskRt (h : DomOk A P rd) (hP : P c p = none)
    (hp : A c p = none ∨ A c p = some (task p).entry) :
    DomOk A (setAt P c p (pushEntry (task p) (A c p).isSome false))
      (Push.putPrevTaskRt task p c rd) := by
  unfold Push.putPrevTaskRt pushEntry
  have hon := (h.rt c).onRtRq_iff (p := p)
  by_cases hcond : onRtRq (rd.rt c).active p ∧ 1 < (task p).nrCpusAllowed
  · have hsome := hon.mp hcond.1
    rw [if_pos hcond, if_pos ⟨hsome, rfl, hcond.2⟩]
    refine h.enqueuePushable hP ?_
    rcases hp with hp | hp
    · rw [hp] at hsome
      cases hsome
    · exact ((h.rt c).range p _ hp).2
  · rw [if_neg hcond, if_neg (fun hc => hcond ⟨hon.mpr hc.1, hc.2.2⟩), setAt_same hP]
    exact h

/-- `set_curr_task_rt`. -/
theorem DomOk.setCurrTaskRt (h : DomOk A P rd) (htask : ∀ q z, P c q = some z → (task q).prio = z) :
    DomOk A (setAt P c p none) (Push.setCurrTaskRt task p c rd) :=
  h.dequeuePushable htask p

theorem pushEntry_running (t : Task n) (queued : Bool) : pushEntry t queued true = none :=
  if_neg fun h => Bool.noConfusion h.2.1

theorem pushEntry_off (t : Task n) (running : Bool) : pushEntry t false running = none :=
  if_neg fun h => Bool.noConfusion h.1

/-- A task of the queue can migrate from now on, or no longer. -/
theorem DomOk.remigrate (h : DomOk A P rd) {e : Entry} (hp : A c p = some e) {rt : RtRq α}
    {u : α → Option ℤ} (hover : rt.overloaded = (rd.rt c).overloaded) (hrt : RtOk (A c) rt)
    (hpush : PushOk u rt) {migratory : Bool} {k : ℕ}
    (hk : k + (if e.migratory then 1 else 0) = rt.rtNrMigratory + if migratory then 1 else 0) :
    DomOk (setAt A c p (some { e with migratory := migratory })) (update P c u)
      (updateRtMigration c (rd.setRt c { rt with rtNrMigratory := k })) := by
  have hA : ∀ q, (update (A c) p (some { e with migratory := migratory }) q).map Entry.prio =
      (A c q).map Entry.prio := by
    intro q
    by_cases hq : q = p
    · subst hq
      rw [update_self, hp]
      rfl
    · rw [update_of_ne hq]
  have hq := hrt.toQueueOk.congr hA
  refine h.settle hover ⟨hq.range, hq.mem, hq.nodup, hq.bitmap, hq.running, hq.highest⟩ ?_ ?_
    (hpush.congr rfl rfl)
  · exact hrt.total.trans (tally_congr (g := fun _ => true) (fun _ => rfl) hA).symm
  · show k = _
    have hold := tally_erase hp Entry.migratory
    have hnew : _ = _ + if migratory then 1 else 0 := tally_insert
      (e := { e with migratory := migratory }) (update_self p none (A c)) Entry.migratory
    rw [update_idem] at hnew
    rw [hrt.migratory, hold] at hk
    rw [hnew]
    omega

/-- A task that does not run leaves the list of the pushable tasks; one that runs was not there. -/
theorem DomOk.unpush (h : DomOk A P rd) (hP : curr c = p → P c p = none)
    (htask : ∀ q z, P c q = some z → (task q).prio = z) {r : RtRq α}
    (hr : r = if curr c ≠ p then dequeuePushableTask task p (rd.rt c) else rd.rt c) :
    RtOk (A c) r ∧ PushOk (update (P c) p none) r ∧ r.overloaded = (rd.rt c).overloaded := by
  rw [hr]
  by_cases hcurr : curr c ≠ p
  · rw [if_pos hcurr]
    refine ⟨?_, (h.push c).del htask p, by rw [dequeuePushableTask_frame]⟩
    rw [dequeuePushableTask_frame]
    exact (h.rt c).setPushables _ _
  · rw [if_neg hcurr, ← hP (not_not.mp hcurr), update_eq_self]
    exact ⟨h.rt c, h.push c, rfl⟩

/-- A task that does not run joins it. -/
theorem DomOk.repush (h : DomOk A P rd) (hP : P c p = none) (hrange : t.prio < MAX_RT_PRIO)
    (hnr : 1 < t.nrCpusAllowed) {r : RtRq α}
    (hr : r = if curr c ≠ p then enqueuePushableTask t.prio p (rd.rt c) else rd.rt c) :
    RtOk (A c) r ∧ PushOk (update (P c) p (pushEntry t true (decide (curr c = p)))) r ∧
      r.overloaded = (rd.rt c).overloaded := by
  rw [hr]
  by_cases hcurr : curr c ≠ p
  · have hentry : pushEntry t true false = some t.prio := if_pos ⟨rfl, rfl, hnr⟩
    rw [if_pos hcurr, decide_eq_false hcurr, hentry]
    refine ⟨?_, (h.push c).add hP hrange, by rw [enqueuePushableTask_frame]⟩
    rw [enqueuePushableTask_frame]
    exact (h.rt c).setPushables _ _
  · rw [if_neg hcurr, decide_eq_true (not_not.mp hcurr), pushEntry_running, ← hP, update_eq_self]
    exact ⟨h.rt c, h.push c, rfl⟩

variable (task curr) in
/-- `set_cpus_allowed_rt`. -/
theorem DomOk.setCpusAllowedRt (h : DomOk A P rd) (hr : (task p).prio < MAX_RT_PRIO)
    (hc : (task p).cpu = c) (hp : A c p = if (task p).queued then some (task p).entry else none)
    (hP : P c p = pushEntry (task p) (task p).queued (decide (curr c = p)))
    (htask : ∀ q z, P c q = some z → (task q).prio = z) (newMask : Finset (Fin n)) :
    ∃ rd', Push.setCpusAllowedRt task curr p newMask rd = some rd' ∧
      DomOk (setAt A c p (if (task p).queued then
          some { (task p).entry with migratory := decide (1 < newMask.card) } else none))
        (setAt P c p (pushEntry { task p with cpusAllowed := newMask } (task p).queued
          (decide (curr c = p)))) rd' := by
  obtain ⟨t', ht'⟩ : ∃ t', t' = { task p with cpusAllowed := newMask } := ⟨_, rfl⟩
  have hnr' : t'.nrCpusAllowed = newMask.card := by
    rw [ht']
    rfl
  have hprio' : t'.prio = (task p).prio := by rw [ht']
  unfold Push.setCpusAllowedRt
  rw [← ht']
  dsimp only
  rw [if_neg (not_not.mpr hr), hc]
  cases hqueued : (task p).queued with
  | false =>
      rw [hqueued] at hp hP
      rw [if_pos rfl, if_neg Bool.false_ne_true, setAt_same (hp.trans (if_neg Bool.false_ne_true)),
        pushEntry_off, setAt_same (hP.trans (pushEntry_off ..))]
      exact ⟨rd, rfl, h⟩
  | true =>
      rw [hqueued, if_pos rfl] at hp
      rw [hqueued] at hP
      rw [if_neg (by decide), if_pos rfl]
      by_cases hsame : 1 < (task p).nrCpusAllowed ↔ 1 < newMask.card
      · rw [if_pos hsame]
        refine ⟨rd, rfl, ?_⟩
        have hentry : { (task p).entry with migratory := decide (1 < newMask.card) } =
            (task p).entry := by
          unfold Task.entry
          rw [decide_eq_decide.mpr hsame]
        have hpush : pushEntry t' true (decide (curr c = p)) =
            pushEntry (task p) true (decide (curr c = p)) := by
          unfold pushEntry
          rw [hnr', hprio']
          refine if_congr ?_ rfl rfl
          exact and_congr_right fun _ => and_congr_right fun _ => hsame.symm
        rw [hentry, setAt_same hp, hpush, setAt_same hP]
        exact h
      · rw [if_neg hsame]
        by_cases hcard : newMask.card ≤ 1
        · -- it can no longer migrate
          have hnr : 1 < (task p).nrCpusAllowed := by
            by_contra hn
            exact hsame (iff_of_false hn (not_lt.mpr hcard))
          have hmig : (task p).entry.migratory = true := decide_eq_true hnr
          obtain ⟨rt, hrt⟩ : ∃ rt, rt = if curr c ≠ p then dequeuePushableTask task p (rd.rt c)
            else rd.rt c := ⟨_, rfl⟩
          have hrunning : curr c = p → P c p = none := by
            intro hcurr
            rw [hP, decide_eq_true hcurr]
            exact pushEntry_running _ _
          obtain ⟨hok, hpushable, hover⟩ := h.unpush hrunning htask hrt
          have hne : rt.rtNrMigratory ≠ 0 := by
            rw [hok.migratory, tally_erase hp, if_pos hmig]
            exact Nat.succ_ne_zero _
          have hpush : pushEntry t' true (decide (curr c = p)) = none :=
            if_neg fun hc => absurd (hnr' ▸ hc.2.2) (not_lt.mpr hcard)
          rw [if_pos hcard, ← hrt, if_neg hne, hpush, decide_eq_false (not_lt.mpr hcard)]
          refine ⟨_, rfl, h.remigrate hp hover hok hpushable ?_⟩
          rw [if_pos hmig, if_neg Bool.false_ne_true]
          omega
        · -- it can migrate from now on
          rw [not_le] at hcard
          have hnr : ¬ 1 < (task p).nrCpusAllowed := fun hn => hsame (iff_of_true hn hcard)
          have hmig : (task p).entry.migratory = false := decide_eq_false hnr
          have hnone : P c p = none := by
            rw [hP]
            exact if_neg fun hc => hnr hc.2.2
          obtain ⟨rt, hrt⟩ : ∃ rt, rt = if curr c ≠ p then
            enqueuePushableTask t'.prio p (rd.rt c) else rd.rt c := ⟨_, rfl⟩
          obtain ⟨hok, hpushable, hover⟩ := h.repush hnone (hprio' ▸ hr) (hnr' ▸ hcard) hrt
          rw [hprio'] at hrt
          rw [if_neg (not_le.mpr hcard), ← hrt, decide_eq_true hcard]
          refine ⟨_, rfl, h.remigrate hp hover hok hpushable ?_⟩
          rw [if_neg (Bool.eq_false_iff.mp hmig), if_pos rfl]

end

end KernelHacking.Push
