import KernelHacking.Sched.Waiting
import KernelHacking.Tools.Runqlat

/-! # What the latency tool measures

A task waits when it is queued and does not run.  `Waits.move` follows the waits from the run-queue alone,
without the tool: when each waiting task began to wait, and which waits have ended.  A run of the scheduler
with the tool attached is followed by both; `Faithful` relates them: the stamp of a waiting task is
the beginning of its wait, whatever older stamps the map holds, and each counter of the histogram counts
the waits that have ended since it was cleared.  The main loop reads and clears the counters one by one
while the scheduler runs on.

What it needs: a task is not preempted between the assignment of its state and `schedule`; there is a
stamp for every task, and a process identifier of its own; and the kernel passes `prev` and `next` where the
tool looks for them (`Protos.Declared`), which the kernel of this repository does not. -/

namespace KernelHacking.Runqlat

open Word Sched TraceProg

variable {α : Type} [DecidableEq α] {B : Bpf} {args : Args} {ids : α → Ids}

/-! ### Waits -/

/-- What the run-queue shows: the queued tasks, and the one that runs. -/
structure View (α : Type) where
  queued : α → Bool
  curr : α

/-- The task is queued and does not run. -/
def View.Waits (v : View α) (p : α) : Prop := v.queued p = true ∧ v.curr ≠ p

instance (v : View α) (p : α) : Decidable (v.Waits p) := inferInstanceAs (Decidable (_ ∧ _))

/-- A wait that has ended: who waited, who had to go, and how long it took. -/
structure Wait (α : Type) where
  task : α
  prev : α
  time : U64

/-- The waits that go on, by the time of their beginning if that is known, and those that have
ended. -/
structure Waits (α : Type) where
  since : α → Option U64
  ended : List (Wait α)

/-- No wait is known. -/
def Waits.none : Waits α := ⟨fun _ => .none, []⟩

/-- The wait that ends when the run-queue changes from `v` to `v'`: the task that runs now waited
before. -/
def Waits.ends (v v' : View α) (now : U64) (w : Waits α) : List (Wait α) :=
  if v.Waits v'.curr then
    match w.since v'.curr with
    | .none => []
    | some t => [⟨v'.curr, v.curr, now - t⟩]
  else []

/-- The run-queue changes: a task that waits now and did not before began at `began`. -/
def Waits.move (v v' : View α) (began now : U64) (w : Waits α) : Waits α where
  since p := if v'.Waits p then (if v.Waits p then w.since p else some began) else .none
  ended := w.ended ++ w.ends v v' now

theorem Waits.move_ended_of_same {v v' : View α} {w : Waits α} (h : v'.curr = v.curr)
    (began now : U64) : (w.move v v' began now).ended = w.ended := by
  have hends : w.ends v v' now = [] := if_neg fun hw => hw.2 h.symm
  show w.ended ++ w.ends v v' now = w.ended
  rw [hends, List.append_nil]

/-! ### The tool beside the run-queue -/

variable (args ids)

/-- The tool is interested in the task. -/
def selects (p : α) : Bool := !args.skips (ids p).tgid (ids p).pid

/-- Where the histogram counts a wait. -/
def Wait.key (B : Bpf) (w : Wait α) : Key :=
  args.key (ids w.prev) (ids w.task).tgid (ids w.task).pid (B.log2l (w.time / args.factor))

/-- The entries of the histogram that belong to the waits. -/
def counted (B : Bpf) (ws : List (Wait α)) : List Key :=
  ((ws.filter fun w => selects args ids w.task).map fun w => w.key args ids B).filter fun key =>
    key.inRange B

variable {args ids}

/-- The histogram is not split. -/
def Args.plain (args : Args) : Prop := args.pids = false ∧ args.tids = false ∧ args.pidnss = false

/-- The keys of the plain histogram. -/
def plainKeys (B : Bpf) : Finset Key :=
  (Finset.range B.distSize).image fun slot => ⟨none, BitVec.ofNat 64 slot⟩

omit [DecidableEq α] in
theorem counted_append (ws ws' : List (Wait α)) :
    counted args ids B (ws ++ ws') = counted args ids B ws ++ counted args ids B ws' := by
  unfold counted
  rw [List.filter_append, List.map_append, List.filter_append]

omit [DecidableEq α] in
/-- The plain histogram has a counter for each of its entries. -/
theorem counted_plain (hplain : args.plain) {ws : List (Wait α)} {key : Key}
    (h : key ∈ counted args ids B ws) : key ∈ plainKeys B := by
  obtain ⟨hmem, hrange⟩ := List.mem_filter.mp h
  obtain ⟨w, -, rfl⟩ := List.mem_map.mp hmem
  have hkey : w.key args ids B = ⟨none, B.log2l (w.time / args.factor)⟩ := by
    unfold Wait.key Args.key
    simp [hplain.1, hplain.2.1, hplain.2.2]
  rw [hkey] at hrange ⊢
  have hlt : (B.log2l (w.time / args.factor)).toNat < B.distSize := by
    simpa [Key.inRange] using hrange
  refine Finset.mem_image.mpr ⟨_, Finset.mem_range.mpr hlt, ?_⟩
  rw [BitVec.ofNat_toNat, BitVec.setWidth_eq]

/-- The histogram counts the waits; `lost` are those that found no counter. -/
structure Counts (args : Args) (ids : α → Ids) (ended : List (Wait α))
    (dist : BoundedMap Key U64 B.distSize) (lost : List Key) : Prop where
  tally : dist.Tally (counted args ids B ended) lost
  plain : args.plain → lost = [] ∧ ∀ key ∈ dist.entries.keys, key ∈ plainKeys B

omit [DecidableEq α] in
/-- More waits have ended, and the histogram has counted them. -/
theorem Counts.increments {ended : List (Wait α)} {dist : BoundedMap Key U64 B.distSize}
    {lost : List Key} (h : Counts args ids ended dist lost) (ends : List (Wait α)) :
    Counts args ids (ended ++ ends) (dist.increments (counted args ids B ends))
      (lost ++ dist.overflow (counted args ids B ends)) := by
  refine ⟨?_, ?_⟩
  · rw [counted_append]
    exact h.tally.increments _
  · intro hplain
    obtain ⟨hlost, hkeys⟩ := h.plain hplain
    have hends : ∀ key ∈ counted args ids B ends, key ∈ plainKeys B := fun _ => counted_plain hplain
    have hroom : dist.overflow (counted args ids B ends) = [] :=
      BoundedMap.overflow_eq_nil (Finset.card_image_le.trans (Finset.card_range _).le) hkeys hends
    refine ⟨by rw [hlost, hroom]; rfl, ?_⟩
    intro key hkey
    exact (BoundedMap.mem_increments hkey).elim (hends key) (hkeys key)

/-- The maps of the tool tell the waits. -/
structure Tells (args : Args) (ids : α → Ids) (v : View α) (w : Waits α) (maps : Maps B)
    (lost : List Key) : Prop where
  keys : ∀ k ∈ maps.start.entries.keys, ∃ p, k = (ids p).pid
  stamp : ∀ p, selects args ids p = true → v.Waits p → maps.start.lookup (ids p).pid = w.since p
  counts : Counts args ids w.ended maps.dist lost

section
variable {v v' : View α} {w : Waits α} {maps : Maps B} {lost : List Key}

omit [DecidableEq α] in
/-- There is a stamp for every task. -/
theorem Tells.admits [Fintype α] (h : Tells args ids v w maps lost) (hsize : Fintype.card α ≤ B.startSize)
    (p : α) : maps.start.Admits (ids p).pid := by
  refine BoundedMap.admits_of_subset (S := Finset.univ.image fun q => (ids q).pid) ?_ ?_ ?_
  · exact Finset.card_image_le.trans hsize
  · intro k hk
    obtain ⟨q, rfl⟩ := h.keys k hk
    exact Finset.mem_image_of_mem _ (Finset.mem_univ q)
  · exact Finset.mem_image_of_mem _ (Finset.mem_univ p)

/-- Nothing is stamped, and nobody begins to wait. -/
theorem Tells.move_still (h : Tells args ids v w maps lost) (hcurr : v'.curr = v.curr)
    (hold : ∀ p, v'.Waits p → v.Waits p) (began now : U64) :
    Tells args ids v' (w.move v v' began now) maps lost := by
  refine ⟨h.keys, ?_, ?_⟩
  · intro p hs hp
    have hsince : (w.move v v' began now).since p = w.since p := by
      show (if v'.Waits p then (if v.Waits p then w.since p else some began) else Option.none) = _
      rw [if_pos hp, if_pos (hold p hp)]
    rw [hsince]
    exact h.stamp p hs (hold p hp)
  · rw [Waits.move_ended_of_same hcurr]
    exact h.counts

omit [DecidableEq α] in
/-- A stamp for a task that does not wait says nothing yet. -/
theorem Tells.stamp_idle (h : Tells args ids v w maps lost)
    (hinj : Function.Injective fun p => (ids p).pid) {q : α} (hq : ¬ v.Waits q) (ts : U64) :
    Tells args ids v w (traceEnqueue args (ids q).tgid (ids q).pid ts maps) lost := by
  refine ⟨?_, ?_, ?_⟩
  · intro k hk
    rcases traceEnqueue_mem hk with rfl | hk'
    · exact ⟨q, rfl⟩
    · exact h.keys k hk'
  · intro p hs hp
    have hne : p ≠ q := fun e => hq (e ▸ hp)
    rw [traceEnqueue_lookup_of_ne fun e => hne (hinj e)]
    exact h.stamp p hs hp
  · rw [traceEnqueue_dist]
    exact h.counts

omit [DecidableEq α] in
/-- It is there when the task begins to wait. -/
theorem Tells.stamp_self [Fintype α] (h : Tells args ids v w maps lost)
    (hsize : Fintype.card α ≤ B.startSize) {q : α} (hs : selects args ids q = true) (ts : U64) :
    (traceEnqueue args (ids q).tgid (ids q).pid ts maps).start.lookup (ids q).pid = some ts := by
  refine traceEnqueue_lookup_self ?_ (h.admits hsize q)
  simpa [selects] using hs

/-- A stamp for a task that did not wait; only this task may begin to wait. -/
theorem Tells.move_stamped [Fintype α] (h : Tells args ids v w maps lost)
    (hsize : Fintype.card α ≤ B.startSize) (hinj : Function.Injective fun p => (ids p).pid)
    (hcurr : v'.curr = v.curr) {q : α} (hq : ¬ v.Waits q)
    (hold : ∀ p, v'.Waits p → v.Waits p ∨ p = q) (ts now : U64) :
    Tells args ids v' (w.move v v' ts now) (traceEnqueue args (ids q).tgid (ids q).pid ts maps)
      lost := by
  have h₁ := h.stamp_idle hinj hq ts
  refine ⟨h₁.keys, ?_, ?_⟩
  · intro p hs hp
    show _ = if v'.Waits p then (if v.Waits p then w.since p else some ts) else Option.none
    rw [if_pos hp]
    by_cases hw : v.Waits p
    · rw [if_pos hw]
      exact h₁.stamp p hs hw
    · obtain rfl := (hold p hp).resolve_left hw
      rw [if_neg hw]
      exact h.stamp_self hsize hs ts
  · rw [Waits.move_ended_of_same hcurr]
    exact h₁.counts

omit [DecidableEq α] in
/-- The switch to a task that waited: its wait has ended and is counted. -/
theorem Tells.account_dist (h : Tells args ids v w maps lost) {next : α} (hnext : v.Waits next)
    (now : U64) {ends : List (Wait α)} (hends : ends = match w.since next with
      | .none => []
      | some t => [⟨next, v.curr, now - t⟩]) :
    (account args (ids v.curr) (ids next).tgid (ids next).pid now maps).dist =
      (counted args ids B ends).foldl BoundedMap.increment maps.dist := by
  rw [Runqlat.account_dist]
  by_cases hs : args.skips (ids next).tgid (ids next).pid = true
  · -- the tool does not look at the task
    have hsel : selects args ids next = false := by unfold selects; rw [hs]; rfl
    rw [if_pos hs, hends]
    cases w.since next with
    | none => rfl
    | some t => simp [counted, hsel]
  · have hsel : selects args ids next = true := by unfold selects; simpa using hs
    rw [if_neg hs, h.stamp next hsel hnext, hends]
    cases w.since next with
    | none => rfl
    | some t =>
        show (store (Wait.key args ids B ⟨next, v.curr, now - t⟩) maps).dist = _
        unfold store
        by_cases hr : (Wait.key args ids B ⟨next, v.curr, now - t⟩).inRange B = true
        · rw [if_pos hr]
          simp [counted, hsel, hr]
        · rw [if_neg hr]
          simp [counted, hsel, hr]

/-- The task that runs changes.  The one that has to go is stamped if it could go on. -/
theorem Tells.switch [Fintype α] (h : Tells args ids v w maps lost)
    (hsize : Fintype.card α ≤ B.startSize) (hinj : Function.Injective fun p => (ids p).pid)
    (hqueued : v'.queued = v.queued) (hne : v'.curr ≠ v.curr) (hnext : v.queued v'.curr = true)
    {ctx : Ctx} (hids : (ctx 1).ids = ids v.curr) (hctx : (ctx 2).ids = ids v'.curr)
    (hprev : v.queued v.curr = true → (ctx 1).state = TASK_RUNNING) (ts now : U64) :
    Tells args ids v' (w.move v v' ts now) (schedSwitch args ctx ts now maps)
      (lost ++ maps.dist.overflow (counted args ids B (w.ends v v' now))) := by
  have hwait : v.Waits v'.curr := ⟨hnext, hne.symm⟩
  have hprevWaits : ¬ v.Waits v.curr := fun hw => hw.2 rfl
  -- first the stamp of the task that goes, with the view in between
  obtain ⟨maps₁, hmaps₁⟩ : ∃ maps₁, maps₁ = if (ctx 1).state = TASK_RUNNING then
    traceEnqueue args (ids v.curr).tgid (ids v.curr).pid ts maps else maps := ⟨_, rfl⟩
  have h₁ : Tells args ids v w maps₁ lost := by
    rw [hmaps₁]
    split
    · exact h.stamp_idle hinj hprevWaits ts
    · exact h
  have hdist : maps₁.dist = maps.dist := by
    rw [hmaps₁]
    split
    · exact traceEnqueue_dist
    · rfl
  have hschedSwitch : schedSwitch args ctx ts now maps =
      Runqlat.account args (ids v.curr) (ids v'.curr).tgid (ids v'.curr).pid now maps₁ := by
    rw [hmaps₁, ← hids, ← hctx]
    rfl
  rw [hschedSwitch]
  refine ⟨fun k hk => h₁.keys k (account_mem hk), ?_, ?_⟩
  · intro p hs hp
    show _ = if v'.Waits p then (if v.Waits p then w.since p else some ts) else Option.none
    rw [if_pos hp, account_lookup_of_ne fun e => hp.2 (hinj e).symm]
    by_cases hw : v.Waits p
    · rw [if_pos hw]
      exact h₁.stamp p hs hw
    · have hq : v.queued p = true := by rw [← hqueued]; exact hp.1
      obtain rfl : v.curr = p := by
        by_contra hc
        exact hw ⟨hq, hc⟩
      rw [if_neg hw, hmaps₁, if_pos (hprev hq)]
      exact h.stamp_self hsize hs ts
  · have hends : w.ends v v' now = match w.since v'.curr with
        | .none => []
        | some t => [⟨v'.curr, v.curr, now - t⟩] := if_pos hwait
    rw [h₁.account_dist hwait now hends, ← hdist]
    exact h₁.counts.increments (w.ends v v' now)

end

/-! ### Steps of the scheduler -/

variable [Fintype α] {K : Kernel α} {m m' m₀ : Machine K} {e : Step α} {xs : List α}

/-- The run-queue of the machine. -/
def viewOf (m : Machine K) : View α := ⟨fun p => taskOnRqQueued (m.task p), m.cpu.rq.curr⟩

/-- The run-queue after a step up to the switch. -/
def beforeSwitch (m m' : Machine K) : View α := ⟨fun p => taskOnRqQueued (m'.task p), m.cpu.rq.curr⟩

/-- The task for which a step reaches `ttwu_do_wakeup` or the end of `wake_up_new_task`. -/
def wakes (m : Machine K) : Step α → Option α
  | .tryToWakeUp p state _ => if (m.task p).state &&& state = 0 then none else some p
  | .wakeUpNewTask p => some p
  | .schedule signalPending preemptActive toWakeup =>
      wakesLocal m signalPending preemptActive toWakeup
  | _ => none

/-- What the callers see to: a task assigns its own state only, a new task is as `sched_fork` left it, and
no task is preempted between the assignment of its state and `schedule`. -/
def Orderly (m : Machine K) : Step α → Prop
  | .setState p _ => p = m.cpu.rq.curr
  | .wakeUpNewTask p => (m.task p).state = TASK_RUNNING
  | .schedule _ preemptActive _ =>
      preemptActive = true → (m.task m.cpu.rq.curr).state = TASK_RUNNING
  | _ => True

/-- What a step finds outside: the readings of the clock in the probe of the wake-up and in that of the
switch, and what lies where there is no task. -/
structure Readings where
  wake : U64
  prev : U64
  now : U64
  junk : TaskFields

/-- An argument of a traced function: a task, the run-queue, or a number. -/
inductive Arg (α : Type) where
  | task (p : α)
  | rq
  | num

/-- The arguments as the probes read them after the step. -/
def ctxOf (ids : α → Ids) (m' : Machine K) (r : Readings) (passed : List (Arg α)) : Ctx := fun i =>
  match passed[i]? with
  | some (.task p) => ⟨ids p, (m'.task p).state⟩
  | _ => r.junk

/-- What the kernel passes on at a switch: to `finish_task_switch`, and to the tracepoint. -/
structure Protos (α : Type) where
  finishTaskSwitch : α → List (Arg α)
  schedSwitch : α → α → List (Arg α)

/-- `finish_task_switch(rq, prev)` and `trace_sched_switch(prev, next)`. -/
def Protos.ofKernel : Protos α where
  finishTaskSwitch prev := [.rq, .task prev]
  schedSwitch prev next := [.task prev, .task next]

/-- The tool finds the tasks where it looks for them. -/
structure Protos.Declared (protos : Protos α) : Prop where
  finishTaskSwitch : ∀ prev, (protos.finishTaskSwitch prev)[0]? = some (.task prev)
  schedSwitch : ∀ prev next, (protos.schedSwitch prev next)[1]? = some (.task prev) ∧
    (protos.schedSwitch prev next)[2]? = some (.task next)

omit [DecidableEq α] [Fintype α] in
/-- Attached to this kernel the probe of `finish_task_switch` takes the run-queue for a task. -/
theorem Protos.ofKernel_not_declared [Nonempty α] : ¬ (ofKernel : Protos α).Declared := by
  intro h
  obtain ⟨p⟩ := ‹Nonempty α›
  cases h.finishTaskSwitch p

/-- The tool: whether the tracing library supports raw tracepoints, and what the kernel passes on. -/
structure Attached (α : Type) where
  rawTp : Bool
  protos : Protos α

variable (args ids) (att : Attached α)

/-- The probe of a wake-up: `ttwu_do_wakeup(rq, p, wake_flags)` with `trace_sched_wakeup(p, true)`, or
`wake_up_new_task(p)` with `trace_sched_wakeup_new(p, true)`. -/
def wakeProbe (m' : Machine K) (e : Step α) (p : α) (r : Readings) : Maps B → Maps B :=
  match e, att.rawTp with
  | .wakeUpNewTask _, true => schedWakeupNew args (ctxOf ids m' r [.task p, .num]) r.wake
  | .wakeUpNewTask _, false => traceWakeUpNewTask args (ctxOf ids m' r [.task p]) r.wake
  | _, true => schedWakeup args (ctxOf ids m' r [.task p, .num]) r.wake
  | _, false => traceTtwuDoWakeup args (ctxOf ids m' r [.rq, .task p, .num]) r.wake

/-- The probe of the switch. -/
def switchProbe (m' : Machine K) (prev next : α) (r : Readings) : Maps B → Maps B :=
  if att.rawTp then
    schedSwitch args (ctxOf ids m' r (att.protos.schedSwitch prev next)) r.prev r.now
  else traceRun args (ctxOf ids m' r (att.protos.finishTaskSwitch prev)) (ids next) r.prev r.now

/-- The probe of a wake-up in a step, if there is one. -/
def probeWakes (m m' : Machine K) (e : Step α) (r : Readings) (maps : Maps B) : Maps B :=
  match wakes m e with
  | none => maps
  | some p => wakeProbe args ids att m' e p r maps

/-- The probes of a step. -/
def probe (m m' : Machine K) (e : Step α) (r : Readings) (maps : Maps B) : Maps B :=
  let maps := probeWakes args ids att m m' e r maps
  let prev := m.cpu.rq.curr
  let next := m'.cpu.rq.curr
  if next ≠ prev then switchProbe args ids att m' prev next r maps else maps

variable {args ids att}

theorem wakeProbe_eq (m' : Machine K) (e : Step α) (p : α) (r : Readings) (maps : Maps B) :
    wakeProbe args ids att m' e p r maps = traceEnqueue args (ids p).tgid (ids p).pid r.wake maps := by
  unfold wakeProbe
  cases att.rawTp <;> cases e <;> rfl

variable (args ids att) in
theorem probeWakes_dist (m m' : Machine K) (e : Step α) (r : Readings) (maps : Maps B) :
    (probeWakes args ids att m m' e r maps).dist = maps.dist := by
  unfold probeWakes
  split
  · rfl
  · rw [wakeProbe_eq, traceEnqueue_dist]

variable (args ids) in
/-- If the kernel passes what the tool expects, both probes of the switch are the one of the
tracepoint. -/
theorem switchProbe_eq (hp : att.protos.Declared) (m' : Machine K) (prev next : α) (r : Readings)
    (maps : Maps B) : ∃ ctx : Ctx, ctx 1 = ⟨ids prev, (m'.task prev).state⟩ ∧
      (ctx 2).ids = ids next ∧
      switchProbe args ids att m' prev next r maps = schedSwitch args ctx r.prev r.now maps := by
  have hctx : ∀ {passed : List (Arg α)} {i : ℕ} {p : α}, passed[i]? = some (.task p) →
      ctxOf ids m' r passed i = ⟨ids p, (m'.task p).state⟩ := by
    intro passed i p h
    unfold ctxOf
    rw [h]
  obtain ⟨hprev, hnext⟩ := hp.schedSwitch prev next
  refine ⟨ctxOf ids m' r (att.protos.schedSwitch prev next), hctx hprev, ?_, ?_⟩
  · rw [hctx hnext]
  · unfold switchProbe
    split
    · rfl
    · have hsame : ctxOf ids m' r (att.protos.finishTaskSwitch prev) 0 =
          ctxOf ids m' r (att.protos.schedSwitch prev next) 1 :=
        (hctx (hp.finishTaskSwitch prev)).trans (hctx hprev).symm
      have hrun := traceRun_eq_schedSwitch args hsame r.prev r.now maps
      rw [hctx hnext] at hrun
      exact hrun

/-- The waits up to the switch. -/
def followWakes (m m' : Machine K) (r : Readings) (w : Waits α) : Waits α :=
  w.move (viewOf m) (beforeSwitch m m') r.wake r.wake

/-- The waits of a step. -/
def follow (m m' : Machine K) (r : Readings) (w : Waits α) : Waits α :=
  (followWakes m m' r w).move (beforeSwitch m m') (viewOf m') r.prev r.now

/-- The waits that a step ends. -/
def followEnds (m m' : Machine K) (r : Readings) (w : Waits α) : List (Wait α) :=
  (followWakes m m' r w).ends (beforeSwitch m m') (viewOf m') r.now

/-! ### The main loop -/

/-- A line of the output: what was read of a counter, and how many waits had ended then since the counter
was cleared, and how many of them had found no counter. -/
structure Line where
  key : Key
  value : U64
  ended : ℕ
  lost : ℕ
deriving DecidableEq

/-- Where the main loop is: in `sleep`, in `dist.print_log2_hist` or in `dist.clear`. -/
inductive Phase where
  | sleep
  | print
  | clear
deriving DecidableEq

/-- A machine with the tool attached, the waits, and what the tool has printed.  Of the waits those are kept
that ended since their counter was cleared. -/
structure Watched (K : Kernel α) (B : Bpf) where
  machine : Machine K
  maps : Maps B
  waits : Waits α
  lost : List Key
  phase : Phase
  output : List Line

/-- The tool is loaded. -/
def Watched.load (m : Machine K) : Watched K B := ⟨m, .empty, .none, [], .sleep, []⟩

/-- A counter is read and printed. -/
def Watched.print (args : Args) (ids : α → Ids) (x : Watched K B) (key : Key) : Watched K B :=
  { x with output := x.output ++ [{
      key := key
      value := (x.maps.dist.lookup key).getD 0
      ended := (counted args ids B x.waits.ended).count key
      lost := x.lost.count key }] }

/-- A counter is cleared. -/
def Watched.clear (args : Args) (ids : α → Ids) (x : Watched K B) (key : Key) : Watched K B :=
  { x with
    maps := { x.maps with dist := x.maps.dist.delete key }
    waits := { x.waits with ended := x.waits.ended.filter fun w => w.key args ids B ≠ key }
    lost := x.lost.filter (· ≠ key) }

/-- The scheduler takes a step. -/
def Watched.step (args : Args) (ids : α → Ids) (att : Attached α) (x : Watched K B) (m' : Machine K)
    (e : Step α) (r : Readings) : Watched K B :=
  { x with
    machine := m'
    maps := probe args ids att x.machine m' e r x.maps
    waits := follow x.machine m' r x.waits
    lost := x.lost ++ x.maps.dist.overflow
      (counted args ids B (followEnds x.machine m' r x.waits)) }

/-- Who waits can run. -/
def Runnable (m : Machine K) : Prop := ∀ p, (viewOf m).Waits p → (m.task p).state = TASK_RUNNING

/-- A task that is woken up did not wait. -/
theorem not_waits_of_wakes (hrun : Runnable m) (he : e.Enabled m) {p : α} (h : wakes m e = some p) :
    ¬ (viewOf m).Waits p := by
  intro hw
  have hst := hrun p hw
  cases e with
  | tryToWakeUp q state wakeFlags =>
      change (if (m.task q).state &&& state = 0 then none else some q) = some p at h
      split at h
      · cases h
      · rename_i hne
        cases h
        rw [hst, TASK_RUNNING, Nat.zero_and] at hne
        exact hne rfl
  | wakeUpNewTask q =>
      cases h
      have hoff : taskOnRqQueued (m.task p) = false := he
      have hon : taskOnRqQueued (m.task p) = true := hw.1
      rw [hoff] at hon
      cases hon
  | schedule signalPending preemptActive toWakeup =>
      have hne := (wakesLocal_eq_some h).2
      rw [hst, TASK_RUNNING, Nat.zero_and] at hne
      exact hne rfl
  | _ => cases h

/-- What a step does to a task that does not run: it stays where it is, or it is woken up. -/
theorem places_other (ho : Orderly m e) {p : α} (hp : p ≠ m.cpu.rq.curr)
    (hq : (e.places m p).1 = true) : e.places m p = (m.task p).place ∨
      (wakes m e = some p ∧ (e.places m p).2 = TASK_RUNNING) := by
  have hset : ∀ {q : α} {a : Bool × ℕ}, p ≠ q →
      Function.update (placesOf m.task) q a p = (m.task p).place := fun h =>
    Function.update_of_ne h _ _
  cases e with
  | setState q state =>
      have hc : q = m.cpu.rq.curr := ho
      exact .inl (hset (hc ▸ hp))
  | tryToWakeUp q state wakeFlags =>
      have hpl : (Step.tryToWakeUp q state wakeFlags).places m = if (m.task q).state &&& state = 0 then
        placesOf m.task else Function.update (placesOf m.task) q (true, TASK_RUNNING) := rfl
      have hw : wakes m (.tryToWakeUp q state wakeFlags) =
        if (m.task q).state &&& state = 0 then none else some q := rfl
      rw [hpl, hw]
      split
      · exact .inl rfl
      · by_cases e : p = q
        · subst e
          exact .inr ⟨rfl, by rw [Function.update_self]⟩
        · exact .inl (hset e)
  | wakeUpNewTask q =>
      have hpl : (Step.wakeUpNewTask q).places m =
        Function.update (placesOf m.task) q (true, (m.task q).state) := rfl
      rw [hpl]
      by_cases e : p = q
      · subst e
        refine .inr ⟨rfl, ?_⟩
        rw [Function.update_self]
        exact ho
      · exact .inl (hset e)
  | fork q mm kthread =>
      have hpl : (Step.fork q mm kthread).places m =
        Function.update (placesOf m.task) q (false, TASK_RUNNING) := rfl
      rw [hpl] at hq ⊢
      refine .inl (hset ?_)
      rintro rfl
      rw [Function.update_self] at hq
      cases hq
  | schedule signalPending preemptActive toWakeup =>
      show (scheduled m signalPending preemptActive toWakeup p).place = _ ∨
        (wakesLocal m signalPending preemptActive toWakeup = some p ∧
          (scheduled m signalPending preemptActive toWakeup p).state = TASK_RUNNING)
      rw [scheduled_other hp]
      split
      · rename_i hw
        exact .inr ⟨hw, rfl⟩
      · exact .inl rfl
  | _ => exact .inl rfl

/-- Before the switch only the task that is woken up begins to wait, and who waits can run. -/
theorem beforeSwitch_waits (hrun : Runnable m) (ho : Orderly m e) (hpl : placesOf m'.task = e.places m)
    {p : α} (h : (beforeSwitch m m').Waits p) :
    ((viewOf m).Waits p ∨ wakes m e = some p) ∧ (m'.task p).state = TASK_RUNNING := by
  have hplace : (m'.task p).place = e.places m p := congrFun hpl p
  have hq : (e.places m p).1 = true := by rw [← hplace]; exact h.1
  have hst : (m'.task p).state = (e.places m p).2 := congrArg Prod.snd hplace
  rcases places_other ho h.2.symm hq with hsame | ⟨hw, hst'⟩
  · have hwaits : (viewOf m).Waits p := by
      rw [hsame] at hq
      exact ⟨hq, h.2⟩
    refine ⟨.inl hwaits, ?_⟩
    rw [hst, hsame]
    exact hrun p hwaits
  · exact ⟨.inr hw, hst.trans hst'⟩

/-- A task that is switched out and stays on the run-queue can run. -/
theorem prev_runnable (hinv : Inv m xs) (he : e.Enabled m) (ho : Orderly m e) {t : List (Event K)}
    (hends : e.prog.Ends m true m' t) (hne : m'.cpu.rq.curr ≠ m.cpu.rq.curr)
    (hq : taskOnRqQueued (m'.task m.cpu.rq.curr) = true) :
    (m'.task m.cpu.rq.curr).state = TASK_RUNNING := by
  cases hs : e.isSchedule with
  | false => exact absurd (((Step.prog_sameRq hinv he hs).ends hends).1 rfl).curr hne
  | true =>
      cases e with
      | schedule signalPending preemptActive toWakeup =>
          have hplace : (m'.task m.cpu.rq.curr).place =
              (scheduled m signalPending preemptActive toWakeup m.cpu.rq.curr).place :=
            congrFun (Step.prog_places _ _ _ _ hends rfl) m.cpu.rq.curr
          have hst : (m'.task m.cpu.rq.curr).state = _ := congrArg Prod.snd hplace
          have hqueued : taskOnRqQueued (m'.task m.cpu.rq.curr) = _ := congrArg Prod.fst hplace
          rw [hst]
          exact scheduled_prev ho (hqueued.symm.trans hq)
      | _ => cases hs

/-! ### Runs -/

/-- The line says how many waits had ended. -/
def Line.Exact (args : Args) (line : Line) : Prop :=
  line.value + BitVec.ofNat 64 line.lost = BitVec.ofNat 64 line.ended ∧ (args.plain → line.lost = 0)

/-- The tool tells the truth. -/
structure Faithful (args : Args) (ids : α → Ids) (x : Watched K B) : Prop where
  inv : ∃ xs, Inv x.machine xs
  runnable : Runnable x.machine
  tells : Tells args ids (viewOf x.machine) x.waits x.maps x.lost
  lines : ∀ line ∈ x.output, line.Exact args

section
variable {x : Watched K B}

omit [DecidableEq α] [Fintype α] in
theorem counted_clear (ws : List (Wait α)) (key : Key) :
    counted args ids B (ws.filter fun w => w.key args ids B ≠ key) =
      (counted args ids B ws).filter (· ≠ key) := by
  unfold counted
  simp only [List.filter_map, List.filter_filter]
  congr 1
  refine List.filter_congr ?_
  intro w _
  simp only [Function.comp_apply]
  ac_rfl

theorem Faithful.print (h : Faithful args ids x) (key : Key) :
    Faithful args ids (x.print args ids key) := by
  refine ⟨h.inv, h.runnable, h.tells, ?_⟩
  intro line hline
  rcases List.mem_append.mp hline with hold | hnew
  · exact h.lines line hold
  · obtain rfl := List.mem_singleton.mp hnew
    refine ⟨h.tells.counts.tally key, ?_⟩
    intro hplain
    show x.lost.count key = 0
    rw [(h.tells.counts.plain hplain).1]
    rfl

theorem Faithful.clear (h : Faithful args ids x) (key : Key) :
    Faithful args ids (x.clear args ids key) := by
  refine ⟨h.inv, h.runnable, ⟨h.tells.keys, h.tells.stamp, ?_, ?_⟩, h.lines⟩
  · show (x.maps.dist.delete key).Tally (counted args ids B (x.waits.ended.filter _)) _
    rw [counted_clear]
    exact h.tells.counts.tally.delete key
  · intro hplain
    obtain ⟨hlost, hkeys⟩ := h.tells.counts.plain hplain
    refine ⟨?_, fun k hk => hkeys k (BoundedMap.mem_delete hk)⟩
    show x.lost.filter _ = []
    rw [hlost]
    rfl

variable (att) in
/-- The probe of the wake-up keeps it up to the switch. -/
theorem Faithful.tells_wakes (h : Faithful args ids x) (hsize : Fintype.card α ≤ B.startSize)
    (hinj : Function.Injective fun p => (ids p).pid) (he : e.Enabled x.machine)
    (ho : Orderly x.machine e) (hpl : placesOf m'.task = e.places x.machine) (r : Readings) :
    Tells args ids (beforeSwitch x.machine m') (followWakes x.machine m' r x.waits)
      (probeWakes args ids att x.machine m' e r x.maps) x.lost := by
  have hbefore := fun p hp => (beforeSwitch_waits (p := p) h.runnable ho hpl hp).1
  have hcurr : (beforeSwitch x.machine m').curr = (viewOf x.machine).curr := rfl
  unfold probeWakes
  cases hw : wakes x.machine e with
  | none =>
      refine h.tells.move_still hcurr ?_ r.wake r.wake
      intro p hp
      refine (hbefore p hp).resolve_right ?_
      rw [hw]
      exact nofun
  | some q =>
      dsimp only
      rw [wakeProbe_eq]
      refine h.tells.move_stamped hsize hinj hcurr (not_waits_of_wakes h.runnable he hw) ?_ r.wake r.wake
      intro p hp
      refine (hbefore p hp).imp_right ?_
      intro hp'
      rw [hw] at hp'
      exact (Option.some_inj.mp hp').symm

/-- **Every step keeps it**: the probe of the wake-up comes before that of the switch. -/
theorem Faithful.step (h : Faithful args ids x) (hp : att.protos.Declared)
    (hsize : Fintype.card α ≤ B.startSize) (hinj : Function.Injective fun p => (ids p).pid)
    (he : e.Enabled x.machine) (ho : Orderly x.machine e) {t : List (Event K)}
    (hends : e.prog.Ends x.machine true m' t) (r : Readings) :
    Faithful args ids (x.step args ids att m' e r) := by
  obtain ⟨xs, hinv⟩ := h.inv
  have hpl : placesOf m'.task = e.places x.machine := Step.prog_places e _ _ _ hends rfl
  have hinv' : Inv m' _ := ((Step.prog_spec hinv he).ends hends).1 rfl
  have hqueued : (viewOf m').queued = (beforeSwitch x.machine m').queued := rfl
  refine ⟨⟨_, hinv'⟩, ?_, ?_, h.lines⟩
  · intro p hp
    by_cases hc : x.machine.cpu.rq.curr = p
    · subst hc
      exact prev_runnable hinv he ho hends hp.2 hp.1
    · exact (beforeSwitch_waits h.runnable ho hpl ⟨hp.1, hc⟩).2
  have h₁ := h.tells_wakes att hsize hinj he ho hpl r
  have hdist := probeWakes_dist args ids att x.machine m' e r x.maps
  show Tells args ids (viewOf m') (follow x.machine m' r x.waits)
    (probe args ids att x.machine m' e r x.maps)
    (x.lost ++ x.maps.dist.overflow (counted args ids B (followEnds x.machine m' r x.waits)))
  unfold probe
  rw [← hdist]
  by_cases hne : m'.cpu.rq.curr ≠ x.machine.cpu.rq.curr
  · obtain ⟨ctx, hprev, hnext, heq⟩ := switchProbe_eq args ids hp m' x.machine.cpu.rq.curr
      m'.cpu.rq.curr r (probeWakes args ids att x.machine m' e r x.maps)
    rw [if_pos hne, heq]
    refine h₁.switch hsize hinj hqueued hne ?_ ?_ hnext ?_ r.prev r.now
    · exact hinv'.running
    · rw [hprev]
      rfl
    · rw [hprev]
      exact prev_runnable hinv he ho hends hne
  · rw [if_neg hne]
    rw [not_not] at hne
    have hstill : followEnds x.machine m' r x.waits = [] := if_neg fun hw => hw.2 hne.symm
    rw [hstill]
    show Tells args ids _ _ _ (x.lost ++ [])
    rw [List.append_nil]
    refine h₁.move_still hne ?_ r.prev r.now
    intro p hp
    refine ⟨hp.1, ?_⟩
    show x.machine.cpu.rq.curr ≠ p
    rw [← hne]
    exact hp.2

end

end KernelHacking.Runqlat
