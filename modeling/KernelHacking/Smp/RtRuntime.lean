import KernelHacking.Lib.Ledger
import KernelHacking.Sched.Types

/-! # Borrowing real-time runtime between CPUs

The part of `rt.c` that exists with `CONFIG_SMP` only: a CPU whose real-time tasks have used up its
runtime takes some from the other CPUs of its root domain (`do_balance_runtime`), and a CPU that
leaves the domain takes back what it lent, or hands over what it borrowed (`__disable_runtime`).

The CPUs run concurrently, so an action is what one CPU does between two lock operations.  A run
of `rq->lock` of CPU `i` is the program counter `pc i`: whoever holds that lock works on run-queue
`i`.  At most one of them is inside `def_rt_bandwidth.rt_runtime_lock`.  The masks are read while
the loops run: the loop over `rd->span` goes over all CPU numbers and tests each when it gets
there.  `CONFIG_RT_GROUP_SCHED` is off, `scheduler_running` is set, and the bandwidth settings do
not change. -/

namespace KernelHacking.Smp

open Word KernelHacking.Sched

/-- `def_rt_bandwidth` and `sched_feat(RT_RUNTIME_SHARE)`. -/
structure RtBandwidth where
  rtPeriod : U64
  rtRuntime : U64
  rtRuntimeShare : Bool
deriving DecidableEq, Repr

/-- `struct rt_rq`, what the bandwidth code reads and writes of it. -/
structure RtRq where
  rtTime : U64
  rtRuntime : U64
  rtThrottled : Bool
deriving DecidableEq, Repr

/-- Who called `balance_runtime`. -/
inductive Caller where
  | exceeded
  | periodTimer (overrun : ℕ)
deriving DecidableEq, Repr

/-- What the holder of a `rq->lock` is doing. -/
inductive Pc (n : ℕ) (δ : Type) where
  /-- nobody holds the lock -/
  | free
  /-- `balance_runtime` has dropped `rt_rq->rt_runtime_lock` and wants the lock of `rt_b` -/
  | waiting (caller : Caller) (weight : ℕ)
  | balancing (caller : Caller) (weight : ℕ) (rest : List (Fin n)) (more : Bool)
  | returning (caller : Caller) (more : Bool)
  /-- the loop of `__disable_runtime`; `rq_attach_root` goes on afterwards if a domain is given -/
  | disabling (rd : Option δ) (rest : List (Fin n)) (want : U64)
  | attaching (rd : δ)
  | onlining
deriving DecidableEq, Repr

/-- The program counters inside `rt_b->rt_runtime_lock`. -/
def Pc.locked {n : ℕ} {δ : Type} : Pc n δ → Bool
  | .balancing .. => true
  | .disabling .. => true
  | _ => false

/-- The program counters inside the loop of `__disable_runtime`. -/
def Pc.reclaiming {n : ℕ} {δ : Type} : Pc n δ → Bool
  | .disabling .. => true
  | _ => false

structure State (n : ℕ) (δ : Type) where
  rq : Fin n → RtRq
  pc : Fin n → Pc n δ
  rd : Fin n → δ
  online : Fin n → Bool
  /-- `BUG_ON(want)` has fired -/
  bug : Bool

variable {n : ℕ} {δ : Type} [DecidableEq δ]

/-- `cpumask_test_cpu(j, rq_i->rd->span)`. -/
def State.inSpan (s : State n δ) (i j : Fin n) : Bool := decide (s.rd j = s.rd i)

/-- `cpumask_weight(rd->span)`. -/
def State.weight (s : State n δ) (i : Fin n) : ℕ := (List.finRange n).countP (s.inSpan i)

def State.setRq (s : State n δ) (i : Fin n) (r : RtRq) : State n δ :=
  { s with rq := Function.update s.rq i r }

def State.setPc (s : State n δ) (i : Fin n) (p : Pc n δ) : State n δ :=
  { s with pc := Function.update s.pc i p }

section
omit [DecidableEq δ]
variable (s : State n δ) (i : Fin n) (r : RtRq) (p : Pc n δ)

@[simp] theorem State.setRq_pc : (s.setRq i r).pc = s.pc := rfl
@[simp] theorem State.setRq_rd : (s.setRq i r).rd = s.rd := rfl
@[simp] theorem State.setRq_online : (s.setRq i r).online = s.online := rfl
@[simp] theorem State.setRq_bug : (s.setRq i r).bug = s.bug := rfl
@[simp] theorem State.setPc_rq : (s.setPc i p).rq = s.rq := rfl
@[simp] theorem State.setPc_rd : (s.setPc i p).rd = s.rd := rfl
@[simp] theorem State.setPc_online : (s.setPc i p).online = s.online := rfl
@[simp] theorem State.setPc_bug : (s.setPc i p).bug = s.bug := rfl

@[simp] theorem State.setRq_rq_self : (s.setRq i r).rq i = r := Function.update_self ..
@[simp] theorem State.setPc_pc_self : (s.setPc i p).pc i = p := Function.update_self ..

@[simp] theorem State.setRq_rq_of_ne {k : Fin n} (hk : k ≠ i) : (s.setRq i r).rq k = s.rq k :=
  Function.update_of_ne hk _ _

@[simp] theorem State.setPc_pc_of_ne {k : Fin n} (hk : k ≠ i) : (s.setPc i p).pc k = s.pc k :=
  Function.update_of_ne hk _ _

end

/-- Nobody holds `rt_b->rt_runtime_lock`. -/
def State.unlocked (s : State n δ) : Bool := (List.finRange n).all fun i => !(s.pc i).locked

/-! ### `do_balance_runtime` -/

/-- The part of its spare time `iter` gives away. -/
def balanceDiff (b : RtBandwidth) (weight : ℕ) (rtRq iter : RtRq) : U64 :=
  let diff := (iter.rtRuntime - iter.rtTime) / BitVec.ofNat 64 weight
  if b.rtPeriod < rtRq.rtRuntime + diff then b.rtPeriod - rtRq.rtRuntime else diff

/-- One pass of the loop of `do_balance_runtime` for run-queue `i`. -/
def doBalanceRuntime (b : RtBandwidth) (s : State n δ) (i : Fin n) (caller : Caller) (weight : ℕ)
    (rest : List (Fin n)) (more : Bool) : State n δ :=
  match rest with
  | [] => s.setPc i (.returning caller more)
  | j :: rest =>
    if j = i ∨ s.inSpan i j = false ∨ (s.rq j).rtRuntime = RUNTIME_INF then
      s.setPc i (.balancing caller weight rest more)
    else if 0 < ((s.rq j).rtRuntime - (s.rq j).rtTime).toInt then
      let diff := balanceDiff b weight (s.rq i) (s.rq j)
      let iter := { s.rq j with rtRuntime := (s.rq j).rtRuntime - diff }
      let rtRq := { s.rq i with rtRuntime := (s.rq i).rtRuntime + diff }
      let s := (s.setRq j iter).setRq i rtRq
      if rtRq.rtRuntime = b.rtPeriod then s.setPc i (.returning caller true)
      else s.setPc i (.balancing caller weight rest true)
    else s.setPc i (.balancing caller weight rest more)

/-! ### `__disable_runtime` and `__enable_runtime` -/

/-- From the label `balanced` on, and the end of `set_rq_offline`. -/
def balanced (s : State n δ) (i : Fin n) (rd : Option δ) : State n δ :=
  let s := s.setRq i { s.rq i with rtRuntime := RUNTIME_INF, rtThrottled := false }
  let s := { s with online := Function.update s.online i false }
  match rd with
  | none => s.setPc i .free
  | some d => s.setPc i (.attaching d)

/-- `__disable_runtime` up to its loop. -/
def __disableRuntime (b : RtBandwidth) (s : State n δ) (i : Fin n) (rd : Option δ) : State n δ :=
  if (s.rq i).rtRuntime = RUNTIME_INF ∨ (s.rq i).rtRuntime = b.rtRuntime then balanced s i rd
  else s.setPc i (.disabling rd (List.finRange n) (b.rtRuntime - (s.rq i).rtRuntime))

/-- `min_t(s64, a, b)`. -/
def minS64 (a b : U64) : U64 := if a.toInt < b.toInt then a else b

/-- What one pass of the loop of `__disable_runtime` takes from `iter`. -/
def reclaimDiff (want : U64) (iter : RtRq) : U64 :=
  if 0 < want.toInt then minS64 iter.rtRuntime want else want

/-- One pass of the loop of `__disable_runtime` for run-queue `i`. -/
def reclaim (s : State n δ) (i : Fin n) (rd : Option δ) (rest : List (Fin n)) (want : U64) :
    State n δ :=
  match rest with
  | [] => { s with bug := true }
  | j :: rest =>
    if j = i ∨ (s.rq j).rtRuntime = RUNTIME_INF ∨ s.inSpan i j = false then
      s.setPc i (.disabling rd rest want)
    else
      let diff := reclaimDiff want (s.rq j)
      let s := s.setRq j { s.rq j with rtRuntime := (s.rq j).rtRuntime - diff }
      let want := want - diff
      if want = 0 then balanced s i rd else s.setPc i (.disabling rd rest want)

/-- `__enable_runtime`, and the rest of `set_rq_online`. -/
def __enableRuntime (b : RtBandwidth) (s : State n δ) (i : Fin n) : State n δ :=
  let s := s.setRq i { rtTime := 0, rtRuntime := b.rtRuntime, rtThrottled := false }
  { s with online := Function.update s.online i true }.setPc i .free

/-! ### The callers of `balance_runtime` -/

/-- `sched_rt_runtime_exceeded` after `balance_runtime`. -/
def exceededEnd (b : RtBandwidth) (r : RtRq) : RtRq :=
  if r.rtRuntime = RUNTIME_INF then r
  else if r.rtRuntime < r.rtTime then
    if b.rtRuntime ≠ 0 then { r with rtThrottled := true } else { r with rtTime := 0 }
  else r

/-- `do_sched_rt_period_timer` for one run-queue after `balance_runtime`. -/
def periodTimerEnd (overrun : ℕ) (r : RtRq) : RtRq :=
  let replenish := BitVec.ofNat 64 overrun * r.rtRuntime
  let rtTime := r.rtTime - (if r.rtTime < replenish then r.rtTime else replenish)
  if r.rtThrottled ∧ rtTime < r.rtRuntime then { r with rtTime := rtTime, rtThrottled := false }
  else { r with rtTime := rtTime }

def callerEnd (b : RtBandwidth) (caller : Caller) (r : RtRq) : RtRq :=
  match caller with
  | .exceeded => exceededEnd b r
  | .periodTimer overrun => periodTimerEnd overrun r

/-- `balance_runtime` on run-queue `i`, up to the point where it wants the lock. -/
def balanceRuntime (b : RtBandwidth) (s : State n δ) (i : Fin n) (caller : Caller) : State n δ :=
  if b.rtRuntimeShare ∧ (s.rq i).rtRuntime < (s.rq i).rtTime then
    s.setPc i (.waiting caller (s.weight i))
  else s.setRq i (callerEnd b caller (s.rq i))

/-- `update_curr_rt` charging `delta` to run-queue `i`. -/
def updateCurrRt (b : RtBandwidth) (s : State n δ) (i : Fin n) (delta : U64) : State n δ :=
  if (s.rq i).rtRuntime = RUNTIME_INF then s
  else
    let s := s.setRq i { s.rq i with rtTime := (s.rq i).rtTime + delta }
    if (s.rq i).rtThrottled then s
    else if b.rtPeriod ≤ (s.rq i).rtRuntime then s
    else balanceRuntime b s i .exceeded

/-- `do_sched_rt_period_timer` on run-queue `i`. -/
def doSchedRtPeriodTimer (b : RtBandwidth) (s : State n δ) (i : Fin n) (overrun : ℕ) : State n δ :=
  if (s.rq i).rtTime = 0 then s
  else if (s.rq i).rtThrottled then balanceRuntime b s i (.periodTimer overrun)
  else s.setRq i (periodTimerEnd overrun (s.rq i))

/-! ### Runs -/

/-- What a CPU can do next. -/
inductive Act (n : ℕ) (δ : Type) where
  | updateCurrRt (i : Fin n) (delta : U64)
  | periodTimer (i : Fin n) (overrun : ℕ)
  /-- the lock of `rt_b` is granted to `do_balance_runtime` -/
  | lock (i : Fin n)
  /-- one pass of the loop of the holder of the lock -/
  | loop (i : Fin n)
  /-- back in the caller of `balance_runtime` -/
  | resume (i : Fin n)
  /-- `set_rq_offline` when the CPU is going down -/
  | setRqOffline (i : Fin n)
  /-- `rq_attach_root` -/
  | rqAttachRoot (i : Fin n) (rd : δ)
  /-- the new domain is set; the CPU may be in `cpu_active_mask` -/
  | attach (i : Fin n) (active : Bool)
  /-- `set_rq_online` -/
  | setRqOnline (i : Fin n)
deriving DecidableEq, Repr

/-- The machine takes an action, `none` if it cannot.  A charge keeps `rt_time` below `2 ^ 63`: it
counts nanoseconds that have passed since the machine was started. -/
def step (b : RtBandwidth) (s : State n δ) (a : Act n δ) : Option (State n δ) :=
  if s.bug then none
  else match a with
  | .updateCurrRt i delta =>
    if s.pc i = .free ∧ (s.rq i).rtTime.toNat + delta.toNat < 2 ^ 63 then
      some (updateCurrRt b s i delta)
    else none
  | .periodTimer i overrun =>
    if s.pc i = .free then some (doSchedRtPeriodTimer b s i overrun) else none
  | .lock i =>
    match s.pc i with
    | .waiting caller weight =>
      if s.unlocked then some (s.setPc i (.balancing caller weight (List.finRange n) false))
      else none
    | _ => none
  | .loop i =>
    match s.pc i with
    | .balancing caller weight rest more => some (doBalanceRuntime b s i caller weight rest more)
    | .disabling rd rest want => some (reclaim s i rd rest want)
    | _ => none
  | .resume i =>
    match s.pc i with
    | .returning caller _ => some ((s.setRq i (callerEnd b caller (s.rq i))).setPc i .free)
    | _ => none
  | .setRqOffline i =>
    if s.pc i = .free ∧ s.online i ∧ s.unlocked then some (__disableRuntime b s i none) else none
  | .rqAttachRoot i rd =>
    if s.pc i = .free then
      if s.online i then
        if s.unlocked then some (__disableRuntime b s i (some rd)) else none
      else some (s.setPc i (.attaching rd))
    else none
  | .attach i active =>
    match s.pc i with
    | .attaching rd =>
      some ({ s with rd := Function.update s.rd i rd }.setPc i (if active then .onlining else .free))
    | _ => none
  | .setRqOnline i =>
    if (s.pc i = .onlining ∨ (s.pc i = .free ∧ s.online i = false)) ∧ s.unlocked then
      some (__enableRuntime b s i)
    else none

/-- A run, as the actions taken in order. -/
def run (b : RtBandwidth) (s : State n δ) : List (Act n δ) → Option (State n δ)
  | [] => some s
  | a :: as => (step b s a).bind fun s => run b s as

end KernelHacking.Smp
