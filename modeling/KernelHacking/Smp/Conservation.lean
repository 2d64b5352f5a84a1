import KernelHacking.Smp.RuntimeInv

/-! # No runtime is lost or made

The runtime that the enabled CPUs of a root domain may use always adds up to `rt_runtime` times
their number, whatever the interleaving of borrowing, charging, replenishing, hotplug and moves
between domains, so the `BUG_ON(want)` of `__disable_runtime` ("we cannot be left wanting") cannot
fire: **`runtime_conserved`**.  And whoever is inside can always come to an end:
**`bandwidth_settles`**. -/

namespace KernelHacking.Smp

open Word KernelHacking.Sched

variable {n : ℕ} {δ : Type} [DecidableEq δ] {b : RtBandwidth} {s s' : State n δ} {i : Fin n}

/-- The CPUs of a domain whose runtime is not disabled. -/
def State.enabled (s : State n δ) (d : δ) : Finset (Fin n) :=
  Finset.univ.filter fun i => s.rd i = d ∧ (s.rq i).rtRuntime ≠ RUNTIME_INF

theorem Inv.conserved (h : Inv b s) {d : δ}
    (hd : ∀ i, s.rd i = d → (s.pc i).reclaiming = false) :
    ∑ i ∈ s.enabled d, (s.rq i).rtRuntime.toNat = (s.enabled d).card * b.rtRuntime.toNat := by
  have hbooks := h.books d
  have hentry : ∀ i ∈ Finset.univ.filter (fun i => s.rd i = d),
      entry b s i = surplus b (s.rq i).rtRuntime := by
    intro i hi
    have hpc := hd i (Finset.mem_filter.1 hi).2
    refine entry_of_not_disabling fun rd rest want hc => ?_
    rw [hc] at hpc
    cases hpc
  rw [Finset.sum_congr rfl hentry] at hbooks
  have hsplit : ∑ i with s.rd i = d, surplus b (s.rq i).rtRuntime =
      ∑ i ∈ s.enabled d, (((s.rq i).rtRuntime.toNat : ℤ) - b.rtRuntime.toNat) := by
    unfold State.enabled
    rw [← Finset.filter_filter, Finset.sum_filter (fun i => (s.rq i).rtRuntime ≠ RUNTIME_INF)]
    refine Finset.sum_congr rfl fun i _ => ?_
    by_cases hi : (s.rq i).rtRuntime = RUNTIME_INF
    · rw [hi, surplus_inf, if_neg (by simp)]
    · rw [surplus_of_ne hi, if_pos hi]
  rw [hsplit, Finset.sum_sub_distrib, Finset.sum_const, nsmul_eq_mul] at hbooks
  have hcast : ((∑ i ∈ s.enabled d, (s.rq i).rtRuntime.toNat : ℕ) : ℤ) =
      ((s.enabled d).card * b.rtRuntime.toNat : ℕ) := by
    push_cast
    linarith
  exact_mod_cast hcast

/-- **Runtime is neither lost nor made.**  In every state of every run from rest, `BUG_ON(want)` has
not fired, and in a domain none of whose CPUs is just being disabled the runtimes add up to one
share for each enabled CPU. -/
theorem runtime_conserved (hb : b.Fits n) {s₀ : State n δ} (hrest : Rest b s₀)
    (as : List (Act n δ)) (hr : run b s₀ as = some s) :
    s.bug = false ∧ ∀ d, (∀ i, s.rd i = d → (s.pc i).reclaiming = false) →
      ∑ i ∈ s.enabled d, (s.rq i).rtRuntime.toNat = (s.enabled d).card * b.rtRuntime.toNat := by
  have h := run_inv hb as hrest.inv hr
  exact ⟨h.bug, fun d hd => h.conserved hd⟩

/-- Two CPUs of one domain, with 95 of 100 ns each. -/
def twoCpus : State 2 Unit where
  rq _ := { rtTime := 0, rtRuntime := 95, rtThrottled := false }
  pc _ := .free
  rd _ := ()
  online _ := true
  bug := false

/-- CPU 0 runs for 96 ns and borrows. -/
def borrowing : List (Act 2 Unit) := [.updateCurrRt 0 96, .lock 0, .loop 0, .loop 0, .resume 0]

def smallBandwidth : RtBandwidth where
  rtPeriod := 100
  rtRuntime := 95
  rtRuntimeShare := true

theorem smallBandwidth_fits : smallBandwidth.Fits 2 := by
  unfold RtBandwidth.Fits
  decide

theorem twoCpus_rest : Rest smallBandwidth twoCpus where
  bug := rfl
  free _ := rfl
  time _ := show (0 : U64).toNat < 2 ^ 63 by decide
  offline _ h := by cases h
  runtime _ := Or.inl rfl
  unthrottled _ _ := rfl

theorem runtime_conserved_borrowing :
    ∃ s, run smallBandwidth twoCpus borrowing = some s ∧ (s.rq 0).rtRuntime = 100 ∧
      (s.rq 1).rtRuntime = 90 ∧
      ∑ i ∈ s.enabled (), (s.rq i).rtRuntime.toNat = (s.enabled ()).card * 95 := by
  refine ⟨_, rfl, by decide, by decide, ?_⟩
  exact (runtime_conserved smallBandwidth_fits twoCpus_rest borrowing rfl).2 () (by decide)

/-- The hypothesis on the CPUs that are down is needed.  `sched_init` gives every possible CPU its
share; if CPU 0 borrows from CPU 1 before that comes up, `__enable_runtime` makes the runtime anew,
and CPU 0 is left with a surplus nobody takes. -/
example : (run smallBandwidth { twoCpus with online := fun i => decide (i = 0) }
    (borrowing ++ [.setRqOnline 1, .setRqOffline 1, .rqAttachRoot 0 (), .loop 0, .loop 0,
      .loop 0])).map State.bug = some true := by
  decide

/-! ### Nobody waits for ever -/

/-- How many actions of its own CPU `i` is away from releasing `rq->lock`, at most. -/
def Pc.pending : Pc n δ → ℕ
  | .free => 0
  | .waiting _ _ => n + 3
  | .balancing _ _ rest _ => rest.length + 2
  | .returning _ _ => 1
  | .disabling _ rest _ => rest.length + 3
  | .attaching _ => 2
  | .onlining => 1

/-- The CPU that acts. -/
def Act.cpu : Act n δ → Fin n
  | .updateCurrRt i _ => i
  | .periodTimer i _ => i
  | .lock i => i
  | .loop i => i
  | .resume i => i
  | .setRqOffline i => i
  | .rqAttachRoot i _ => i
  | .attach i _ => i
  | .setRqOnline i => i

/-- The actions carry on what is under way: each of them is one of a CPU that is inside. -/
def CarryOn (b : RtBandwidth) (s : State n δ) : List (Act n δ) → Prop
  | [] => True
  | a :: as => s.pc a.cpu ≠ .free ∧ ∀ s', step b s a = some s' → CarryOn b s' as

def State.pending (s : State n δ) : ℕ := ∑ i, (s.pc i).pending

omit [DecidableEq δ] in
theorem pending_lt (hpc : ∀ k, k ≠ i → s'.pc k = s.pc k)
    (hi : (s'.pc i).pending < (s.pc i).pending) : s'.pending < s.pending := by
  refine Finset.sum_lt_sum (fun k _ => ?_) ⟨i, Finset.mem_univ i, hi⟩
  by_cases hk : k = i
  · subst hk; exact hi.le
  · rw [hpc k hk]

omit [DecidableEq δ] in
theorem balanced_pc (s : State n δ) (i : Fin n) (rd : Option δ) :
    (∀ k, k ≠ i → (balanced s i rd).pc k = s.pc k) ∧ ((balanced s i rd).pc i).pending ≤ 2 := by
  cases rd with
  | none =>
    refine ⟨fun k hk => State.setPc_pc_of_ne _ _ _ hk, ?_⟩
    show ((State.setPc _ i .free).pc i).pending ≤ 2
    rw [State.setPc_pc_self]
    exact Nat.zero_le _
  | some d =>
    refine ⟨fun k hk => State.setPc_pc_of_ne _ _ _ hk, ?_⟩
    show ((State.setPc _ i (.attaching d)).pc i).pending ≤ 2
    rw [State.setPc_pc_self]
    exact le_rfl

theorem doBalanceRuntime_pending {caller : Caller} {weight : ℕ} {rest : List (Fin n)} {more : Bool}
    (hpc : s.pc i = .balancing caller weight rest more) :
    (doBalanceRuntime b s i caller weight rest more).pending < s.pending := by
  have hset : ∀ (t : State n δ) (p : Pc n δ), t.pc = s.pc → p.pending < rest.length + 2 →
      (t.setPc i p).pending < s.pending := by
    intro t p ht hp
    refine pending_lt (i := i) (fun k hk => by rw [State.setPc_pc_of_ne _ _ _ hk, ht]) ?_
    rw [State.setPc_pc_self, hpc]
    exact hp
  unfold doBalanceRuntime
  cases rest with
  | nil => exact hset s _ rfl (by simp [Pc.pending])
  | cons j rest =>
    dsimp only
    split
    · exact hset s _ rfl (by simp [Pc.pending])
    · split
      · split
        · exact hset _ _ rfl (by simp [Pc.pending])
        · exact hset _ _ rfl (by simp [Pc.pending])
      · exact hset s _ rfl (by simp [Pc.pending])

theorem reclaim_pending {rd : Option δ} {j : Fin n} {rest : List (Fin n)} {want : U64}
    (hpc : s.pc i = .disabling rd (j :: rest) want) :
    (reclaim s i rd (j :: rest) want).pending < s.pending := by
  have hold : (s.pc i).pending = rest.length + 4 := by rw [hpc]; rfl
  unfold reclaim
  dsimp only
  split
  · refine pending_lt (i := i) (fun k hk => State.setPc_pc_of_ne _ _ _ hk) ?_
    rw [State.setPc_pc_self, hold]
    exact Nat.lt_succ_self _
  · split
    · obtain ⟨hk, hi⟩ := balanced_pc
        (s.setRq j { s.rq j with rtRuntime := (s.rq j).rtRuntime - reclaimDiff want (s.rq j) }) i rd
      refine pending_lt (i := i) hk (hi.trans_lt ?_)
      rw [hold]
      omega
    · refine pending_lt (i := i) (fun k hk => State.setPc_pc_of_ne _ _ _ hk) ?_
      rw [State.setPc_pc_self, hold]
      exact Nat.lt_succ_self _

/-- As long as a CPU is inside, some CPU can carry on, and comes closer to the end. -/
theorem Inv.carry_on (h : Inv b s) (hi : s.pc i ≠ .free) :
    ∃ a s', s.pc a.cpu ≠ .free ∧ step b s a = some s' ∧ s'.pending < s.pending := by
  have hbug : ¬ s.bug = true := by rw [h.bug]; simp
  by_cases hunl : s.unlocked = true
  · -- nobody is inside the lock, so CPU `i` itself can go on
    have hset : ∀ (t : State n δ) (p : Pc n δ), t.pc = s.pc → p.pending < (s.pc i).pending →
        (t.setPc i p).pending < s.pending := by
      intro t p ht hp
      refine pending_lt (i := i) (fun k hk => by rw [State.setPc_pc_of_ne _ _ _ hk, ht]) ?_
      rw [State.setPc_pc_self]
      exact hp
    have hl := unlocked_iff.1 hunl i
    cases hpc : s.pc i with
    | free => exact absurd hpc hi
    | waiting caller weight =>
      refine ⟨.lock i, _, hi, ?_, hset s (.balancing caller weight (List.finRange n) false) rfl ?_⟩
      · simp [step, hbug, hpc, hunl]
      · rw [hpc]; simp [Pc.pending]
    | balancing caller weight rest more => rw [hpc] at hl; cases hl
    | returning caller more =>
      refine ⟨.resume i, _, hi, ?_, hset (s.setRq i (callerEnd b caller (s.rq i))) .free rfl ?_⟩
      · simp [step, hbug, hpc]
      · rw [hpc]; exact Nat.zero_lt_one
    | disabling rd rest want => rw [hpc] at hl; cases hl
    | attaching rd =>
      refine ⟨.attach i false, _, hi, ?_,
        hset { s with rd := Function.update s.rd i rd } .free rfl ?_⟩
      · simp [step, hbug, hpc]
      · rw [hpc]; exact Nat.zero_lt_two
    | onlining =>
      refine ⟨.setRqOnline i, __enableRuntime b s i, hi, ?_, ?_⟩
      · simp [step, hbug, hpc, hunl]
      · refine hset _ .free rfl ?_
        rw [hpc]; exact Nat.zero_lt_one
  · -- the holder of the lock can go on
    obtain ⟨j, hj⟩ : ∃ j, (s.pc j).locked = true := by
      by_contra hc
      push Not at hc
      exact hunl (unlocked_iff.2 fun k => by simpa using hc k)
    have hinside : s.pc j ≠ .free := fun e => by rw [e] at hj; cases hj
    cases hpc : s.pc j with
    | balancing caller weight rest more =>
      exact ⟨.loop j, _, hinside, by simp [step, hbug, hpc], doBalanceRuntime_pending (b := b) hpc⟩
    | disabling rd rest want =>
      cases rest with
      | nil => exact absurd hpc h.not_left_wanting
      | cons k rest => exact ⟨.loop j, _, hinside, by simp [step, hbug, hpc], reclaim_pending hpc⟩
    | free => rw [hpc] at hj; cases hj
    | waiting caller weight => rw [hpc] at hj; cases hj
    | returning caller more => rw [hpc] at hj; cases hj
    | attaching rd => rw [hpc] at hj; cases hj
    | onlining => rw [hpc] at hj; cases hj

theorem Inv.settles (hb : b.Fits n) (h : Inv b s) : ∃ bs : List (Act n δ), ∃ s',
    CarryOn b s bs ∧ run b s bs = some s' ∧ ∀ i, s'.pc i = .free := by
  induction hm : s.pending using Nat.strong_induction_on generalizing s with
  | _ m ih =>
    by_cases hfree : ∀ i, s.pc i = .free
    · exact ⟨[], s, trivial, rfl, hfree⟩
    · push Not at hfree
      obtain ⟨i, hi⟩ := hfree
      obtain ⟨a, s₁, ha, hs, hlt⟩ := h.carry_on hi
      obtain ⟨bs, s', hbs, hr, hend⟩ := ih s₁.pending (by omega) (step_inv hb h hs) rfl
      refine ⟨a :: bs, s', ?_, ?_, hend⟩
      · refine ⟨ha, ?_⟩
        intro s₂ hs₂
        obtain rfl := Option.some_inj.mp (hs.symm.trans hs₂)
        exact hbs
      · show (step b s a).bind _ = _
        rw [hs]
        exact hr

/-- **The bandwidth code cannot lock up.**  From every state of every run, the CPUs that are inside
can all come to an end without starting anything new, and then the runtimes of every domain add up
again. -/
theorem bandwidth_settles (hb : b.Fits n) {s₀ : State n δ} (hrest : Rest b s₀)
    (as : List (Act n δ)) (hr : run b s₀ as = some s) :
    ∃ bs : List (Act n δ), ∃ s', CarryOn b s bs ∧ run b s bs = some s' ∧
      (∀ i, s'.pc i = .free) ∧ s'.bug = false ∧
      ∀ d, ∑ i ∈ s'.enabled d, (s'.rq i).rtRuntime.toNat =
        (s'.enabled d).card * b.rtRuntime.toNat := by
  have h := run_inv hb as hrest.inv hr
  obtain ⟨bs, s', hbs, hr', hend⟩ := h.settles hb
  have h' := run_inv hb bs h hr'
  refine ⟨bs, s', hbs, hr', hend, h'.bug, fun d => h'.conserved fun i _ => ?_⟩
  rw [hend i]
  rfl

/-- Both CPUs have used up their runtime at once and want the lock. -/
theorem bandwidth_settles_contention :
    ∃ s, run smallBandwidth twoCpus [.updateCurrRt 0 96, .updateCurrRt 1 97, .lock 1] = some s ∧
      ∃ bs : List (Act 2 Unit), ∃ s', CarryOn smallBandwidth s bs ∧
        run smallBandwidth s bs = some s' ∧ (∀ i, s'.pc i = .free) ∧ s'.bug = false ∧
        ∀ d, ∑ i ∈ s'.enabled d, (s'.rq i).rtRuntime.toNat = (s'.enabled d).card * 95 :=
  ⟨_, rfl, bandwidth_settles smallBandwidth_fits twoCpus_rest
    [.updateCurrRt 0 96, .updateCurrRt 1 97, .lock 1] rfl⟩

end KernelHacking.Smp
