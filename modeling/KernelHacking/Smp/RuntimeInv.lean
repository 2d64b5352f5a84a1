import KernelHacking.Smp.RtRuntime

/-! # The books of the borrowed runtime

The ledger has an entry for each CPU: the runtime it holds over its share, and for a CPU inside the
loop of `__disable_runtime`, what it still has to hand over.  The entries of every root domain add
up to zero, and every action of every CPU keeps it so (`step_inv`, `run_inv`). -/

namespace KernelHacking.Smp

open Word KernelHacking.Sched Ledger

variable {n : ℕ} {δ : Type} {b : RtBandwidth} {s s' : State n δ} {i j : Fin n}

/-! ### The arithmetic of one pass -/

theorem inf_toNat : RUNTIME_INF.toNat = 2 ^ 64 - 1 := by decide

theorem ne_inf_of_lt {x : U64} (h : x.toNat < 2 ^ 63) : x ≠ RUNTIME_INF := by
  rintro rfl
  rw [inf_toNat] at h
  omega

theorem toInt_of_lt {x : U64} (h : x.toNat < 2 ^ 63) : x.toInt = x.toNat :=
  BitVec.toInt_eq_toNat_of_lt (by omega)

/-- The difference of two values below `2 ^ 63`, read as `s64`. -/
theorem toInt_sub {x y : U64} (hx : x.toNat < 2 ^ 63) (hy : y.toNat < 2 ^ 63) :
    (x - y).toInt = x.toNat - y.toNat := by
  rw [BitVec.toInt_sub, toInt_of_lt hx, toInt_of_lt hy, Int.bmod_eq_of_le] <;> omega

/-- What `do_balance_runtime` moves leaves both sides in range, and nothing is lost. -/
theorem balanceDiff_spec (weight : ℕ) {r iter : RtRq}
    (hsum : r.rtRuntime.toNat + iter.rtRuntime.toNat < 2 ^ 63) (ht : iter.rtTime.toNat < 2 ^ 63)
    (hpos : 0 < (iter.rtRuntime - iter.rtTime).toInt) :
    (r.rtRuntime + balanceDiff b weight r iter).toNat +
      (iter.rtRuntime - balanceDiff b weight r iter).toNat =
        r.rtRuntime.toNat + iter.rtRuntime.toNat := by
  have hdiff := toInt_sub (x := iter.rtRuntime) (y := iter.rtTime) (by omega) ht
  have hspare : (iter.rtRuntime - iter.rtTime).toNat = iter.rtRuntime.toNat - iter.rtTime.toNat :=
    BitVec.toNat_sub_of_le (by rw [BitVec.le_def]; omega)
  set diff := (iter.rtRuntime - iter.rtTime) / BitVec.ofNat 64 weight with hd
  have hle : diff.toNat ≤ iter.rtRuntime.toNat := by
    rw [hd, BitVec.toNat_udiv, hspare]
    exact (Nat.div_le_self _ _).trans (Nat.sub_le _ _)
  have hadd : (r.rtRuntime + diff).toNat = r.rtRuntime.toNat + diff.toNat := by
    rw [BitVec.toNat_add, Nat.mod_eq_of_lt (by omega)]
  show (r.rtRuntime + (if b.rtPeriod < r.rtRuntime + diff then b.rtPeriod - r.rtRuntime else diff)).toNat +
    (iter.rtRuntime -
      (if b.rtPeriod < r.rtRuntime + diff then b.rtPeriod - r.rtRuntime else diff)).toNat = _
  split
  · rename_i hcap
    rw [BitVec.lt_def, hadd] at hcap
    -- the period may already be exceeded: then the surplus goes back to `iter`
    have hme : r.rtRuntime + (b.rtPeriod - r.rtRuntime) = b.rtPeriod := by
      rw [add_sub_cancel]
    have hother : (iter.rtRuntime - (b.rtPeriod - r.rtRuntime)).toNat =
        iter.rtRuntime.toNat + r.rtRuntime.toNat - b.rtPeriod.toNat := by
      have hsub : iter.rtRuntime - (b.rtPeriod - r.rtRuntime) =
          iter.rtRuntime + r.rtRuntime - b.rtPeriod := by
        rw [sub_sub_eq_add_sub]
      have hadd' : (iter.rtRuntime + r.rtRuntime).toNat =
          iter.rtRuntime.toNat + r.rtRuntime.toNat := by
        rw [BitVec.toNat_add, Nat.mod_eq_of_lt (by omega)]
      rw [hsub, BitVec.toNat_sub_of_le (by rw [BitVec.le_def]; omega), hadd']
    rw [hme, hother]
    omega
  · rw [hadd, BitVec.toNat_sub_of_le (by rw [BitVec.le_def]; omega)]
    omega

/-- What `__disable_runtime` takes from `iter` is taken off `want`; either nothing is wanted any
more, or `iter` has nothing left. -/
theorem reclaimDiff_spec (want : U64) {iter : RtRq} {B : ℤ} (hB : B < 2 ^ 63)
    (hr : iter.rtRuntime.toNat < 2 ^ 63)
    (hback : (iter.rtRuntime.toNat : ℤ) - want.toInt ≤ B) :
    ((iter.rtRuntime - reclaimDiff want iter).toNat : ℤ) - (want - reclaimDiff want iter).toInt =
        iter.rtRuntime.toNat - want.toInt ∧
      (want - reclaimDiff want iter = 0 ∨
        (0 < (want - reclaimDiff want iter).toInt ∧
          iter.rtRuntime - reclaimDiff want iter = 0)) := by
  have hri := toInt_of_lt hr
  unfold reclaimDiff minS64
  split
  · rename_i hpos
    split
    · rename_i hlt
      rw [hri] at hlt
      have hwant : want.toNat < 2 ^ 63 := by
        have := BitVec.toInt_eq_toNat_cond want
        omega
      have hdiff := toInt_sub hwant hr
      rw [toInt_of_lt hwant] at hlt ⊢
      refine ⟨?_, Or.inr ⟨?_, ?_⟩⟩
      · rw [BitVec.sub_self, hdiff]; simp
      · omega
      · exact BitVec.sub_self _
    · rename_i hge
      rw [hri] at hge
      have hwant : want.toNat < 2 ^ 63 := by
        have := BitVec.toInt_eq_toNat_cond want
        omega
      rw [toInt_of_lt hwant] at hge ⊢
      refine ⟨?_, Or.inl (BitVec.sub_self _)⟩
      rw [BitVec.sub_self, BitVec.toNat_sub_of_le (by rw [BitVec.le_def]; omega)]
      simp only [BitVec.toInt_zero]
      omega
  · rename_i hneg
    refine ⟨?_, Or.inl (BitVec.sub_self _)⟩
    rw [BitVec.sub_self]
    have hb : (iter.rtRuntime - want).toInt = _ := BitVec.toInt_sub
    rw [hri, Int.bmod_eq_of_le (by omega) (by omega)] at hb
    have hnn : 0 ≤ (iter.rtRuntime - want).toInt := by omega
    have hnat : ((iter.rtRuntime - want).toNat : ℤ) = (iter.rtRuntime - want).toInt := by
      have := BitVec.toInt_eq_toNat_cond (iter.rtRuntime - want)
      omega
    rw [hnat, hb]
    simp

/-! ### The invariant -/

/-- What a CPU with runtime `r` holds over its share. -/
def surplus (b : RtBandwidth) (r : U64) : ℤ :=
  if r = RUNTIME_INF then 0 else (r.toNat : ℤ) - b.rtRuntime.toNat

/-- What CPU `i` holds over its share; a CPU that is being disabled holds what it still wants back,
with the opposite sign. -/
def entry (b : RtBandwidth) (s : State n δ) (i : Fin n) : ℤ :=
  match s.pc i with
  | .disabling _ _ want => -want.toInt
  | _ => surplus b (s.rq i).rtRuntime

/-- What a program counter of CPU `i` says about the state. -/
def PcOk (b : RtBandwidth) (s : State n δ) (i : Fin n) : Pc n δ → Prop
  | .free => True
  | .waiting _ weight => 0 < weight ∧ (s.rq i).rtRuntime ≠ RUNTIME_INF
  | .balancing _ weight _ _ => 0 < weight ∧ (s.rq i).rtRuntime ≠ RUNTIME_INF
  | .returning _ _ => (s.rq i).rtRuntime ≠ RUNTIME_INF
  | .disabling _ rest want =>
    want ≠ 0 ∧ want.toInt ≤ b.rtRuntime.toNat ∧
      -- a neighbour that was passed has nothing left, unless it took the surplus
      ∀ j, j ∉ rest → j ≠ i → s.rd j = s.rd i → (s.rq j).rtRuntime ≠ RUNTIME_INF →
        0 < want.toInt ∧ (s.rq j).rtRuntime = 0
  | .attaching _ => (s.rq i).rtRuntime = RUNTIME_INF ∧ s.online i = false
  | .onlining => (s.rq i).rtRuntime = RUNTIME_INF ∧ s.online i = false

theorem surplus_inf : surplus b RUNTIME_INF = 0 := if_pos rfl

theorem surplus_share : surplus b b.rtRuntime = 0 := by
  unfold surplus
  rw [sub_self, ite_self]

theorem surplus_of_ne {r : U64} (h : r ≠ RUNTIME_INF) :
    surplus b r = (r.toNat : ℤ) - b.rtRuntime.toNat := if_neg h

theorem entry_of_disabling {rd : Option δ} {rest : List (Fin n)} {want : U64}
    (hpc : s.pc i = .disabling rd rest want) : entry b s i = -want.toInt := by
  unfold entry
  rw [hpc]

theorem entry_of_not_disabling (h : ∀ rd rest want, s.pc i ≠ .disabling rd rest want) :
    entry b s i = surplus b (s.rq i).rtRuntime := by
  unfold entry
  split
  · rename_i hpc; exact absurd hpc (h _ _ _)
  · rfl

theorem entry_of_unlocked (h : (s.pc i).locked = false) :
    entry b s i = surplus b (s.rq i).rtRuntime := by
  refine entry_of_not_disabling fun rd rest want hpc => ?_
  rw [hpc] at h
  cases h

theorem entry_congr (hpc : s'.pc i = s.pc i) (hr : (s'.rq i).rtRuntime = (s.rq i).rtRuntime) :
    entry b s' i = entry b s i := by
  unfold entry
  rw [hpc, hr]

theorem PcOk.congr {p : Pc n δ} (h : PcOk b s i p)
    (hr : ∀ k, (s'.rq k).rtRuntime = (s.rq k).rtRuntime) (hrd : s'.rd = s.rd)
    (hon : s'.online i = s.online i) : PcOk b s' i p := by
  unfold PcOk at h ⊢
  rw [hrd, hon]
  simp only [hr]
  exact h

/-- Outside the lock the program counter says nothing about the other CPUs. -/
theorem PcOk.congr_unlocked {p : Pc n δ} (h : PcOk b s i p) (hl : p.locked = false)
    (hr : (s'.rq i).rtRuntime = RUNTIME_INF ↔ (s.rq i).rtRuntime = RUNTIME_INF)
    (hon : s'.online i = s.online i) : PcOk b s' i p := by
  cases p with
  | free => trivial
  | waiting caller weight => exact ⟨h.1, fun hc => h.2 (hr.1 hc)⟩
  | balancing caller weight rest more => cases hl
  | returning caller more => exact fun hc => h (hr.1 hc)
  | disabling rd rest want => cases hl
  | attaching rd => exact ⟨hr.2 h.1, hon.trans h.2⟩
  | onlining => exact ⟨hr.2 h.1, hon.trans h.2⟩

/-- What `balanced` leaves: CPU `i` is disabled and down, nothing else has changed. -/
theorem balanced_spec (s : State n δ) (i : Fin n) (rd : Option δ) :
    (balanced s i rd).rq = Function.update s.rq i
        { s.rq i with rtRuntime := RUNTIME_INF, rtThrottled := false } ∧
      (balanced s i rd).online = Function.update s.online i false ∧
      (balanced s i rd).rd = s.rd ∧ (balanced s i rd).bug = s.bug ∧
      ∃ p : Pc n δ, (balanced s i rd).pc = Function.update s.pc i p ∧ p.locked = false ∧
        ∀ s' : State n δ, (s'.rq i).rtRuntime = RUNTIME_INF → s'.online i = false →
          PcOk b s' i p := by
  cases rd with
  | none => exact ⟨rfl, rfl, rfl, rfl, .free, rfl, rfl, fun _ _ _ => trivial⟩
  | some d => exact ⟨rfl, rfl, rfl, rfl, .attaching d, rfl, rfl, fun _ hr hon => ⟨hr, hon⟩⟩

/-- Only the runtime of CPU `j` changes. -/
theorem setRuntime_rtTime (s : State n δ) (j : Fin n) (r : U64) (k : Fin n) :
    ((s.setRq j { s.rq j with rtRuntime := r }).rq k).rtTime = (s.rq k).rtTime := by
  by_cases hk : k = j
  · subst hk; rw [State.setRq_rq_self]
  · rw [State.setRq_rq_of_ne _ _ _ hk]

theorem setRuntime_rtThrottled (s : State n δ) (j : Fin n) (r : U64) (k : Fin n) :
    ((s.setRq j { s.rq j with rtRuntime := r }).rq k).rtThrottled = (s.rq k).rtThrottled := by
  by_cases hk : k = j
  · subst hk; rw [State.setRq_rq_self]
  · rw [State.setRq_rq_of_ne _ _ _ hk]

theorem setRuntime_inf {r : U64} (hr : r ≠ RUNTIME_INF) (hj : (s.rq j).rtRuntime ≠ RUNTIME_INF)
    (k : Fin n) : ((s.setRq j { s.rq j with rtRuntime := r }).rq k).rtRuntime = RUNTIME_INF ↔
      (s.rq k).rtRuntime = RUNTIME_INF := by
  by_cases hk : k = j
  · subst hk
    rw [State.setRq_rq_self]
    exact iff_of_false hr hj
  · rw [State.setRq_rq_of_ne _ _ _ hk]

theorem unlocked_iff : s.unlocked = true ↔ ∀ i, (s.pc i).locked = false := by
  unfold State.unlocked
  simp

variable [DecidableEq δ]

structure Inv (b : RtBandwidth) (s : State n δ) : Prop where
  bug : s.bug = false
  holder : ∀ i j, (s.pc i).locked → (s.pc j).locked → i = j
  time : ∀ i, (s.rq i).rtTime.toNat < 2 ^ 63
  offline : ∀ i, s.online i = false → (s.rq i).rtRuntime = RUNTIME_INF
  unthrottled : ∀ i, (s.rq i).rtRuntime = RUNTIME_INF → (s.rq i).rtThrottled = false
  pcs : ∀ i, PcOk b s i (s.pc i)
  books : Balanced s.rd (entry b s)

/-- The runtimes of `n` CPUs add up to less than `2 ^ 63`. -/
def RtBandwidth.Fits (b : RtBandwidth) (n : ℕ) : Prop := n * b.rtRuntime.toNat < 2 ^ 63

theorem RtBandwidth.share_le (b : RtBandwidth) (i : Fin n) :
    b.rtRuntime.toNat ≤ n * b.rtRuntime.toNat :=
  Nat.le_mul_of_pos_left _ i.pos

/-- The machine at rest: nobody is inside the bandwidth code, every CPU has its share or is
disabled, and the CPUs that are down are disabled. -/
structure Rest (b : RtBandwidth) (s : State n δ) : Prop where
  bug : s.bug = false
  free : ∀ i, s.pc i = .free
  time : ∀ i, (s.rq i).rtTime.toNat < 2 ^ 63
  offline : ∀ i, s.online i = false → (s.rq i).rtRuntime = RUNTIME_INF
  runtime : ∀ i, (s.rq i).rtRuntime = b.rtRuntime ∨ (s.rq i).rtRuntime = RUNTIME_INF
  unthrottled : ∀ i, (s.rq i).rtRuntime = RUNTIME_INF → (s.rq i).rtThrottled = false

theorem Rest.inv (h : Rest b s) : Inv b s := by
  have hlocked : ∀ i, (s.pc i).locked = false := fun i => by rw [h.free i]; rfl
  refine ⟨h.bug, ?_, h.time, h.offline, h.unthrottled, ?_, ?_⟩
  · intro i j hi
    rw [hlocked i] at hi
    cases hi
  · intro i
    rw [h.free i]
    trivial
  · intro d
    refine Finset.sum_eq_zero fun i _ => ?_
    rw [entry_of_unlocked (hlocked i)]
    rcases h.runtime i with hr | hr
    · rw [hr, surplus_share]
    · rw [hr, surplus_inf]

/-! ### Bounds from the books -/

theorem Inv.entry_ge (h : Inv b s) (i : Fin n) : -(b.rtRuntime.toNat : ℤ) ≤ entry b s i := by
  have hok := h.pcs i
  unfold entry
  split
  · rename_i hpc
    rw [hpc] at hok
    have := hok.2.1
    omega
  · unfold surplus
    split <;> omega

theorem Inv.runtime_lt (h : Inv b s) (hb : b.Fits n)
    (hpc : ∀ rd rest want, s.pc i ≠ .disabling rd rest want)
    (hr : (s.rq i).rtRuntime ≠ RUNTIME_INF) : (s.rq i).rtRuntime.toNat < 2 ^ 63 := by
  have hle := h.books.entry_le (by positivity) h.entry_ge i
  rw [entry_of_not_disabling hpc, surplus_of_ne hr, Fintype.card_fin, sub_mul] at hle
  have hfit : ((n : ℤ) * b.rtRuntime.toNat) < 2 ^ 63 := by exact_mod_cast hb
  omega

theorem Inv.pair_lt (h : Inv b s) (hb : b.Fits n) (hij : i ≠ j) (hrd : s.rd i = s.rd j)
    (hpi : ∀ rd rest want, s.pc i ≠ .disabling rd rest want)
    (hpj : ∀ rd rest want, s.pc j ≠ .disabling rd rest want)
    (hri : (s.rq i).rtRuntime ≠ RUNTIME_INF) (hrj : (s.rq j).rtRuntime ≠ RUNTIME_INF) :
    (s.rq i).rtRuntime.toNat + (s.rq j).rtRuntime.toNat < 2 ^ 63 := by
  have hle := h.books.pair_le (by positivity) h.entry_ge hij hrd
  rw [entry_of_not_disabling hpi, entry_of_not_disabling hpj, surplus_of_ne hri,
    surplus_of_ne hrj, Fintype.card_fin, sub_mul] at hle
  have hfit : ((n : ℤ) * b.rtRuntime.toNat) < 2 ^ 63 := by exact_mod_cast hb
  omega

/-- Only the holder of the lock is inside a loop. -/
theorem Inv.not_disabling (h : Inv b s) (hi : (s.pc i).locked) (hij : j ≠ i) :
    ∀ rd rest want, s.pc j ≠ .disabling rd rest want := by
  intro rd rest want hpc
  exact hij (h.holder j i (by rw [hpc]; rfl) hi)

/-! ### What keeps the invariant -/

/-- A step of CPU `i` outside the lock: its runtime stays as it is. -/
theorem Inv.of_local (h : Inv b s) {r : RtRq} {p : Pc n δ}
    (hl : (s.pc i).locked = false) (hp : p.locked = false)
    (hr : r.rtRuntime = (s.rq i).rtRuntime) (ht : r.rtTime.toNat < 2 ^ 63)
    (hthr : r.rtRuntime = RUNTIME_INF → r.rtThrottled = false)
    (hok : PcOk b (s.setRq i r) i p) : Inv b ((s.setRq i r).setPc i p) := by
  have hrt : ∀ k, ((s.setRq i r).rq k).rtRuntime = (s.rq k).rtRuntime := by
    intro k
    by_cases hk : k = i
    · subst hk; rw [State.setRq_rq_self, hr]
    · rw [State.setRq_rq_of_ne _ _ _ hk]
  refine ⟨h.bug, ?_, ?_, ?_, ?_, ?_, ?_⟩
  · intro k l hkl hll
    have hk : k ≠ i := by rintro rfl; rw [State.setPc_pc_self, hp] at hkl; cases hkl
    have hl' : l ≠ i := by rintro rfl; rw [State.setPc_pc_self, hp] at hll; cases hll
    rw [State.setPc_pc_of_ne _ _ _ hk] at hkl
    rw [State.setPc_pc_of_ne _ _ _ hl'] at hll
    exact h.holder k l hkl hll
  · intro k
    by_cases hk : k = i
    · subst hk; simpa using ht
    · simpa [hk] using h.time k
  · intro k hk
    rw [State.setPc_rq, hrt]
    exact h.offline k hk
  · intro k
    by_cases hk : k = i
    · subst hk; simpa using hthr
    · simpa [hk] using h.unthrottled k
  · intro k
    by_cases hk : k = i
    · subst hk
      rw [State.setPc_pc_self]
      exact hok
    · rw [State.setPc_pc_of_ne _ _ _ hk]
      exact (h.pcs k).congr hrt rfl rfl
  · have hentry : entry b ((s.setRq i r).setPc i p) = entry b s := by
      funext k
      by_cases hk : k = i
      · subst hk
        rw [entry_of_unlocked (by rw [State.setPc_pc_self, hp]), entry_of_unlocked hl,
          State.setPc_rq, hrt]
      · exact entry_congr (State.setPc_pc_of_ne _ _ _ hk) (hrt k)
    rw [hentry]
    exact h.books

/-- A step of CPU `i` inside the lock: of the other CPUs only runtimes change, and none is enabled
or disabled. -/
theorem Inv.of_locked (h : Inv b s) (hown : (s.pc i).locked = true ∨ s.unlocked = true)
    (hbug : s'.bug = false) (hpc : ∀ k, k ≠ i → s'.pc k = s.pc k) (hrd : s'.rd = s.rd)
    (hon : ∀ k, k ≠ i → s'.online k = s.online k) (htime : ∀ k, (s'.rq k).rtTime.toNat < 2 ^ 63)
    (hinf : ∀ k, k ≠ i → ((s'.rq k).rtRuntime = RUNTIME_INF ↔ (s.rq k).rtRuntime = RUNTIME_INF))
    (hthr : ∀ k, k ≠ i → (s'.rq k).rtThrottled = (s.rq k).rtThrottled)
    (hoff : s'.online i = false → (s'.rq i).rtRuntime = RUNTIME_INF)
    (hthri : (s'.rq i).rtRuntime = RUNTIME_INF → (s'.rq i).rtThrottled = false)
    (hok : PcOk b s' i (s'.pc i)) (hbooks : Balanced s.rd (entry b s')) : Inv b s' := by
  have hothers : ∀ k, k ≠ i → (s.pc k).locked = false := by
    intro k hk
    rcases hown with hown | hown
    · by_contra hc
      exact hk (h.holder k i (by simpa using hc) hown)
    · exact unlocked_iff.1 hown k
  have hlocked : ∀ k, (s'.pc k).locked → k = i := by
    intro k hk
    by_contra hne
    rw [hpc k hne, hothers k hne] at hk
    cases hk
  refine ⟨hbug, fun k l hk hl => (hlocked k hk).trans (hlocked l hl).symm, htime, ?_, ?_, ?_, ?_⟩
  · intro k hk
    by_cases hki : k = i
    · subst hki; exact hoff hk
    · rw [hon k hki] at hk
      exact (hinf k hki).2 (h.offline k hk)
  · intro k hk
    by_cases hki : k = i
    · subst hki; exact hthri hk
    · rw [hthr k hki]
      exact h.unthrottled k ((hinf k hki).1 hk)
  · intro k
    by_cases hki : k = i
    · subst hki; exact hok
    · rw [hpc k hki]
      exact (h.pcs k).congr_unlocked (hothers k hki) (hinf k hki) (hon k hki)
  · rw [hrd]
    exact hbooks

/-! ### The steps -/

theorem periodTimerEnd_spec (overrun : ℕ) {r : RtRq} (ht : r.rtTime.toNat < 2 ^ 63) :
    (periodTimerEnd overrun r).rtRuntime = r.rtRuntime ∧
      (periodTimerEnd overrun r).rtTime.toNat < 2 ^ 63 ∧
      (r.rtThrottled = false → (periodTimerEnd overrun r).rtThrottled = false) := by
  have hle : (r.rtTime - (if r.rtTime < BitVec.ofNat 64 overrun * r.rtRuntime then r.rtTime
      else BitVec.ofNat 64 overrun * r.rtRuntime)).toNat ≤ r.rtTime.toNat := by
    split
    · rw [BitVec.sub_self]; simp
    · rename_i hge
      rw [BitVec.lt_def, Nat.not_lt] at hge
      rw [BitVec.toNat_sub_of_le (BitVec.le_def.2 hge)]
      exact Nat.sub_le _ _
  unfold periodTimerEnd
  dsimp only
  generalize r.rtTime - (if r.rtTime < BitVec.ofNat 64 overrun * r.rtRuntime then r.rtTime
    else BitVec.ofNat 64 overrun * r.rtRuntime) = rtTime at hle ⊢
  split
  · exact ⟨rfl, hle.trans_lt ht, fun _ => rfl⟩
  · exact ⟨rfl, hle.trans_lt ht, fun hthr => hthr⟩

/-- The end of either caller of `balance_runtime` keeps what the invariant says of one CPU. -/
theorem callerEnd_spec (b : RtBandwidth) (caller : Caller) {r : RtRq} (ht : r.rtTime.toNat < 2 ^ 63)
    (hr : r.rtRuntime ≠ RUNTIME_INF) :
    (callerEnd b caller r).rtRuntime = r.rtRuntime ∧ (callerEnd b caller r).rtTime.toNat < 2 ^ 63 := by
  cases caller with
  | exceeded =>
    show (exceededEnd b r).rtRuntime = _ ∧ (exceededEnd b r).rtTime.toNat < _
    unfold exceededEnd
    rw [if_neg hr]
    split
    · split
      · exact ⟨rfl, ht⟩
      · exact ⟨rfl, by simp⟩
    · exact ⟨rfl, ht⟩
  | periodTimer overrun =>
    obtain ⟨hrun, htime, -⟩ := periodTimerEnd_spec overrun ht
    exact ⟨hrun, htime⟩

/-- Work on run-queue `i` that leaves its program counter free. -/
theorem Inv.of_setRq (h : Inv b s) {r : RtRq} (hpc : s.pc i = .free)
    (hr : r.rtRuntime = (s.rq i).rtRuntime) (ht : r.rtTime.toNat < 2 ^ 63)
    (hthr : r.rtRuntime = RUNTIME_INF → r.rtThrottled = false) : Inv b (s.setRq i r) := by
  have hs : s.setRq i r = (s.setRq i r).setPc i .free := by
    unfold State.setPc
    rw [State.setRq_pc, ← hpc, Function.update_eq_self]
    rfl
  rw [hs]
  exact h.of_local (by rw [hpc]; rfl) rfl hr ht hthr trivial

theorem weight_pos (s : State n δ) (i : Fin n) : 0 < s.weight i := by
  unfold State.weight
  rw [List.countP_pos_iff]
  exact ⟨i, List.mem_finRange i, by simp [State.inSpan]⟩

theorem balanceRuntime_inv (h : Inv b s) (caller : Caller) (hpc : s.pc i = .free)
    (hr : (s.rq i).rtRuntime ≠ RUNTIME_INF) : Inv b (balanceRuntime b s i caller) := by
  unfold balanceRuntime
  split
  · have hs : s.setRq i (s.rq i) = s := by
      unfold State.setRq
      rw [Function.update_eq_self]
    have hl := h.of_local (i := i) (r := s.rq i) (p := .waiting caller (s.weight i))
      (by rw [hpc]; rfl) rfl rfl (h.time i) (h.unthrottled i)
    rw [hs] at hl
    exact hl ⟨weight_pos s i, hr⟩
  · obtain ⟨hrun, htime⟩ := callerEnd_spec b caller (h.time i) hr
    exact h.of_setRq hpc hrun htime fun hc => absurd (hrun ▸ hc) hr

theorem updateCurrRt_inv (h : Inv b s) {delta : U64} (hpc : s.pc i = .free)
    (hfit : (s.rq i).rtTime.toNat + delta.toNat < 2 ^ 63) : Inv b (updateCurrRt b s i delta) := by
  unfold updateCurrRt
  split
  · exact h
  · rename_i hr
    have htime : ((s.rq i).rtTime + delta).toNat < 2 ^ 63 := by
      rw [BitVec.toNat_add, Nat.mod_eq_of_lt (by omega)]
      exact hfit
    have hs := h.of_setRq (r := { s.rq i with rtTime := (s.rq i).rtTime + delta }) hpc rfl htime
      (h.unthrottled i)
    dsimp only
    split
    · exact hs
    · split
      · exact hs
      · exact balanceRuntime_inv hs .exceeded hpc (by simpa using hr)

theorem doSchedRtPeriodTimer_inv (h : Inv b s) {overrun : ℕ} (hpc : s.pc i = .free) :
    Inv b (doSchedRtPeriodTimer b s i overrun) := by
  unfold doSchedRtPeriodTimer
  split
  · exact h
  · split
    · rename_i hthr
      refine balanceRuntime_inv h _ hpc fun hr => ?_
      rw [h.unthrottled i hr] at hthr
      cases hthr
    · rename_i hthr
      obtain ⟨hrun, htime, hkeep⟩ := periodTimerEnd_spec overrun (h.time i)
      exact h.of_setRq hpc hrun htime fun _ => hkeep (by simpa using hthr)

/-- The holder of the lock, or whoever gets it next, moves its program counter only. -/
theorem Inv.of_setPc (h : Inv b s) {p : Pc n δ}
    (hown : (s.pc i).locked = true ∨ s.unlocked = true) (hok : PcOk b s i p)
    (hentry : entry b (s.setPc i p) i = entry b s i) : Inv b (s.setPc i p) := by
  refine h.of_locked hown h.bug (fun k hk => State.setPc_pc_of_ne _ _ _ hk) rfl (fun _ _ => rfl)
    h.time (fun _ _ => Iff.rfl) (fun _ _ => rfl) (h.offline i) (h.unthrottled i) ?_ ?_
  · rw [State.setPc_pc_self]
    exact hok.congr (fun _ => rfl) rfl rfl
  · have hfun : entry b (s.setPc i p) = entry b s := by
      funext k
      by_cases hk : k = i
      · subst hk; exact hentry
      · exact entry_congr (State.setPc_pc_of_ne _ _ _ hk) rfl
    rw [hfun]
    exact h.books

/-- The holder of the lock takes runtime from CPU `j` of its domain. -/
theorem Inv.of_borrow (h : Inv b s) (hb : b.Fits n) (hlock : (s.pc i).locked = true)
    (hdis : ∀ rd rest want, s.pc i ≠ .disabling rd rest want) (hji : j ≠ i)
    (hspan : s.rd j = s.rd i) (hri : (s.rq i).rtRuntime ≠ RUNTIME_INF)
    (hrj : (s.rq j).rtRuntime ≠ RUNTIME_INF) {ri rj : U64}
    (hkeep : ri.toNat + rj.toNat = (s.rq i).rtRuntime.toNat + (s.rq j).rtRuntime.toNat)
    {p : Pc n δ} (hp : ∀ rd rest want, p ≠ .disabling rd rest want)
    (hok : ∀ s' : State n δ, (s'.rq i).rtRuntime ≠ RUNTIME_INF → PcOk b s' i p) :
    Inv b (((s.setRq j { s.rq j with rtRuntime := rj }).setRq i
      { s.rq i with rtRuntime := ri }).setPc i p) := by
  have hdj := h.not_disabling hlock hji
  have hsum := h.pair_lt hb hji.symm hspan.symm hdis hdj hri hrj
  have hri' : ri ≠ RUNTIME_INF := ne_inf_of_lt (by omega)
  have hrj' : rj ≠ RUNTIME_INF := ne_inf_of_lt (by omega)
  set s₁ := s.setRq j { s.rq j with rtRuntime := rj } with hs₁
  have hrqi : s₁.rq i = s.rq i := State.setRq_rq_of_ne _ _ _ hji.symm
  have hrqj : ((s₁.setRq i { s₁.rq i with rtRuntime := ri }).setPc i p).rq j =
      { s.rq j with rtRuntime := rj } := by
    simp [hs₁, hji]
  rw [← hrqi]
  refine h.of_locked (Or.inl hlock) h.bug (fun k hk => State.setPc_pc_of_ne _ _ _ hk) rfl
    (fun _ _ => rfl) ?_ ?_ ?_ ?_ ?_ ?_ ?_
  · intro k
    rw [State.setPc_rq, setRuntime_rtTime, setRuntime_rtTime]
    exact h.time k
  · intro k _
    rw [State.setPc_rq, setRuntime_inf hri' (by rw [hrqi]; exact hri), setRuntime_inf hrj' hrj]
  · intro k _
    rw [State.setPc_rq, setRuntime_rtThrottled, setRuntime_rtThrottled]
  · intro hoff
    exact absurd (h.offline i hoff) hri
  · intro hinf
    exact absurd (by simpa using hinf) hri'
  · rw [State.setPc_pc_self]
    exact hok _ (by simpa using hri')
  · refine h.books.transfer hji.symm hspan.symm ?_ ?_
    · rw [entry_of_not_disabling hdis, entry_of_not_disabling hdj,
        entry_of_not_disabling (by simpa using hp),
        entry_of_not_disabling (by simpa [hs₁, hji] using hdj), hrqj, State.setPc_rq,
        State.setRq_rq_self, surplus_of_ne hri', surplus_of_ne hrj', surplus_of_ne hri,
        surplus_of_ne hrj]
      omega
    · intro k hki hkj
      exact entry_congr (State.setPc_pc_of_ne _ _ _ hki) (by simp [hs₁, hki, hkj])

/-- One pass of the loop of `do_balance_runtime`. -/
theorem doBalanceRuntime_inv (h : Inv b s) (hb : b.Fits n) {caller : Caller} {weight : ℕ}
    {rest : List (Fin n)} {more : Bool} (hpc : s.pc i = .balancing caller weight rest more) :
    Inv b (doBalanceRuntime b s i caller weight rest more) := by
  have hlock : (s.pc i).locked = true := by rw [hpc]; rfl
  have hdis : ∀ rd rest want, s.pc i ≠ .disabling rd rest want := by
    intro rd rest want hc
    rw [hpc] at hc
    cases hc
  obtain ⟨hw, hri⟩ : PcOk b s i (.balancing caller weight rest more) := by
    rw [← hpc]
    exact h.pcs i
  -- moving on in the loop, or out of it, changes no entry
  have hmove : ∀ (p : Pc n δ), PcOk b s i p → (∀ rd rest want, p ≠ .disabling rd rest want) →
      Inv b (s.setPc i p) := by
    intro p hok hp
    refine h.of_setPc (Or.inl hlock) hok ?_
    rw [entry_of_not_disabling hdis, entry_of_not_disabling (by simpa using hp), State.setPc_rq]
  unfold doBalanceRuntime
  cases rest with
  | nil => exact hmove _ hri (by simp)
  | cons j rest =>
    dsimp only
    split
    · exact hmove _ ⟨hw, hri⟩ (by simp)
    rename_i hskip
    split
    · rename_i hpos
      obtain ⟨hji, hspan, hrj⟩ : j ≠ i ∧ s.rd j = s.rd i ∧ (s.rq j).rtRuntime ≠ RUNTIME_INF := by
        simpa [State.inSpan, not_or] using hskip
      have hsum := h.pair_lt hb hji.symm hspan.symm hdis (h.not_disabling hlock hji) hri hrj
      have hspec := balanceDiff_spec (b := b) weight hsum (h.time j) hpos
      split
      · exact h.of_borrow hb hlock hdis hji hspan hri hrj hspec (by simp) (fun _ hr => hr)
      · exact h.of_borrow hb hlock hdis hji hspan hri hrj hspec (by simp) (fun _ hr => ⟨hw, hr⟩)
    · exact hmove _ ⟨hw, hri⟩ (by simp)

/-! ### Disabling and enabling -/

/-- The end of `__disable_runtime`, in a state `s'` the holder of the lock has reached from `s`: the
books have to balance without CPU `i`. -/
theorem balanced_inv (h : Inv b s) (hown : (s.pc i).locked = true ∨ s.unlocked = true)
    (rd : Option δ) (hbug : s'.bug = false) (hpc : s'.pc = s.pc) (hrd : s'.rd = s.rd)
    (hon : s'.online = s.online) (htime : ∀ k, (s'.rq k).rtTime = (s.rq k).rtTime)
    (hinf : ∀ k, k ≠ i → ((s'.rq k).rtRuntime = RUNTIME_INF ↔ (s.rq k).rtRuntime = RUNTIME_INF))
    (hthr : ∀ k, (s'.rq k).rtThrottled = (s.rq k).rtThrottled)
    (hbooks : Balanced s.rd (Function.update (entry b s') i 0)) : Inv b (balanced s' i rd) := by
  obtain ⟨hrq, honline, hrd', hbug', p, hpc', hp, hok⟩ := balanced_spec (b := b) s' i rd
  have hrqi : (balanced s' i rd).rq i =
      { s'.rq i with rtRuntime := RUNTIME_INF, rtThrottled := false } := by
    rw [hrq, Function.update_self]
  have hrqk : ∀ k, k ≠ i → (balanced s' i rd).rq k = s'.rq k := fun k hk => by
    rw [hrq, Function.update_of_ne hk]
  have hpck : ∀ k, k ≠ i → (balanced s' i rd).pc k = s'.pc k := fun k hk => by
    rw [hpc', Function.update_of_ne hk]
  have hpci : (balanced s' i rd).pc i = p := by rw [hpc', Function.update_self]
  refine h.of_locked hown (hbug'.trans hbug) (fun k hk => by rw [hpck k hk, hpc]) (hrd'.trans hrd)
    ?_ ?_ ?_ ?_ ?_ ?_ ?_ ?_
  · intro k hk
    rw [honline, Function.update_of_ne hk, hon]
  · intro k
    by_cases hk : k = i
    · subst hk
      rw [hrqi]
      dsimp only
      rw [htime]
      exact h.time k
    · rw [hrqk k hk, htime]
      exact h.time k
  · intro k hk
    rw [hrqk k hk]
    exact hinf k hk
  · intro k hk
    rw [hrqk k hk]
    exact hthr k
  · intro _
    rw [hrqi]
  · intro _
    rw [hrqi]
  · rw [hpci]
    refine hok _ (by rw [hrqi]) ?_
    rw [honline, Function.update_self]
  · have hfun : entry b (balanced s' i rd) = Function.update (entry b s') i 0 := by
      funext k
      by_cases hk : k = i
      · subst hk
        rw [Function.update_self, entry_of_unlocked (by rw [hpci, hp]), hrqi]
        exact surplus_inf
      · rw [Function.update_of_ne hk]
        exact entry_congr (hpck k hk) (by rw [hrqk k hk])
    rw [hfun]
    exact hbooks

theorem __disableRuntime_inv (h : Inv b s) (hb : b.Fits n)
    (rd : Option δ) (hunl : s.unlocked = true) : Inv b (__disableRuntime b s i rd) := by
  have hl : (s.pc i).locked = false := unlocked_iff.1 hunl i
  have hentry := entry_of_unlocked (b := b) hl
  unfold __disableRuntime
  split
  · rename_i hr
    have hzero : entry b s i = 0 := by
      rw [hentry]
      rcases hr with hr | hr
      · rw [hr, surplus_inf]
      · rw [hr, surplus_share]
    refine balanced_inv h (Or.inr hunl) rd h.bug rfl rfl rfl (fun _ => rfl) (fun _ _ => Iff.rfl)
      (fun _ => rfl) ?_
    rw [← hzero, Function.update_eq_self]
    exact h.books
  · rename_i hr
    rw [not_or] at hr
    have hdis : ∀ rd rest want, s.pc i ≠ .disabling rd rest want := by
      intro rd rest want hc
      rw [hc] at hl
      cases hl
    have hlt := h.runtime_lt hb hdis hr.1
    have hwant := toInt_sub ((b.share_le i).trans_lt hb) hlt
    refine h.of_setPc (Or.inr hunl) ⟨?_, ?_, ?_⟩ ?_
    · intro hc
      exact hr.2 (sub_eq_zero.1 hc).symm
    · rw [hwant]
      omega
    · intro j hj
      exact absurd (List.mem_finRange j) hj
    · rw [hentry, surplus_of_ne hr.1]
      unfold entry
      rw [State.setPc_pc_self]
      dsimp only
      rw [hwant]
      omega

/-- The loop of `__disable_runtime` does not come to its end: the others have enough to give, and
somebody is there to take a surplus. -/
theorem Inv.not_left_wanting (h : Inv b s) {rd : Option δ} {want : U64} :
    s.pc i ≠ .disabling rd [] want := by
  intro hpc
  obtain ⟨hne, -, hvisited⟩ : PcOk b s i (.disabling rd [] want) := by
    rw [← hpc]
    exact h.pcs i
  have hsum := h.books.sum_eq_neg (S := {i}) (d := s.rd i) (by simp)
  rw [Finset.sum_singleton, entry_of_disabling hpc] at hsum
  set T := Finset.univ.filter (fun k => s.rd k = s.rd i ∧ k ∉ ({i} : Finset (Fin n))) with hT
  have hothers : ∀ k ∈ T,
      entry b s k = surplus b (s.rq k).rtRuntime ∧ ((s.rq k).rtRuntime ≠ RUNTIME_INF →
        0 < want.toInt ∧ (s.rq k).rtRuntime = 0) := by
    intro k hk
    rw [Finset.mem_filter, Finset.mem_singleton] at hk
    refine ⟨entry_of_not_disabling (h.not_disabling (by rw [hpc]; rfl) hk.2.2), fun hr => ?_⟩
    exact hvisited k List.not_mem_nil hk.2.2 hk.2.1 hr
  rcases lt_trichotomy want.toInt 0 with hneg | hzero | hpos
  · have hz : ∑ k ∈ T, entry b s k = 0 := by
      refine Finset.sum_eq_zero fun k hk => ?_
      obtain ⟨hent, hlive⟩ := hothers k hk
      have hr : (s.rq k).rtRuntime = RUNTIME_INF := by
        by_contra hr
        have := (hlive hr).1
        omega
      rw [hent, hr, surplus_inf]
    omega
  · exact hne (BitVec.eq_of_toInt_eq (by simpa using hzero))
  · have hz : ∑ k ∈ T, entry b s k ≤ 0 := by
      refine Finset.sum_nonpos fun k hk => ?_
      obtain ⟨hent, hlive⟩ := hothers k hk
      rw [hent]
      by_cases hr : (s.rq k).rtRuntime = RUNTIME_INF
      · rw [hr, surplus_inf]
      · rw [(hlive hr).2]
        unfold surplus
        split <;> simp
    omega

/-- The loop goes on after taking `diff` from CPU `j`, which has nothing left. -/
theorem Inv.of_reclaim (h : Inv b s) {rd : Option δ} {rest : List (Fin n)} {want want' rj : U64}
    (hpc : s.pc i = .disabling rd (j :: rest) want) (hji : j ≠ i)
    (hspan : s.rd j = s.rd i) (hrj : (s.rq j).rtRuntime ≠ RUNTIME_INF)
    (hkeep : (rj.toNat : ℤ) - want'.toInt = (s.rq j).rtRuntime.toNat - want.toInt)
    (hpos : 0 < want'.toInt) (hrj0 : rj = 0) :
    Inv b ((s.setRq j { s.rq j with rtRuntime := rj }).setPc i (.disabling rd rest want')) := by
  have hlock : (s.pc i).locked = true := by rw [hpc]; rfl
  have hdj := h.not_disabling hlock hji
  obtain ⟨-, hle, hvisited⟩ : PcOk b s i (.disabling rd (j :: rest) want) := by
    rw [← hpc]
    exact h.pcs i
  have hrj' : rj ≠ RUNTIME_INF := by rw [hrj0]; decide
  refine h.of_locked (Or.inl hlock) h.bug (fun k hk => State.setPc_pc_of_ne _ _ _ hk) rfl
    (fun _ _ => rfl) ?_ (fun k _ => setRuntime_inf hrj' hrj k)
    (fun k _ => setRuntime_rtThrottled s j rj k)
    (fun hoff => (setRuntime_inf hrj' hrj i).2 (h.offline i hoff)) ?_ ?_ ?_
  · intro k
    rw [State.setPc_rq, setRuntime_rtTime]
    exact h.time k
  · intro hr
    rw [State.setPc_rq, setRuntime_rtThrottled]
    exact h.unthrottled i ((setRuntime_inf hrj' hrj i).1 hr)
  · rw [State.setPc_pc_self]
    refine ⟨?_, ?_, ?_⟩
    · rintro rfl
      exact absurd hpos (by decide)
    · have hz : rj.toNat = 0 := by rw [hrj0]; rfl
      omega
    · intro k hk hki hspan' hr
      rw [State.setPc_rq] at hr ⊢
      by_cases hkj : k = j
      · subst hkj
        rw [State.setRq_rq_self]
        exact ⟨hpos, hrj0⟩
      · rw [State.setRq_rq_of_ne _ _ _ hkj] at hr ⊢
        refine ⟨hpos, (hvisited k ?_ hki hspan' hr).2⟩
        rw [List.mem_cons, not_or]
        exact ⟨hkj, hk⟩
  · refine h.books.transfer hji.symm hspan.symm ?_ ?_
    · rw [entry_of_disabling (State.setPc_pc_self ..), entry_of_disabling hpc,
        entry_of_not_disabling hdj, entry_of_not_disabling (by simpa [hji] using hdj),
        State.setPc_rq, State.setRq_rq_self, surplus_of_ne hrj, surplus_of_ne hrj']
      omega
    · intro k hki hkj
      exact entry_congr (State.setPc_pc_of_ne _ _ _ hki) (by simp [hkj])

/-- The loop ends after taking `diff` from CPU `j`: nothing is wanted any more. -/
theorem Inv.of_reclaim_last (h : Inv b s) {rd : Option δ} {rest : List (Fin n)} {want rj : U64}
    (hpc : s.pc i = .disabling rd rest want) (hji : j ≠ i)
    (hspan : s.rd j = s.rd i) (hrj : (s.rq j).rtRuntime ≠ RUNTIME_INF) (hrj' : rj ≠ RUNTIME_INF)
    (hkeep : (rj.toNat : ℤ) = (s.rq j).rtRuntime.toNat - want.toInt) :
    Inv b (balanced (s.setRq j { s.rq j with rtRuntime := rj }) i rd) := by
  have hlock : (s.pc i).locked = true := by rw [hpc]; rfl
  have hdj := h.not_disabling hlock hji
  refine balanced_inv h (Or.inl hlock) rd h.bug rfl rfl rfl (setRuntime_rtTime s j rj)
    (fun k _ => setRuntime_inf hrj' hrj k) (setRuntime_rtThrottled s j rj) ?_
  refine h.books.transfer hji.symm hspan.symm ?_ ?_
  · rw [Function.update_self, Function.update_of_ne hji, entry_of_disabling hpc,
      entry_of_not_disabling hdj, entry_of_not_disabling (by simpa using hdj),
      State.setRq_rq_self, surplus_of_ne hrj, surplus_of_ne hrj']
    omega
  · intro k hki hkj
    rw [Function.update_of_ne hki]
    exact entry_congr rfl (by simp [hkj])

/-- One pass of the loop of `__disable_runtime`. -/
theorem reclaim_inv (h : Inv b s) (hb : b.Fits n) {rd : Option δ} {rest : List (Fin n)} {want : U64}
    (hpc : s.pc i = .disabling rd rest want) : Inv b (reclaim s i rd rest want) := by
  have hlock : (s.pc i).locked = true := by rw [hpc]; rfl
  obtain ⟨hne, hle, hvisited⟩ : PcOk b s i (.disabling rd rest want) := by
    rw [← hpc]
    exact h.pcs i
  cases rest with
  | nil => exact absurd hpc h.not_left_wanting
  | cons j rest =>
    unfold reclaim
    dsimp only
    split
    · rename_i hskip
      refine h.of_setPc (Or.inl hlock) ⟨hne, hle, ?_⟩ ?_
      · intro k hk hki hspan hr
        refine hvisited k ?_ hki hspan hr
        rw [List.mem_cons, not_or]
        refine ⟨?_, hk⟩
        rintro rfl
        rcases hskip with hc | hc | hc
        · exact hki hc
        · exact hr hc
        · rw [State.inSpan, decide_eq_false_iff_not] at hc
          exact hc hspan
      · rw [entry_of_disabling hpc, entry_of_disabling (State.setPc_pc_self ..)]
    rename_i hskip
    obtain ⟨hji, hrj, hspan⟩ : j ≠ i ∧ (s.rq j).rtRuntime ≠ RUNTIME_INF ∧ s.rd j = s.rd i := by
      simpa [State.inSpan, not_or] using hskip
    have hdj := h.not_disabling hlock hji
    have hpair := h.books.pair_le (by positivity) h.entry_ge hji.symm hspan.symm
    rw [entry_of_disabling hpc, entry_of_not_disabling hdj, surplus_of_ne hrj, Fintype.card_fin,
      sub_mul] at hpair
    have hfit : ((n : ℤ) * b.rtRuntime.toNat) < 2 ^ 63 := by exact_mod_cast hb
    obtain ⟨hkeep, hend⟩ := reclaimDiff_spec want hfit (h.runtime_lt hb hdj hrj) (by omega)
    split
    · rename_i hdone
      have hzero : (0 : U64).toInt = 0 := rfl
      rw [hdone, hzero, sub_zero] at hkeep
      exact h.of_reclaim_last hpc hji hspan hrj (ne_inf_of_lt (by omega)) hkeep
    · rename_i hmore
      obtain ⟨hpos, hrj0⟩ := hend.resolve_left hmore
      exact h.of_reclaim hpc hji hspan hrj hkeep hpos hrj0

theorem __enableRuntime_inv (h : Inv b s) (hunl : s.unlocked = true)
    (hr : (s.rq i).rtRuntime = RUNTIME_INF) : Inv b (__enableRuntime b s i) := by
  have hpci : (__enableRuntime b s i).pc i = .free := State.setPc_pc_self ..
  have hpck : ∀ k, k ≠ i → (__enableRuntime b s i).pc k = s.pc k := fun k hk =>
    State.setPc_pc_of_ne _ _ _ hk
  have hrqi : (__enableRuntime b s i).rq i =
      { rtTime := 0, rtRuntime := b.rtRuntime, rtThrottled := false } := State.setRq_rq_self ..
  have hrqk : ∀ k, k ≠ i → (__enableRuntime b s i).rq k = s.rq k := fun k hk =>
    State.setRq_rq_of_ne _ _ _ hk
  have honk : ∀ k, k ≠ i → (__enableRuntime b s i).online k = s.online k := fun k hk =>
    Function.update_of_ne hk _ _
  have honi : (__enableRuntime b s i).online i = true := Function.update_self ..
  refine h.of_locked (Or.inr hunl) h.bug hpck rfl honk ?_ (fun k hk => by rw [hrqk k hk])
    (fun k hk => by rw [hrqk k hk]) ?_ (fun _ => by rw [hrqi]) (by rw [hpci]; trivial) ?_
  · intro k
    by_cases hk : k = i
    · subst hk
      rw [hrqi]
      show (0 : U64).toNat < 2 ^ 63
      decide
    · rw [hrqk k hk]
      exact h.time k
  · intro hoff
    rw [honi] at hoff
    cases hoff
  · have hfun : entry b (__enableRuntime b s i) = entry b s := by
      funext k
      by_cases hk : k = i
      · subst hk
        rw [entry_of_unlocked (unlocked_iff.1 hunl k), entry_of_unlocked (by rw [hpci]; rfl), hrqi,
          hr, surplus_inf]
        exact surplus_share
      · exact entry_congr (hpck k hk) (by rw [hrqk k hk])
    rw [hfun]
    exact h.books

/-- A disabled CPU changes its root domain. -/
theorem attach_inv (h : Inv b s) {rd : δ} (active : Bool) (hpc : s.pc i = .attaching rd) :
    Inv b ({ s with rd := Function.update s.rd i rd }.setPc i
      (if active then .onlining else .free)) := by
  obtain ⟨hr, hoff⟩ : PcOk b s i (.attaching rd) := by
    rw [← hpc]
    exact h.pcs i
  set p : Pc n δ := if active then .onlining else .free with hp
  have hlp : p.locked = false := by
    rw [hp]
    cases active <;> rfl
  have hli : (s.pc i).locked = false := by rw [hpc]; rfl
  -- the lock is where it was
  have hlocked : ∀ k, (({ s with rd := Function.update s.rd i rd }.setPc i p).pc k).locked =
      (s.pc k).locked := by
    intro k
    by_cases hk : k = i
    · subst hk; rw [State.setPc_pc_self, hlp, hli]
    · rw [State.setPc_pc_of_ne _ _ _ hk]
  refine ⟨h.bug, ?_, h.time, h.offline, h.unthrottled, ?_, ?_⟩
  · intro k l hk hl
    rw [hlocked] at hk hl
    exact h.holder k l hk hl
  · intro k
    by_cases hk : k = i
    · subst hk
      rw [State.setPc_pc_self, hp]
      cases active
      · trivial
      · exact ⟨hr, hoff⟩
    · rw [State.setPc_pc_of_ne _ _ _ hk]
      have hok := h.pcs k
      cases hpk : s.pc k with
      | disabling rd' rest want =>
        rw [hpk] at hok
        refine ⟨hok.1, hok.2.1, ?_⟩
        intro j hj hjk hspan hrj
        have hji : j ≠ i := by rintro rfl; exact hrj hr
        refine hok.2.2 j hj hjk ?_ hrj
        simpa [hji, hk] using hspan
      | free => trivial
      | waiting caller weight => rw [hpk] at hok; exact hok
      | balancing caller weight rest more => rw [hpk] at hok; exact hok
      | returning caller more => rw [hpk] at hok; exact hok
      | attaching rd' => rw [hpk] at hok; exact hok
      | onlining => rw [hpk] at hok; exact hok
  · have hentry : entry b s i = 0 := by rw [entry_of_unlocked hli, hr, surplus_inf]
    have hfun : entry b ({ s with rd := Function.update s.rd i rd }.setPc i p) = entry b s := by
      funext k
      by_cases hk : k = i
      · subst hk
        rw [hentry, entry_of_unlocked (by rw [State.setPc_pc_self, hlp])]
        show surplus b (s.rq k).rtRuntime = 0
        rw [hr, surplus_inf]
      · exact entry_congr (State.setPc_pc_of_ne _ _ _ hk) rfl
    rw [hfun]
    exact h.books.rehome hentry rd

/-! ### Runs -/

theorem step_inv (hb : b.Fits n) {a : Act n δ} (h : Inv b s) (hs : step b s a = some s') :
    Inv b s' := by
  unfold step at hs
  rw [if_neg (by rw [h.bug]; simp)] at hs
  cases a with
  | updateCurrRt i delta =>
    obtain ⟨⟨hpc, hfit⟩, ⟨⟩⟩ := Option.ite_none_right_eq_some.1 hs
    exact updateCurrRt_inv h hpc hfit
  | periodTimer i overrun =>
    obtain ⟨hpc, ⟨⟩⟩ := Option.ite_none_right_eq_some.1 hs
    exact doSchedRtPeriodTimer_inv h hpc
  | lock i =>
    dsimp only at hs
    split at hs
    · rename_i caller weight hpc
      obtain ⟨hunl, ⟨⟩⟩ := Option.ite_none_right_eq_some.1 hs
      obtain ⟨hw, hr⟩ : PcOk b s i (.waiting caller weight) := by
        rw [← hpc]
        exact h.pcs i
      refine h.of_setPc (Or.inr hunl) ⟨hw, hr⟩ ?_
      rw [entry_of_unlocked (unlocked_iff.1 hunl i), entry_of_not_disabling (by simp),
        State.setPc_rq]
    · cases hs
  | loop i =>
    dsimp only at hs
    split at hs
    · rename_i hpc
      obtain rfl := Option.some.inj hs
      exact doBalanceRuntime_inv h hb hpc
    · rename_i hpc
      obtain rfl := Option.some.inj hs
      exact reclaim_inv h hb hpc
    · cases hs
  | resume i =>
    dsimp only at hs
    split at hs
    · rename_i caller more hpc
      obtain rfl := Option.some.inj hs
      have hr : PcOk b s i (.returning caller more) := by
        rw [← hpc]
        exact h.pcs i
      obtain ⟨hrun, htime⟩ := callerEnd_spec b caller (h.time i) hr
      exact h.of_local (by rw [hpc]; rfl) rfl hrun htime (fun hc => absurd (hrun ▸ hc) hr) trivial
    · cases hs
  | setRqOffline i =>
    obtain ⟨⟨-, -, hunl⟩, ⟨⟩⟩ := Option.ite_none_right_eq_some.1 hs
    exact __disableRuntime_inv h hb none hunl
  | rqAttachRoot i rd =>
    obtain ⟨hpc, hs⟩ := Option.ite_none_right_eq_some.1 hs
    split at hs
    · obtain ⟨hunl, ⟨⟩⟩ := Option.ite_none_right_eq_some.1 hs
      exact __disableRuntime_inv h hb (some rd) hunl
    · rename_i hoff
      obtain rfl := Option.some.inj hs
      have hoff : s.online i = false := by simpa using hoff
      have hs : s.setRq i (s.rq i) = s := by
        unfold State.setRq
        rw [Function.update_eq_self]
      have hl := h.of_local (i := i) (r := s.rq i) (p := .attaching rd)
        (by rw [hpc]; rfl) rfl rfl (h.time i) (h.unthrottled i)
      rw [hs] at hl
      exact hl ⟨h.offline i hoff, hoff⟩
  | attach i active =>
    dsimp only at hs
    split at hs
    · rename_i hpc
      obtain rfl := Option.some.inj hs
      exact attach_inv h active hpc
    · cases hs
  | setRqOnline i =>
    obtain ⟨⟨hpc, hunl⟩, ⟨⟩⟩ := Option.ite_none_right_eq_some.1 hs
    refine __enableRuntime_inv h hunl ?_
    rcases hpc with hpc | ⟨-, hoff⟩
    · have hok := h.pcs i
      rw [hpc] at hok
      exact hok.1
    · exact h.offline i hoff

theorem run_inv (hb : b.Fits n) (as : List (Act n δ)) (h : Inv b s) (hr : run b s as = some s') :
    Inv b s' := by
  induction as generalizing s with
  | nil =>
    obtain rfl := Option.some.inj hr
    exact h
  | cons a as ih =>
    obtain ⟨t, ht, hr⟩ := Option.bind_eq_some_iff.1 hr
    exact ih (step_inv hb h ht) hr

end KernelHacking.Smp
