import KernelHacking.Sched.Run

/-! # How often the running task is charged

`update_curr_circular` charges the running task with the time since its `exec_start`, unless the
clock has not moved on since, by the signed difference of two unsigned values.  Within half of the
range of the clock this makes a sequence of calls telescope: whatever the order of the readings, the
task is charged up to the latest of them, once (`charged_up_to_latest`). -/

namespace KernelHacking.Sched

open TraceProg Word Prog

variable {α : Type} [DecidableEq α] [Fintype α] {K : Kernel α}

/-- `update_curr_circular` at these readings of `rq->clock_task`, one after the other. -/
def updateCurrAt : List U64 → SchedM K Unit
  | [] => pure ()
  | now :: ts => do
      modifyRq fun rq => { rq with clockTask := now }
      updateCurrCircular
      updateCurrAt ts

/-- The time in a trace that `p` is charged with: what `cpuacct_charge` and
`account_group_exec_runtime` are called with. -/
def chargedTime (p : α) : List (Event K) → ℕ
  | [] => 0
  | .charge q execStart now :: t => (if q = p then (now - execStart).toNat else 0) + chargedTime p t
  | _ :: t => chargedTime p t

/-- The latest of `e` and the readings, by their offsets in the window. -/
def latest (e : ℕ) (offsets : List ℕ) : ℕ := offsets.foldl max e

/-- The accounts of `p`, charged up to the offset `m` of the window at `w` from the offset `e` on. -/
structure ChargedUpTo (w : U64) (e m : ℕ) (p : α) (s s' : Cpu K) (t : List (Event K)) : Prop where
  execStart : (s'.se p).execStart = w + BitVec.ofNat 64 m
  sumExecRuntime : (s'.se p).sumExecRuntime = (s.se p).sumExecRuntime + BitVec.ofNat 64 (m - e)
  charged : chargedTime p t = m - e

section
variable {w : U64} {e : ℕ} {s : Cpu K}

theorem latest_cons (e o : ℕ) (offsets : List ℕ) :
    latest e (o :: offsets) = latest (max e o) offsets := rfl

theorem le_latest (e : ℕ) (offsets : List ℕ) : e ≤ latest e offsets := by
  induction offsets generalizing e with
  | nil => exact Nat.le_refl e
  | cons o offsets ih =>
      rw [latest_cons]
      exact (le_max_left e o).trans (ih (max e o))

/-- Where a reading stands in the sequence does not matter. -/
theorem latest_middle (e o : ℕ) (pre post : List ℕ) :
    latest e (pre ++ o :: post) = max o (latest e (pre ++ post)) := by
  unfold latest
  have hperm : List.Perm (pre ++ o :: post) (o :: (pre ++ post)) := List.perm_middle
  rw [hperm.foldl_eq, List.foldl_cons, max_comm e o, List.foldl_assoc]

/-- One call: the task is charged up to the reading, if this is the later one. -/
theorem updateCurrCircular_window {o : ℕ}
    (he : (s.se s.rq.curr).execStart = w + BitVec.ofNat 64 e)
    (hnow : s.rq.clockTask = w + BitVec.ofNat 64 o) (hlt : e < 2 ^ 63) (ho : o < 2 ^ 63) :
    updateCurrCircular.wp s fun _ s' t =>
      s'.rq = s.rq ∧ ChargedUpTo w e (max e o) s.rq.curr s s' t := by
  unfold updateCurrCircular
  rw [wp_bind, wp_get]
  dsimp only
  rw [hnow, he, s64NonPos_window w ho hlt]
  rcases Nat.lt_or_ge e o with h | h
  · -- the clock has moved on
    rw [when_pos (decide_eq_false (by omega)), wp_bind, wp_emit]
    unfold modifySe
    rw [wp_modify, max_eq_right h.le]
    refine ⟨rfl, ?_, ?_, ?_⟩
    · simp [SchedEntity.charge]
    · simp [SchedEntity.charge, he, window_sub w h.le]
    · have hnat : (BitVec.ofNat 64 (o - e)).toNat = o - e := toNat_ofNat_of_lt (by omega)
      simp [chargedTime, window_sub w h.le, hnat]
  · rw [when_neg (by simp [h]), wp_ret, max_eq_left h]
    refine ⟨rfl, he, ?_, ?_⟩
    · simp
    · simp [chargedTime]

theorem chargedTime_append (p : α) (t t' : List (Event K)) :
    chargedTime p (t ++ t') = chargedTime p t + chargedTime p t' := by
  induction t with
  | nil => simp [chargedTime]
  | cons x t ih => cases x <;> simp [chargedTime, ih, Nat.add_assoc]

/-- A sequence of calls charges the task up to the latest of the readings. -/
theorem updateCurrAt_window (offsets : List ℕ)
    (he : (s.se s.rq.curr).execStart = w + BitVec.ofNat 64 e) (hlt : e < 2 ^ 63)
    (hall : ∀ o ∈ offsets, o < 2 ^ 63) :
    (updateCurrAt (offsets.map fun o => w + BitVec.ofNat 64 o)).wp s fun _ s' t =>
      s'.rq.curr = s.rq.curr ∧ ChargedUpTo w e (latest e offsets) s.rq.curr s s' t := by
  induction offsets generalizing s e with
  | nil =>
      rw [List.map_nil, updateCurrAt, wp_ret]
      exact ⟨rfl, he, by simp [latest], by simp [latest, chargedTime]⟩
  | cons o offsets ih =>
      have ho : o < 2 ^ 63 := hall o List.mem_cons_self
      rw [List.map_cons, updateCurrAt, wp_bind]
      unfold modifyRq
      rw [wp_modify, wp_bind]
      have hone := updateCurrCircular_window (e := e) (o := o)
        (s := { s with rq := { s.rq with clockTask := w + BitVec.ofNat 64 o } }) he rfl hlt ho
      refine hone.mono ?_
      rintro _ s₁ t₁ ⟨hrq, hfirst⟩
      have hcurr : s₁.rq.curr = s.rq.curr := by rw [hrq]
      have hih := ih (s := s₁) (e := max e o) (by rw [hcurr]; exact hfirst.execStart)
        (max_lt hlt ho) fun x hx => hall x (List.mem_cons_of_mem o hx)
      refine hih.mono ?_
      rintro _ s₂ t₂ ⟨hcurr₂, hrest⟩
      rw [hcurr] at hcurr₂ hrest
      have hle := le_latest (max e o) offsets
      refine ⟨hcurr₂, hrest.execStart, ?_, ?_⟩
      · have hsplit : latest e (o :: offsets) - e =
            (max e o - e) + (latest (max e o) offsets - max e o) := by
          rw [latest_cons]
          omega
        rw [hrest.sumExecRuntime, hfirst.sumExecRuntime, hsplit, BitVec.ofNat_add,
          BitVec.add_assoc]
      · rw [List.nil_append, chargedTime_append, hfirst.charged, hrest.charged, latest_cons]
        omega

/-- **The accounted total does not depend on how often `update_curr_circular` runs.**  Within a
window of `2 ^ 63` values of the clock, calls at any readings in any order leave `exec_start` at the
latest of them and of the old `exec_start`, and charge the task with the time in between; a reading
that is not the latest may be left out, at any place, and nothing changes. -/
theorem charged_up_to_latest (offsets : List ℕ)
    (he : (s.se s.rq.curr).execStart = w + BitVec.ofNat 64 e) (hlt : e < 2 ^ 63)
    (hall : ∀ o ∈ offsets, o < 2 ^ 63) :
    ((updateCurrAt (offsets.map fun o => w + BitVec.ofNat 64 o)).wp s fun _ s' t =>
      ChargedUpTo w e (latest e offsets) s.rq.curr s s' t) ∧
    ∀ pre o post, offsets = pre ++ o :: post → o ≤ latest e (pre ++ post) →
      (updateCurrAt ((pre ++ post).map fun o => w + BitVec.ofNat 64 o)).wp s fun _ s' t =>
        ChargedUpTo w e (latest e offsets) s.rq.curr s s' t := by
  refine ⟨(updateCurrAt_window offsets he hlt hall).mono fun _ _ _ h => h.2, ?_⟩
  rintro pre o post rfl ho
  have hsame : latest e (pre ++ o :: post) = latest e (pre ++ post) := by
    rw [latest_middle]
    exact max_eq_right ho
  have hsub : ∀ x ∈ pre ++ post, x < 2 ^ 63 := by
    intro x hx
    refine hall x ?_
    simp only [List.mem_append, List.mem_cons] at hx ⊢
    tauto
  refine (updateCurrAt_window (pre ++ post) he hlt hsub).mono ?_
  rintro _ s' t ⟨-, h⟩
  rw [← hsame] at h
  exact h

end

/-- Task 1 is running with `exec_start` 0; the window starts ten values before the clock wraps, and
the second of the three readings goes back behind the wrap. -/
theorem charged_up_to_latest_small : (smallRunning.cpu.se smallRunning.cpu.rq.curr).execStart = 0 ∧
    (updateCurrAt [20, BitVec.ofNat 64 (2 ^ 64 - 5), 2]).wp smallRunning.cpu fun _ s' t =>
      (s'.se 1).execStart = 20 ∧ chargedTime 1 t = 20 := by
  refine ⟨by decide, ?_⟩
  obtain ⟨h, -⟩ := charged_up_to_latest (s := smallRunning.cpu) (w := BitVec.ofNat 64 (2 ^ 64 - 10))
    (e := 10) [30, 5, 12] (by decide) (by decide) (by decide)
  refine h.mono ?_
  intro _ s' t hup
  exact ⟨hup.execStart, hup.charged⟩

end KernelHacking.Sched
