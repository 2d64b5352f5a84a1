import KernelHacking.Sched.Marks
import KernelHacking.Sched.Params

/-! # Preemption checks

The order of the classes and, within the real-time class, of the priorities is one order: `rank`.
`check_preempt_curr` and `check_class_changed` see to it that the running task is marked whenever the
task they are called for has a better rank, or the running task itself has lost rank.  The circular
class is one rank: its tasks take turns.

The stop and deadline classes are not part of the source, so this is about tasks of the other
classes (`Ranked`). -/

namespace KernelHacking.Sched

open TraceProg PtrRing Word Prog

variable {α : Type} [DecidableEq α] [Fintype α] {K : Kernel α}
variable {T : α → TaskStruct} {p : α} {s s' : Cpu K} {k : SchedClass} {prio oldprio : ℤ}

/-! ### Ranks -/

/-- The place in the order of classes and priorities; the smaller one runs first. -/
def rankOf (k : SchedClass) (prio : ℤ) : ℤ :=
  match k with
  | .stop => -2
  | .dl => -1
  | .rt => prio
  | .fair | .circular => MAX_RT_PRIO
  | .idle => MAX_RT_PRIO + 1

/-- The rank of a task. -/
def rank (t : TaskStruct) : ℤ := rankOf t.schedClass t.prio

/-- A class of the source, and a priority that belongs to it. -/
def Ranked (k : SchedClass) (prio : ℤ) : Prop :=
  k = .rt ∧ prio < MAX_RT_PRIO ∨ (k = .circular ∨ k = .idle) ∧ MAX_RT_PRIO ≤ prio

/-- All tasks are of such a class. -/
def AllRanked (T : α → TaskStruct) : Prop := ∀ q, Ranked (T q).schedClass (T q).prio

theorem Ranked.rt (h : Ranked .rt prio) : prio < MAX_RT_PRIO := by
  rcases h with h | h
  · exact h.2
  · rcases h.1 with e | e <;> cases e

theorem Ranked.not_rt (h : Ranked k prio) (hk : k ≠ .rt) : MAX_RT_PRIO ≤ prio := by
  rcases h with h | h
  · exact absurd h.1 hk
  · exact h.2

theorem Ranked.cases (h : Ranked k prio) : k = .rt ∨ k = .circular ∨ k = .idle := by
  rcases h with h | h
  · exact .inl h.1
  · exact .inr h.1

/-- Real-time tasks come first. -/
theorem Ranked.rank_le (h : Ranked .rt prio) {k' : SchedClass} {prio' : ℤ} (h' : Ranked k' prio')
    (hk : k' ≠ .rt) : rankOf .rt prio ≤ rankOf k' prio' := by
  have hlt := h.rt
  rcases h'.cases with rfl | rfl | rfl
  · exact absurd rfl hk
  · exact hlt.le
  · show prio ≤ MAX_RT_PRIO + 1
    omega

/-- The idle task comes last. -/
theorem Ranked.rank_le_idle (h : Ranked k prio) (prio' : ℤ) : rankOf k prio ≤ rankOf .idle prio' := by
  rcases h.cases with rfl | rfl | rfl
  · have hlt := h.rt
    show prio ≤ MAX_RT_PRIO + 1
    omega
  · show MAX_RT_PRIO ≤ MAX_RT_PRIO + 1
    omega
  · exact le_rfl

/-- Whom a real-time priority does not beat is a real-time task. -/
theorem Ranked.rank_le_of_prio (h : Ranked k prio) {prio' : ℤ} (h' : Ranked .rt prio')
    (hle : prio ≤ prio') : rankOf k prio ≤ rankOf .rt prio' := by
  have hlt := h'.rt
  have hk : k = .rt := by
    by_contra hk
    have hge := h.not_rt hk
    omega
  subst hk
  exact hle

/-! ### The checks -/

/-- The running task is marked, or the task does not outrank it. -/
def Serves (T : α → TaskStruct) (p : α) (s : Cpu K) : Prop :=
  s.needResched s.rq.curr = true ∨ rank (T s.rq.curr) ≤ rank (T p)

theorem Serves.of_kept (h : Serves T p s) (hk : Kept s s') : Serves T p s' := by
  rcases h with h | h
  · exact .inl (hk.curr_marked h)
  · refine .inr ?_
    rw [hk.curr]
    exact h

theorem reschedCurr_serves : (reschedCurr : SchedM K Unit).wlp s fun _ s' => Serves T p s' :=
  wlp_modify (.inl (Function.update_self ..))

/-- When the task does not outrank the running one, nothing needs to be done. -/
theorem serves_of_rank {β : Type} {x : SchedM K β} (hx : Within Kept x)
    (h : rank (T s.rq.curr) ≤ rank (T p)) : x.wlp s fun _ s' => Serves T p s' := by
  refine (hx.wlp (Kept.refl s)).mono ?_
  intro _ s' hk
  exact Serves.of_kept (.inr h) hk

/-- A class earlier in the chain preempts. -/
theorem checkPreemptWalk_serves {k' : SchedClass} {cs : List SchedClass} (hne : k ≠ k')
    (hmem : k' ∈ cs) (hfirst : k ∉ cs.takeWhile fun c => c ≠ k') :
    (checkPreemptWalk k k' cs : SchedM K Unit).wlp s fun _ s' => Serves T p s' := by
  induction cs with
  | nil => cases hmem
  | cons c cs ih =>
      unfold checkPreemptWalk
      by_cases hc : c = k'
      · subst hc
        rw [if_neg fun e => hne e.symm, if_pos rfl]
        exact reschedCurr_serves
      · rw [List.takeWhile_cons_of_pos (by simpa using hc), List.mem_cons, not_or] at hfirst
        rw [if_neg fun e => hfirst.1 e.symm, if_neg hc]
        exact ih ((List.mem_cons.mp hmem).resolve_left fun e => hc e.symm) hfirst.2

theorem checkPreempt_serves (hT : AllRanked T) (flags : ℕ) :
    (checkPreempt T s.rq.curr p flags).wlp s fun _ s' => Serves T p s' := by
  have hcurr := hT s.rq.curr
  have hp := hT p
  by_cases hidle : (T p).schedClass = .idle
  · refine serves_of_rank checkPreempt_kept ?_
    unfold rank
    rw [hidle]
    exact hcurr.rank_le_idle _
  unfold checkPreempt
  by_cases hsame : (T p).schedClass = (T s.rq.curr).schedClass
  · rw [if_pos hsame]
    unfold classCheckPreempt
    rcases hp.cases with e | e | e
    · rw [e]
      unfold checkPreemptCurrRt
      apply wlp_get_bind
      refine wlp_when (fun _ => reschedCurr_serves) fun hle => .inr ?_
      unfold rank
      rw [← hsame, e]
      exact not_lt.mp hle
    · rw [e]
      refine serves_of_rank checkPreemptWakeup_kept ?_
      unfold rank
      rw [← hsame, e]
      exact le_rfl
    · exact absurd e hidle
  · rw [if_neg hsame]
    rcases hcurr.cases with e | e | e
    · refine serves_of_rank (checkPreemptWalk_kept _) ?_
      unfold rank
      rw [e] at hcurr hsame ⊢
      exact hcurr.rank_le hp hsame
    · rcases hp.cases with e' | e' | e'
      · rw [e, e']
        exact checkPreemptWalk_serves (by decide) (by decide) (by decide)
      · exact absurd (e'.trans e.symm) hsame
      · exact absurd e' hidle
    · rcases hp.cases with e' | e' | e'
      · rw [e, e']
        exact checkPreemptWalk_serves (by decide) (by decide) (by decide)
      · rw [e, e']
        exact checkPreemptWalk_serves (by decide) (by decide) (by decide)
      · exact absurd e' hidle

/-- **`check_preempt_curr`** marks the running task if the other one outranks it. -/
theorem checkPreemptCurr_serves (hT : AllRanked T) (flags : ℕ) :
    (checkPreemptCurr T p flags).wlp s fun _ s' => Serves T p s' := by
  unfold checkPreemptCurr
  apply wlp_get_bind
  refine wlp_bind (checkPreempt_serves hT flags) ?_
  intro _ s₁ h₁
  apply wlp_get_bind
  refine wlp_when (fun _ => wlp_modify ?_) fun _ => h₁
  exact h₁.of_kept (Aside.kept ⟨rfl, rfl, rfl, rfl⟩)

/-- What a class change sees to: a task that is not running is served unless nothing has changed, and
the running task is marked unless it has kept its rank or gained. -/
def Rechecked (T : α → TaskStruct) (p : α) (k : SchedClass) (oldprio : ℤ) (s : Cpu K) : Prop :=
  (s.rq.curr ≠ p → (k = (T p).schedClass ∧ oldprio = (T p).prio) ∨ Serves T p s) ∧
    (s.rq.curr = p → s.needResched p = true ∨ rank (T p) ≤ rankOf k oldprio)

theorem Rechecked.of_marked (h : s.needResched s.rq.curr = true) : Rechecked T p k oldprio s := by
  refine ⟨fun _ => .inr (.inl h), ?_⟩
  rintro rfl
  exact .inl h

theorem reschedCurr_rechecked :
    (reschedCurr : SchedM K Unit).wlp s fun _ s' => Rechecked T p k oldprio s' :=
  wlp_modify (Rechecked.of_marked (Function.update_self ..))

theorem checkPreemptCurr_rechecked (hT : AllRanked T) (hne : s.rq.curr ≠ p) (flags : ℕ) :
    (checkPreemptCurr T p flags).wlp s fun _ s' => Rechecked T p k oldprio s' := by
  refine ((checkPreemptCurr_serves hT flags).and (checkPreemptCurr_kept.wlp (Kept.refl s))).mono ?_
  rintro _ s' ⟨hs, hk⟩
  refine ⟨fun _ => .inr hs, ?_⟩
  intro e
  exact absurd (hk.curr.symm.trans e) hne

theorem switchedToRt_rechecked (hT : AllRanked T) (hq : taskOnRqQueued (T p) = true)
    (hp : (T p).schedClass = .rt) (hold : Ranked k oldprio) (hk : k ≠ .rt) :
    (switchedToRt T p).wlp s fun _ s' => Rechecked T p k oldprio s' := by
  have hrt : Ranked .rt (T p).prio := by rw [← hp]; exact hT p
  unfold switchedToRt
  apply wlp_get_bind
  refine wlp_when (fun _ => reschedCurr_rechecked) ?_
  intro hn
  refine ⟨fun hne => .inr (.inr ?_), fun _ => .inr ?_⟩
  · unfold rank
    rw [hp]
    refine (hT _).rank_le_of_prio hrt (not_lt.mp ?_)
    intro hlt
    exact hn ⟨hq, hne, hlt⟩
  · unfold rank
    rw [hp]
    exact hrt.rank_le hold hk

theorem switchedToCircular_rechecked (hT : AllRanked T) (hq : taskOnRqQueued (T p) = true) :
    (switchedToCircular T p).wlp s fun _ s' => Rechecked T p k oldprio s' := by
  unfold switchedToCircular
  apply wlp_get_bind
  refine wlp_when ?_ fun hn => absurd hq hn
  intro _
  split
  · exact reschedCurr_rechecked
  · rename_i hne
    exact checkPreemptCurr_rechecked hT hne 0

theorem prioChangedRt_rechecked (hT : AllRanked T) (hq : taskOnRqQueued (T p) = true)
    (hp : (T p).schedClass = .rt) :
    (prioChangedRt T p oldprio).wlp s fun _ s' => Rechecked T p .rt oldprio s' := by
  have hrt : Ranked .rt (T p).prio := by rw [← hp]; exact hT p
  unfold prioChangedRt
  apply wlp_get_bind
  refine wlp_when ?_ fun hn => absurd hq hn
  intro _
  split
  · rename_i e
    refine wlp_when (fun _ => reschedCurr_rechecked) fun hle => ⟨fun hne => absurd e hne, fun _ => .inr ?_⟩
    unfold rank
    rw [hp]
    exact not_lt.mp hle
  · rename_i hne
    refine wlp_when (fun _ => reschedCurr_rechecked) fun hle =>
      ⟨fun _ => .inr (.inr ?_), fun e => absurd e hne⟩
    unfold rank
    rw [hp]
    exact (hT _).rank_le_of_prio hrt (not_lt.mp hle)

theorem prioChangedCircular_rechecked (hT : AllRanked T) (hp : (T p).schedClass = .circular) :
    (prioChangedCircular T p oldprio).wlp s fun _ s' => Rechecked T p .circular oldprio s' := by
  unfold prioChangedCircular
  apply wlp_get_bind
  split
  · rename_i e
    refine wlp_when (fun _ => reschedCurr_rechecked) fun _ => ⟨fun hne => absurd e hne, fun _ => .inr ?_⟩
    unfold rank
    rw [hp]
    exact le_rfl
  · rename_i hne
    exact checkPreemptCurr_rechecked hT hne 0

/-- **`check_class_changed`**, with the class and the priority the task had before. -/
theorem checkClassChanged_rechecked (hT : AllRanked T) (hq : taskOnRqQueued (T p) = true)
    (hold : Ranked k oldprio) :
    (checkClassChanged T p k oldprio).wlp s fun _ s' => Rechecked T p k oldprio s' := by
  unfold checkClassChanged
  split
  · rename_i hk
    refine wlp_bind (P := fun _ s' => s' = s) ?_ ?_
    · unfold switchedFrom
      rcases hold.cases with rfl | rfl | rfl <;> exact wlp_ret rfl
    rintro _ _ rfl
    unfold switchedTo
    rcases (hT p).cases with e | e | e
    · rw [e]
      exact switchedToRt_rechecked hT hq e hold fun ek => hk (ek.trans e.symm)
    · rw [e]
      exact switchedToCircular_rechecked hT hq
    · rw [e]
      exact wlp_fail
  · rename_i hk
    have hk' : k = (T p).schedClass := not_not.mp hk
    apply wlp_when
    · intro _
      unfold prioChanged
      rw [hk']
      rcases (hT p).cases with e | e | e
      · rw [e]
        exact prioChangedRt_rechecked hT hq e
      · rw [e]
        exact prioChangedCircular_rechecked hT e
      · rw [e]
        exact wlp_fail
    · intro hn
      rw [not_or, not_not] at hn
      refine ⟨fun _ => .inl ⟨hk', hn.1⟩, fun _ => .inr ?_⟩
      rw [hk', hn.1]
      exact le_rfl

end KernelHacking.Sched
