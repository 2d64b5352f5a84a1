import KernelHacking.Sched.ClassesSpec

/-! # Picking the next task keeps the invariant

The picks are entered with `circ_rq->curr` pointing at the previous task when that is a circular
task, whether it is still queued or has just been dequeued by `__schedule`.  The pick of the
circular class is sound: `pickNextTaskCircular_spec` is where the events of `PickOk` come from. -/

namespace KernelHacking.Sched

open TraceProg PtrRing Word Prog

variable {α : Type} [DecidableEq α] [Fintype α] {K : Kernel α}
variable {T : α → TaskStruct} {a : Account α} {c : Ctx α} {s : Cpu K} {xs g : List α} {prev : α}

/-- With a queued circular task and `circ_rq->curr` null, the ring is not empty. -/
theorem Sane.exists_head (h : Sane T a c s xs) (hc : c.circCurr = none)
    (hne : (onClass a .circular).Nonempty) : ∃ p ys, xs = p :: ys := by
  obtain ⟨q, hq⟩ := hne
  have hm : q ∈ xs := by
    rw [h.circ.mem, h.circCurr_eq, hc]
    exact ⟨mem_onClass.mp hq, by simp⟩
  cases xs with
  | nil => cases hm
  | cons p ys => exact ⟨p, ys, rfl⟩

/-- The head of the ring is chosen, and leaves the ring. -/
theorem chooseEntity_spec {p : α} {ys : List α} (h : Sane T a c s (p :: ys))
    (hc : c.circCurr = none) :
    chooseEntity.mwp ringMonitor s g (fun r s' g' =>
      r = some p ∧ g' = g ∧ Sane T a { c with circCurr := some p } s' ys) := by
  have hhead : s.rq.circ.circList.head = some p := h.circ.rep.head
  unfold chooseEntity pickNextEntity
  rw [mwp_bind, mwp_bind, mwp_get, mwp_ret, hhead]
  refine mwp.seq (setNextEntity_spec h (List.mem_cons_self) hc) ?_
  rintro _ s' g' ⟨rfl, h'⟩
  rw [List.erase_cons_head] at h'
  exact mwp_ret.mpr ⟨rfl, rfl, h'⟩

/-- **The circular pick.**  It returns nothing, and changes nothing, when no circular task is queued;
otherwise it returns a queued task, which becomes `circ_rq->curr`. -/
theorem pickNextTaskCircular_spec (h : Sane T a c s xs) (hcurr : c.circCurr = currOf T prev)
    (hfair : (T prev).schedClass ≠ .fair) :
    (pickNextTaskCircular T prev).mwp ringMonitor s xs (fun r s' xs' =>
      match r with
      | none => s' = s ∧ xs' = xs ∧ onClass a .circular = ∅
      | some p => a p = some .circular ∧ Sane T a { c with circCurr := some p } s' xs') := by
  unfold pickNextTaskCircular
  rw [mwp_bind, mwp_get]
  split
  · rename_i hz
    rw [h.circ.nr, Finset.card_eq_zero] at hz
    rw [mwp_bind, mwp_emit, mwp_ret]
    refine ⟨⟨rfl, rfl, hz⟩, ?_, ?_, rfl⟩
    · rw [List.eq_nil_iff_forall_not_mem]
      intro q hq
      have hmem : q ∈ onClass a .circular := mem_onClass.mpr ((h.circ.mem q).mp hq).1
      rw [hz] at hmem
      cases hmem
    intro q
    rw [← Bool.not_eq_true, h.circ.onRq, ← mem_onClass, hz]
    exact Finset.notMem_empty q
  · rename_i hnz
    have hne : (onClass a .circular).Nonempty := by
      rw [h.circ.nr] at hnz
      exact Finset.card_pos.mp (Nat.pos_of_ne_zero hnz)
    refine mwp.seq (putPrevTask_spec h hcurr hfair) ?_
    rintro _ s₁ xs₁ ⟨hxs₁, h₁⟩
    obtain ⟨p, ys, rfl⟩ := h₁.exists_head rfl hne
    refine mwp.seq (chooseEntity_spec h₁ rfl) ?_
    rintro _ s₂ g₂ ⟨rfl, rfl, h₂⟩
    have hp : a p = some .circular := ((h₁.circ.mem p).mp (List.mem_cons_self)).1
    rw [mwp_bind]
    apply listTraverse_runs h₂.circ.rep
    rw [mwp_bind, mwp_deref rfl, mwp_bind, mwp_get, mwp_bind, mwp_emit, mwp_ret]
    refine ⟨⟨hp, ?_⟩, xs, ys, h.circ.rep, h₂.circ.rep, hxs₁, rfl, ?_, h₂.circCurr_eq, ?_, ?_⟩
    · show Sane T a _ s₂ ((p :: ys).erase p)
      rw [List.erase_cons_head]
      exact h₂
    · intro hm
      exact ((h₂.circ.mem p).mp hm).2 h₂.circCurr_eq
    · intro q
      rw [h.circ.onRq, h₂.circ.mem, h₂.circCurr_eq]
      by_cases e : q = p
      · subst e; simp [hp]
      · have : ¬ p = q := fun e' => e e'.symm
        simp [e, this]
    · intro q
      rw [Bool.eq_iff_iff, h.circ.onRq, h₂.circ.onRq]

/-- The pick of the real-time class. -/
theorem pickNextTaskRt_spec (h : Sane T a c s xs) (hcurr : c.circCurr = currOf T prev)
    (hfair : (T prev).schedClass ≠ .fair) :
    (pickNextTaskRt T prev).mwp ringMonitor s xs (fun r s' xs' =>
      match r with
      | none => Sane T a c s' xs'
      | some p => a p = some .rt ∧ Sane T a { c with circCurr := none } s' xs') := by
  unfold pickNextTaskRt
  refine mwp.seq (mwp_when (fun _ => updateCurrRt_spec h) (fun _ => ⟨rfl, h⟩)) ?_
  rintro _ s₁ g₁ ⟨rfl, h₁⟩
  rw [mwp_bind, mwp_get]
  split
  · rename_i hq
    have hne : (onClass a .rt).Nonempty := by
      apply Finset.card_pos.mp
      rw [← h₁.rt.nr]
      exact h₁.rt.queued hq
    refine mwp.seq (putPrevTask_spec h₁ hcurr hfair) ?_
    rintro _ s₂ xs₂ ⟨-, h₂⟩
    refine mwp.seq (_pickNextTaskRt_spec h₂ hne) ?_
    rintro p s₃ g₃ ⟨rfl, h₃, hp⟩
    exact mwp_ret.mpr ⟨hp, h₃⟩
  · exact mwp_ret.mpr h₁

/-- The pick of a foreign class. -/
theorem pickNextTaskForeign_spec (h : Sane T a c s xs) (hcurr : c.circCurr = currOf T prev)
    (hfair : (T prev).schedClass ≠ .fair) (f : Foreign) :
    (pickNextTaskForeign f T prev).mwp ringMonitor s xs (fun r s' xs' =>
      match r with
      | none => Sane T a c s' xs'
      | some p => a p = some f.schedClass ∧ Sane T a { c with circCurr := none } s' xs') := by
  unfold pickNextTaskForeign
  refine mwp.seq (mwp_when (fun _ => foreignCall_spec h (by simp)) (fun _ => ⟨rfl, h⟩)) ?_
  rintro _ s₁ g₁ ⟨rfl, h₁⟩
  rw [mwp_bind, mwp_get]
  cases hp : (K.foreign f).pick T s₁.rq.clock (s₁.rq.foreign f) with
  | none => exact mwp_ret.mpr h₁
  | some p =>
      have hap : a p = some f.schedClass := h₁.foreign f p ((K.foreign f).pick_mem _ _ _ _ hp)
      refine mwp.seq (putPrevTask_spec h₁ hcurr hfair) ?_
      rintro _ s₂ xs₂ ⟨-, h₂⟩
      refine mwp.seq (foreignCall_spec h₂ (by simp)) ?_
      rintro _ s₃ g₃ ⟨rfl, h₃⟩
      exact mwp_ret.mpr ⟨hap, h₃⟩

/-- The pick of the idle class. -/
theorem pickNextTaskIdle_spec (h : Sane T a c s xs) (hcurr : c.circCurr = currOf T prev)
    (hfair : (T prev).schedClass ≠ .fair) :
    (pickNextTaskIdle T prev).mwp ringMonitor s xs (fun p s' xs' =>
      p = c.idle ∧ Sane T a { c with circCurr := none } s' xs') := by
  unfold pickNextTaskIdle
  refine mwp.seq (putPrevTask_spec h hcurr hfair) ?_
  rintro _ s₁ xs₁ ⟨-, h₁⟩
  rw [mwp_bind, mwp_get, mwp_ret]
  exact ⟨h₁.idle_eq, h₁⟩

/-- What a pick leaves behind: the picked task is queued, or it is the idle task and no circular
task is queued, and `circ_rq->curr` points at it if it is a circular task. -/
structure Picked (T : α → TaskStruct) (a : Account α) (c : Ctx α) (p : α) (s : Cpu K)
    (xs : List α) : Prop where
  queued : (∃ k, k ≠ .idle ∧ a p = some k) ∨ p = c.idle ∧ onClass a .circular = ∅
  sane : Sane T a { c with circCurr := if a p = some .circular then some p else none } s xs

theorem Picked.of_class {p : α} {k : SchedClass} (hp : a p = some k) (hi : k ≠ .idle)
    (hc : k ≠ .circular) (h : Sane T a { c with circCurr := none } s xs) : Picked T a c p s xs := by
  refine ⟨.inl ⟨k, hi, hp⟩, ?_⟩
  rw [if_neg (by rw [hp]; exact fun e => hc (Option.some.inj e))]
  exact h

theorem Picked.of_circular {p : α} (hp : a p = some .circular)
    (h : Sane T a { c with circCurr := some p } s xs) : Picked T a c p s xs := by
  refine ⟨.inl ⟨.circular, by decide, hp⟩, ?_⟩
  rw [if_pos hp]
  exact h

theorem Picked.of_idle (hempty : onClass a .circular = ∅)
    (h : Sane T a { c with circCurr := none } s xs) : Picked T a c c.idle s xs := by
  refine ⟨.inr ⟨rfl, hempty⟩, ?_⟩
  rw [if_neg (by rw [← mem_onClass, hempty]; exact Finset.notMem_empty _)]
  exact h

/-- `pick_next_task` of a class in the chain.  The idle class is asked when the circular class has
nothing. -/
theorem classPick_spec (h : Sane T a c s xs) (hcurr : c.circCurr = currOf T prev)
    (hfair : (T prev).schedClass ≠ .fair) {k : SchedClass} (hk : k ≠ .fair)
    (hempty : k = .idle → onClass a .circular = ∅) :
    (classPick T prev k).mwp ringMonitor s xs (fun r s' xs' =>
      match r with
      | none => k ≠ .idle ∧ (k = .circular → onClass a .circular = ∅) ∧ Sane T a c s' xs'
      | some p => Picked T a c p s' xs') := by
  cases k with
  | stop =>
      refine (pickNextTaskForeign_spec h hcurr hfair .stop).mono ?_
      intro r s' xs' hr
      cases r with
      | none => exact ⟨by decide, by simp, hr⟩
      | some p => exact .of_class hr.1 (by decide) (by decide) hr.2
  | dl =>
      refine (pickNextTaskForeign_spec h hcurr hfair .dl).mono ?_
      intro r s' xs' hr
      cases r with
      | none => exact ⟨by decide, by simp, hr⟩
      | some p => exact .of_class hr.1 (by decide) (by decide) hr.2
  | rt =>
      refine (pickNextTaskRt_spec h hcurr hfair).mono ?_
      intro r s' xs' hr
      cases r with
      | none => exact ⟨by decide, by simp, hr⟩
      | some p => exact .of_class hr.1 (by decide) (by decide) hr.2
  | fair => exact absurd rfl hk
  | circular =>
      refine (pickNextTaskCircular_spec h hcurr hfair).mono ?_
      intro r s' xs' hr
      cases r with
      | none =>
          obtain ⟨rfl, rfl, he⟩ := hr
          exact ⟨by decide, fun _ => he, h⟩
      | some p => exact .of_circular hr.1 hr.2
  | idle =>
      refine mwp.seq (pickNextTaskIdle_spec h hcurr hfair) ?_
      rintro p s' xs' ⟨rfl, h'⟩
      exact mwp_ret.mpr (.of_idle (hempty rfl) h')

/-- The walk over the classes ends at the idle class at the latest, which comes after the circular
class. -/
theorem pickWalk_spec (h : Sane T a c s xs) (hcurr : c.circCurr = currOf T prev)
    (hfair : (T prev).schedClass ≠ .fair) :
    (pickWalk T prev classChain).mwp ringMonitor s xs (fun p s' xs' => Picked T a c p s' xs') := by
  have hlast : ∀ {s : Cpu K} {xs : List α}, Sane T a c s xs → onClass a .circular = ∅ →
      (pickWalk T prev [.idle]).mwp ringMonitor s xs (fun p s' xs' => Picked T a c p s' xs') := by
    intro s xs h hempty
    refine mwp.seq (classPick_spec h hcurr hfair (by decide) (fun _ => hempty)) ?_
    intro r s₁ xs₁ hr
    cases r with
    | none => exact absurd rfl hr.1
    | some p => exact mwp_ret.mpr hr
  have hmore : ∀ (k : SchedClass) (cs : List SchedClass), k ≠ .fair → k ≠ .idle →
      (∀ {s : Cpu K} {xs : List α}, Sane T a c s xs → (k = .circular → onClass a .circular = ∅) →
        (pickWalk T prev cs).mwp ringMonitor s xs (fun p s' xs' => Picked T a c p s' xs')) →
      ∀ {s : Cpu K} {xs : List α}, Sane T a c s xs →
        (pickWalk T prev (k :: cs)).mwp ringMonitor s xs
          (fun p s' xs' => Picked T a c p s' xs') := by
    intro k cs hk hi hcs s xs h
    refine mwp.seq (classPick_spec h hcurr hfair hk (fun e => absurd e hi)) ?_
    intro r s₁ xs₁ hr
    cases r with
    | none => exact hcs hr.2.2 hr.2.1
    | some p => exact mwp_ret.mpr hr
  refine hmore .stop _ (by decide) (by decide) (fun h _ => ?_) h
  refine hmore .dl _ (by decide) (by decide) (fun h _ => ?_) h
  refine hmore .rt _ (by decide) (by decide) (fun h _ => ?_) h
  exact hmore .circular _ (by decide) (by decide) (fun h he => hlast h (he rfl)) h

/-- **`pick_next_task`** returns a queued task, or the idle task when no circular task is queued. -/
theorem pickNextTask_spec (h : Sane T a c s xs) (hcurr : c.circCurr = currOf T prev)
    (hfair : (T prev).schedClass ≠ .fair) :
    (pickNextTask T prev).mwp ringMonitor s xs (fun p s' xs' => Picked T a c p s' xs') := by
  unfold pickNextTask
  rw [mwp_bind, mwp_get]
  split
  · unfold pickShortcut
    refine mwp.seq (pickNextTaskCircular_spec h hcurr hfair) ?_
    intro r s₁ xs₁ hr
    cases r with
    | none =>
        obtain ⟨rfl, rfl, he⟩ := hr
        refine (pickNextTaskIdle_spec h hcurr hfair).mono ?_
        rintro p s' xs' ⟨rfl, h'⟩
        exact .of_idle he h'
    | some p => exact mwp_ret.mpr (.of_circular hr.1 hr.2)
  · exact pickWalk_spec h hcurr hfair

end KernelHacking.Sched
