import KernelHacking.Lib.Fifo
import KernelHacking.Sched.Run

/-! # No overtaking

The ring of the circular class is a queue without overtaking: tasks join at the end, are dequeued
from wherever they are, and the pick takes the head.  The trace of a run is mapped to a history of
such a queue (`Event.op`, `ringMonitor_fifo`), and the results about histories are read back on
runs: a task in the ring is not overtaken, and comes to its turn after as many circular picks as
there are tasks before it. -/

namespace KernelHacking.Sched

open TraceProg PtrRing Word Prog FifoQueue

variable {α : Type} [DecidableEq α] [Fintype α] {K : Kernel α}

/-! ### The trace as the history of a queue -/

/-- What an event does to the queue. -/
def Event.op : Event K → Option (Op α)
  | .insert _ _ _ p => some (.push p)
  | .dequeued p => some (.drop p)
  | .pick _ _ _ r _ => some (.take r)
  | _ => none

/-- The history of a trace. -/
def history (t : List (Event K)) : List (Op α) := t.filterMap Event.op

/-- A circular pick. -/
def Event.isPick : Event K → Bool
  | .pick .. => true
  | _ => false

/-- The task is returned by a circular pick of the trace. -/
def PickedIn (p : α) (t : List (Event K)) : Prop :=
  ∃ T s prev s', Event.pick T s prev (some p) s' ∈ t

section
variable {xs : List α} {a b : α} {t : List (Event K)}

theorem history_countP (t : List (Event K)) : (history t).countP Op.isTake = t.countP Event.isPick := by
  unfold history
  rw [List.countP_filterMap]
  congr 1
  funext e
  cases e <;> rfl

theorem ringStep_eq (xs : List α) (e : Event K) :
    ringStep xs e = (e.op.map (Op.step xs)).getD xs := by
  cases e with
  | pick T s prev r s' => cases r <;> rfl
  | _ => rfl

theorem Event.Ok.op {g : List α} {e : Event K} (h : e.Ok g) {o : Op α} (ho : e.op = some o) :
    o.Ok g := by
  cases e with
  | pick T s prev r s' =>
      cases ho
      cases r with
      | none =>
          obtain ⟨rfl, -⟩ := h
          rfl
      | some p =>
          obtain ⟨ys, zs, -, -, -, hg, -⟩ := h
          show g.head? = some p
          rw [hg]
          rfl
  | insert _ _ _ p => cases ho; trivial
  | dequeued p => cases ho; trivial
  | _ => cases ho

/-- The ring follows the history, and an accepted trace is the history of a queue without
overtaking. -/
theorem ringMonitor_fifo (t : List (Event K)) : ∀ {xs : List α},
    ringMonitor.after xs t = fifo.after xs (history t) ∧
      (ringMonitor.Accepts xs t → fifo.Accepts xs (history t)) := by
  induction t with
  | nil => intro xs; exact ⟨rfl, fun _ => trivial⟩
  | cons e t ih =>
      intro xs
      have hstep := ringStep_eq xs e
      obtain ⟨hafter, hacc⟩ := @ih (ringStep xs e)
      cases ho : e.op with
      | none =>
          rw [ho] at hstep
          have hhist : history (e :: t) = history t := List.filterMap_cons_none ho
          rw [hhist]
          refine ⟨?_, ?_⟩
          · show ringMonitor.after (ringStep xs e) t = _
            rw [hafter, hstep]
            rfl
          · intro h
            have := hacc h.2
            rw [hstep] at this
            exact this
      | some o =>
          rw [ho] at hstep
          have hhist : history (e :: t) = o :: history t := List.filterMap_cons_some ho
          rw [hhist]
          refine ⟨?_, ?_⟩
          · show ringMonitor.after (ringStep xs e) t = _
            rw [hafter, hstep]
            rfl
          · intro h
            refine ⟨Event.Ok.op h.1 ho, ?_⟩
            have := hacc h.2
            rw [hstep] at this
            exact this

theorem mem_history_take {r : Option α} (h : Op.take r ∈ history t) :
    ∃ T s prev s', Event.pick T s prev r s' ∈ t := by
  obtain ⟨e, he, ho⟩ := List.mem_filterMap.mp h
  cases e with
  | pick T s prev r' s' =>
      cases ho
      exact ⟨T, s, prev, s', he⟩
  | _ => cases ho

theorem mem_history_drop (h : Op.drop a ∈ history t) : Event.dequeued a ∈ t := by
  obtain ⟨e, he, ho⟩ := List.mem_filterMap.mp h
  cases e with
  | dequeued p => cases ho; exact he
  | _ => cases ho

/-- A task that is neither dequeued nor picked is spared by the history. -/
theorem history_spares (hd : Event.dequeued a ∉ t) (hp : ¬ PickedIn a t) :
    ∀ o ∈ history t, o.Spares a := by
  intro o ho
  refine ⟨?_, ?_⟩
  · intro e
    subst e
    exact hd (mem_history_drop ho)
  · intro e
    subst e
    exact hp (mem_history_take ho)

/-- What the history says about a task in the ring, and about those behind it. -/
theorem ring_waits (hacc : ringMonitor.Accepts xs t) (ha : a ∈ xs) (hd : Event.dequeued a ∉ t)
    (hp : ¬ PickedIn a t) :
    a ∈ ringMonitor.after xs t ∧
      (ringMonitor.after xs t).idxOf a + t.countP Event.isPick ≤ xs.idxOf a ∧
      ∀ b, xs.idxOf a < xs.idxOf b → ¬ PickedIn b t ∧
        (ringMonitor.after xs t).idxOf a < (ringMonitor.after xs t).idxOf b := by
  obtain ⟨hafter, hfifo⟩ := @ringMonitor_fifo α _ _ K t xs
  have hspares := history_spares hd hp
  obtain ⟨hmem, hidx⟩ := waits (history t) (hfifo hacc) ha hspares
  rw [hafter]
  refine ⟨hmem, ?_, ?_⟩
  · rw [history_countP] at hidx
    exact hidx
  · intro b hb
    obtain ⟨hahead, hnot⟩ := Ahead.after (b := b) (history t) (hfifo hacc) ⟨ha, hb⟩ hspares
    refine ⟨?_, hahead.2⟩
    intro hpb
    obtain ⟨T, s, prev, s', hmem'⟩ := hpb
    exact hnot (List.mem_filterMap.mpr ⟨_, hmem', rfl⟩)

/-- One event: the position does not grow, and a pick of another task lowers it by exactly one. -/
theorem ring_waits_step {e : Event K} (hok : e.Ok xs) (ha : a ∈ xs) (hd : Event.dequeued a ≠ e)
    (hp : ¬ PickedIn a [e]) :
    (ringStep xs e).idxOf a ≤ xs.idxOf a ∧
      (e.isPick = true → (ringStep xs e).idxOf a + 1 = xs.idxOf a) := by
  have hspares := history_spares (t := [e]) (a := a) (by simpa using hd) hp
  rw [ringStep_eq]
  cases ho : e.op with
  | none =>
      refine ⟨le_rfl, ?_⟩
      intro hpick
      cases e with
      | pick T s prev r s' => cases ho
      | _ => cases hpick
  | some o =>
      have hso : o.Spares a := hspares o (List.mem_filterMap.mpr ⟨e, List.mem_singleton_self e, ho⟩)
      refine ⟨idxOf_step_le ha hso (hok.op ho), ?_⟩
      intro hpick
      cases e with
      | pick T s prev r s' =>
          cases ho
          obtain ⟨-, -, -, h⟩ := idxOf_take ha hso (Event.Ok.op hok rfl)
          exact h
      | _ => cases hpick

end

/-! ### In every run -/

/-- **No overtaking.**  Take a task `a` in the ring `xs` of a machine in a run, any further run, and
any part `t` of its trace in which `a` is not dequeued.  As long as `a` is not picked it stays in
the ring and its distance from the head does not grow: the next event does not raise it, a circular
pick of another task lowers it by exactly one.  Whoever is behind `a` at the start, or is not in the
ring at all and joins it later, stays behind `a` and is not picked.  Hence `a` is picked at the
latest by the pick that follows as many picks as there were tasks before it. -/
theorem no_overtaking {m₀ m m' : Machine K} {t₀ t t' : List (Event K)} {xs : List α} {a : α}
    (hb : Boot m₀) (h₀ : Run m₀ t₀ m) (hxs : Represents m.cpu.node m.cpu.rq.circ.circList xs)
    (ha : a ∈ xs) (h : Run m (t ++ t') m') (hd : Event.dequeued a ∉ t) :
    (¬ PickedIn a t → a ∈ ringMonitor.after xs t ∧
      (ringMonitor.after xs t).idxOf a + t.countP Event.isPick ≤ xs.idxOf a ∧
      (∀ b, xs.idxOf a < xs.idxOf b → ¬ PickedIn b t ∧
        (ringMonitor.after xs t).idxOf a < (ringMonitor.after xs t).idxOf b) ∧
      ∀ e t'', t' = e :: t'' → Event.dequeued a ≠ e → ¬ PickedIn a [e] →
        (ringMonitor.after xs (t ++ [e])).idxOf a ≤ (ringMonitor.after xs t).idxOf a ∧
        (e.isPick = true →
          (ringMonitor.after xs (t ++ [e])).idxOf a + 1 = (ringMonitor.after xs t).idxOf a)) ∧
      (xs.idxOf a < t.countP Event.isPick → PickedIn a t) ∧
      (t' = [] → Represents m'.cpu.node m'.cpu.rq.circ.circList (ringMonitor.after xs t)) := by
  obtain ⟨hinv, -⟩ := h₀.inv hb.inv
  have exs : ringMonitor.after [] t₀ = xs := hinv.sane.circ.rep.unique hxs
  rw [exs] at hinv
  obtain ⟨hinv', hacc⟩ := h.inv hinv
  obtain ⟨hacct, hacct'⟩ := (Monitor.accepts_append _ t).mp hacc
  refine ⟨?_, ?_, ?_⟩
  · intro hp
    obtain ⟨hmem, hidx, hbehind⟩ := ring_waits hacct ha hd hp
    refine ⟨hmem, hidx, hbehind, ?_⟩
    intro e t'' et' hde hpe
    rw [et'] at hacct'
    rw [Monitor.after_append]
    exact ring_waits_step hacct'.1 hmem hde hpe
  · intro hlt
    by_contra hp
    obtain ⟨-, hidx, -⟩ := ring_waits hacct ha hd hp
    omega
  · intro et'
    rw [et', List.append_nil] at hinv'
    exact hinv'.sane.circ.rep

/-- The second of two normal tasks gets its turn at the next pick. -/
theorem no_overtaking_small : ∃ (t₀ t : List (Event smallKernel)) (m' : Machine smallKernel),
    Boot smallBoot ∧ Run smallBoot t₀ smallRunning ∧
      Represents smallRunning.cpu.node smallRunning.cpu.rq.circ.circList [2] ∧
      Run smallRunning (t ++ []) m' ∧ Event.dequeued 2 ∉ t ∧ t.countP Event.isPick = 1 ∧
      PickedIn 2 t := by
  have hspared : ∀ {t : List (Event smallKernel)},
      (history t).all (fun o => decide (o ≠ .drop 2)) = true → Event.dequeued 2 ∉ t := by
    intro t hall hmem
    have hdrop : Op.drop 2 ∈ history t := List.mem_filterMap.mpr ⟨_, hmem, rfl⟩
    exact of_decide_eq_true (List.all_eq_true.mp hall _ hdrop) rfl
  obtain ⟨t₀, h₀, -⟩ := smallRunning_run
  have hrefl : Run smallRunning [] smallRunning := .refl
  have h := Run.step (.schedule false false none) hrefl trivial ⟨3, rfl⟩
  rw [← List.append_nil ([] ++ _)] at h
  have hrep : Represents smallRunning.cpu.node smallRunning.cpu.rq.circ.circList [2] :=
    ⟨List.nodup_singleton 2, rfl, rfl,
      (ring_iff_last _ _ _).mpr ⟨⟨rfl, rfl⟩, List.isChain_singleton 2⟩⟩
  have hpicked := no_overtaking smallBoot_boot h₀ hrep (List.mem_singleton_self 2) h (hspared rfl)
  exact ⟨t₀, _, _, smallBoot_boot, h₀, hrep, h, hspared rfl, rfl, hpicked.2.1 (by decide)⟩

end KernelHacking.Sched
