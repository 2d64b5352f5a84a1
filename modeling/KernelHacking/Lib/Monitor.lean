import KernelHacking.Lib.Prog

/-! # Monitors over traces

A monitor watches the trace of a program: it keeps a ghost value that every event may change, and
says which events are admissible for the ghost they meet.  `mwp M x s g Q` is total correctness of
`x` under the monitor: the run from state `s` and ghost `g` ends, all of its events are admissible,
and `Q` holds of the value, the final state and the ghost.  As for `wp`, the rules are equivalences,
and the trace no longer occurs in them: a statement about all the calls some code makes and about a
history of them is proved with pre- and postconditions on states and ghosts.  `mwp.ends` reads the
result back on the runs themselves.

`Keeps M J x` is the other way round: as long as the monitor finds nothing to object to, `x` keeps
the relation `J` between states and ghosts.  It asks for no termination, and its rules follow the
shape of the program. -/

namespace TraceProg

/-- A ghost value that events change, and the admissible events. -/
structure Monitor (ε G : Type) where
  step : G → ε → G
  ok : G → ε → Prop

namespace Monitor

variable {ε G : Type} (M : Monitor ε G)

/-- The ghost value after a trace. -/
def after (g : G) (t : List ε) : G := t.foldl M.step g

/-- All events of the trace are admissible when they come. -/
def Accepts (g : G) : List ε → Prop
  | [] => True
  | e :: t => M.ok g e ∧ Accepts (M.step g e) t

theorem after_append (g : G) (t t' : List ε) : M.after g (t ++ t') = M.after (M.after g t) t' :=
  List.foldl_append

theorem accepts_append : ∀ (t : List ε) {t' : List ε} {g : G},
    M.Accepts g (t ++ t') ↔ M.Accepts g t ∧ M.Accepts (M.after g t) t'
  | [], t', g => by
      show M.Accepts g t' ↔ True ∧ M.Accepts g t'
      rw [true_and]
  | e :: t, t', g => by
      show M.ok g e ∧ M.Accepts (M.step g e) (t ++ t') ↔ _
      rw [accepts_append t, ← and_assoc]
      rfl

/-- An event of an accepted trace is admissible for the ghost it meets. -/
theorem Accepts.ok_of_append {M : Monitor ε G} {g : G} {t t' : List ε} {e : ε}
    (h : M.Accepts g (t ++ e :: t')) : M.ok (M.after g t) e :=
  ((M.accepts_append t).mp h).2.1

/-- Every event of an accepted trace is admissible for some ghost. -/
theorem Accepts.exists_ok {M : Monitor ε G} {g : G} {t : List ε} {e : ε} (h : M.Accepts g t)
    (he : e ∈ t) : ∃ g', M.ok g' e := by
  obtain ⟨t₁, t₂, rfl⟩ := List.append_of_mem he
  exact ⟨_, h.ok_of_append⟩

end Monitor

namespace Prog

variable {σ τ ε α β G : Type} {M : Monitor ε G}

/-! ### Total correctness under a monitor -/

/-- The run ends, its events are admissible, and `Q` holds of the outcome and the ghost. -/
def mwp (M : Monitor ε G) (x : Prog σ ε α) (s : σ) (g : G) (Q : α → σ → G → Prop) : Prop :=
  x.wp s fun a s' t => Q a s' (M.after g t) ∧ M.Accepts g t

/-- What `mwp` says about a run. -/
theorem mwp.ends {x : Prog σ ε α} {s : σ} {g : G} {Q : α → σ → G → Prop} (h : x.mwp M s g Q)
    {a : α} {s' : σ} {t : List ε} (he : x.Ends s a s' t) :
    Q a s' (M.after g t) ∧ M.Accepts g t := wp.of_ends h he

/-- There is such a run. -/
theorem mwp.exists_ends {x : Prog σ ε α} {s : σ} {g : G} {Q : α → σ → G → Prop}
    (h : x.mwp M s g Q) : ∃ a s' t, x.Ends s a s' t := by
  obtain ⟨a, s', t, he, -⟩ := h
  exact ⟨a, s', t, he⟩

/-- Without the monitor. -/
theorem mwp.wp {x : Prog σ ε α} {s : σ} {g : G} {Q : α → σ → G → Prop} (h : x.mwp M s g Q) :
    x.wp s fun a s' t => Q a s' (M.after g t) :=
  wp.mono h fun _ _ _ hq => hq.1

theorem mwp.mono {x : Prog σ ε α} {s : σ} {g : G} {Q Q' : α → σ → G → Prop} (h : x.mwp M s g Q)
    (hQ : ∀ a s' g', Q a s' g' → Q' a s' g') : x.mwp M s g Q' :=
  wp.mono h fun a s' _ hq => ⟨hQ a s' _ hq.1, hq.2⟩

@[simp] theorem mwp_ret {a : α} {s : σ} {g : G} {Q : α → σ → G → Prop} :
    (pure a : Prog σ ε α).mwp M s g Q ↔ Q a s g := by
  unfold mwp
  simp [Monitor.after, Monitor.Accepts]

@[simp] theorem mwp_bind {x : Prog σ ε α} {f : α → Prog σ ε β} {s : σ} {g : G}
    {Q : β → σ → G → Prop} :
    (x >>= f).mwp M s g Q ↔ x.mwp M s g fun a s' g' => (f a).mwp M s' g' Q := by
  unfold mwp
  rw [wp_bind]
  constructor
  · rintro ⟨a, s', t, h₁, b, s'', t', h₂, hQ, hok⟩
    rw [M.accepts_append] at hok
    rw [M.after_append] at hQ
    exact ⟨a, s', t, h₁, ⟨b, s'', t', h₂, hQ, hok.2⟩, hok.1⟩
  · rintro ⟨a, s', t, h₁, ⟨b, s'', t', h₂, hQ, hok₂⟩, hok₁⟩
    refine ⟨a, s', t, h₁, b, s'', t', h₂, ?_, (M.accepts_append t).mpr ⟨hok₁, hok₂⟩⟩
    rw [M.after_append]
    exact hQ

/-- Sequencing through an intermediate condition. -/
theorem mwp.seq {x : Prog σ ε α} {f : α → Prog σ ε β} {s : σ} {g : G} {P : α → σ → G → Prop}
    {Q : β → σ → G → Prop} (hx : x.mwp M s g P)
    (hf : ∀ a s' g', P a s' g' → (f a).mwp M s' g' Q) : (x >>= f).mwp M s g Q :=
  mwp_bind.mpr (hx.mono hf)

@[simp] theorem mwp_get {s : σ} {g : G} {Q : σ → σ → G → Prop} :
    (get : Prog σ ε σ).mwp M s g Q ↔ Q s s g := by
  unfold mwp
  simp [Monitor.after, Monitor.Accepts]

@[simp] theorem mwp_modify {f : σ → σ} {s : σ} {g : G} {Q : Unit → σ → G → Prop} :
    (modify f : Prog σ ε Unit).mwp M s g Q ↔ Q () (f s) g := by
  unfold mwp
  simp [Monitor.after, Monitor.Accepts]

@[simp] theorem mwp_emit {e : ε} {s : σ} {g : G} {Q : Unit → σ → G → Prop} :
    (emit e : Prog σ ε Unit).mwp M s g Q ↔ Q () s (M.step g e) ∧ M.ok g e := by
  unfold mwp
  simp [Monitor.after, Monitor.Accepts]

theorem mwp_deref {o : Option α} {a : α} (h : o = some a) {s : σ} {g : G}
    {Q : α → σ → G → Prop} : (deref o : Prog σ ε α).mwp M s g Q ↔ Q a s g := by
  subst h; exact mwp_ret

theorem mwp_budgeted {f : ℕ → σ → Except Fault σ}
    {hf : ∀ n k s s', n ≤ k → f n s = .ok s' → f k s = .ok s'} {n : ℕ} {s s' : σ}
    (h : f n s = .ok s') {g : G} {Q : Unit → σ → G → Prop} (hQ : Q () s' g) :
    (budgeted f hf : Prog σ ε Unit).mwp M s g Q :=
  wp_budgeted h ⟨hQ, trivial⟩

/-- A guarded program: what the guard leads to, and what skipping it leads to. -/
theorem mwp_when {c : Prop} [Decidable c] {x : Prog σ ε Unit} {s : σ} {g : G}
    {Q : Unit → σ → G → Prop} (h : c → x.mwp M s g Q) (h' : ¬ c → Q () s g) :
    (when c x).mwp M s g Q := by
  by_cases hc : c
  · rw [when_pos hc]; exact h hc
  · rw [when_neg hc]; exact mwp_ret.mpr (h' hc)

/-- A guard over a sequence guards both parts. -/
theorem mwp_when_bind {c : Prop} [Decidable c] {x y : Prog σ ε Unit} {s : σ} {g : G}
    {Q : Unit → σ → G → Prop} :
    (when c (x >>= fun _ => y)).mwp M s g Q ↔
      (when c x >>= fun _ => when c y).mwp M s g Q := by
  by_cases hc : c
  · rw [when_pos hc, when_pos hc, when_pos hc]
  · rw [when_neg hc, when_neg hc, when_neg hc, mwp_bind, mwp_ret, mwp_ret, mwp_ret]

/-! ### What a program keeps -/

/-- As long as the monitor accepts its events, `x` keeps the relation `J` between state and
ghost. -/
def Keeps (M : Monitor ε G) (J : σ → G → Prop) (x : Prog σ ε α) : Prop :=
  ∀ s g a s' t, J s g → x.Ends s a s' t → M.Accepts g t → J s' (M.after g t)

section keeps
variable {J : σ → G → Prop}

theorem keeps_ret (a : α) : Keeps M J (pure a : Prog σ ε α) := by
  intro s g b s' t hJ he _
  obtain ⟨-, rfl, rfl⟩ := ends_ret.mp he
  exact hJ

theorem keeps_bind {x : Prog σ ε α} {f : α → Prog σ ε β} (hx : Keeps M J x)
    (hf : ∀ a, Keeps M J (f a)) : Keeps M J (x >>= f) := by
  intro s g b s'' t hJ he hok
  obtain ⟨a, s', t₁, t₂, h₁, h₂, rfl⟩ := ends_bind.mp he
  rw [M.accepts_append] at hok
  rw [M.after_append]
  exact hf a s' _ b s'' t₂ (hx s g a s' t₁ hJ h₁ hok.1) h₂ hok.2

/-- What follows a read of the state may use that it is the state. -/
theorem keeps_get_bind {f : σ → Prog σ ε β}
    (hf : ∀ s g b s' t, J s g → (f s).Ends s b s' t → M.Accepts g t → J s' (M.after g t)) :
    Keeps M J (get >>= f) := by
  intro s g b s'' t hJ he hok
  obtain ⟨a, s', t₁, t₂, h₁, h₂, rfl⟩ := ends_bind.mp he
  obtain ⟨rfl, rfl, rfl⟩ := ends_get.mp h₁
  exact hf _ g b s'' t₂ hJ h₂ hok

theorem keeps_get : Keeps M J (get : Prog σ ε σ) := by
  intro s g b s' t hJ he _
  obtain ⟨-, rfl, rfl⟩ := ends_get.mp he
  exact hJ

theorem keeps_modify {f : σ → σ} (hf : ∀ s g, J s g → J (f s) g) :
    Keeps M J (modify f : Prog σ ε Unit) := by
  intro s g b s' t hJ he _
  obtain ⟨rfl, rfl⟩ := ends_modify.mp he
  exact hf s g hJ

theorem keeps_emit {e : ε} (he : ∀ s g, J s g → M.ok g e → J s (M.step g e)) :
    Keeps M J (emit e : Prog σ ε Unit) := by
  intro s g b s' t hJ hends hok
  obtain ⟨rfl, rfl⟩ := ends_emit.mp hends
  exact he _ g hJ hok.1

theorem keeps_fail {e : Fault} : Keeps M J (fail e : Prog σ ε α) := by
  intro s g b s' t _ he _
  obtain ⟨n, h⟩ := he
  cases h

theorem keeps_when {c : Prop} [Decidable c] {x : Prog σ ε Unit} (hx : c → Keeps M J x) :
    Keeps M J (when c x) := by
  by_cases hc : c
  · rw [when_pos hc]; exact hx hc
  · rw [when_neg hc]; exact keeps_ret ()

theorem keeps_ite {c : Prop} [Decidable c] {x y : Prog σ ε α} (hx : Keeps M J x)
    (hy : Keeps M J y) : Keeps M J (if c then x else y) := by
  by_cases hc : c
  · rw [if_pos hc]; exact hx
  · rw [if_neg hc]; exact hy

theorem keeps_deref (o : Option α) : Keeps M J (deref o : Prog σ ε α) := by
  cases o with
  | none => exact keeps_fail
  | some a => exact keeps_ret a

theorem keeps_budgeted {f : ℕ → σ → Except Fault σ}
    {hf : ∀ n k s s', n ≤ k → f n s = .ok s' → f k s = .ok s'}
    (h : ∀ n s s' g, f n s = .ok s' → J s g → J s' g) :
    Keeps M J (budgeted f hf : Prog σ ε Unit) := by
  intro s g b s' t hJ he _
  obtain ⟨n, hn, rfl⟩ := ends_budgeted.mp he
  exact h n s s' g hn hJ

/-- A program on a part of the state, for a relation on that part. -/
theorem keeps_zoom {view : σ → τ} {put : τ → σ → σ} {J' : τ → G → Prop} {x : Prog τ ε α}
    (hview : ∀ p s, view (put p s) = p) (h : Keeps M J' x) :
    Keeps M (fun s g => J' (view s) g) (zoom view put x) := by
  intro s g a s' t hJ he hok
  obtain ⟨p, hp, rfl⟩ := ends_zoom.mp he
  show J' (view (put p s)) _
  rw [hview]
  exact h _ g a p t hJ hp hok

end keeps

end Prog

end TraceProg
