import Mathlib

/-! # Stateful programs with faults, loops and a trace

`Prog σ ε α` is the shallow embedding used for imperative code: a program over the state
`σ` that returns a value of `α`, may fail with a `Fault`, and records events of `ε` at the
points of interest.  Loops of the source that have no bound of their own are given a budget,
the first argument of `run`: a program that exhausts it fails with `Fault.fuel`.  A larger
budget never changes a run that ended (`Prog.mono`, carried by the structure), so

* `Ends x s a s' t` — some budget suffices and the run of `x` from `s` ends in `s'` with
  value `a` and trace `t` — is the meaning of a run, and it is a partial function
  (`Ends.unique`);
* `wp x s Q` — the run of `x` from `s` ends, and its outcome satisfies `Q` — is total
  correctness.  The rules for the basic programs are equivalences, so straight-line code is
  executed symbolically by rewriting with them;
* `wlp x s Q` — if the run of `x` from `s` ends, its outcome satisfies `Q` — is partial
  correctness. -/

namespace TraceProg

/-- How a run of C code can go wrong. -/
inductive Fault where
  /-- a null pointer is dereferenced, or a null function pointer is called -/
  | nullDeref
  /-- `BUG`, `BUG_ON`, or an array index out of bounds -/
  | bug
  /-- the loop budget is exhausted -/
  | fuel
deriving DecidableEq, Repr

/-- Programs: budget and state to an outcome, stable under larger budgets. -/
structure Prog (σ ε α : Type) where
  run : ℕ → σ → Except Fault (α × σ × List ε)
  mono : ∀ {n k : ℕ} {s : σ} {r : α × σ × List ε}, n ≤ k → run n s = .ok r → run k s = .ok r

namespace Prog

variable {σ τ ε α β : Type}

/-! ### The basic programs -/

/-- Return a value. -/
protected def ret (a : α) : Prog σ ε α := ⟨fun _ s => .ok (a, s, []), fun _ h => h⟩

/-- Outcome of the second half of a sequence, its trace appended to `t`. -/
def andThen (t : List ε) : Except Fault (β × σ × List ε) → Except Fault (β × σ × List ε)
  | .error e => .error e
  | .ok (b, s, t') => .ok (b, s, t ++ t')

/-- Sequencing. -/
protected def bind (x : Prog σ ε α) (f : α → Prog σ ε β) : Prog σ ε β where
  run n s :=
    match x.run n s with
    | .error e => .error e
    | .ok (a, s', t) => andThen t ((f a).run n s')
  mono := by
    intro n k s r hnk h
    cases hx : x.run n s with
    | error e => simp [hx] at h
    | ok p =>
        obtain ⟨a, s', t⟩ := p
        simp only [hx] at h
        simp only [x.mono hnk hx]
        cases hf : (f a).run n s' with
        | error e => simp [hf, andThen] at h
        | ok q => rw [(f a).mono hnk hf]; rw [hf] at h; exact h

instance : Monad (Prog σ ε) where
  pure := Prog.ret
  bind := Prog.bind

/-- Read the state. -/
def get : Prog σ ε σ := ⟨fun _ s => .ok (s, s, []), fun _ h => h⟩

/-- Change the state. -/
def modify (f : σ → σ) : Prog σ ε Unit := ⟨fun _ s => .ok ((), f s, []), fun _ h => h⟩

/-- Record an event. -/
def emit (e : ε) : Prog σ ε Unit := ⟨fun _ s => .ok ((), s, [e]), fun _ h => h⟩

/-- Fail. -/
def fail (e : Fault) : Prog σ ε α := ⟨fun _ _ => .error e, fun _ h => by cases h⟩

/-- Run `x` when `c` holds. -/
def when (c : Prop) [Decidable c] (x : Prog σ ε Unit) : Prog σ ε Unit :=
  if c then x else pure ()

/-- Dereference: fail on the null pointer. -/
def deref : Option α → Prog σ ε α
  | none => fail .nullDeref
  | some a => pure a

/-- A state transformer with a loop budget, itself stable under larger budgets. -/
def budgeted (f : ℕ → σ → Except Fault σ)
    (hf : ∀ n k s s', n ≤ k → f n s = .ok s' → f k s = .ok s') : Prog σ ε Unit where
  run n s :=
    match f n s with
    | .error e => .error e
    | .ok s' => .ok ((), s', [])
  mono := by
    intro n k s r hnk h
    cases hx : f n s with
    | error e => simp [hx] at h
    | ok s' => simp only [hx] at h; simp only [hf _ _ _ _ hnk hx]; exact h

/-- Run a program on a part of the state. -/
def zoom (view : σ → τ) (put : τ → σ → σ) (x : Prog τ ε α) : Prog σ ε α where
  run n s :=
    match x.run n (view s) with
    | .error e => .error e
    | .ok (a, p, t) => .ok (a, put p s, t)
  mono := by
    intro n k s r hnk h
    cases hx : x.run n (view s) with
    | error e => simp [hx] at h
    | ok q => simp only [hx] at h; simp only [x.mono hnk hx]; exact h

/-- Record other events in the place of those of `x`. -/
def relabel {ε' : Type} (f : ε → ε') (x : Prog σ ε α) : Prog σ ε' α where
  run n s :=
    match x.run n s with
    | .error e => .error e
    | .ok (a, s', t) => .ok (a, s', t.map f)
  mono := by
    intro n k s r hnk h
    cases hx : x.run n s with
    | error e => simp [hx] at h
    | ok q => simp only [hx] at h; simp only [x.mono hnk hx]; exact h

/-- At most `k` turns of a loop, each with the budget `n`: the body goes on with a new value of
the loop variables or leaves the loop with a result. -/
def loopRun (body : β → Prog σ ε (β ⊕ α)) (n : ℕ) :
    ℕ → β → σ → Except Fault (α × σ × List ε)
  | 0, _, _ => .error .fuel
  | k + 1, b, s =>
      match (body b).run n s with
      | .error e => .error e
      | .ok (.inl b', s', t) => andThen t (loopRun body n k b' s')
      | .ok (.inr a, s', t) => .ok (a, s', t)

theorem loopRun_mono {body : β → Prog σ ε (β ⊕ α)} {n n' : ℕ} (hn : n ≤ n') :
    ∀ {k k' : ℕ} {b : β} {s : σ} {r : α × σ × List ε}, k ≤ k' →
      loopRun body n k b s = .ok r → loopRun body n' k' b s = .ok r
  | 0, _, _, _, _, _, h => by simp [loopRun] at h
  | k + 1, 0, _, _, _, hk, _ => by omega
  | k + 1, k' + 1, b, s, r, hk, h => by
      cases hx : (body b).run n s with
      | error e => simp [loopRun, hx] at h
      | ok q =>
          obtain ⟨v, s', t⟩ := q
          cases v with
          | inr a =>
              simp only [loopRun, hx] at h
              simp only [loopRun, (body b).mono hn hx]
              exact h
          | inl b' =>
              simp only [loopRun, hx] at h
              simp only [loopRun, (body b).mono hn hx]
              cases hr : loopRun body n k b' s' with
              | error e => simp [hr, andThen] at h
              | ok q =>
                  rw [loopRun_mono hn (by omega) hr]
                  rw [hr] at h
                  exact h

/-- A loop with no bound of its own. -/
def loop (body : β → Prog σ ε (β ⊕ α)) (b : β) : Prog σ ε α where
  run n s := loopRun body n n b s
  mono hnk h := loopRun_mono hnk hnk h

/-! ### Runs that end -/

/-- With enough budget, `x` run from `s` ends in `s'` with value `a` and trace `t`. -/
def Ends (x : Prog σ ε α) (s : σ) (a : α) (s' : σ) (t : List ε) : Prop :=
  ∃ n, x.run n s = .ok (a, s', t)

theorem Ends.unique {x : Prog σ ε α} {s : σ} {a a' : α} {s₁ s₂ : σ} {t t' : List ε}
    (h : x.Ends s a s₁ t) (h' : x.Ends s a' s₂ t') : a = a' ∧ s₁ = s₂ ∧ t = t' := by
  obtain ⟨n, hn⟩ := h
  obtain ⟨k, hk⟩ := h'
  have e := (x.mono (le_max_left n k) hn).symm.trans (x.mono (le_max_right n k) hk)
  simpa using e

theorem ends_ret {a b : α} {s s' : σ} {t : List ε} :
    (pure a : Prog σ ε α).Ends s b s' t ↔ b = a ∧ s' = s ∧ t = [] := by
  constructor
  · rintro ⟨n, h⟩
    change Except.ok (a, s, []) = _ at h
    simp only [Except.ok.injEq, Prod.mk.injEq] at h
    exact ⟨h.1.symm, h.2.1.symm, h.2.2.symm⟩
  · rintro ⟨rfl, rfl, rfl⟩
    exact ⟨0, rfl⟩

theorem ends_bind {x : Prog σ ε α} {f : α → Prog σ ε β} {s s'' : σ} {b : β} {t : List ε} :
    (x >>= f).Ends s b s'' t ↔
      ∃ a s' t₁ t₂, x.Ends s a s' t₁ ∧ (f a).Ends s' b s'' t₂ ∧ t = t₁ ++ t₂ := by
  constructor
  · rintro ⟨n, h⟩
    change (Prog.bind x f).run n s = _ at h
    cases hx : x.run n s with
    | error e => simp [Prog.bind, hx] at h
    | ok p =>
        obtain ⟨a, s', t₁⟩ := p
        cases hf : (f a).run n s' with
        | error e => simp [Prog.bind, hx, hf, andThen] at h
        | ok q =>
            obtain ⟨b', s₂, t₂⟩ := q
            simp only [Prog.bind, hx, hf, andThen, Except.ok.injEq, Prod.mk.injEq] at h
            obtain ⟨rfl, rfl, rfl⟩ := h
            exact ⟨a, s', t₁, t₂, ⟨n, hx⟩, ⟨n, hf⟩, rfl⟩
  · rintro ⟨a, s', t₁, t₂, ⟨n, hn⟩, ⟨k, hk⟩, rfl⟩
    refine ⟨max n k, ?_⟩
    change (Prog.bind x f).run (max n k) s = _
    simp only [Prog.bind, x.mono (le_max_left n k) hn, (f a).mono (le_max_right n k) hk, andThen]

theorem ends_modify {f : σ → σ} {s s' : σ} {u : Unit} {t : List ε} :
    (modify f : Prog σ ε Unit).Ends s u s' t ↔ s' = f s ∧ t = [] := by
  constructor
  · rintro ⟨n, h⟩
    simp only [modify, Except.ok.injEq, Prod.mk.injEq] at h
    exact ⟨h.2.1.symm, h.2.2.symm⟩
  · rintro ⟨rfl, rfl⟩
    exact ⟨0, rfl⟩

theorem ends_get {s s' a : σ} {t : List ε} :
    (get : Prog σ ε σ).Ends s a s' t ↔ a = s ∧ s' = s ∧ t = [] := by
  constructor
  · rintro ⟨n, h⟩
    simp only [get, Except.ok.injEq, Prod.mk.injEq] at h
    exact ⟨h.1.symm, h.2.1.symm, h.2.2.symm⟩
  · rintro ⟨rfl, rfl, rfl⟩
    exact ⟨0, rfl⟩

theorem ends_emit {e : ε} {s s' : σ} {u : Unit} {t : List ε} :
    (emit e : Prog σ ε Unit).Ends s u s' t ↔ s' = s ∧ t = [e] := by
  constructor
  · rintro ⟨n, h⟩
    simp only [emit, Except.ok.injEq, Prod.mk.injEq] at h
    exact ⟨h.2.1.symm, h.2.2.symm⟩
  · rintro ⟨rfl, rfl⟩
    exact ⟨0, rfl⟩

theorem ends_budgeted {f : ℕ → σ → Except Fault σ}
    {hf : ∀ n k s s', n ≤ k → f n s = .ok s' → f k s = .ok s'} {s s' : σ} {u : Unit} {t : List ε} :
    (budgeted f hf : Prog σ ε Unit).Ends s u s' t ↔ ∃ n, f n s = .ok s' ∧ t = [] := by
  constructor
  · rintro ⟨n, h⟩
    cases hn : f n s with
    | error e => simp [budgeted, hn] at h
    | ok s₁ =>
        simp only [budgeted, hn, Except.ok.injEq, Prod.mk.injEq] at h
        obtain ⟨-, rfl, rfl⟩ := h
        exact ⟨n, hn, rfl⟩
  · rintro ⟨n, hn, rfl⟩
    exact ⟨n, by simp only [budgeted, hn]⟩

theorem ends_zoom {view : σ → τ} {put : τ → σ → σ} {x : Prog τ ε α} {s s' : σ} {a : α}
    {t : List ε} :
    (zoom view put x).Ends s a s' t ↔ ∃ p, x.Ends (view s) a p t ∧ s' = put p s := by
  constructor
  · rintro ⟨n, h⟩
    cases hx : x.run n (view s) with
    | error e => simp [zoom, hx] at h
    | ok q =>
        obtain ⟨a', p, t'⟩ := q
        simp only [zoom, hx, Except.ok.injEq, Prod.mk.injEq] at h
        obtain ⟨rfl, rfl, rfl⟩ := h
        exact ⟨p, ⟨n, hx⟩, rfl⟩
  · rintro ⟨p, ⟨n, hn⟩, rfl⟩
    exact ⟨n, by simp only [zoom, hn]⟩

theorem ends_relabel {ε' : Type} {f : ε → ε'} {x : Prog σ ε α} {s s' : σ} {a : α} {t : List ε'} :
    (relabel f x).Ends s a s' t ↔ ∃ t', x.Ends s a s' t' ∧ t = t'.map f := by
  constructor
  · rintro ⟨n, h⟩
    cases hx : x.run n s with
    | error e => simp [relabel, hx] at h
    | ok q =>
        obtain ⟨a', s₁, t'⟩ := q
        simp only [relabel, hx, Except.ok.injEq, Prod.mk.injEq] at h
        obtain ⟨rfl, rfl, rfl⟩ := h
        exact ⟨t', ⟨n, hx⟩, rfl⟩
  · rintro ⟨t', ⟨n, hn⟩, rfl⟩
    exact ⟨n, by simp only [relabel, hn]⟩

/-- A loop is its body, and then the loop again or its result. -/
theorem ends_loop {body : β → Prog σ ε (β ⊕ α)} {b : β} {s s'' : σ} {a : α} {t : List ε} :
    (loop body b).Ends s a s'' t ↔
      (body b >>= Sum.elim (loop body) pure).Ends s a s'' t := by
  rw [ends_bind]
  constructor
  · rintro ⟨n, h⟩
    cases n with
    | zero => simp [loop, loopRun] at h
    | succ n =>
        cases hx : (body b).run (n + 1) s with
        | error e => simp [loop, loopRun, hx] at h
        | ok q =>
            obtain ⟨v, s', t₁⟩ := q
            simp only [loop, loopRun, hx] at h
            cases v with
            | inr a' =>
                simp only [Except.ok.injEq, Prod.mk.injEq] at h
                obtain ⟨rfl, rfl, rfl⟩ := h
                exact ⟨.inr a', s', t₁, [], ⟨n + 1, hx⟩, ends_ret.mpr ⟨rfl, rfl, rfl⟩, by simp⟩
            | inl b' =>
                dsimp only at h
                cases hr : loopRun body (n + 1) n b' s' with
                | error e => simp [hr, andThen] at h
                | ok q =>
                    obtain ⟨a', s₂, t₂⟩ := q
                    simp only [hr, andThen, Except.ok.injEq, Prod.mk.injEq] at h
                    obtain ⟨rfl, rfl, rfl⟩ := h
                    exact ⟨.inl b', s', t₁, t₂, ⟨n + 1, hx⟩,
                      ⟨n + 1, loopRun_mono le_rfl (Nat.le_succ n) hr⟩, rfl⟩
  · rintro ⟨v, s', t₁, t₂, ⟨n, hn⟩, hrest, rfl⟩
    cases v with
    | inr a' =>
        obtain ⟨rfl, rfl, rfl⟩ := ends_ret.mp hrest
        refine ⟨n + 1, ?_⟩
        simp only [loop, loopRun, (body b).mono (Nat.le_succ n) hn, List.append_nil]
    | inl b' =>
        obtain ⟨k, hk⟩ := hrest
        refine ⟨max n k + 1, ?_⟩
        have hbody := (body b).mono (show n ≤ max n k + 1 by omega) hn
        have hloop : loopRun body (max n k + 1) (max n k) b' s' = .ok (a, s'', t₂) :=
          loopRun_mono (by omega) (by omega) hk
        simp only [loop, loopRun, hbody, hloop, andThen]

/-! ### Total correctness -/

/-- The run of `x` from `s` ends, and `Q` holds of its value, final state and trace. -/
def wp (x : Prog σ ε α) (s : σ) (Q : α → σ → List ε → Prop) : Prop :=
  ∃ a s' t, x.Ends s a s' t ∧ Q a s' t

theorem wp.of_ends {x : Prog σ ε α} {s : σ} {Q : α → σ → List ε → Prop} (h : x.wp s Q)
    {a : α} {s' : σ} {t : List ε} (he : x.Ends s a s' t) : Q a s' t := by
  obtain ⟨a', s₁, t', he', hQ⟩ := h
  obtain ⟨rfl, rfl, rfl⟩ := he'.unique he
  exact hQ

theorem wp.mono {x : Prog σ ε α} {s : σ} {Q Q' : α → σ → List ε → Prop} (h : x.wp s Q)
    (hQ : ∀ a s' t, Q a s' t → Q' a s' t) : x.wp s Q' := by
  obtain ⟨a, s', t, he, hq⟩ := h
  exact ⟨a, s', t, he, hQ a s' t hq⟩

@[simp] theorem wp_ret {a : α} {s : σ} {Q : α → σ → List ε → Prop} :
    (pure a : Prog σ ε α).wp s Q ↔ Q a s [] := by
  simp only [wp, ends_ret]
  constructor
  · rintro ⟨_, _, _, ⟨rfl, rfl, rfl⟩, h⟩; exact h
  · intro h; exact ⟨_, _, _, ⟨rfl, rfl, rfl⟩, h⟩

@[simp] theorem wp_bind {x : Prog σ ε α} {f : α → Prog σ ε β} {s : σ}
    {Q : β → σ → List ε → Prop} :
    (x >>= f).wp s Q ↔
      x.wp s fun a s' t => (f a).wp s' fun b s'' t' => Q b s'' (t ++ t') := by
  simp only [wp, ends_bind]
  constructor
  · rintro ⟨b, s'', t, ⟨a, s', t₁, t₂, h₁, h₂, rfl⟩, h⟩
    exact ⟨a, s', t₁, h₁, b, s'', t₂, h₂, h⟩
  · rintro ⟨a, s', t₁, h₁, b, s'', t₂, h₂, h⟩
    exact ⟨b, s'', t₁ ++ t₂, ⟨a, s', t₁, t₂, h₁, h₂, rfl⟩, h⟩

@[simp] theorem wp_get {s : σ} {Q : σ → σ → List ε → Prop} :
    (get : Prog σ ε σ).wp s Q ↔ Q s s [] := by
  simp only [wp, ends_get]
  constructor
  · rintro ⟨_, _, _, ⟨rfl, rfl, rfl⟩, h⟩; exact h
  · intro h; exact ⟨_, _, _, ⟨rfl, rfl, rfl⟩, h⟩

@[simp] theorem wp_modify {f : σ → σ} {s : σ} {Q : Unit → σ → List ε → Prop} :
    (modify f : Prog σ ε Unit).wp s Q ↔ Q () (f s) [] := by
  simp only [wp, ends_modify]
  constructor
  · rintro ⟨_, _, _, ⟨rfl, rfl⟩, h⟩; exact h
  · intro h; exact ⟨(), _, _, ⟨rfl, rfl⟩, h⟩

@[simp] theorem wp_emit {e : ε} {s : σ} {Q : Unit → σ → List ε → Prop} :
    (emit e : Prog σ ε Unit).wp s Q ↔ Q () s [e] := by
  simp only [wp, ends_emit]
  constructor
  · rintro ⟨_, _, _, ⟨rfl, rfl⟩, h⟩; exact h
  · intro h; exact ⟨(), _, _, ⟨rfl, rfl⟩, h⟩

theorem wp_deref {o : Option α} {a : α} (h : o = some a) {s : σ} {Q : α → σ → List ε → Prop} :
    (deref o : Prog σ ε α).wp s Q ↔ Q a s [] := by
  subst h; exact wp_ret

theorem wp_zoom {view : σ → τ} {put : τ → σ → σ} {x : Prog τ ε α} {s : σ}
    {Q : α → σ → List ε → Prop} :
    (zoom view put x).wp s Q ↔ x.wp (view s) fun a p t => Q a (put p s) t := by
  simp only [wp, ends_zoom]
  constructor
  · rintro ⟨a, s', t, ⟨p, h, rfl⟩, hQ⟩; exact ⟨a, p, t, h, hQ⟩
  · rintro ⟨a, p, t, h, hQ⟩; exact ⟨a, _, t, ⟨p, h, rfl⟩, hQ⟩

theorem wp_budgeted {f : ℕ → σ → Except Fault σ}
    {hf : ∀ n k s s', n ≤ k → f n s = .ok s' → f k s = .ok s'} {n : ℕ} {s s' : σ}
    (h : f n s = .ok s') {Q : Unit → σ → List ε → Prop} (hQ : Q () s' []) :
    (budgeted f hf : Prog σ ε Unit).wp s Q :=
  ⟨(), s', [], ends_budgeted.mpr ⟨n, h, rfl⟩, hQ⟩

theorem wp_relabel {ε' : Type} {f : ε → ε'} {x : Prog σ ε α} {s : σ}
    {Q : α → σ → List ε' → Prop} :
    (relabel f x).wp s Q ↔ x.wp s fun a s' t => Q a s' (t.map f) := by
  simp only [wp, ends_relabel]
  constructor
  · rintro ⟨a, s', t, ⟨t', h, rfl⟩, hQ⟩; exact ⟨a, s', t', h, hQ⟩
  · rintro ⟨a, s', t, h, hQ⟩; exact ⟨a, s', _, ⟨t, h, rfl⟩, hQ⟩

theorem wp_loop {body : β → Prog σ ε (β ⊕ α)} {b : β} {s : σ} {Q : α → σ → List ε → Prop} :
    (loop body b).wp s Q ↔ (body b >>= Sum.elim (loop body) pure).wp s Q := by
  simp only [wp, ends_loop]

theorem when_pos {c : Prop} [Decidable c] (h : c) (x : Prog σ ε Unit) : when c x = x := if_pos h

theorem when_neg {c : Prop} [Decidable c] (h : ¬ c) (x : Prog σ ε Unit) :
    when c x = pure () := if_neg h

/-! ### Partial correctness -/

/-- If the run of `x` from `s` ends, then `Q` holds of its value and final state. -/
def wlp (x : Prog σ ε α) (s : σ) (Q : α → σ → Prop) : Prop := ∀ a s' t, x.Ends s a s' t → Q a s'

theorem wlp.mono {x : Prog σ ε α} {s : σ} {Q Q' : α → σ → Prop} (h : x.wlp s Q)
    (hQ : ∀ a s', Q a s' → Q' a s') : x.wlp s Q' := fun a s' t he => hQ a s' (h a s' t he)

theorem wlp_ret {a : α} {s : σ} {Q : α → σ → Prop} (h : Q a s) :
    (pure a : Prog σ ε α).wlp s Q := by
  intro b s' t he
  obtain ⟨rfl, rfl, -⟩ := ends_ret.mp he
  exact h

theorem wlp_bind {x : Prog σ ε α} {f : α → Prog σ ε β} {s : σ} {P : α → σ → Prop}
    {Q : β → σ → Prop} (hx : x.wlp s P) (hf : ∀ a s', P a s' → (f a).wlp s' Q) :
    (x >>= f).wlp s Q := by
  intro b s'' t he
  obtain ⟨a, s', t₁, t₂, h₁, h₂, -⟩ := ends_bind.mp he
  exact hf a s' (hx a s' t₁ h₁) b s'' t₂ h₂

theorem wlp_get_bind {f : σ → Prog σ ε β} {s : σ} {Q : β → σ → Prop} (h : (f s).wlp s Q) :
    (get >>= f).wlp s Q := by
  intro b s'' t he
  obtain ⟨a, s', t₁, t₂, h₁, h₂, -⟩ := ends_bind.mp he
  obtain ⟨rfl, rfl, -⟩ := ends_get.mp h₁
  exact h b s'' t₂ h₂

theorem wlp_modify {f : σ → σ} {s : σ} {Q : Unit → σ → Prop} (h : Q () (f s)) :
    (modify f : Prog σ ε Unit).wlp s Q := by
  intro b s' t he
  obtain ⟨rfl, -⟩ := ends_modify.mp he
  exact h

theorem wlp_emit {e : ε} {s : σ} {Q : Unit → σ → Prop} (h : Q () s) :
    (emit e : Prog σ ε Unit).wlp s Q := by
  intro b s' t he
  obtain ⟨rfl, -⟩ := ends_emit.mp he
  exact h

theorem wlp_fail {e : Fault} {s : σ} {Q : α → σ → Prop} : (fail e : Prog σ ε α).wlp s Q := by
  intro b s' t he
  obtain ⟨n, h⟩ := he
  cases h

theorem wlp_when {c : Prop} [Decidable c] {x : Prog σ ε Unit} {s : σ} {Q : Unit → σ → Prop}
    (h : c → x.wlp s Q) (h' : ¬ c → Q () s) : (when c x).wlp s Q := by
  by_cases hc : c
  · rw [when_pos hc]; exact h hc
  · rw [when_neg hc]; exact wlp_ret (h' hc)

theorem wlp_zoom {view : σ → τ} {put : τ → σ → σ} {x : Prog τ ε α} {s : σ} {Q : α → σ → Prop}
    (h : x.wlp (view s) fun a p => Q a (put p s)) : (zoom view put x).wlp s Q := by
  intro b s' t he
  obtain ⟨p, hp, rfl⟩ := ends_zoom.mp he
  exact h b p t hp

end Prog

end TraceProg
