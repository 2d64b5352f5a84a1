import KernelHacking.Lib.Monitor

/-! # What a program leaves as it is

A monitor that ignores the events and remembers a state of the past turns `Keeps` into a frame rule.
`Within R x` says that every run of `x` leads along `R`, from its first state to its last one; the
rules for `Keeps` follow the shape of `x`, and only the places that change the state are looked at. -/

namespace TraceProg

namespace Prog

variable {σ ε α : Type} {R R' : σ → σ → Prop}

/-- The ghost is a state of the past; every event is admissible. -/
def since (σ ε : Type) : Monitor ε σ := ⟨fun s₀ _ => s₀, fun _ _ => True⟩

theorem since_after (s₀ : σ) (t : List ε) : (since σ ε).after s₀ t = s₀ := by
  induction t with
  | nil => rfl
  | cons e t ih => exact ih

theorem since_accepts (s₀ : σ) (t : List ε) : (since σ ε).Accepts s₀ t := by
  induction t with
  | nil => trivial
  | cons e t ih => exact ⟨trivial, ih⟩

/-- What a state of the past leads to along `R` before `x`, it leads to after `x` as well. -/
abbrev Within (R : σ → σ → Prop) (x : Prog σ ε α) : Prop :=
  Keeps (since σ ε) (fun s s₀ => R s₀ s) x

theorem Within.wlp {x : Prog σ ε α} (h : Within R x) {s₀ s : σ} (hs : R s₀ s) :
    x.wlp s fun _ s' => R s₀ s' := by
  intro a s' t he
  have hR := h s s₀ a s' t hs he (since_accepts s₀ t)
  rw [since_after] at hR
  exact hR

theorem within_emit {e : ε} : Within R (emit e : Prog σ ε Unit) := keeps_emit fun _ _ h _ => h

section
variable [IsTrans σ R]

/-- It is enough to look at the runs of `x` alone. -/
theorem within_of_wlp {x : Prog σ ε α} (h : ∀ s, x.wlp s fun _ s' => R s s') : Within R x := by
  intro s s₀ a s' t hs he _
  rw [since_after]
  exact IsTrans.trans s₀ s s' hs (h s a s' t he)

theorem within_modify {f : σ → σ} (h : ∀ s, R s (f s)) : Within R (modify f : Prog σ ε Unit) :=
  within_of_wlp fun s => wlp_modify (h s)

end

/-- A relation that says more. -/
theorem Within.mono [Std.Refl R] [IsTrans σ R'] {x : Prog σ ε α} (h : Within R x)
    (hR : ∀ s s', R s s' → R' s s') : Within R' x :=
  within_of_wlp fun s => (h.wlp (Std.Refl.refl s)).mono fun _ s' => hR s s'

/-- Two statements about one run. -/
theorem wlp.and {x : Prog σ ε α} {s : σ} {Q Q' : α → σ → Prop} (h : x.wlp s Q) (h' : x.wlp s Q') :
    x.wlp s fun a s' => Q a s' ∧ Q' a s' := fun a s' t he => ⟨h a s' t he, h' a s' t he⟩

/-- What is known of a run that ends, together with what holds of every run. -/
theorem mwp.and_wlp {G : Type} {M : Monitor ε G} {x : Prog σ ε α} {s : σ} {g : G}
    {Q : α → σ → G → Prop} {Q' : α → σ → Prop} (h : x.mwp M s g Q) (h' : x.wlp s Q') :
    x.mwp M s g fun a s' g' => Q a s' g' ∧ Q' a s' := by
  obtain ⟨a, s', t, he, hQ, hok⟩ := h
  exact ⟨a, s', t, he, ⟨hQ, h' a s' t he⟩, hok⟩

end Prog

end TraceProg
