import Mathlib

/-! # Zero-terminated sequences

A sequence in memory that ends at its first zero, read with a bound: `upTo f n` holds the values of
`f` before the first zero, and at most `n` of them.  It is what a loop of the shape
`while (n && *p) ...` goes over.  The length says where such a loop stops (`stops`), and the values
below it are those of `f` (`upTo_eq_map`); so two sequences that agree as far as the loop looks give
the same (`upTo_congr`). -/

namespace CString

variable {β : Type} [Zero β] [DecidableEq β]

/-- The values before the first zero, at most `n` of them. -/
def upTo (f : ℕ → β) : ℕ → List β
  | 0 => []
  | n + 1 => if f 0 = 0 then [] else f 0 :: upTo (fun i => f (i + 1)) n

variable {f g : ℕ → β} {n m : ℕ} {s : List β}

@[simp] theorem upTo_zero : upTo f 0 = [] := rfl

theorem upTo_of_zero (h : f 0 = 0) (n : ℕ) : upTo f n = [] := by
  cases n with
  | zero => rfl
  | succ n => exact if_pos h

theorem upTo_succ_of_ne (h : f 0 ≠ 0) :
    upTo f (n + 1) = f 0 :: upTo (fun i => f (i + 1)) n := if_neg h

theorem length_upTo_le (f : ℕ → β) (n : ℕ) : (upTo f n).length ≤ n := by
  induction n generalizing f with
  | zero => simp
  | succ n ih =>
      by_cases h : f 0 = 0
      · simp [upTo_of_zero h]
      · simp [upTo_succ_of_ne h, ih]

/-- Below the length there is no zero. -/
theorem ne_zero_of_lt {i : ℕ} (h : i < (upTo f n).length) : f i ≠ 0 := by
  induction n generalizing f i with
  | zero => simp at h
  | succ n ih =>
      by_cases h0 : f 0 = 0
      · simp [upTo_of_zero h0] at h
      · rw [upTo_succ_of_ne h0, List.length_cons] at h
        cases i with
        | zero => exact h0
        | succ i => exact ih (f := fun i => f (i + 1)) (Nat.lt_of_succ_lt_succ h)

/-- The loop stops before its bound only at a zero. -/
theorem stops (h : (upTo f n).length < n) : f (upTo f n).length = 0 := by
  induction n generalizing f with
  | zero => simp at h
  | succ n ih =>
      by_cases h0 : f 0 = 0
      · simpa [upTo_of_zero h0] using h0
      · rw [upTo_succ_of_ne h0, List.length_cons] at h ⊢
        exact ih (Nat.lt_of_succ_lt_succ h)

theorem upTo_eq_map (f : ℕ → β) (n : ℕ) :
    upTo f n = (List.range (upTo f n).length).map f := by
  induction n generalizing f with
  | zero => rfl
  | succ n ih =>
      by_cases h0 : f 0 = 0
      · rw [upTo_of_zero h0]; rfl
      · rw [upTo_succ_of_ne h0, List.length_cons, List.range_succ_eq_map, List.map_cons,
          List.map_map]
        exact congrArg (f 0 :: ·) (ih fun i => f (i + 1))

/-- A loop that stops and is taken up again at the place where it stopped. -/
theorem upTo_add (f : ℕ → β) (n m : ℕ) :
    upTo f (n + m) = upTo f n ++ upTo (fun i => f ((upTo f n).length + i)) m := by
  induction n generalizing f with
  | zero => simp
  | succ n ih =>
      rw [Nat.add_right_comm]
      by_cases h0 : f 0 = 0
      · rw [upTo_of_zero h0, upTo_of_zero h0, List.nil_append, upTo_of_zero (by simpa using h0)]
      · rw [upTo_succ_of_ne h0, upTo_succ_of_ne h0, ih fun i => f (i + 1), List.cons_append,
          List.length_cons]
        simp only [Nat.add_right_comm]

/-- Sequences that agree as far as the loop looks. -/
theorem upTo_congr (h : ∀ i < n, (∀ j < i, f j ≠ 0) → f i = g i) : upTo f n = upTo g n := by
  induction n generalizing f g with
  | zero => rfl
  | succ n ih =>
      have h0 : f 0 = g 0 := h 0 (Nat.succ_pos n) (by simp)
      by_cases hz : f 0 = 0
      · rw [upTo_of_zero hz, upTo_of_zero (h0 ▸ hz)]
      · rw [upTo_succ_of_ne hz, upTo_succ_of_ne (h0 ▸ hz), h0]
        congr 1
        apply ih
        intro i hi hj
        refine h (i + 1) (Nat.succ_lt_succ hi) ?_
        intro j hji
        cases j with
        | zero => exact hz
        | succ j => exact hj j (Nat.lt_of_succ_lt_succ hji)

/-- How far the loop gets: to the first zero, or to its bound. -/
theorem length_upTo_eq (hm : m ≤ n) (hne : ∀ i < m, f i ≠ 0) (hstop : m < n → f m = 0) :
    (upTo f n).length = m := by
  rcases Nat.lt_trichotomy (upTo f n).length m with h | h | h
  · exact absurd (stops (h.trans_le hm)) (hne _ h)
  · exact h
  · have hlt : m < n := h.trans_le (length_upTo_le f n)
    exact absurd (hstop hlt) (ne_zero_of_lt h)

theorem upTo_eq (hm : m ≤ n) (hne : ∀ i < m, f i ≠ 0) (hstop : m < n → f m = 0) :
    upTo f n = (List.range m).map f := by
  rw [upTo_eq_map, length_upTo_eq hm hne hstop]

/-- A string and its terminator in memory. -/
structure Holds (f : ℕ → β) (s : List β) : Prop where
  value : ∀ i, (h : i < s.length) → f i = s[i]
  nul : f s.length = 0
  nonzero : (0 : β) ∉ s

omit [DecidableEq β] in
theorem Holds.ne_zero (h : Holds f s) {i : ℕ} (hi : i < s.length) : f i ≠ 0 := by
  rw [h.value i hi]
  intro e
  exact h.nonzero (e ▸ List.getElem_mem hi)

omit [DecidableEq β] in
theorem Holds.map_range (h : Holds f s) (hm : m ≤ s.length) :
    (List.range m).map f = s.take m := by
  apply List.ext_getElem
  · simp [hm]
  · intro i h₁ h₂
    simp only [List.length_map, List.length_range] at h₁
    simp [h.value i (h₁.trans_le hm)]

/-- Reading a string with a bound. -/
theorem Holds.upTo_eq (h : Holds f s) (n : ℕ) : upTo f n = s.take n := by
  rw [CString.upTo_eq (Nat.min_le_left n s.length) (fun i hi => h.ne_zero (by omega)),
    h.map_range (Nat.min_le_right n s.length)]
  · by_cases hn : n ≤ s.length
    · rw [Nat.min_eq_left hn]
    · rw [Nat.min_eq_right (by omega), List.take_length, List.take_of_length_le (by omega)]
  · intro hlt
    have e : min n s.length = s.length := by omega
    rw [e]
    exact h.nul

omit [DecidableEq β] in
theorem Holds.drop (h : Holds f s) (hm : m ≤ s.length) :
    Holds (fun i => f (m + i)) (s.drop m) := by
  refine ⟨?_, ?_, ?_⟩
  · intro i hi
    rw [List.length_drop] at hi
    rw [h.value (m + i) (by omega), List.getElem_drop]
  · show f (m + (s.drop m).length) = 0
    rw [List.length_drop, Nat.add_sub_cancel' hm]
    exact h.nul
  · intro h0
    exact h.nonzero (List.mem_of_mem_drop h0)

/-- What is found before the bound is a string in memory. -/
theorem holds_upTo (h : (upTo f n).length < n) : Holds f (upTo f n) := by
  have hval : ∀ i, (hi : i < (upTo f n).length) → f i = (upTo f n)[i] := by
    intro i hi
    have e := congrArg (·[i]?) (upTo_eq_map f n)
    simp only [List.getElem?_map, List.getElem?_range hi, Option.map_some,
      List.getElem?_eq_getElem hi, Option.some.injEq] at e
    exact e.symm
  refine ⟨hval, stops h, ?_⟩
  intro h0
  obtain ⟨i, hi, e⟩ := List.mem_iff_getElem.mp h0
  rw [← hval i hi] at e
  exact ne_zero_of_lt hi e

omit [DecidableEq β] in
theorem Holds.congr (h : Holds f s) (he : ∀ i ≤ s.length, g i = f i) : Holds g s := by
  refine ⟨?_, ?_, h.nonzero⟩
  · intro i hi
    rw [he i hi.le, h.value i hi]
  · rw [he _ le_rfl, h.nul]

/-- Where the first `n` values of `g` are those of `f`, the string in `g` is what `f` holds of it
below `n`, unless it goes on behind that. -/
theorem holds_upTo_iff (he : ∀ i < n, g i = f i) :
    Holds g (upTo f n) ↔ (∃ i < n, f i = 0) ∨ g n = 0 := by
  rcases (length_upTo_le f n).lt_or_eq with hlt | heq
  · -- the string ends below `n`
    have hh : Holds g (upTo f n) := (holds_upTo hlt).congr fun i hi => he i (by omega)
    exact ⟨fun _ => .inl ⟨_, hlt, stops hlt⟩, fun _ => hh⟩
  · have hne : ∀ i < n, f i ≠ 0 := fun i hi => ne_zero_of_lt (heq ▸ hi)
    constructor
    · intro h
      right
      have h0 := h.nul
      rwa [heq] at h0
    · rintro (⟨i, hi, h0⟩ | h0)
      · exact absurd h0 (hne i hi)
      · have hmap := upTo_eq_map f n
        rw [heq] at hmap
        refine ⟨?_, by rw [heq]; exact h0, ?_⟩
        · intro i hi
          rw [heq] at hi
          rw [he i hi]
          simp [hmap]
        · intro hmem
          rw [hmap, List.mem_map] at hmem
          obtain ⟨i, hi, e⟩ := hmem
          exact hne i (List.mem_range.mp hi) e

end CString
