import Mathlib

/-! # Books kept by many accounts

Accounts are grouped by `home`; an entry says how much an account holds over its fair share.  The
books are balanced when the entries of every group add up to zero.  A transfer inside a group keeps
them balanced (`Balanced.transfer`), and an entry bounded below by the share of one account is
bounded above by the shares of all the others (`Balanced.sum_le`). -/

namespace Ledger

variable {ι δ : Type} [Fintype ι] [DecidableEq ι] [DecidableEq δ]

/-- The entries of every group add up to zero. -/
def Balanced (home : ι → δ) (entry : ι → ℤ) : Prop :=
  ∀ d, ∑ i with home i = d, entry i = 0

variable {home : ι → δ} {entry entry' : ι → ℤ}

/-- Entries that change at two accounts of one group only, by opposite amounts. -/
theorem Balanced.transfer (h : Balanced home entry) {i j : ι} (hij : i ≠ j)
    (hhome : home i = home j) (hsum : entry' i + entry' j = entry i + entry j)
    (hrest : ∀ k, k ≠ i → k ≠ j → entry' k = entry k) : Balanced home entry' := by
  intro d
  rw [← h d]
  by_cases hd : home i = d
  · have hi : i ∈ Finset.univ.filter (fun k => home k = d) := by simp [hd]
    have hj : j ∈ (Finset.univ.filter (fun k => home k = d)).erase i := by
      simp [hij.symm, ← hhome, hd]
    rw [← Finset.add_sum_erase _ _ hi, ← Finset.add_sum_erase _ _ hj,
      ← Finset.add_sum_erase _ entry hi, ← Finset.add_sum_erase _ entry hj,
      ← add_assoc, ← add_assoc, hsum]
    congr 1
    refine Finset.sum_congr rfl fun k hk => ?_
    rw [Finset.mem_erase, Finset.mem_erase] at hk
    exact hrest k hk.2.1 hk.1
  · refine Finset.sum_congr rfl fun k hk => ?_
    have hkd : home k = d := (Finset.mem_filter.1 hk).2
    refine hrest k ?_ ?_
    · rintro rfl; exact hd hkd
    · rintro rfl; exact hd (hhome.trans hkd)

/-- An account whose entry is zero may move to another group. -/
theorem Balanced.rehome (h : Balanced home entry) {i : ι} (hi : entry i = 0) (d : δ) :
    Balanced (Function.update home i d) entry := by
  intro d'
  rw [← h d', Finset.sum_filter, Finset.sum_filter]
  refine Finset.sum_congr rfl fun k _ => ?_
  by_cases hk : k = i
  · subst hk; simp [hi]
  · rw [Function.update_of_ne hk]

/-- What a set of accounts of one group holds, the others of the group owe. -/
theorem Balanced.sum_eq_neg (h : Balanced home entry) {d : δ} {S : Finset ι}
    (hS : ∀ i ∈ S, home i = d) :
    ∑ i ∈ S, entry i = -∑ i with home i = d ∧ i ∉ S, entry i := by
  have hsub : S ⊆ Finset.univ.filter (fun k => home k = d) := by
    intro i hi
    simp [hS i hi]
  have hsplit := Finset.sum_sdiff (f := entry) hsub
  rw [h d] at hsplit
  have hset : Finset.univ.filter (fun k => home k = d) \ S =
      Finset.univ.filter (fun k => home k = d ∧ k ∉ S) := by
    ext k; simp
  rw [hset] at hsplit
  linarith

/-- If nobody owes more than `share`, accounts of one group hold no more than the shares of the
others. -/
theorem Balanced.sum_le (h : Balanced home entry) {share : ℤ} (hshare : 0 ≤ share)
    (hlow : ∀ k, -share ≤ entry k) {d : δ} {S : Finset ι} (hS : ∀ i ∈ S, home i = d) :
    ∑ i ∈ S, entry i ≤ (Fintype.card ι - S.card) * share := by
  rw [h.sum_eq_neg hS]
  set T := Finset.univ.filter (fun k => home k = d ∧ k ∉ S) with hT
  have hge : T.card • (-share) ≤ ∑ k ∈ T, entry k := Finset.card_nsmul_le_sum _ _ _ fun k _ => hlow k
  have hcard : T.card + S.card ≤ Fintype.card ι := by
    have hdisj : Disjoint T S :=
      Finset.disjoint_left.2 fun k hk => (Finset.mem_filter.1 hk).2.2
    rw [← Finset.card_union_of_disjoint hdisj]
    exact Finset.card_le_univ _
  have hmul : (T.card : ℤ) * share ≤ (Fintype.card ι - S.card) * share := by
    refine mul_le_mul_of_nonneg_right ?_ hshare
    omega
  rw [nsmul_eq_mul] at hge
  linarith

theorem Balanced.pair_le (h : Balanced home entry) {share : ℤ} (hshare : 0 ≤ share)
    (hlow : ∀ k, -share ≤ entry k) {i j : ι} (hij : i ≠ j) (hhome : home i = home j) :
    entry i + entry j ≤ (Fintype.card ι - 2) * share := by
  have hS : ∀ k ∈ ({i, j} : Finset ι), home k = home i := by
    intro k hk
    rcases Finset.mem_insert.1 hk with rfl | hk
    · rfl
    · rw [Finset.mem_singleton.1 hk, hhome]
  have hle := h.sum_le hshare hlow hS
  rw [Finset.sum_pair hij, Finset.card_pair hij] at hle
  exact hle

theorem Balanced.entry_le (h : Balanced home entry) {share : ℤ} (hshare : 0 ≤ share)
    (hlow : ∀ k, -share ≤ entry k) (i : ι) : entry i ≤ (Fintype.card ι - 1) * share := by
  have hle := h.sum_le hshare hlow (S := {i}) (d := home i) (by simp)
  rw [Finset.sum_singleton, Finset.card_singleton] at hle
  exact hle

end Ledger
