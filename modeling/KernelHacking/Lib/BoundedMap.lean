import Mathlib.Data.List.AList
import Mathlib.Data.Fintype.Card
import Mathlib.Data.BitVec

/-! # Maps with a limit on their entries

A map from keys to values that holds at most `n` entries.  An update of a new key is dropped when the map
is full; `admits_of_subset` says that this does not happen as long as the keys come from a set
of at most `n`.  A map of counters counts the keys it is incremented at since they were last deleted, less
those that it had no room for: `Tally`. -/

namespace KernelHacking

/-- A map of at most `n` entries. -/
structure BoundedMap (κ ν : Type) (n : ℕ) where
  entries : AList fun _ : κ => ν
  fits : entries.keys.length ≤ n

namespace BoundedMap

variable {κ ν : Type} [DecidableEq κ] {n : ℕ} {d : BoundedMap κ ν n} {k k' : κ} {v : ν}

/-! ### Operations -/

def empty : BoundedMap κ ν n := ⟨∅, Nat.zero_le n⟩

def lookup (d : BoundedMap κ ν n) (k : κ) : Option ν := d.entries.lookup k

/-- Is there room for the key? -/
def Admits (d : BoundedMap κ ν n) (k : κ) : Prop := k ∈ d.entries.keys ∨ d.entries.keys.length < n

instance : Decidable (d.Admits k) := inferInstanceAs (Decidable (_ ∨ _))

theorem length_keys_insert (h : d.Admits k) (v : ν) : (d.entries.insert k v).keys.length ≤ n := by
  rw [AList.keys_insert, List.length_cons]
  by_cases hk : k ∈ d.entries.keys
  · have hpos := List.length_pos_of_mem hk
    rw [List.length_erase_of_mem hk]
    have := d.fits
    omega
  · rw [List.erase_of_not_mem hk]
    exact h.resolve_left hk

/-- Replace the value of a key, or add the key if there is room. -/
def update (d : BoundedMap κ ν n) (k : κ) (v : ν) : BoundedMap κ ν n :=
  if h : d.Admits k then ⟨d.entries.insert k v, length_keys_insert h v⟩ else d

def delete (d : BoundedMap κ ν n) (k : κ) : BoundedMap κ ν n where
  entries := d.entries.erase k
  fits := by
    rw [AList.keys_erase]
    exact (List.length_erase_le).trans d.fits

/-! ### Lookups -/

theorem lookup_update_of_admits (h : d.Admits k) (v : ν) : (d.update k v).lookup k = some v := by
  unfold update
  rw [dif_pos h]
  exact AList.lookup_insert d.entries

theorem update_of_not_admits (h : ¬ d.Admits k) (v : ν) : d.update k v = d := dif_neg h

theorem lookup_update_of_ne (h : k' ≠ k) (v : ν) : (d.update k v).lookup k' = d.lookup k' := by
  unfold update
  split
  · exact AList.lookup_insert_ne h
  · rfl

theorem lookup_delete_of_ne (h : k' ≠ k) : (d.delete k).lookup k' = d.lookup k' :=
  AList.lookup_erase_ne h

theorem lookup_delete_self (d : BoundedMap κ ν n) (k : κ) : (d.delete k).lookup k = none :=
  AList.lookup_erase k d.entries

theorem mem_update (h : k' ∈ (d.update k v).entries.keys) : k' = k ∨ k' ∈ d.entries.keys := by
  unfold update at h
  split at h
  · rw [← AList.mem_keys, AList.mem_insert] at h
    exact h.imp_right AList.mem_keys.mp
  · exact .inr h

theorem mem_delete (h : k' ∈ (d.delete k).entries.keys) : k' ∈ d.entries.keys := by
  have h' : k' ∈ d.entries.erase k := AList.mem_keys.mpr h
  rw [AList.mem_erase] at h'
  exact AList.mem_keys.mp h'.2

/-- There is room for every key of a set of at most `n` that contains the keys of the map. -/
theorem admits_of_subset {S : Finset κ} (hS : S.card ≤ n) (hsub : ∀ k ∈ d.entries.keys, k ∈ S)
    (hk : k ∈ S) : d.Admits k := by
  by_cases hmem : k ∈ d.entries.keys
  · exact .inl hmem
  · refine .inr ?_
    have hnodup : (k :: d.entries.keys).Nodup := List.nodup_cons.mpr ⟨hmem, d.entries.keys_nodup⟩
    have hle : (k :: d.entries.keys).toFinset.card ≤ S.card := by
      refine Finset.card_le_card ?_
      intro q hq
      rcases List.mem_cons.mp (List.mem_toFinset.mp hq) with rfl | hq'
      · exact hk
      · exact hsub q hq'
    rw [List.toFinset_card_of_nodup hnodup, List.length_cons] at hle
    omega

/-! ### Counters -/

section
variable {w : ℕ} {d : BoundedMap κ (BitVec w) n} {xs lost : List κ}

/-- Count the key. -/
def increment (d : BoundedMap κ (BitVec w) n) (k : κ) : BoundedMap κ (BitVec w) n :=
  d.update k ((d.lookup k).getD 0#w + 1#w)

/-- Count several keys. -/
def increments (d : BoundedMap κ (BitVec w) n) (ks : List κ) : BoundedMap κ (BitVec w) n :=
  ks.foldl increment d

/-- Those of them that find no room. -/
def overflow (d : BoundedMap κ (BitVec w) n) : List κ → List κ
  | [] => []
  | k :: ks => (if d.Admits k then [] else [k]) ++ (d.increment k).overflow ks

theorem mem_increments {ks : List κ} (h : k ∈ (d.increments ks).entries.keys) :
    k ∈ ks ∨ k ∈ d.entries.keys := by
  induction ks generalizing d with
  | nil => exact .inr h
  | cons k' ks ih =>
      rcases ih h with hk | hk
      · exact .inl (List.mem_cons_of_mem k' hk)
      · rcases mem_update hk with rfl | hold
        · exact .inl List.mem_cons_self
        · exact .inr hold

/-- The keys come from a set that has room. -/
theorem overflow_eq_nil {S : Finset κ} (hS : S.card ≤ n) (hsub : ∀ k ∈ d.entries.keys, k ∈ S)
    {ks : List κ} (hks : ∀ k ∈ ks, k ∈ S) : d.overflow ks = [] := by
  induction ks generalizing d with
  | nil => rfl
  | cons k ks ih =>
      have hk : k ∈ S := hks k List.mem_cons_self
      have hrest : (d.increment k).overflow ks = [] := by
        refine ih ?_ fun k' hk' => hks k' (List.mem_cons_of_mem k hk')
        intro k' hk'
        rcases mem_update hk' with rfl | hold
        · exact hk
        · exact hsub k' hold
      unfold overflow
      rw [if_pos (admits_of_subset hS hsub hk), hrest]
      rfl

/-- The map counts `xs`: each counter is the number of times its key came, modulo `2^w`, less the times
it came and there was no room. -/
def Tally (d : BoundedMap κ (BitVec w) n) (xs lost : List κ) : Prop :=
  ∀ k, (d.lookup k).getD 0#w + BitVec.ofNat w (lost.count k) = BitVec.ofNat w (xs.count k)

/-- A counter counts what came since it was cleared. -/
theorem Tally.delete (h : d.Tally xs lost) (k : κ) :
    (d.delete k).Tally (xs.filter (· ≠ k)) (lost.filter (· ≠ k)) := by
  intro k'
  by_cases e : k' = k
  · subst e
    have hnot : ∀ l : List κ, (l.filter (· ≠ k')).count k' = 0 := by
      intro l
      refine List.count_eq_zero.mpr ?_
      intro hk
      simpa using (List.mem_filter.mp hk).2
    rw [lookup_delete_self, hnot, hnot]
    rfl
  · have hcount : ∀ l : List κ, (l.filter (· ≠ k)).count k' = l.count k' := fun l =>
      List.count_filter (by simpa using e)
    rw [lookup_delete_of_ne e, hcount, hcount]
    exact h k'

theorem Tally.increment (h : d.Tally xs lost) (k : κ) :
    (d.increment k).Tally (xs ++ [k]) (lost ++ if d.Admits k then [] else [k]) := by
  intro k'
  by_cases hroom : d.Admits k
  · rw [if_pos hroom, List.append_nil, List.count_append]
    unfold BoundedMap.increment
    by_cases e : k' = k
    · subst e
      rw [lookup_update_of_admits hroom, Option.getD_some, List.count_singleton_self, BitVec.ofNat_add,
        ← h k', BitVec.add_assoc, BitVec.add_assoc, BitVec.add_comm 1#w]
    · rw [lookup_update_of_ne e, List.count_singleton, if_neg (by simpa using fun h => e h.symm),
        Nat.add_zero]
      exact h k'
  · -- the map stays as it is
    have hsame : d.increment k = d := update_of_not_admits hroom _
    rw [if_neg hroom, hsame, List.count_append, List.count_append, BitVec.ofNat_add,
      BitVec.ofNat_add, ← h k', BitVec.add_assoc]

theorem Tally.increments (h : d.Tally xs lost) (ks : List κ) :
    (d.increments ks).Tally (xs ++ ks) (lost ++ d.overflow ks) := by
  induction ks generalizing d xs lost with
  | nil =>
      rw [List.append_nil]
      show d.Tally xs (lost ++ [])
      rwa [List.append_nil]
  | cons k ks ih =>
      have hstep := ih (h.increment k)
      rw [List.append_assoc, List.append_assoc, List.singleton_append] at hstep
      exact hstep

end

end BoundedMap

end KernelHacking
