import Mathlib.Data.List.AList
import Mathlib.Data.List.Dedup
import Mathlib.Algebra.BigOperators.Group.List.Basic
import Mathlib.Algebra.Order.BigOperators.Group.List
import Mathlib.Algebra.Order.Ring.Nat

/-!
# Keyed stores and totals over them

A `Keymap` is an association list with distinct keys. `total m f` adds `f` up
over all its entries. The totals of a ledger move with its writes
(`total_insert`): a write adds the new entry and takes the replaced one out.
-/

namespace LstCore.Lib

universe u v

/-- A finite map with distinct keys. -/
abbrev Keymap (κ : Type u) (ν : Type v) := AList fun _ : κ => ν

variable {κ : Type u} {ν : Type v}

namespace Keymap

/-- The sum of `f` over the entries. -/
def total (m : Keymap κ ν) (f : κ → ν → ℕ) : ℕ := (m.entries.map fun e => f e.1 e.2).sum

variable {m : Keymap κ ν} {f g : κ → ν → ℕ} {k : κ} {v : ν}

theorem total_add : total m (fun k v => f k v + g k v) = total m f + total m g := by
  simp [total, List.sum_map_add]

variable [DecidableEq κ]

/-- Reading after a write. -/
theorem lookup_put (m : Keymap κ ν) (k k' : κ) (v : ν) :
    (m.insert k v).lookup k' = if k' = k then some v else m.lookup k' := by
  by_cases h : k' = k
  · subst h; simp
  · rw [if_neg h, AList.lookup_insert_ne h]

/-- What is read after a write was written now or was there before. -/
theorem put_cases {k' : κ} {v' : ν} (h : (m.insert k v).lookup k' = some v') :
    (k' = k ∧ v' = v) ∨ (k' ≠ k ∧ m.lookup k' = some v') := by
  rw [lookup_put] at h
  split at h
  · rename_i hk
    exact .inl ⟨hk, (Option.some.inj h).symm⟩
  · rename_i hk
    exact .inr ⟨hk, h⟩

/-- A write keeps every key there is. -/
theorem exists_put (k : κ) (v : ν) {k' : κ} {v' : ν} (h : m.lookup k' = some v') :
    ∃ v'', (m.insert k v).lookup k' = some v'' := by
  rw [lookup_put]
  split
  · exact ⟨v, rfl⟩
  · exact ⟨v', h⟩

/-- Taking the first entry of a key out of a list takes its summand out. -/
theorem sum_kerase (f : κ → ν → ℕ) (k : κ) :
    ∀ l : List (Sigma fun _ : κ => ν),
      ((l.kerase k).map fun e => f e.1 e.2).sum + (l.dlookup k).elim 0 (f k) =
        (l.map fun e => f e.1 e.2).sum := by
  intro l
  induction l with
  | nil => simp
  | cons e l ih =>
    by_cases hk : k = e.1
    · obtain ⟨k', v'⟩ := e
      subst hk
      simp [Nat.add_comm]
    · rw [List.kerase_cons_ne hk, List.dlookup_cons_ne _ e hk]
      simp only [List.map_cons, List.sum_cons]
      omega

theorem total_erase (m : Keymap κ ν) (f : κ → ν → ℕ) (k : κ) :
    total (m.erase k) f + (m.lookup k).elim 0 (f k) = total m f := sum_kerase f k m.entries

/-- **A write moves a total by the new entry minus the replaced one.** -/
theorem total_insert (m : Keymap κ ν) (f : κ → ν → ℕ) (k : κ) (v : ν) :
    total (m.insert k v) f + (m.lookup k).elim 0 (f k) = total m f + f k v := by
  have := sum_kerase f k m.entries
  simp only [total, AList.entries_insert, List.map_cons, List.sum_cons, AList.lookup] at this ⊢
  omega

theorem total_insert_new (h : m.lookup k = none) : total (m.insert k v) f = total m f + f k v := by
  have := total_insert m f k v
  rw [h] at this; simpa using this

theorem total_insert_old {v₀ : ν} (h : m.lookup k = some v₀) :
    total (m.insert k v) f + f k v₀ = total m f + f k v := by
  have := total_insert m f k v
  rw [h] at this; simpa using this

theorem le_total (h : m.lookup k = some v) : f k v ≤ total m f := by
  have hk := total_erase m f k
  rw [h, Option.elim_some] at hk
  omega

theorem lookup_of_mem {e : Sigma fun _ : κ => ν} (h : e ∈ m.entries) :
    m.lookup e.1 = some e.2 := AList.mem_lookup_iff.2 h

theorem total_congr (h : ∀ k v, m.lookup k = some v → f k v = g k v) : total m f = total m g := by
  unfold total
  congr 1
  exact List.map_congr_left fun e he => h e.1 e.2 (lookup_of_mem he)

theorem total_mono (h : ∀ k v, m.lookup k = some v → f k v ≤ g k v) : total m f ≤ total m g :=
  List.sum_le_sum fun e he => h e.1 e.2 (lookup_of_mem he)

theorem total_eq_zero (h : ∀ k v, m.lookup k = some v → f k v = 0) : total m f = 0 := by
  rw [total_congr (g := fun _ _ => 0) h]; simp [total]

theorem map_lookup_erase {f : κ → ν → ℕ} {l : List κ} (hk : k ∉ l) :
    (l.map fun i => ((m.erase k).lookup i).elim 0 (f i)) =
      l.map fun i => (m.lookup i).elim 0 (f i) :=
  List.map_congr_left fun i hi => by
    have hne : i ≠ k := fun he => hk (he ▸ hi)
    rw [AList.lookup_erase_ne hne]

/-- The summands of different keys are together below the total. -/
theorem sum_le_total {f : κ → ν → ℕ} : ∀ {l : List κ} {m : Keymap κ ν}, l.Nodup →
    (l.map fun k => (m.lookup k).elim 0 (f k)).sum ≤ total m f := by
  intro l
  induction l with
  | nil => intro m _; exact Nat.zero_le _
  | cons a l ih =>
    intro m hnd
    obtain ⟨ha, hl⟩ := List.nodup_cons.1 hnd
    have hrest := @ih (m.erase a) hl
    rw [map_lookup_erase ha] at hrest
    have := total_erase m f a
    rw [List.map_cons, List.sum_cons]
    omega

/-- **A total over a list of keys.** A list without repetitions that has every key with a
summand adds up to the total. -/
theorem total_eq_sum {f : κ → ν → ℕ} : ∀ {l : List κ} {m : Keymap κ ν}, l.Nodup →
    (∀ k v, m.lookup k = some v → f k v ≠ 0 → k ∈ l) →
    total m f = (l.map fun k => (m.lookup k).elim 0 (f k)).sum := by
  intro l
  induction l with
  | nil =>
    intro m _ h
    simp only [List.map_nil, List.sum_nil]
    exact total_eq_zero fun k v hl => by
      by_contra hne
      exact absurd (h k v hl hne) (by simp)
  | cons a l ih =>
    intro m hnd h
    obtain ⟨ha, hl⟩ := List.nodup_cons.1 hnd
    have hrest := @ih (m.erase a) hl fun k v hk hne => by
      by_cases hka : k = a
      · subst hka; simp at hk
      · rw [AList.lookup_erase_ne hka] at hk
        exact (List.mem_cons.1 (h k v hk hne)).resolve_left hka
    rw [← total_erase m f a, hrest, map_lookup_erase ha, List.map_cons, List.sum_cons, Nat.add_comm]

/-- Totals of maps whose entries count for the same, key by key, are equal. -/
theorem total_eq_of_lookup {f g : κ → ν → ℕ} {m m' : Keymap κ ν}
    (h : ∀ k, (m.lookup k).elim 0 (f k) = (m'.lookup k).elim 0 (g k)) : total m f = total m' g := by
  have hkeys : ∀ (n : Keymap κ ν) k v, n.lookup k = some v → k ∈ n.keys := fun n k v hl =>
    AList.mem_keys.1 (AList.lookup_isSome.1 (by rw [hl]; rfl))
  -- both are sums over the keys of either map
  rw [total_eq_sum (m := m) (List.nodup_dedup (m.keys ++ m'.keys)) fun k v hl _ =>
      List.mem_dedup.2 (List.mem_append_left _ (hkeys m k v hl)),
    total_eq_sum (m := m') (List.nodup_dedup (m.keys ++ m'.keys)) fun k v hl _ =>
      List.mem_dedup.2 (List.mem_append_right _ (hkeys m' k v hl)),
    List.map_congr_left fun k _ => h k]

/-- Two summands that agree off one entry give totals that differ by that entry. -/
theorem total_off (h : m.lookup k = some v)
    (hfg : ∀ k' v', k' ≠ k → m.lookup k' = some v' → f k' v' = g k' v') :
    total m f + g k v = total m g + f k v := by
  have hf := total_erase m f k
  have hg := total_erase m g k
  have hc : total (m.erase k) f = total (m.erase k) g := by
    apply total_congr
    intro k' v' hl
    by_cases hk : k' = k
    · subst hk; simp at hl
    · rw [AList.lookup_erase_ne hk] at hl; exact hfg k' v' hk hl
  rw [h, Option.elim_some] at hf hg
  omega

/-- **Taking keys out of a sum** takes their summands out of the total. -/
theorem total_without {f : κ → ν → ℕ} : ∀ {l : List κ}, l.Nodup →
    total m (fun k v => if k ∈ l then 0 else f k v) + (l.map fun k => (m.lookup k).elim 0 (f k)).sum =
      total m f := by
  intro l
  induction l with
  | nil => intro _; simp
  | cons a l ih =>
    intro hnd
    obtain ⟨ha, hl⟩ := List.nodup_cons.1 hnd
    have hrest := ih hl
    rw [List.map_cons, List.sum_cons]
    have hoff : ∀ k' v', k' ≠ a → m.lookup k' = some v' →
        (if k' ∈ a :: l then 0 else f k' v') = if k' ∈ l then 0 else f k' v' := by
      intro k' v' hne _
      simp [hne]
    rcases hm : m.lookup a with _ | v
    · rw [total_congr (g := fun k v => if k ∈ l then 0 else f k v) fun k v hk =>
        hoff k v (fun he => by rw [he, hm] at hk; simp at hk) hk]
      simpa using hrest
    · have := total_off hm hoff
      rw [if_pos List.mem_cons_self, if_neg ha] at this
      rw [Option.elim_some]
      omega

end Keymap

end LstCore.Lib
