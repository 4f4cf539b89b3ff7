import LstCore.Proof.Blocks

/-!
# The chain's entry limit

The contract gives a slot back when it marks a window, the chain takes the entry away when
a block ends, and neither waits for the other. Still no `Undelegate` ever meets a validator
with more than six live entries (`entry_limit`).
-/

namespace LstCore

open Lib

/-- The live entries fit the chain's limit, and so does every `Undelegate` a call of this
block issues, the earlier ones of the same call included. -/
structure EntriesFit (b : Blocks) : Prop where
  live : ∀ v, (entriesAt v b.entries).length ≤ chainMaxUnbondEntries
  issued : ∀ (c : Call) (store : Storage) (resp : Response), (∀ t ∈ c.time, t = b.now) →
    c.run b.store = .ok (store, resp) → ∀ before v after,
      undelegatedFrom resp.messages = before ++ v :: after →
        (entriesAt v (b.entries ++ newEntries b.now before)).length ≤ 6

/-- **The entry limit is never hit.** In every block, whatever calls were made and however
they were timed, no validator has more than seven live entries, and when an `Undelegate` is
issued its validator has at most six. -/
theorem entry_limit {es : List BlockEvent} {b : Blocks} (h : Blocks.Along es b) : EntriesFit b := by
  have hP := h.paced
  have hT := hP.reachable.terms
  have hsix : closingsPerPeriod b.store.config.params + 1 ≤ 6 := by
    have := hT.fits
    have := hT.below
    simp only [chainMaxUnbondEntries] at this
    omega
  refine ⟨fun v => ?_, fun c store resp ht hc before v after hl => ?_⟩
  · have := hP.few v
    simp only [chainMaxUnbondEntries]
    omega
  · obtain ⟨-, -, -, hnd, hund⟩ := hP.called ht hc
    rw [hl] at hnd hund
    have hdue := (hund (by simp)).1
    -- the validator is not among those the call has named before
    have hv : v ∉ before := fun hin =>
      (List.nodup_append.1 hnd).2.2 v hin v List.mem_cons_self rfl
    rw [entriesAt_append, entriesAt_new (List.nodup_append.1 hnd).1, if_neg hv, List.append_nil]
    have := hP.due_length_le hdue v
    omega

set_option maxRecDepth 10000 in
theorem entry_limit_closed : ∃ es b, Blocks.Along es b ∧
    b.entries = [⟨"validatortwo", devStart + 5 * 86400⟩] ∧ EntriesFit b := by
  have hrun : (devClosing.foldlM Blocks.step devBlocks).map (·.entries) =
      some [⟨"validatortwo", devStart + 5 * 86400⟩] := by decide +kernel
  obtain ⟨b, hb, he⟩ := Option.map_eq_some_iff.1 hrun
  have ha := Blocks.along_replay devBlocks_fresh hb
  exact ⟨_, b, ha, he, entry_limit ha⟩

end LstCore
