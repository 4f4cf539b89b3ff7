import LstCore.Queue.Claims

/-!
# When a window settles

* `Queue.Settling`: a matured window on which a claim was paid has not paid all that came
  back, and a window that settled after it came back has paid a claim.
* `Queue.Settling.step`: every move keeps it.
* `Queue.settled_iff`: a window none of whose claims has anything left to receive has settled
  exactly when no claim lost anything to the rounding, and one was paid.
-/

namespace LstCore

open Lib

namespace Queue

variable {q q' : Queue} {u : Addr} {id i : ℕ} {w w' : UnbondWindow} {c : ClaimRecord}

/-- Some claim against a window has been paid. -/
def SomePaid (q : Queue) (id : ℕ) : Prop := ∃ u c, q.claims.lookup (u, id) = some c ∧ c.claimed = true

/-- **How windows come to settle.** -/
structure Settling (q : Queue) : Prop where
  matured : ∀ id w, q.windows.lookup id = some w → w.state = .matured → q.SomePaid id →
    w.scrtClaimed.val < w.payable.val
  settled : ∀ id w, q.windows.lookup id = some w → w.state = .settled → w.scrtOwed ≠ 0 → q.SomePaid id

/-- Writing an unpaid claim against the window `i` leaves what was paid alone. -/
theorem somePaid_join {cl : Keymap (Addr × ℕ) ClaimRecord} (hi : id ≠ i)
    (hcl : cl = q.claims.insert (u, i) c) (hq : q'.claims = cl) : q'.SomePaid id ↔ q.SomePaid id := by
  unfold SomePaid
  refine exists_congr fun v => exists_congr fun d => and_congr_left fun _ => ?_
  rw [hq, hcl, Keymap.lookup_put, if_neg (by simp [hi])]

/-- A move that leaves the claims alone, where the windows it writes are not matured or have no
paid claim, and settle only when they owe nothing. -/
theorem Settling.of_windows (h : q.Settling) (hc : q'.claims = q.claims)
    (hw : ∀ id w', q'.windows.lookup id = some w' → q.windows.lookup id = some w' ∨
      (w'.state = .matured → ¬ q.SomePaid id) ∧ (w'.state = .settled → w'.scrtOwed = 0)) :
    q'.Settling := by
  have hp : ∀ id, q'.SomePaid id ↔ q.SomePaid id := fun id => by unfold SomePaid; rw [hc]
  refine ⟨fun id w hl hs hpaid => ?_, fun id w hl hs hne => ?_⟩
  · rw [hp] at hpaid
    rcases hw id w hl with hl | ⟨hm, -⟩
    · exact h.matured id w hl hs hpaid
    · exact absurd hpaid (hm hs)
  · rw [hp]
    rcases hw id w hl with hl | ⟨-, hz⟩
    · exact h.settled id w hl hs hne
    · exact absurd (hz hs) hne

/-- A request joins the open window, which is neither matured nor settled. -/
theorem Settling.join {sb so : Uint128} (h : q.Settling)
    (hopen : w.state = .open) (hwin : q'.windows = q.windows.insert q.openWindow (w.joined sb so))
    (hcl : q'.claims = q.claims.insert (u, q.openWindow) c) : q'.Settling := by
  have hlook : ∀ id v, q'.windows.lookup id = some v → v.state ≠ .open →
      id ≠ q.openWindow ∧ q.windows.lookup id = some v := by
    intro id v hv hs
    rw [hwin] at hv
    rcases Keymap.put_cases hv with ⟨-, rfl⟩ | ⟨hid, hv⟩
    · exact absurd hopen hs
    · exact ⟨hid, hv⟩
  refine ⟨fun id v hv hs hpaid => ?_, fun id v hv hs hne => ?_⟩
  · obtain ⟨hid, hv'⟩ := hlook id v hv (by simp [hs])
    exact h.matured id v hv' hs ((somePaid_join hid rfl hcl).1 hpaid)
  · obtain ⟨hid, hv'⟩ := hlook id v hv (by simp [hs])
    exact (somePaid_join hid rfl hcl).2 (h.settled id v hv' hs hne)

theorem Settling.advance {active : List ℕ} {now secs : ℕ} (h : q.Settling)
    (hm : w'.state ≠ .matured) (hz : w'.state = .settled → w'.scrtOwed = 0) :
    (q.advance now secs w' active).Settling := by
  refine h.of_windows rfl fun id v hv => ?_
  rcases advance_cases hv with ⟨-, rfl⟩ | ⟨-, -, rfl⟩ | ⟨-, -, hv⟩
  · exact .inr ⟨by simp [Windows.open], by simp [Windows.open]⟩
  · exact .inr ⟨fun hs => absurd hs hm, hz⟩
  · exact .inl hv

/-- **Every move keeps it.** -/
theorem Settling.step {m : Move} (hC : q.Claims) (h : q.Settling) (hs : Step q m q') :
    q'.Settling := by
  cases hs with
  | joinNew hw hopen | joinOld hw hopen => exact h.join hopen rfl rfl
  | closeEmpty hw hopen hdue hz =>
    exact h.advance (by simp [UnbondWindow.emptied]) fun _ => hz
  | close hw hopen hdue hz =>
    exact h.advance (by simp [UnbondWindow.sent]) (by simp [UnbondWindow.sent])
  | mature hw hun hr =>
    rename_i id r w
    refine h.of_windows rfl fun i v hv => ?_
    rcases Keymap.put_cases hv with ⟨rfl, rfl⟩ | ⟨-, hv⟩
    · -- no claim is paid before its window comes back
      refine .inr ⟨fun _ hpaid => ?_, by simp [UnbondWindow.returned]⟩
      obtain ⟨u, c, hc, hp⟩ := hpaid
      simp [hC.unclaimed u i c w hc hw (.inr hun)] at hp
    · exact .inl hv
  | pay hw hs hc hu hp hsc =>
    rename_i u id p sc w c
    -- the window paid on is settled by the payment that brings it to what came back
    refine ⟨fun i v hv hm hpaid => ?_, fun i v hv hset hne => ?_⟩
    · rcases Keymap.put_cases hv with ⟨-, rfl⟩ | ⟨hi, hv⟩
      · rw [UnbondWindow.state_paying, hs] at hm
        rw [UnbondWindow.payable_paying, UnbondWindow.scrtClaimed_paying]
        split at hm
        · simp at hm
        · rename_i hlt
          exact not_le.1 hlt
      · exact h.matured i v hv hm ((somePaid_join hi rfl rfl).1 hpaid)
    · rcases Keymap.put_cases hv with ⟨rfl, -⟩ | ⟨hi, hv⟩
      · exact ⟨u, _, AList.lookup_insert _, rfl⟩
      · exact (somePaid_join hi rfl rfl).2 (h.settled i v hv hset hne)

theorem Settling.run {hist : List Move} (hS : q.Shape) (hC : q.Claims) (h : q.Settling)
    (hr : Run Step q hist q') : q'.Settling := by
  have key := hr.inv (P := fun q => q.Shape ∧ q.Claims ∧ q.Settling) ⟨hS, hC, h⟩
    fun _ _ _ hP hs => ⟨hP.1.step hs, hP.2.1.step hP.1 hs, hP.2.2.step hP.2.1 hs⟩
  exact key.2.2

/-! ## Settled windows -/

/-- **The claims against a window are worth exactly what came back** when none loses anything
to the rounding. -/
theorem Claims.sum_worth_eq_iff (h : q.Claims) (hw : q.windows.lookup id = some w)
    (hne : w.scrtOwed ≠ 0) : q.claimTotal id (worth w) = w.payable.val ↔
      ∀ u c, q.claims.lookup (u, id) = some c →
        w.scrtOwed.val ∣ c.scrtOwed.val * w.payable.val := by
  have ho := h.owed id w hw
  have hz : w.scrtOwed.val ≠ 0 := fun hz => hne (Word.eq_zero_iff.2 hz)
  rw [claimTotal_worth, sum_share_eq_iff _ _ hz ho]
  constructor
  · intro hall u c hc
    have hd := hall ⟨(u, id), c⟩ (AList.mem_lookup_iff.1 hc)
    dsimp only at hd
    rwa [if_pos rfl] at hd
  · rintro hall ⟨⟨u, i⟩, c⟩ hmem
    dsimp only
    split
    · rename_i hi
      cases hi
      exact hall u c (Keymap.lookup_of_mem hmem)
    · simp

/-- **A window with nothing left to pay** has settled exactly when its claims lost nothing to the
rounding, and one of them was paid. -/
theorem settled_iff (hS : q.Shape) (hC : q.Claims) (hT : q.Settling)
    (hw : q.windows.lookup id = some w) (hm : w.state = .matured ∨ w.state = .settled)
    (hne : w.scrtOwed ≠ 0)
    (hleft : ∀ u c, q.claims.lookup (u, id) = some c → c.claimed = true ∨ worth w c = 0) :
    w.state = .settled ↔ (∀ u c, q.claims.lookup (u, id) = some c →
      w.scrtOwed.val ∣ c.scrtOwed.val * w.payable.val) ∧ q.SomePaid id := by
  have hpaid := hC.paid id w hw
  have hsum := paidOn_add_dueOn q id w
  have hdue : q.dueOn id w = 0 := claimTotal_eq_zero fun u c hc => by
    rcases hleft u c hc with h | h <;> simp [h]
  rw [← hC.sum_worth_eq_iff hw hne]
  constructor
  · intro hs
    have hok := hS.ok id w hw
    unfold UnbondWindow.OK at hok
    rw [hs] at hok
    obtain ⟨r, hr, -, hle⟩ := hok
    have hpay : w.payable = r := by simp [UnbondWindow.payable, hr]
    have := hC.paid_add_due_le hw
    have := Word.le_def.1 hle
    exact ⟨by rw [hpay] at *; omega, hT.settled id w hw hs hne⟩
  · rintro ⟨heq, hsome⟩
    refine hm.resolve_left fun hmat => ?_
    have := hT.matured id w hw hmat hsome
    omega

end Queue

end LstCore
