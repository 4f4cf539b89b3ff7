import Mathlib.Data.List.Pairwise
import Mathlib.Order.Lattice

/-!
# Reading a list page by page

A server hands a sorted list out in pages, each after a key it is told. A client asks for the
first page, then for the page after the last key it has received, until a page is empty
(`pageThrough`). When every page is a beginning of what is left, and an empty one only at the
end, the client has read exactly the list (`pageThrough_eq`).
-/

namespace LstCore.Lib

variable {α κ : Type*}

/-- Ask for page after page until one is empty, at most `fuel` of them. `k` counts the pages. -/
def pageThrough (key : α → κ) (page : ℕ → Option κ → List α) :
    ℕ → ℕ → Option κ → Option (List α)
  | 0, _, _ => none
  | fuel + 1, k, after =>
    match (page k after).getLast? with
    | none => some []
    | some last =>
      (pageThrough key page fuel (k + 1) (some (key last))).map (page k after ++ ·)

section

variable [LinearOrder κ] {key : α → κ} {page : ℕ → Option κ → List α} {l done todo : List α}

/-- What of a list comes after a key. -/
def rest (key : α → κ) (l : List α) (after : Option κ) : List α :=
  l.filter fun a => ∀ b ∈ after, b < key a

/-- In a sorted list, what comes after the last key read is what has not been read. -/
theorem rest_append (hs : (done ++ todo).Pairwise fun a b => key a < key b) :
    rest key (done ++ todo) (done.getLast?.map key) = todo := by
  obtain ⟨hd, -, hlt⟩ := List.pairwise_append.1 hs
  rcases List.eq_nil_or_concat done with rfl | ⟨front, last, rfl⟩
  · simp [rest]
  · rw [List.concat_eq_append] at *
    have hread : ∀ a ∈ front ++ [last], ¬ key last < key a := by
      intro a ha
      rcases List.mem_append.1 ha with ha | ha
      · exact lt_asymm ((List.pairwise_append.1 hd).2.2 a ha last (by simp))
      · simp [List.mem_singleton.1 ha]
    rw [rest, List.filter_append, List.filter_eq_nil_iff.2 (by simpa using hread),
      List.filter_eq_self.2 (fun a ha => by simpa using hlt last (by simp) a ha), List.nil_append]

/-- **A client that pages through a sorted list reads all of it.** -/
theorem pageThrough_rest (hs : l.Pairwise fun a b => key a < key b)
    (hpage : ∀ k after, (∀ b ∈ after, b ∈ l.map key) →
      ∃ n, 0 < n ∧ page k after = (rest key l after).take n) :
    ∀ {fuel k : ℕ} {done todo : List α}, l = done ++ todo → todo.length < fuel →
      pageThrough key page fuel k (done.getLast?.map key) = some todo := by
  intro fuel
  -- each page that is not empty leaves less to read
  induction fuel with
  | zero => intro k done todo _ h; omega
  | succ fuel ih =>
    intro k done todo hl hlen
    subst hl
    obtain ⟨n, hn, hp⟩ := hpage k (done.getLast?.map key) (by
      intro b hb
      obtain ⟨a, ha, rfl⟩ := Option.map_eq_some_iff.1 hb
      exact List.mem_map_of_mem (List.mem_append_left _ (List.mem_of_getLast? ha)))
    rw [rest_append hs] at hp
    unfold pageThrough
    rw [hp]
    cases todo with
    | nil => simp
    | cons a todo =>
      have hne : (a :: todo).take n ≠ [] := by simp; omega
      rw [List.getLast?_eq_some_getLast hne]
      have hsplit : done ++ a :: todo = (done ++ (a :: todo).take n) ++ (a :: todo).drop n := by
        rw [List.append_assoc, List.take_append_drop]
      have hlast : (done ++ (a :: todo).take n).getLast?.map key =
          some (key (((a :: todo).take n).getLast hne)) := by
        rw [List.getLast?_append, List.getLast?_eq_some_getLast hne, Option.some_or, Option.map_some]
      have hrec := @ih (k + 1) (done ++ (a :: todo).take n) ((a :: todo).drop n) hsplit (by
        rw [List.length_drop, List.length_cons] at *; omega)
      rw [hlast] at hrec
      simp only [hrec, Option.map_some, List.take_append_drop]

theorem pageThrough_eq (hs : l.Pairwise fun a b => key a < key b)
    (hpage : ∀ k after, (∀ b ∈ after, b ∈ l.map key) →
      ∃ n, 0 < n ∧ page k after = (rest key l after).take n) {fuel : ℕ} (hfuel : l.length < fuel)
    (k : ℕ) : pageThrough key page fuel k none = some l := by
  have hnone : ([] : List α).getLast?.map key = none := rfl
  rw [← hnone]
  exact pageThrough_rest hs hpage rfl hfuel

end

end LstCore.Lib
