import Mathlib.Algebra.BigOperators.Group.List.Basic
import Mathlib.Algebra.GroupWithZero.Nat
import Mathlib.Data.List.Basic
import Mathlib.Data.List.Nodup
import Mathlib.Data.List.Pairwise
import Mathlib.Data.List.Perm.Subperm
import Mathlib.Tactic.Common

/-!
# How often intervals cover an address

A list of half-open intervals covers each address a number of times.
"Pairwise disjoint" is "at most once", "a partition of `[0, n)`" is "once
below `n` and never above"; cutting an interval in two or joining two that
touch does not change the count, and neither does the order of the list.
So an allocator that cuts, joins and moves intervals is followed by
counting alone, empty intervals included.
-/

namespace Minos.Lib

/-- How often the interval `[a.1, a.2)` covers `x`. -/
def hits (x : Nat) (a : Nat × Nat) : Nat := if a.1 ≤ x ∧ x < a.2 then 1 else 0

/-- How often the intervals of `l` cover `x`. -/
def cover (l : List (Nat × Nat)) (x : Nat) : Nat := (l.map (hits x)).sum

@[simp] theorem cover_nil (x : Nat) : cover [] x = 0 := rfl

@[simp] theorem cover_cons (a : Nat × Nat) (l : List (Nat × Nat)) (x : Nat) :
    cover (a :: l) x = hits x a + cover l x := by
  simp [cover]

@[simp] theorem cover_append (l₁ l₂ : List (Nat × Nat)) (x : Nat) :
    cover (l₁ ++ l₂) x = cover l₁ x + cover l₂ x := by
  simp [cover]

theorem cover_perm {l₁ l₂ : List (Nat × Nat)} (h : l₁.Perm l₂) (x : Nat) :
    cover l₁ x = cover l₂ x :=
  (h.map _).sum_eq

theorem hits_cut {s m e : Nat} (h1 : s ≤ m) (h2 : m ≤ e) (x : Nat) :
    hits x (s, m) + hits x (m, e) = hits x (s, e) := by
  unfold hits
  split_ifs <;> omega

variable {x : Nat}

theorem hits_eq_one {a : Nat × Nat} (h : a.1 ≤ x ∧ x < a.2) : hits x a = 1 :=
  if_pos h

theorem cover_pos_iff {l : List (Nat × Nat)} :
    0 < cover l x ↔ ∃ a ∈ l, a.1 ≤ x ∧ x < a.2 := by
  induction l with
  | nil => simp
  | cons a l ih =>
    rw [cover_cons]
    constructor
    · intro h
      by_cases ha : a.1 ≤ x ∧ x < a.2
      · exact ⟨a, List.mem_cons_self, ha⟩
      · rw [hits, if_neg ha, Nat.zero_add] at h
        obtain ⟨b, hb, hx⟩ := ih.mp h
        exact ⟨b, List.mem_cons_of_mem _ hb, hx⟩
    · rintro ⟨b, hb, hx⟩
      rcases List.mem_cons.mp hb with rfl | hb
      · rw [hits_eq_one hx]
        omega
      · have := ih.mpr ⟨b, hb, hx⟩
        omega

/-- Intervals that cover every address at most once are pairwise disjoint. -/
theorem pairwise_of_cover_le_one {l : List (Nat × Nat)} (h : ∀ x, cover l x ≤ 1) :
    l.Pairwise fun a b => ∀ x, ¬ ((a.1 ≤ x ∧ x < a.2) ∧ b.1 ≤ x ∧ x < b.2) := by
  induction l with
  | nil => exact List.Pairwise.nil
  | cons a l ih =>
    refine List.pairwise_cons.mpr ⟨fun b hb x ⟨ha, hbx⟩ => ?_, ih fun x => ?_⟩
    · have hx := h x
      have hl := cover_pos_iff.mpr ⟨b, hb, hbx⟩
      rw [cover_cons, hits_eq_one ha] at hx
      omega
    · have hx := h x
      rw [cover_cons] at hx
      omega

theorem cover_sublist {l₁ l₂ : List (Nat × Nat)} (h : l₁.Sublist l₂) (x : Nat) :
    cover l₁ x ≤ cover l₂ x := by
  induction h with
  | slnil => exact Nat.le_refl _
  | cons a _ ih =>
    rw [cover_cons]
    omega
  | cons_cons a _ ih =>
    rw [cover_cons, cover_cons]
    omega

theorem cover_map_subperm {α : Type*} {l₁ l₂ : List α} (h : l₁.Subperm l₂)
    (f : α → Nat × Nat) (x : Nat) : cover (l₁.map f) x ≤ cover (l₂.map f) x := by
  obtain ⟨l, hperm, hsub⟩ := h
  rw [← cover_perm (hperm.map f) x]
  exact cover_sublist (hsub.map f) x

end Minos.Lib
