import Mathlib.Algebra.GroupWithZero.Nat
import Mathlib.Data.Nat.Count
import Mathlib.Algebra.Order.BigOperators.Group.List
import Mathlib.Algebra.Order.Group.Nat
import Mathlib.Data.Finset.Card
import Mathlib.Order.Interval.Finset.Nat
import Mathlib.Tactic.Common

/-!
# Counting positions, and the total length of disjoint intervals

`Nat.count p n` is the number of positions below `n` where `p` holds. The
lemmas here say how it moves when one position changes; they are what ties
a counter kept beside a bitmap to the bitmap itself.
-/

namespace Minos.Lib

variable {p q : Nat → Prop} [DecidablePred p] [DecidablePred q]
variable {n : Nat}

theorem count_congr (h : ∀ j, j < n → (p j ↔ q j)) :
    Nat.count p n = Nat.count q n := by
  induction n with
  | zero => rw [Nat.count_zero, Nat.count_zero]
  | succ n ih =>
    rw [Nat.count_succ, Nat.count_succ, ih fun j hj => h j (by omega)]
    by_cases hn : p n
    · rw [if_pos hn, if_pos ((h n (by omega)).mp hn)]
    · rw [if_neg hn, if_neg fun hq => hn ((h n (by omega)).mpr hq)]

/-- Adding one position adds one to the count. -/
theorem count_insert {i : Nat} (hi : i < n) (hpi : ¬ p i) (hqi : q i)
    (hpq : ∀ j, j ≠ i → (q j ↔ p j)) : Nat.count q n = Nat.count p n + 1 := by
  induction n with
  | zero => omega
  | succ n ih =>
    rw [Nat.count_succ, Nat.count_succ]
    rcases Nat.lt_or_ge i n with hlt | hge
    · rw [ih hlt]
      have hn := hpq n (by omega)
      by_cases hp : p n
      · rw [if_pos hp, if_pos (hn.mpr hp)]
      · rw [if_neg hp, if_neg fun hq => hp (hn.mp hq)]
    · have hin : i = n := by omega
      subst hin
      rw [if_neg hpi, if_pos hqi,
        count_congr (p := q) (q := p) fun j hj => hpq j (by omega)]

theorem count_pos : 0 < Nat.count p n ↔ ∃ j, j < n ∧ p j := by
  induction n with
  | zero => simp
  | succ n ih =>
    rw [Nat.count_succ]
    by_cases hn : p n
    · simp only [if_pos hn]
      exact ⟨fun _ => ⟨n, by omega, hn⟩, fun _ => by omega⟩
    · simp only [if_neg hn, Nat.add_zero, ih]
      constructor
      · rintro ⟨j, hj, hp⟩
        exact ⟨j, by omega, hp⟩
      · rintro ⟨j, hj, hp⟩
        refine ⟨j, ?_, hp⟩
        have : j ≠ n := fun he => hn (he ▸ hp)
        omega

theorem count_lt_of_drop {i : Nat} (hqp : ∀ j, q j → p j) (hi : i < n) (hpi : p i)
    (hqi : ¬ q i) : Nat.count q n < Nat.count p n := by
  rw [Nat.count_eq_card_filter_range, Nat.count_eq_card_filter_range]
  refine Finset.card_lt_card (Finset.ssubset_iff_of_subset ?_ |>.mpr ⟨i, ?_, ?_⟩)
  · exact Finset.monotone_filter_right _ fun j _ => hqp j
  · simp [hi, hpi]
  · simp [hqi]

/-- Half-open intervals, as pairs of bounds, that do not meet. -/
def Apart (a b : Nat × Nat) : Prop := a.2 ≤ b.1 ∨ b.2 ≤ a.1

instance (a b : Nat × Nat) : Decidable (Apart a b) :=
  inferInstanceAs (Decidable (_ ∨ _))

theorem Apart.symm {a b : Nat × Nat} (h : Apart a b) : Apart b a := Or.symm h

/-- Pairwise disjoint intervals below `N` have total length at most `N`. -/
theorem sum_length_le {N : Nat} {l : List (Nat × Nat)}
    (hN : ∀ a ∈ l, a.2 ≤ N) (hl : l.Pairwise Apart) :
    (l.map fun a => a.2 - a.1).sum ≤ N := by
  -- the union of the intervals, with its cardinality
  have key : ∃ U : Finset Nat, (∀ x, x ∈ U ↔ ∃ a ∈ l, a.1 ≤ x ∧ x < a.2) ∧
      U.card = (l.map fun a => a.2 - a.1).sum := by
    clear hN
    induction l with
    | nil => exact ⟨∅, by simp, by simp⟩
    | cons a l ih =>
      obtain ⟨ha, hl'⟩ := List.pairwise_cons.mp hl
      obtain ⟨U, hU, hcard⟩ := ih hl'
      have hdisj : Disjoint (Finset.Ico a.1 a.2) U := by
        rw [Finset.disjoint_left]
        intro x hx hxU
        obtain ⟨b, hb, hbx⟩ := (hU x).mp hxU
        rw [Finset.mem_Ico] at hx
        rcases ha b hb with h | h <;> omega
      refine ⟨Finset.Ico a.1 a.2 ∪ U, fun x => ?_, ?_⟩
      · rw [Finset.mem_union, hU, Finset.mem_Ico]
        simp
      · rw [Finset.card_union_of_disjoint hdisj, Nat.card_Ico, hcard]
        simp
  obtain ⟨U, hU, hcard⟩ := key
  rw [← hcard, ← Finset.card_range N]
  apply Finset.card_le_card
  intro x hx
  obtain ⟨a, ha, -, hxa⟩ := (hU x).mp hx
  exact Finset.mem_range.mpr (Nat.lt_of_lt_of_le hxa (hN a ha))

theorem sum_length_flatMap {α : Type*} {f : α → List (Nat × Nat)} {c : Nat} {l : List α}
    (h : ∀ x ∈ l, ((f x).map fun a => a.2 - a.1).sum = c) :
    ((l.flatMap f).map fun a => a.2 - a.1).sum = l.length * c := by
  induction l with
  | nil => simp
  | cons x l ih =>
    rw [List.flatMap_cons, List.map_append, List.sum_append, h x List.mem_cons_self,
      ih fun y hy => h y (List.mem_cons_of_mem _ hy), List.length_cons, Nat.succ_mul,
      Nat.add_comm]

section Slots

variable {f : Nat → List (Nat × Nat)} {start w q : Nat}

theorem apart_slots (hf : ∀ i, i < q → (f i).Pairwise Apart)
    (hin : ∀ i, i < q → ∀ a ∈ f i, start + i * w ≤ a.1 ∧ a.2 ≤ start + (i + 1) * w) :
    ((List.range q).flatMap f).Pairwise Apart := by
  refine List.pairwise_flatMap.mpr ⟨fun i hi => hf i (List.mem_range.mp hi), ?_⟩
  refine List.pairwise_lt_range.imp_of_mem ?_
  intro i j hi hj hij a ha b hb
  have hend := (hin i (List.mem_range.mp hi) a ha).2
  have hstart := (hin j (List.mem_range.mp hj) b hb).1
  have hslot : (i + 1) * w ≤ j * w := Nat.mul_le_mul_right w hij
  exact Or.inl (by omega)

theorem inside_slots
    (hin : ∀ i, i < q → ∀ a ∈ f i, start + i * w ≤ a.1 ∧ a.2 ≤ start + (i + 1) * w) :
    ∀ a ∈ (List.range q).flatMap f, start ≤ a.1 ∧ a.2 ≤ start + q * w := by
  intro a ha
  obtain ⟨i, hi, ha⟩ := List.mem_flatMap.mp ha
  have hi := List.mem_range.mp hi
  obtain ⟨hstart, hend⟩ := hin i hi a ha
  have hslot : (i + 1) * w ≤ q * w := Nat.mul_le_mul_right w hi
  exact ⟨by omega, by omega⟩

end Slots

end Minos.Lib
