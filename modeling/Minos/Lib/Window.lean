import Mathlib.Data.BitVec
import Mathlib.Tactic.Abel
import Mathlib.Tactic.Common

/-!
# Free-running counters

Two sides of a ring count entries modulo `2 ^ w` and compare counters by their
difference. `Window a n x` says that `x` is one of the `n` counter values from `a` on.
The lemmas turn the comparisons into it; they are right as long as fewer than `2 ^ w`
values are meant, since the difference of the counters says nothing about whole turns.
-/

namespace Minos.Lib

variable {w n : Nat} {a x : BitVec w}

/-- One of the `n` values from `a` on. -/
def Window (a : BitVec w) (n : Nat) (x : BitVec w) : Prop := ∃ j < n, x = a + BitVec.ofNat w j

theorem add_one_add_ofNat (a : BitVec w) (j : Nat) :
    a + 1 + BitVec.ofNat w j = a + BitVec.ofNat w (j + 1) := by
  rw [BitVec.ofNat_add, BitVec.add_assoc, BitVec.add_comm 1]
  rfl

theorem window_iff : Window a n x ↔ (x - a).toNat < n := by
  constructor
  · rintro ⟨j, hj, rfl⟩
    rw [BitVec.add_comm, BitVec.add_sub_cancel, BitVec.toNat_ofNat]
    exact Nat.lt_of_le_of_lt (Nat.mod_le _ _) hj
  · intro h
    refine ⟨_, h, ?_⟩
    rw [BitVec.ofNat_toNat, BitVec.setWidth_eq, BitVec.add_comm, BitVec.sub_add_cancel]

instance : Decidable (Window a n x) := decidable_of_iff _ window_iff.symm

theorem not_window_zero : ¬ Window a 0 x := by
  rintro ⟨j, hj, -⟩
  exact Nat.not_lt_zero j hj

/-- In a whole turn every value comes up. -/
theorem window_of_le (h : 2 ^ w ≤ n) : Window a n x :=
  window_iff.mpr (Nat.lt_of_lt_of_le (BitVec.isLt _) h)

/-- The first value, or one of the others. -/
theorem window_succ : Window a (n + 1) x ↔ x = a ∨ Window (a + 1) n x := by
  constructor
  · rintro ⟨j, hj, rfl⟩
    cases j with
    | zero => exact Or.inl (by simp)
    | succ j =>
      exact Or.inr ⟨j, Nat.lt_of_succ_lt_succ hj, (add_one_add_ofNat a j).symm⟩
  · rintro (rfl | ⟨j, hj, rfl⟩)
    · exact ⟨0, Nat.succ_pos n, by simp⟩
    · exact ⟨j + 1, Nat.succ_lt_succ hj, add_one_add_ofNat a j⟩

/-- What is among the last `m` values before the end is among the last `n`. -/
theorem Window.mono {m : Nat} {e : BitVec w} (h : Window (e - BitVec.ofNat w m) m x) (hmn : m ≤ n) :
    Window (e - BitVec.ofNat w n) n x := by
  obtain ⟨j, hj, rfl⟩ := h
  refine ⟨n - m + j, by omega, ?_⟩
  have hsum : BitVec.ofNat w n = BitVec.ofNat w (n - m) + BitVec.ofNat w m := by
    rw [← BitVec.ofNat_add, Nat.sub_add_cancel hmn]
  rw [hsum, BitVec.ofNat_add, ← BitVec.add_assoc]
  congr 1
  abel

/-- Counting on from `a` by so much that the counter turns over comes up to a value that is
less than a turn behind. -/
theorem window_of_turn {m : Nat} (hm : m < 2 ^ w) (hn : 2 ^ w ≤ m + n) :
    Window (a + 1) n (a - BitVec.ofNat w m) := by
  have hback : a - BitVec.ofNat w m - (a + 1) = ~~~ BitVec.ofNat w m := by
    have hneg := BitVec.neg_eq_not_add (BitVec.ofNat w m)
    calc a - BitVec.ofNat w m - (a + 1) = -BitVec.ofNat w m - 1 := by abel
      _ = ~~~ BitVec.ofNat w m + 1 - 1 := by rw [hneg]; rfl
      _ = ~~~ BitVec.ofNat w m := BitVec.add_sub_cancel _ _
  rw [window_iff, hback, BitVec.toNat_not, BitVec.toNat_ofNat, Nat.mod_eq_of_lt hm]
  omega

/-- **The comparison that decides on an event**: `x` is one of the fewer than `2 ^ w`
values from `a` to the counter. -/
theorem before_end_iff (hn : n < 2 ^ w) :
    a + BitVec.ofNat w n - x - 1 < BitVec.ofNat w n ↔ Window a n x := by
  rcases Nat.eq_zero_or_pos n with rfl | hpos
  · exact iff_of_false (by simp) not_window_zero
  have hshift : a + BitVec.ofNat w n - x - 1 = BitVec.ofNat w n - (x - a) - 1 := by abel
  rw [hshift, window_iff, BitVec.lt_def, BitVec.toNat_sub, BitVec.toNat_sub, BitVec.toNat_ofNat,
    Nat.mod_eq_of_lt hn]
  have hturn : 1 < 2 ^ w := by omega
  have hone : (1 : BitVec w).toNat = 1 := (BitVec.toNat_ofNat 1 w).trans (Nat.mod_eq_of_lt hturn)
  rw [hone]
  have hx := (x - a).isLt
  generalize (x - a).toNat = c at hx ⊢
  generalize 2 ^ w = m at hn hx ⊢
  rcases Nat.lt_trichotomy c n with hlt | rfl | hgt
  · rw [show m - c + n = n - c + m by omega, Nat.add_mod_right,
      Nat.mod_eq_of_lt (a := n - c) (by omega),
      show m - 1 + (n - c) = n - c - 1 + m by omega, Nat.add_mod_right,
      Nat.mod_eq_of_lt (by omega)]
    omega
  · rw [Nat.sub_add_cancel (by omega), Nat.mod_self, Nat.add_zero, Nat.mod_eq_of_lt (by omega)]
    omega
  · rw [Nat.mod_eq_of_lt (a := m - c + n) (by omega),
      show m - 1 + (m - c + n) = m - 1 - c + n + m by omega, Nat.add_mod_right,
      Nat.mod_eq_of_lt (by omega)]
    omega

/-- The comparison that detects that the counter has come up to `x`. -/
theorem reached_iff (hn : n < 2 ^ w) :
    a + BitVec.ofNat w n - x < BitVec.ofNat w n ↔ Window (a + 1) n x := by
  rw [← before_end_iff hn]
  have hshift : a + 1 + BitVec.ofNat w n - x - 1 = a + BitVec.ofNat w n - x := by abel
  rw [hshift]

end Minos.Lib
