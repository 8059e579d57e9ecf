import Mathlib.Algebra.Group.Nat.Defs
import Mathlib.Tactic.Common

/-!
# Numbers as strings of digits

`numeral b n` is the string of `n` in base `b`, without leading zeros, as bytes. It is the
`Nat.toDigits` of the standard library; the lemmas here take its last digit off and compare the
strings of two numbers, also in two bases.
-/

namespace Minos.Lib

/-- The byte of a digit. -/
def digit (d : Nat) : UInt8 := d.digitChar.toUInt8

def numeral (b n : Nat) : List UInt8 := (Nat.toDigits b n).map Char.toUInt8

theorem digit_inj {d e : Nat} (hd : d < 16) (he : e < 16) (h : digit d = digit e) : d = e := by
  have hall : ∀ d < 16, ∀ e < 16, digit d = digit e → d = e := by decide
  exact hall d hd e he h

variable {b n m k : Nat}

theorem numeral_of_lt (h : n < b) : numeral b n = [digit n] := by
  rw [numeral, Nat.toDigits_of_lt_base h]
  rfl

theorem numeral_of_le (hb : 1 < b) (h : b ≤ n) :
    numeral b n = numeral b (n / b) ++ [digit (n % b)] := by
  rw [numeral, Nat.toDigits_eq_if hb, if_neg (Nat.not_lt.mpr h), List.map_append]
  rfl

theorem numeral_ne_nil (b n : Nat) : numeral b n ≠ [] := by
  simp [numeral]

theorem length_numeral_le (hb : 1 < b) (hk : 0 < k) :
    (numeral b n).length ≤ k ↔ n < b ^ k := by
  rw [numeral, List.length_map, Nat.length_toDigits_le_iff hb hk]

theorem mem_numeral {c : UInt8} (hb : 1 < b) (h : c ∈ numeral b n) : ∃ d < b, c = digit d := by
  induction n using Nat.strongRecOn with
  | ind n ih =>
    by_cases hn : n < b
    · rw [numeral_of_lt hn, List.mem_singleton] at h
      exact ⟨n, hn, h⟩
    · rw [numeral_of_le hb (Nat.not_lt.mp hn), List.mem_append, List.mem_singleton] at h
      rcases h with h | h
      · exact ih _ (Nat.div_lt_self (by omega) hb) h
      · exact ⟨n % b, Nat.mod_lt _ (by omega), h⟩

/-- No leading zero. -/
theorem head_numeral (hb : 1 < b) (hn : n ≠ 0) :
    ∃ d l, numeral b n = digit d :: l ∧ d ≠ 0 ∧ d < b := by
  induction n using Nat.strongRecOn with
  | ind n ih =>
    by_cases hlt : n < b
    · exact ⟨n, [], numeral_of_lt hlt, hn, hlt⟩
    · obtain ⟨d, l, hl, hd, hdb⟩ := ih (n / b) (Nat.div_lt_self (by omega) hb)
        (Nat.ne_of_gt (Nat.div_pos (Nat.not_lt.mp hlt) (by omega)))
      refine ⟨d, l ++ [digit (n % b)], ?_, hd, hdb⟩
      rw [numeral_of_le hb (Nat.not_lt.mp hlt), hl, List.cons_append]

theorem numeral_eq_singleton {c : UInt8} (hb : 1 < b) (h : numeral b n = [c]) : n < b := by
  by_contra hn
  have hlen := congrArg List.length h
  rw [numeral_of_le hb (Nat.not_lt.mp hn), List.length_append, List.length_singleton] at hlen
  exact numeral_ne_nil b (n / b) (List.eq_nil_of_length_eq_zero (by simpa using hlen))

/-- The last digit of two strings that are the same. -/
theorem numeral_last {b' : Nat} (hb : 1 < b) (hle : b ≤ b') (hb' : b' ≤ 16)
    (h : numeral b n = numeral b' m) (hn : b ≤ n) :
    b' ≤ m ∧ numeral b (n / b) = numeral b' (m / b') ∧ n % b = m % b' := by
  have hm : b' ≤ m := by
    by_contra hm
    rw [numeral_of_lt (b := b') (Nat.not_le.mp hm)] at h
    exact Nat.not_lt.mpr hn (numeral_eq_singleton hb h)
  rw [numeral_of_le hb hn, numeral_of_le (Nat.lt_of_lt_of_le hb hle) hm] at h
  obtain ⟨hfront, hlast⟩ := List.append_inj' h rfl
  have hmod : n % b < b := Nat.mod_lt _ (Nat.zero_lt_of_lt hb)
  have hmod' : m % b' < b' := Nat.mod_lt _ (Nat.zero_lt_of_lt (Nat.lt_of_lt_of_le hb hle))
  exact ⟨hm, hfront, digit_inj (by omega) (by omega) (List.cons.inj hlast).1⟩

/-- A string stands for more in a larger base. -/
theorem le_of_numeral_eq {b' : Nat} (hb : 1 < b) (hle : b ≤ b') (hb' : b' ≤ 16)
    (h : numeral b n = numeral b' m) : n ≤ m := by
  induction n using Nat.strongRecOn generalizing m with
  | ind n ih =>
    by_cases hn : n < b
    · rw [numeral_of_lt hn] at h
      have hm := numeral_eq_singleton (Nat.lt_of_lt_of_le hb hle) h.symm
      rw [numeral_of_lt hm, List.cons.injEq] at h
      exact Nat.le_of_eq (digit_inj (by omega) (by omega) h.1)
    · obtain ⟨-, hfront, hmod⟩ := numeral_last hb hle hb' h (Nat.not_lt.mp hn)
      have hdiv := ih _ (Nat.div_lt_self (by omega) hb) hfront
      calc
        n = b * (n / b) + n % b := (Nat.div_add_mod n b).symm
        _ ≤ b' * (m / b') + m % b' :=
          Nat.add_le_add (Nat.mul_le_mul hle hdiv) (Nat.le_of_eq hmod)
        _ = m := Nat.div_add_mod m b'

theorem numeral_inj (hb : 1 < b) (hb' : b ≤ 16) : numeral b n = numeral b m ↔ n = m := by
  refine ⟨fun h => ?_, fun h => h ▸ rfl⟩
  exact Nat.le_antisymm (le_of_numeral_eq hb (Nat.le_refl b) hb' h)
    (le_of_numeral_eq hb (Nat.le_refl b) hb' h.symm)

/-- Two bases write a number the same way exactly if it is a digit of both. -/
theorem numeral_eq_iff {b' : Nat} (hb : 1 < b) (hlt : b < b') (hb' : b' ≤ 16) :
    numeral b n = numeral b' n ↔ n < b := by
  have hle : b ≤ b' := Nat.le_of_lt hlt
  constructor
  · intro h
    by_contra hn
    obtain ⟨hn', hfront, hmod⟩ := numeral_last hb hle hb' h (Nat.not_lt.mp hn)
    -- the remainders agree, so the larger base takes as much away as the smaller one
    have hdiv := Nat.mul_le_mul_left b (le_of_numeral_eq hb hle hb' hfront)
    have hpos : 0 < n / b' := Nat.div_pos hn' (by omega)
    have hmul : b * (n / b') < b' * (n / b') := Nat.mul_lt_mul_of_pos_right hlt hpos
    have h₁ := Nat.div_add_mod n b
    have h₂ := Nat.div_add_mod n b'
    omega
  · intro h
    rw [numeral_of_lt h, numeral_of_lt (Nat.lt_trans h hlt)]

end Minos.Lib
