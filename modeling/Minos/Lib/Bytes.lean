import Mathlib.Algebra.Group.Nat.Defs
import Mathlib.Data.List.Basic
import Mathlib.Tactic.Common

/-!
# Bytes in memory and in files

A file is a list of bytes and a memory a function from addresses. `At` and `Holds`
say that a list of bytes stands at a position of the one or the other.

* `leBytes` and `readLe` write and read a number with the lowest byte first.
* `writeAt` is what `lseek` and `write` do to a file.
* `strncmpEq` is `strncmp(..) == 0`; on two strings that fit into the limit it is
  equality.
-/

namespace Minos.Lib

/-- Memory from `pos` on starts with `l`. -/
def Holds (mem : Nat → UInt8) (pos : Nat) (l : List UInt8) : Prop :=
  ∀ i b, l[i]? = some b → mem (pos + i) = b

/-- `file` from `pos` on starts with `l`. -/
def At (file : List UInt8) (pos : Nat) (l : List UInt8) : Prop :=
  ∀ i b, l[i]? = some b → file[pos + i]? = some b

variable {n : Nat}

section Holds

variable {mem : Nat → UInt8} {pos : Nat} {l l' : List UInt8}

@[simp] theorem holds_nil : Holds mem pos [] := fun i b h => by cases h

theorem holds_cons {b : UInt8} :
    Holds mem pos (b :: l) ↔ mem pos = b ∧ Holds mem (pos + 1) l := by
  constructor
  · intro h
    refine ⟨h 0 b rfl, fun i c hc => ?_⟩
    rw [Nat.add_assoc, Nat.add_comm 1]
    exact h (i + 1) c hc
  · rintro ⟨hb, hl⟩ i c hc
    cases i with
    | zero =>
      cases hc
      exact hb
    | succ i =>
      rw [Nat.add_comm i, ← Nat.add_assoc]
      exact hl i c hc

theorem holds_append :
    Holds mem pos (l ++ l') ↔ Holds mem pos l ∧ Holds mem (pos + l.length) l' := by
  induction l generalizing pos with
  | nil => simp
  | cons b l ih =>
    rw [List.cons_append, holds_cons, holds_cons, ih, and_assoc, List.length_cons,
      Nat.add_assoc pos 1, Nat.add_comm 1]

theorem Holds.congr {mem' : Nat → UInt8} (h : Holds mem pos l)
    (hsame : ∀ i, pos ≤ i → i < pos + l.length → mem' i = mem i) : Holds mem' pos l := by
  intro i b hb
  have hi := (List.getElem?_eq_some_iff.mp hb).1
  rw [hsame _ (Nat.le_add_right _ _) (Nat.add_lt_add_left hi _)]
  exact h i b hb

theorem Holds.of_at {file : List UInt8} (h : Holds mem 0 file) (hat : At file pos l) :
    Holds mem pos l := by
  intro i b hb
  have hmem := h _ b (hat i b hb)
  rwa [Nat.zero_add] at hmem

/-- `memcpy` of a part of what is held. -/
theorem Holds.read {off : Nat} (h : Holds mem pos l) (hn : off + n ≤ l.length) :
    (List.range n).map (fun i => mem (pos + off + i)) = (l.drop off).take n := by
  refine List.ext_getElem? fun i => ?_
  rw [List.getElem?_map, List.getElem?_take]
  by_cases hi : i < n
  · obtain ⟨b, hb⟩ : ∃ b, l[off + i]? = some b := ⟨_, List.getElem?_eq_getElem (by omega)⟩
    rw [List.getElem?_range hi, if_pos hi, List.getElem?_drop, hb, Option.map_some,
      Nat.add_assoc, h _ b hb]
  · have hnone : (List.range n)[i]? = none :=
      List.getElem?_eq_none (by rw [List.length_range]; exact Nat.le_of_not_lt hi)
    rw [hnone, if_neg hi]
    rfl

end Holds

/-! ## Numbers -/

/-- The lowest `w` bytes of `n`, lowest first. -/
def leBytes : Nat → Nat → List UInt8
  | 0, _ => []
  | w + 1, n => UInt8.ofNat n :: leBytes w (n / 256)

/-- The number in the `w` bytes at `pos`. -/
def readLe (mem : Nat → UInt8) (pos : Nat) : Nat → Nat
  | 0 => 0
  | w + 1 => (mem pos).toNat + 256 * readLe mem (pos + 1) w

@[simp] theorem length_leBytes (w n : Nat) : (leBytes w n).length = w := by
  induction w generalizing n with
  | zero => rfl
  | succ w ih => rw [leBytes, List.length_cons, ih]

variable {mem : Nat → UInt8} {pos : Nat}

theorem readLe_eq {w : Nat} (h : Holds mem pos (leBytes w n))
    (hn : n < 256 ^ w) : readLe mem pos w = n := by
  induction w generalizing pos n with
  | zero =>
    rw [Nat.pow_zero] at hn
    rw [readLe]
    omega
  | succ w ih =>
    rw [leBytes, holds_cons] at h
    have hdiv : n / 256 < 256 ^ w := Nat.div_lt_of_lt_mul (by rwa [Nat.pow_succ'] at hn)
    rw [readLe, h.1, ih h.2 hdiv, UInt8.toNat_ofNat']
    omega

/-! ## Files -/

/-- The file after `lseek(fd, pos, SEEK_SET)` and `write(fd, l)`: what lies between
the old end and `pos` is zero. -/
def writeAt (file : List UInt8) (pos : Nat) (l : List UInt8) : List UInt8 :=
  file.take pos ++ List.replicate (pos - file.length) 0 ++ l ++ file.drop (pos + l.length)

section WriteAt

variable {file l l' : List UInt8} {pos pos' : Nat}

theorem getElem?_writeAt (i : Nat) : (writeAt file pos l)[i]? =
    if i < pos then (if i < file.length then file[i]? else some 0)
    else if i < pos + l.length then l[i - pos]? else file[i]? := by
  have hlen : (file.take pos ++ List.replicate (pos - file.length) 0).length = pos := by
    rw [List.length_append, List.length_take, List.length_replicate]
    omega
  have hlen' : (file.take pos ++ List.replicate (pos - file.length) 0 ++ l).length
      = pos + l.length := by rw [List.length_append, hlen]
  unfold writeAt
  by_cases hi : i < pos
  · rw [if_pos hi, List.getElem?_append_left (by omega), List.getElem?_append_left (by omega)]
    by_cases hf : i < file.length
    · rw [if_pos hf, List.getElem?_append_left (by rw [List.length_take]; omega),
        List.getElem?_take_of_lt hi]
    · rw [if_neg hf, List.getElem?_append_right (by rw [List.length_take]; omega),
        List.getElem?_replicate, if_pos (by rw [List.length_take]; omega)]
  · rw [if_neg hi]
    by_cases hl : i < pos + l.length
    · rw [if_pos hl, List.getElem?_append_left (by omega),
        List.getElem?_append_right (by omega), hlen]
    · rw [if_neg hl, List.getElem?_append_right (by omega), hlen', List.getElem?_drop,
        Nat.add_sub_of_le (Nat.le_of_not_lt hl)]

theorem at_writeAt_self (file : List UInt8) (pos : Nat) (l : List UInt8) :
    At (writeAt file pos l) pos l := by
  intro i b hb
  have hlt := (List.getElem?_eq_some_iff.mp hb).1
  rw [getElem?_writeAt, if_neg (by omega), if_pos (by omega), Nat.add_sub_cancel_left, hb]

/-- What stands before or behind stays. -/
theorem At.writeAt (h : At file pos' l') (hapart : pos' + l'.length ≤ pos ∨
    pos + l.length ≤ pos') : At (writeAt file pos l) pos' l' := by
  intro i b hb
  have hlt := (List.getElem?_eq_some_iff.mp hb).1
  have hfile := h i b hb
  have hlt' := (List.getElem?_eq_some_iff.mp hfile).1
  rw [getElem?_writeAt, ← hfile]
  rcases hapart with hbefore | hbehind
  · rw [if_pos (by omega), if_pos hlt']
  · rw [if_neg (by omega), if_neg (by omega)]

end WriteAt

/-! ## Strings -/

/-- `strncmp(a, b, n) == 0`. -/
def strncmpEq (mem : Nat → UInt8) (a : Nat) (mem' : Nat → UInt8) (b : Nat) : Nat → Bool
  | 0 => true
  | n + 1 =>
    if mem a ≠ mem' b then false
    else if mem a = 0 then true
    else strncmpEq mem (a + 1) mem' (b + 1) n

/-- The string `s` stands at `pos`. -/
structure CStr (mem : Nat → UInt8) (pos : Nat) (s : List UInt8) : Prop where
  noNul : 0 ∉ s
  holds : Holds mem pos (s ++ [0])

theorem CStr.nil (h : CStr mem pos []) : mem pos = 0 :=
  (holds_cons.mp h.holds).1

variable {s : List UInt8}

theorem CStr.cons {c : UInt8}
    (h : CStr mem pos (c :: s)) : mem pos = c ∧ c ≠ 0 ∧ CStr mem (pos + 1) s := by
  obtain ⟨hhead, htail⟩ := holds_cons.mp h.holds
  exact ⟨hhead, fun hc => h.noNul (hc ▸ List.mem_cons_self),
    fun hmem => h.noNul (List.mem_cons_of_mem _ hmem), htail⟩

theorem strncmpEq_of_holds {mem' : Nat → UInt8} {a b : Nat}
    (hs : Holds mem a s) (hs' : Holds mem' b s) : strncmpEq mem a mem' b s.length = true := by
  induction s generalizing a b with
  | nil => rfl
  | cons c s ih =>
    obtain ⟨hc, hrest⟩ := holds_cons.mp hs
    obtain ⟨hc', hrest'⟩ := holds_cons.mp hs'
    rw [List.length_cons, strncmpEq, if_neg (fun hne => hne (hc.trans hc'.symm)), ih hrest hrest']
    exact ite_self true

theorem holds_getD (l : List UInt8) : Holds (fun i => l.getD i 0) 0 l := by
  intro i b hb
  simp only [Nat.zero_add, List.getD_eq_getElem?_getD, hb, Option.getD_some]

/-- A string literal. -/
theorem cstr_getD (h : 0 ∉ s) : CStr (fun i => s.getD i 0) 0 s := by
  refine ⟨h, holds_append.mpr ⟨holds_getD s, holds_cons.mpr ⟨?_, holds_nil⟩⟩⟩
  simp only [Nat.zero_add, List.getD_eq_getElem?_getD, List.getElem?_eq_none (Nat.le_refl _),
    Option.getD_none]

/-- Strings that fit into the limit compare equal exactly when they are. -/
theorem strncmpEq_iff {mem' : Nat → UInt8} {a b : Nat} {t : List UInt8}
    (hs : CStr mem a s) (ht : CStr mem' b t) (hsn : s.length ≤ n) (htn : t.length ≤ n) :
    strncmpEq mem a mem' b n = true ↔ s = t := by
  induction n generalizing a b s t with
  | zero =>
    rw [List.eq_nil_of_length_eq_zero (Nat.le_zero.mp hsn),
      List.eq_nil_of_length_eq_zero (Nat.le_zero.mp htn)]
    exact iff_of_true rfl rfl
  | succ n ih =>
    rw [strncmpEq]
    cases s with
    | nil =>
      cases t with
      | nil => simp [hs.nil, ht.nil]
      | cons d t =>
        obtain ⟨hd, hd0, -⟩ := ht.cons
        simp [hs.nil, hd, Ne.symm hd0]
    | cons c s =>
      obtain ⟨hc, hc0, hs'⟩ := hs.cons
      cases t with
      | nil => simp [hc, ht.nil, hc0]
      | cons d t =>
        obtain ⟨hd, -, ht'⟩ := ht.cons
        by_cases hcd : c = d
        · have htail := ih hs' ht' (Nat.le_of_succ_le_succ hsn)
            (Nat.le_of_succ_le_succ htn)
          simp [hc, hd, hcd, hcd ▸ hc0, htail]
        · simp [hc, hd, hcd]

end Minos.Lib
