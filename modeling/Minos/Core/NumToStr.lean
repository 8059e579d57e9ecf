import Minos.Lib.Numeral
import Minos.Lib.Word

/-!
# Numbers to strings and back

`num_to_str` and `strtoul` of `core/string.c`. The digits come out of `num_to_str` lowest first,
into a buffer on its stack that is then copied backwards; `strtoul` reads a string from its
highest digit on.

* A string in memory is the list of the bytes from the pointer on, with its NUL. To read behind
  the list is to read behind the NUL.
* `none` is an access outside of a buffer or a string.
-/

namespace Minos.Str

open Minos.Lib

/-- A string literal, without its NUL. -/
def bytes (s : String) : List UInt8 := s.toList.map Char.toUInt8

def hex : List UInt8 := bytes "0123456789abcdef"

/-- The `do` loop of `num_to_str`. `tmp` is what stands in `tmp_buf`, the last byte first, and
`room` the bytes that are left in it. -/
def numToStrLoop (bdho : Nat) : Nat → Nat → List UInt8 → Option (Nat × List UInt8)
  | 0, _, _ => none
  | room + 1, num, tmp =>
    if bdho ≤ num / bdho then
      numToStrLoop bdho room (num / bdho) (hex.getD (num % bdho) 0 :: tmp)
    else some (num / bdho, hex.getD (num % bdho) 0 :: tmp)

def tmpBufSize : Nat := 64

/-- `num_to_str`: what it writes to `buf`, and what it returns. -/
def numToStr (num b : Nat) : Option (List UInt8 × Nat) :=
  (numToStrLoop (if b = 32 then 16 else b) tmpBufSize num []).bind fun (num, tmp) =>
    (if num = 0 then some tmp
      else if tmp.length < tmpBufSize then some (hex.getD num 0 :: tmp)
      else none).map fun tmp =>
        -- a pointer: the first 16 bytes of `tmp_buf`, which the `memset` has filled with zeros
        if b = 32 then
          ((List.replicate (16 - tmp.length) (digit 0) ++ tmp).drop (tmp.length - 16), 16)
        else (tmp, tmp.length)

/-- `isdigit`. -/
def isdigit (ch : UInt8) : Bool := 48 ≤ ch && ch ≤ 57

/-- `isxdigit`: no capital letters. -/
def isxdigit (ch : UInt8) : Bool := isdigit ch || (97 ≤ ch && ch ≤ 102)

/-- `TOLOWER`. -/
def tolower (ch : UInt8) : UInt8 := ch ||| 0x20

/-- The value of one character in `strtoul`. -/
def charValue (ch : UInt8) : Nat :=
  if isdigit ch then (ch - 48).toNat else (tolower ch - 97 + 10).toNat

/-- The `while` loop of `strtoul`: the result, and the string `*endp` points to. -/
def strtoulLoop (base : Nat) : List UInt8 → Nat → Option (Nat × List UInt8)
  | [], _ => none
  | ch :: cp, result =>
    if isxdigit ch && charValue ch < base then
      strtoulLoop base cp (u64 (result * base + charValue ch))
    else some (result, ch :: cp)

/-- `strtoul`. -/
def strtoul (cp : List UInt8) (base : Nat) : Option (Nat × List UInt8) :=
  let base := if base = 0 then 10 else base
  if base = 16 ∧ cp[0]? = some 48 then
    cp[1]?.bind fun ch =>
      strtoulLoop base (if tolower ch = 120 then cp.drop 2 else cp) 0
  else strtoulLoop base cp 0

/-! ## `num_to_str` -/

theorem hex_getD {d : Nat} (hd : d < 16) : hex.getD d 0 = digit d := by
  have hall : ∀ d < 16, hex.getD d 0 = digit d := by decide
  exact hall d hd

variable {b num room : Nat}

/-- The loop leaves the highest digit in `num`, or 0 if there is only one. -/
theorem numToStrLoop_eq (hb : 1 < b) (hb' : b ≤ 16) (hroom : (numeral b num).length ≤ room)
    (tmp : List UInt8) :
    ∃ q l, numToStrLoop b room num tmp = some (q, l ++ tmp) ∧ q < b ∧
      numeral b num = (if q = 0 then [] else [digit q]) ++ l := by
  induction room generalizing num tmp with
  | zero =>
    have hnil := List.eq_nil_of_length_eq_zero (Nat.le_zero.mp hroom)
    exact absurd hnil (numeral_ne_nil b num)
  | succ room ih =>
    have hmod : num % b < b := Nat.mod_lt _ (by omega)
    rw [numToStrLoop, hex_getD (by omega)]
    by_cases hle : b ≤ num / b
    · have hnum := numeral_of_le hb (Nat.le_trans hle (Nat.div_le_self num b))
      rw [hnum, List.length_append, List.length_singleton] at hroom
      have hroom' : (numeral b (num / b)).length ≤ room := by omega
      obtain ⟨q, l, hl, hq, hdigits⟩ := ih hroom' (digit (num % b) :: tmp)
      refine ⟨q, l ++ [digit (num % b)], ?_, hq, ?_⟩
      · rw [if_pos hle, hl, List.append_assoc]
        rfl
      · rw [hnum, hdigits, List.append_assoc]
    · refine ⟨num / b, [digit (num % b)], by rw [if_neg hle]; rfl, by omega, ?_⟩
      by_cases hlt : num < b
      · rw [Nat.div_eq_of_lt hlt, Nat.mod_eq_of_lt hlt, numeral_of_lt hlt]
        rfl
      · have hpos := Nat.div_pos (Nat.not_lt.mp hlt) (by omega)
        rw [numeral_of_le hb (Nat.not_lt.mp hlt), numeral_of_lt (Nat.not_le.mp hle),
          if_neg (by omega)]

/-- What stands in `tmp_buf` before it is copied. -/
theorem numToStr_digits (hb : 1 < b) (hb' : b ≤ 16) (hnum : num < 2 ^ 64) :
    ((numToStrLoop b tmpBufSize num []).bind fun (num, tmp) =>
      if num = 0 then some tmp
      else if tmp.length < tmpBufSize then some (hex.getD num 0 :: tmp)
      else none) = some (numeral b num) := by
  have hlen : (numeral b num).length ≤ tmpBufSize :=
    (length_numeral_le hb (by decide)).mpr
      (Nat.lt_of_lt_of_le hnum (Nat.pow_le_pow_left hb tmpBufSize))
  obtain ⟨q, l, hl, hq, hdigits⟩ := numToStrLoop_eq hb hb' hlen []
  rw [hl, List.append_nil, Option.bind_some, hdigits]
  by_cases hzero : q = 0
  · simp [hzero]
  · rw [hdigits, if_neg hzero, List.singleton_append, List.length_cons] at hlen
    simp only [if_neg hzero, List.singleton_append, hex_getD (Nat.lt_of_lt_of_le hq hb')]
    exact if_pos hlen

theorem numToStr_eq (hb : 1 < b) (hb' : b ≤ 16) (hnum : num < 2 ^ 64) :
    numToStr num b = some (numeral b num, (numeral b num).length) := by
  have hne : b ≠ 32 := by omega
  have hdigits := numToStr_digits hb hb' hnum
  obtain ⟨⟨q, l⟩, hl, hq⟩ := Option.bind_eq_some_iff.mp hdigits
  simp only [numToStr, if_neg hne, hl, Option.bind_some, hq, Option.map_some]

/-- A pointer has sixteen digits. -/
theorem numToStr_pointer (hnum : num < 2 ^ 64) :
    numToStr num 32 =
      some (List.replicate (16 - (numeral 16 num).length) (digit 0) ++ numeral 16 num, 16) := by
  have hdigits := numToStr_digits (b := 16) (by decide) (by decide) hnum
  obtain ⟨⟨q, l⟩, hl, hq⟩ := Option.bind_eq_some_iff.mp hdigits
  have hlen : (numeral 16 num).length ≤ 16 :=
    (length_numeral_le (by decide) (by decide)).mpr (by simpa using hnum)
  simp only [numToStr, if_true, hl, Option.bind_some, hq, Option.map_some,
    Nat.sub_eq_zero_of_le hlen, List.drop_zero]

/-! ## `strtoul` -/

theorem charValue_digit {d : Nat} (hd : d < 16) :
    isxdigit (digit d) = true ∧ charValue (digit d) = d := by
  have hall : ∀ d < 16, isxdigit (digit d) = true ∧ charValue (digit d) = d := by decide
  exact hall d hd

theorem strtoulLoop_digit {d result : Nat} {cp : List UInt8} (hd : d < b) (hb' : b ≤ 16) :
    strtoulLoop b (digit d :: cp) result = strtoulLoop b cp (u64 (result * b + d)) := by
  obtain ⟨hx, hvalue⟩ := charValue_digit (Nat.lt_of_lt_of_le hd hb')
  simp [strtoulLoop, hx, hvalue, hd]

/-- The digits of a number are read as that number. -/
theorem strtoulLoop_numeral {cp : List UInt8} (hb : 1 < b) (hb' : b ≤ 16)
    (hnum : num < 2 ^ 64) : strtoulLoop b (numeral b num ++ cp) 0 = strtoulLoop b cp num := by
  induction num using Nat.strongRecOn generalizing cp with
  | ind num ih =>
    by_cases hlt : num < b
    · rw [numeral_of_lt hlt, List.singleton_append, strtoulLoop_digit hlt hb', Nat.zero_mul,
        Nat.zero_add, u64_of_lt hnum]
    · have hmod : num % b < b := Nat.mod_lt _ (by omega)
      have hself : num / b * b + num % b = num := Nat.div_add_mod' num b
      rw [numeral_of_le hb (Nat.not_lt.mp hlt), List.append_assoc, List.singleton_append,
        ih _ (Nat.div_lt_self (by omega) hb) (Nat.lt_of_le_of_lt (Nat.div_le_self _ _) hnum),
        strtoulLoop_digit hmod hb', hself, u64_of_lt hnum]

/-- Only 0 starts with a zero, and no `x` follows it. -/
theorem strtoul_numeral (hb : 1 < b) (hb' : b ≤ 16) (hnum : num < 2 ^ 64) :
    strtoul (numeral b num ++ [0]) b = some (num, [0]) := by
  have hloop : strtoulLoop b (numeral b num ++ [0]) 0 = some (num, [0]) := by
    rw [strtoulLoop_numeral hb hb' hnum]
    rfl
  simp only [strtoul, if_neg (show b ≠ 0 by omega)]
  split
  · rename_i hzero
    by_cases hnum0 : num = 0
    · rw [hnum0, numeral_of_lt (by omega)] at hloop ⊢
      exact hloop
    · obtain ⟨d, l, hl, hd, hdb⟩ := head_numeral hb hnum0
      rw [hl, List.cons_append, List.getElem?_cons_zero, Option.some_inj] at hzero
      have hdigit : digit d = digit 0 := hzero.2
      exact absurd (digit_inj (Nat.lt_of_lt_of_le hdb hb') (by decide) hdigit) hd
  · exact hloop

/-- **Numbers and strings**: in the bases 2, 8, 10 and 16 `num_to_str` writes the digits of every
64-bit number without leaving its buffer and returns how many there are, and `strtoul` reads the
number back and stops at the NUL. -/
theorem num_to_str_strtoul (num : BitVec 64) {b : Nat} (hb : b ∈ [2, 8, 10, 16]) :
    numToStr num.toNat b = some (numeral b num.toNat, (numeral b num.toNat).length) ∧
      (numeral b num.toNat).length ≤ tmpBufSize ∧
      strtoul (numeral b num.toNat ++ [0]) b = some (num.toNat, [0]) := by
  have hbase : 1 < b ∧ b ≤ 16 := by
    simp only [List.mem_cons, List.not_mem_nil, or_false] at hb
    omega
  have hlen : num.toNat < b ^ tmpBufSize :=
    Nat.lt_of_lt_of_le num.isLt (Nat.pow_le_pow_left hbase.1 tmpBufSize)
  exact ⟨numToStr_eq hbase.1 hbase.2 num.isLt,
    (length_numeral_le hbase.1 (by decide)).mpr hlen, strtoul_numeral hbase.1 hbase.2 num.isLt⟩

/-- The largest number in base 2 fills the buffer. -/
theorem num_to_str_strtoul_ones :
    numToStr (BitVec.allOnes 64).toNat 2 =
        some (numeral 2 (2 ^ 64 - 1), (numeral 2 (2 ^ 64 - 1)).length) ∧
      (numeral 2 (2 ^ 64 - 1)).length ≤ tmpBufSize ∧
      strtoul (numeral 2 (2 ^ 64 - 1) ++ [0]) 2 = some (2 ^ 64 - 1, [0]) :=
  num_to_str_strtoul (BitVec.allOnes 64) (by decide)

end Minos.Str
