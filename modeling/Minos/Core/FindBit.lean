import Mathlib.Algebra.Group.Nat.Defs
import Mathlib.Data.List.Basic
import Mathlib.Tactic.Common

/-!
# Bitmaps and bit search

`core/find_bit.c` and the bit operations it rests on: a bitmap is an array
of 64-bit words, `__ffs` finds the lowest set bit of a word by halving, and
`_find_next_bit` scans the words from a start position.
-/

namespace Minos

/-- `unsigned long`, as an element of a bitmap. -/
abbrev Word := BitVec 64

/-- `unsigned long *` used as a bitmap. -/
abbrev Bitmap := List Word

/-- `test_bit(nr, p)`. -/
def testBit (nr : Nat) (p : Bitmap) : Bool :=
  (p.getD (nr / 64) 0).getLsbD (nr % 64)

/-- `BIT_MASK(nr)`. -/
def bitMask (nr : Nat) : Word := BitVec.twoPow 64 (nr % 64)

/-- `set_bit(nr, p)`. -/
def setBit (nr : Nat) (p : Bitmap) : Bitmap :=
  p.set (nr / 64) (p.getD (nr / 64) 0 ||| bitMask nr)

/-- `clear_bit(nr, p)`. -/
def clearBit (nr : Nat) (p : Bitmap) : Bitmap :=
  p.set (nr / 64) (p.getD (nr / 64) 0 &&& ~~~ bitMask nr)

/-- `BITS_TO_LONGS(nr)`. -/
def bitsToLongs (nr : Nat) : Nat := (nr + 63) / 64

/-- One halving of `__ffs`: skip `k` low bits that are all clear. -/
def ffsStep (k : Nat) (s : Nat × Word) : Nat × Word :=
  if s.2 &&& BitVec.ofNat 64 (2 ^ k - 1) = 0 then (s.1 + k, s.2 >>> k) else s

/-- `__ffs`: the position of the lowest set bit of a nonzero word. -/
def ffs (word : Word) : Nat :=
  (ffsStep 1 (ffsStep 2 (ffsStep 4 (ffsStep 8 (ffsStep 16
    (ffsStep 32 (0, word))))))).1

/-- The `while (!tmp)` loop of `_find_next_bit`: `start` is the first bit of
the word `tmp` was read from. -/
def findNextBitScan (addr : Bitmap) (nbits : Nat) (invert : Word) :
    Nat → Nat → Word → Nat
  | 0, _, _ => nbits
  | fuel + 1, start, tmp =>
    if tmp = 0 then
      if nbits ≤ start + 64 then nbits
      else findNextBitScan addr nbits invert fuel (start + 64)
        (addr.getD ((start + 64) / 64) 0 ^^^ invert)
    else min (start + ffs tmp) nbits

/-- `_find_next_bit`. -/
def findNextBitInv (addr : Bitmap) (nbits start : Nat) (invert : Word) : Nat :=
  if nbits = 0 ∨ nbits ≤ start then nbits
  else findNextBitScan addr nbits invert (bitsToLongs nbits)
    (start / 64 * 64)
    ((addr.getD (start / 64) 0 ^^^ invert) &&&
      (BitVec.allOnes 64 <<< (start % 64)))

/-- `find_next_bit`. -/
def findNextBit (addr : Bitmap) (size offset : Nat) : Nat :=
  findNextBitInv addr size offset 0

/-- `find_next_zero_bit`. -/
def findNextZeroBit (addr : Bitmap) (size offset : Nat) : Nat :=
  findNextBitInv addr size offset (BitVec.allOnes 64)

/-- `_find_next_bit_loop`: a search that found nothing restarts at `0`. -/
def findNextBitLoopInv (addr : Bitmap) (size offset : Nat) (invert : Word) :
    Nat :=
  let bit := findNextBitInv addr size offset invert
  if size ≤ bit ∧ offset ≠ 0 then findNextBitInv addr size 0 invert else bit

/-- `find_next_zero_bit_loop`. -/
def findNextZeroBitLoop (addr : Bitmap) (size offset : Nat) : Nat :=
  findNextBitLoopInv addr size offset (BitVec.allOnes 64)

/-- The scan of `find_first_bit` / `find_first_zero_bit` from word `idx`
on. -/
def findFirstScan (addr : Bitmap) (size : Nat) (invert : Word) :
    Nat → Nat → Nat
  | 0, _ => size
  | fuel + 1, idx =>
    if idx * 64 < size then
      let w := addr.getD idx 0 ^^^ invert
      if w ≠ 0 then min (idx * 64 + ffs w) size
      else findFirstScan addr size invert fuel (idx + 1)
    else size

/-- `find_first_bit`. -/
def findFirstBit (addr : Bitmap) (size : Nat) : Nat :=
  findFirstScan addr size 0 (bitsToLongs size) 0

/-- `find_first_zero_bit`: `addr[idx] != ~0UL` is a nonzero complement, and
`ffz(x)` is `__ffs(~x)`. -/
def findFirstZeroBit (addr : Bitmap) (size : Nat) : Nat :=
  findFirstScan addr size (BitVec.allOnes 64) (bitsToLongs size) 0

/-! ## Single bits -/

@[simp] theorem length_setBit (nr : Nat) (p : Bitmap) :
    (setBit nr p).length = p.length := by
  simp [setBit]

@[simp] theorem length_clearBit (nr : Nat) (p : Bitmap) :
    (clearBit nr p).length = p.length := by
  simp [clearBit]

theorem getLsbD_bitMask (nr i : Nat) (hi : i < 64) :
    (bitMask nr).getLsbD i = decide (nr % 64 = i) := by
  rw [bitMask, BitVec.getLsbD_twoPow]
  by_cases h : nr % 64 = i <;> simp [h, hi]

variable {j nr : Nat}

theorem eq_of_div_mod (h1 : nr / 64 = j / 64)
    (h2 : nr % 64 = j % 64) : nr = j := by
  rw [← Nat.div_add_mod nr 64, ← Nat.div_add_mod j 64, h1, h2]

variable {p : Bitmap}

theorem testBit_setBit (h : nr < 64 * p.length)
    (j : Nat) : testBit j (setBit nr p) = (testBit j p || decide (nr = j)) := by
  have hlen : nr / 64 < p.length := by omega
  have hmod : j % 64 < 64 := Nat.mod_lt _ (by decide)
  unfold testBit setBit
  by_cases hw : nr / 64 = j / 64
  · rw [← hw, List.getD_eq_getElem?_getD, List.getElem?_set_self hlen,
      Option.getD_some, BitVec.getLsbD_or, getLsbD_bitMask _ _ hmod]
    by_cases hb : nr % 64 = j % 64
    · simp [eq_of_div_mod hw hb]
    · have hne : nr ≠ j := fun he => hb (by rw [he])
      simp [hb, hne]
  · have hne : nr ≠ j := fun he => hw (by rw [he])
    rw [List.getD_eq_getElem?_getD, List.getElem?_set_ne hw,
      ← List.getD_eq_getElem?_getD]
    simp [hne]

theorem testBit_setBit_of_ne (hne : nr ≠ j) (p : Bitmap) :
    testBit j (setBit nr p) = testBit j p := by
  by_cases h : nr < 64 * p.length
  · rw [testBit_setBit h]
    simp [hne]
  · rw [setBit, List.set_eq_of_length_le (by omega)]

theorem testBit_clearBit (nr : Nat) (p : Bitmap) (j : Nat) :
    testBit j (clearBit nr p) = (testBit j p && decide (nr ≠ j)) := by
  have hmod : j % 64 < 64 := Nat.mod_lt _ (by decide)
  unfold testBit clearBit
  by_cases hw : nr / 64 = j / 64
  · by_cases hlen : nr / 64 < p.length
    · rw [← hw, List.getD_eq_getElem?_getD, List.getElem?_set_self hlen,
        Option.getD_some, BitVec.getLsbD_and, BitVec.getLsbD_not,
        getLsbD_bitMask _ _ hmod]
      by_cases hb : nr % 64 = j % 64
      · simp [hmod, eq_of_div_mod hw hb]
      · have hne : nr ≠ j := fun he => hb (by rw [he])
        simp [hb, hmod, hne]
    · -- the word is outside the bitmap and reads as zero on both sides
      have hj : p.length ≤ j / 64 := by omega
      rw [List.set_eq_of_length_le (by omega), List.getD_eq_getElem?_getD,
        List.getElem?_eq_none hj]
      simp
  · have hne : nr ≠ j := fun he => hw (by rw [he])
    rw [List.getD_eq_getElem?_getD, List.getElem?_set_ne hw,
      ← List.getD_eq_getElem?_getD]
    simp [hne]

@[simp] theorem testBit_replicate_zero (n j : Nat) :
    testBit j (List.replicate n 0#64) = false := by
  unfold testBit
  rw [List.getD_eq_getElem?_getD, List.getElem?_replicate]
  split <;> simp

theorem lt_of_testBit (h : testBit j p = true) :
    j < 64 * p.length := by
  by_contra hge
  have hnone : p[j / 64]? = none := List.getElem?_eq_none (by omega)
  simp [testBit, List.getD_eq_getElem?_getD, hnone] at h

/-- Clearing a bit that is clear changes nothing. -/
theorem clearBit_eq_self (h : testBit nr p = false) :
    clearBit nr p = p := by
  by_cases hlt : nr / 64 < p.length
  · have hword : p.getD (nr / 64) 0 = p[nr / 64] := by
      rw [List.getD_eq_getElem?_getD, List.getElem?_eq_getElem hlt, Option.getD_some]
    rw [testBit, hword] at h
    rw [clearBit, hword]
    have heq : p[nr / 64] &&& ~~~ bitMask nr = p[nr / 64] := by
      refine BitVec.eq_of_getLsbD_eq fun i hi => ?_
      rw [BitVec.getLsbD_and, BitVec.getLsbD_not, getLsbD_bitMask _ _ hi]
      by_cases hi' : nr % 64 = i
      · subst hi'
        simp [h]
      · simp [hi', hi]
    rw [heq, List.set_getElem_self]
  · rw [clearBit, List.set_eq_of_length_le (by omega)]

/-! ## `__ffs` -/

/-- What a prefix of the halving steps has established about `w`: the
current word is `w` shifted by the current count, everything skipped was
clear, and a set bit is left among the low `k` bits. -/
structure FfsInv (w : Word) (k : Nat) (s : Nat × Word) : Prop where
  shift : ∀ j, s.2.getLsbD j = w.getLsbD (s.1 + j)
  skipped : ∀ j, j < s.1 → w.getLsbD j = false
  left : ∃ j, j < k ∧ s.2.getLsbD j = true

theorem and_low_eq_zero_iff (w : Word) {k : Nat} (hk : k ≤ 64) :
    w &&& BitVec.ofNat 64 (2 ^ k - 1) = 0 ↔ ∀ j, j < k → w.getLsbD j = false := by
  have hlow : ∀ j, (BitVec.ofNat 64 (2 ^ k - 1)).getLsbD j
      = decide (j < k) := by
    intro j
    rw [BitVec.getLsbD_ofNat, Nat.testBit_two_pow_sub_one]
    by_cases hj : j < k
    · simp [hj, Nat.lt_of_lt_of_le hj hk]
    · simp [hj]
  constructor
  · intro h j hj
    have hb := congrArg (fun v : Word => v.getLsbD j) h
    simpa [hlow, hj] using hb
  · intro h
    apply BitVec.eq_of_getLsbD_eq
    intro j _
    rw [BitVec.getLsbD_and, hlow]
    by_cases hj : j < k
    · simp [h j hj]
    · simp [hj]

variable {w : Word}

/-- One halving keeps the invariant and halves the window. -/
theorem FfsInv.step {k : Nat} {s : Nat × Word} (hk : k ≤ 64)
    (h : FfsInv w (2 * k) s) : FfsInv w k (ffsStep k s) := by
  obtain ⟨hshift, hskip, j, hj, hset⟩ := h
  unfold ffsStep
  split
  · rename_i hz
    rw [and_low_eq_zero_iff _ hk] at hz
    have hkj : k ≤ j := by
      by_contra hlt
      rw [hz j (by omega)] at hset
      exact absurd hset (by decide)
    refine ⟨fun i => ?_, fun i hi => ?_, j - k, by omega, ?_⟩
    · rw [BitVec.getLsbD_ushiftRight, hshift, Nat.add_assoc]
    · rcases Nat.lt_or_ge i s.1 with hlt | hge
      · exact hskip i hlt
      · have hi' := hz (i - s.1) (by simp only at hi; omega)
        rwa [hshift, Nat.add_sub_cancel' hge] at hi'
    · rw [BitVec.getLsbD_ushiftRight, Nat.add_sub_cancel' hkj]
      exact hset
  · rename_i hz
    rw [and_low_eq_zero_iff _ hk] at hz
    push Not at hz
    obtain ⟨i, hi, hset'⟩ := hz
    exact ⟨hshift, hskip, i, hi, by simpa using hset'⟩

/-- `__ffs` of a nonzero word is its lowest set bit. -/
theorem ffs_spec (h : w ≠ 0) :
    w.getLsbD (ffs w) = true ∧ ∀ j, j < ffs w → w.getLsbD j = false := by
  have hbit : ∃ j, j < 64 ∧ w.getLsbD j = true := by
    by_contra hno
    push Not at hno
    exact h (BitVec.eq_of_getLsbD_eq fun i hi => by simpa using hno i hi)
  have h0 : FfsInv w (2 * 32) (0, w) :=
    ⟨fun j => by simp, fun j hj => absurd hj (Nat.not_lt_zero j), hbit⟩
  have h1 := (((((h0.step (k := 32) (by decide)).step (k := 16)
    (by decide)).step (k := 8) (by decide)).step (k := 4) (by decide)).step
    (k := 2) (by decide)).step (k := 1) (by decide)
  obtain ⟨hshift, hskip, j, hj, hset⟩ := h1
  have hj0 : j = 0 := by omega
  subst hj0
  rw [hshift, Nat.add_zero] at hset
  exact ⟨hset, hskip⟩

theorem ffs_lt (h : w ≠ 0) : ffs w < 64 :=
  BitVec.lt_of_getLsbD (ffs_spec h).1

/-! ## Searches -/

/-- `r` is the first position from `lo` on, below `hi`, where `p` holds, or
`hi` when there is none. -/
structure FirstAt (p : Nat → Bool) (lo hi r : Nat) : Prop where
  le : r ≤ hi
  ge : r < hi → lo ≤ r
  hit : r < hi → p r = true
  miss : ∀ j, lo ≤ j → j < r → p j = false

theorem FirstAt.none {p : Nat → Bool} {lo hi : Nat}
    (h : ∀ j, lo ≤ j → j < hi → p j = false) : FirstAt p lo hi hi :=
  ⟨Nat.le_refl _, fun h' => absurd h' (Nat.lt_irrefl _),
    fun h' => absurd h' (Nat.lt_irrefl _), h⟩

/-- The bit `_find_next_bit` looks for, under `invert`. -/
def wanted (addr : Bitmap) (invert : Word) (j : Nat) : Bool :=
  (addr.getD (j / 64) 0 ^^^ invert).getLsbD (j % 64)

/-- A nonzero word at `start` whose bits from `lo` on are the wanted ones
ends the search at its lowest set bit. -/
theorem firstAt_word {p : Nat → Bool} {tmp : Word} {lo start nbits : Nat}
    (h0 : tmp ≠ 0) (hlo : start ≤ lo)
    (hbit : ∀ j, j < 64 → tmp.getLsbD j = (p (start + j) && decide (lo ≤ start + j))) :
    FirstAt p lo nbits (min (start + ffs tmp) nbits) := by
  obtain ⟨hset, hclr⟩ := ffs_spec h0
  have hlt := ffs_lt h0
  rw [hbit _ hlt, Bool.and_eq_true, decide_eq_true_eq] at hset
  refine ⟨Nat.min_le_right _ _, fun h => ?_, fun h => ?_, fun j hj hj' => ?_⟩
  · rw [Nat.min_eq_left (by omega)]
    exact hset.2
  · rw [Nat.min_eq_left (by omega)]
    exact hset.1
  · have hj2 : j < start + ffs tmp := Nat.lt_of_lt_of_le hj' (Nat.min_le_left _ _)
    have hc := hclr (j - start) (by omega)
    rw [hbit _ (by omega), Nat.add_sub_cancel' (by omega)] at hc
    simpa [hj] using hc

variable {addr : Bitmap}

/-- The scan from the word at `start`: `tmp` holds the wanted bits of that
word from `lo` on. -/
theorem findNextBitScan_spec {nbits : Nat} {invert : Word}
    (fuel : Nat) : ∀ (lo start : Nat) (tmp : Word), start % 64 = 0 →
      start ≤ lo → lo < start + 64 → start < nbits → nbits ≤ start + 64 * fuel →
      (∀ j, j < 64 → tmp.getLsbD j
        = (wanted addr invert (start + j) && decide (lo ≤ start + j))) →
      FirstAt (wanted addr invert) lo nbits
        (findNextBitScan addr nbits invert fuel start tmp) := by
  induction fuel with
  | zero => intro lo start tmp _ _ _ h1 h2; omega
  | succ fuel ih =>
    intro lo start tmp hal hlo hlo' hlt hfuel hbit
    unfold findNextBitScan
    split
    · -- nothing wanted in this word
      rename_i htmp
      have hnone : ∀ j, lo ≤ j → j < start + 64 →
          wanted addr invert j = false := by
        intro j hj hj'
        have hb := hbit (j - start) (by omega)
        rw [htmp, Nat.add_sub_cancel' (by omega)] at hb
        simpa [hj] using hb.symm
      split
      · exact FirstAt.none fun j hj hj' => hnone j hj (by omega)
      · have hbits : ∀ j, j < 64 →
            (addr.getD ((start + 64) / 64) 0 ^^^ invert).getLsbD j
              = (wanted addr invert (start + 64 + j)
                && decide (start + 64 ≤ start + 64 + j)) := by
          intro j hj
          have h1 : (start + 64 + j) / 64 = (start + 64) / 64 := by omega
          have h2 : (start + 64 + j) % 64 = j := by omega
          rw [wanted, h1, h2]
          simp
        obtain ⟨hle, hge, hhit, hmiss⟩ := ih (start + 64) (start + 64) _
          (by omega) (Nat.le_refl _) (by omega) (by omega) (by omega) hbits
        refine ⟨hle, fun h => ?_, hhit, fun j hj hj' => ?_⟩
        · exact Nat.le_trans (by omega) (hge h)
        · rcases Nat.lt_or_ge j (start + 64) with h1 | h1
          · exact hnone j hj h1
          · exact hmiss j h1 hj'
    · exact firstAt_word ‹_› hlo hbit

theorem findNextBitInv_spec (addr : Bitmap) (nbits start : Nat)
    (invert : Word) : FirstAt (wanted addr invert) start nbits
      (findNextBitInv addr nbits start invert) := by
  unfold findNextBitInv
  split
  · rename_i h
    have hle : nbits ≤ start := by omega
    exact FirstAt.none fun j hj hj' => by omega
  · rename_i h
    refine findNextBitScan_spec _ start (start / 64 * 64) _ (by omega)
      (by omega) (by omega) (by omega) (by unfold bitsToLongs; omega) ?_
    intro j hj
    have h1 : (start / 64 * 64 + j) / 64 = start / 64 := by omega
    have h2 : (start / 64 * 64 + j) % 64 = j := by omega
    have h3 : start ≤ start / 64 * 64 + j ↔ start % 64 ≤ j := by omega
    rw [wanted, h1, h2, BitVec.getLsbD_and, BitVec.getLsbD_shiftLeft,
      BitVec.getLsbD_allOnes]
    by_cases hle : start % 64 ≤ j
    · have hlt : j - start % 64 < 64 := by omega
      simp [h3, hle, hj, hlt]
    · simp [h3, hle, Nat.lt_of_not_le hle]

theorem wanted_zero (addr : Bitmap) : wanted addr 0 = fun j => testBit j addr := by
  funext j
  simp [wanted, testBit]

theorem wanted_allOnes (addr : Bitmap) :
    wanted addr (BitVec.allOnes 64) = fun j => !testBit j addr := by
  funext j
  have hj : j % 64 < 64 := Nat.mod_lt _ (by decide)
  rw [wanted, BitVec.getLsbD_xor, BitVec.getLsbD_allOnes, testBit]
  simp [hj]

theorem findNextBit_spec (addr : Bitmap) (size offset : Nat) :
    FirstAt (fun j => testBit j addr) offset size
      (findNextBit addr size offset) := by
  rw [← wanted_zero]
  exact findNextBitInv_spec addr size offset 0

theorem findNextZeroBit_spec (addr : Bitmap) (size offset : Nat) :
    FirstAt (fun j => !testBit j addr) offset size
      (findNextZeroBit addr size offset) := by
  rw [← wanted_allOnes]
  exact findNextBitInv_spec addr size offset _

/-- `r` is the first position below `size` where `p` holds, in the circular
order that starts at `offset`. -/
structure CircFirst (p : Nat → Bool) (offset size r : Nat) : Prop where
  lt : r < size
  hit : p r = true
  order : (offset ≤ r ∧ ∀ j, offset ≤ j → j < r → p j = false) ∨
    (r < offset ∧ (∀ j, offset ≤ j → j < size → p j = false) ∧
      ∀ j, j < r → p j = false)

variable {size : Nat}

theorem CircFirst.unique {p : Nat → Bool} {offset a b : Nat}
    (ha : CircFirst p offset size a) (hb : CircFirst p offset size b) :
    a = b := by
  have hpa := ha.hit
  have hpb := hb.hit
  have hla := ha.lt
  have hlb := hb.lt
  rcases ha.order with ⟨h1, h2⟩ | ⟨h1, h2, h3⟩ <;>
    rcases hb.order with ⟨h4, h5⟩ | ⟨h4, h5, h6⟩
  · rcases Nat.lt_trichotomy a b with h | h | h
    · rw [h5 a h1 h] at hpa; exact absurd hpa (by decide)
    · exact h
    · rw [h2 b h4 h] at hpb; exact absurd hpb (by decide)
  · rw [h5 a h1 hla] at hpa; exact absurd hpa (by decide)
  · rw [h2 b h4 hlb] at hpb; exact absurd hpb (by decide)
  · rcases Nat.lt_trichotomy a b with h | h | h
    · rw [h6 a h] at hpa; exact absurd hpa (by decide)
    · exact h
    · rw [h3 b h] at hpb; exact absurd hpb (by decide)

/-- `find_next_zero_bit_loop` finds a clear bit whenever there is one, and
the first one in circular order. -/
theorem findNextZeroBitLoop_spec (offset : Nat)
    (h : ∃ j, j < size ∧ testBit j addr = false) :
    CircFirst (fun j => !testBit j addr) offset size
      (findNextZeroBitLoop addr size offset) := by
  obtain ⟨k, hk, hclear⟩ := h
  have h1 := findNextZeroBit_spec addr size offset
  have h0 := findNextZeroBit_spec addr size 0
  have hcase : findNextZeroBitLoop addr size offset
      = if size ≤ findNextZeroBit addr size offset ∧ offset ≠ 0
        then findNextZeroBit addr size 0 else findNextZeroBit addr size offset :=
    rfl
  -- the search from 0 cannot miss the clear bit `k`
  have hfound : findNextZeroBit addr size 0 < size := by
    by_contra hge
    have hm := h0.miss k (Nat.zero_le k) (by omega)
    simp [hclear] at hm
  rw [hcase]
  split
  · rename_i hwrap
    have hnone : ∀ j, offset ≤ j → j < size → (!testBit j addr) = false :=
      fun j hj hj' => h1.miss j hj (Nat.lt_of_lt_of_le hj' hwrap.1)
    refine ⟨hfound, h0.hit hfound, Or.inr ⟨?_, hnone,
      fun j hj => h0.miss j (Nat.zero_le j) hj⟩⟩
    by_contra hge
    have hn := hnone _ (Nat.le_of_not_lt hge) hfound
    rw [h0.hit hfound] at hn
    exact absurd hn (by decide)
  · rename_i hno
    have hlt : findNextZeroBit addr size offset < size := by
      by_contra hge
      have hoff : offset = 0 := by
        by_contra hne
        exact hno ⟨by omega, hne⟩
      rw [hoff] at hge
      exact hge hfound
    refine ⟨hlt, h1.hit hlt, Or.inl ⟨?_, fun j hj hj' => h1.miss j hj hj'⟩⟩
    exact h1.ge hlt

/-- With every bit set the circular search returns `size`. -/
theorem findNextZeroBitLoop_full (offset : Nat)
    (h : ∀ j, j < size → testBit j addr = true) :
    findNextZeroBitLoop addr size offset = size := by
  have hall : ∀ off, findNextZeroBit addr size off = size := by
    intro off
    have hs := findNextZeroBit_spec addr size off
    by_contra hne
    have hlt : findNextZeroBit addr size off < size :=
      Nat.lt_of_le_of_ne hs.le hne
    have hh := hs.hit hlt
    simp [h _ hlt] at hh
  have hcase : findNextZeroBitLoop addr size offset
      = if size ≤ findNextZeroBit addr size offset ∧ offset ≠ 0
        then findNextZeroBit addr size 0 else findNextZeroBit addr size offset :=
    rfl
  rw [hcase, hall, hall, ite_self]

/-- The scan of whole words from word `idx` on. -/
theorem findFirstScan_spec (addr : Bitmap) (size : Nat) (invert : Word)
    (fuel : Nat) : ∀ idx, size ≤ 64 * (idx + fuel) →
      FirstAt (wanted addr invert) (idx * 64) size
        (findFirstScan addr size invert fuel idx) := by
  induction fuel with
  | zero =>
    intro idx h
    exact FirstAt.none fun j hj hj' => by omega
  | succ fuel ih =>
    intro idx h
    have hbit : ∀ j, j < 64 → (addr.getD idx 0 ^^^ invert).getLsbD j
        = wanted addr invert (idx * 64 + j) := by
      intro j hj
      have h1 : (idx * 64 + j) / 64 = idx := by omega
      have h2 : (idx * 64 + j) % 64 = j := by omega
      rw [wanted, h1, h2]
    unfold findFirstScan
    split
    · dsimp only
      split
      · rename_i hw
        exact firstAt_word hw (Nat.le_refl _) fun j hj => by
          rw [hbit j hj]; simp
      · rename_i hw
        rw [not_not] at hw
        obtain ⟨hle, hge, hhit, hmiss⟩ := ih (idx + 1) (by omega)
        refine ⟨hle, fun h' => Nat.le_trans (by omega) (hge h'), hhit,
          fun j hj hj' => ?_⟩
        rcases Nat.lt_or_ge j ((idx + 1) * 64) with h1 | h1
        · have hb := hbit (j - idx * 64) (by omega)
          rw [hw, Nat.add_sub_cancel' hj] at hb
          simpa using hb.symm
        · exact hmiss j h1 hj'
    · exact FirstAt.none fun j hj hj' => by omega

theorem findFirstBit_spec (addr : Bitmap) (size : Nat) :
    FirstAt (fun j => testBit j addr) 0 size (findFirstBit addr size) := by
  rw [← wanted_zero]
  have h := findFirstScan_spec addr size 0 (bitsToLongs size) 0 (by unfold bitsToLongs; omega)
  rwa [Nat.zero_mul] at h

theorem findFirstZeroBit_spec (addr : Bitmap) (size : Nat) :
    FirstAt (fun j => !testBit j addr) 0 size (findFirstZeroBit addr size) := by
  rw [← wanted_allOnes]
  have h := findFirstScan_spec addr size (BitVec.allOnes 64) (bitsToLongs size) 0
    (by unfold bitsToLongs; omega)
  rwa [Nat.zero_mul] at h

/-! ## Loops over the set bits -/

/-- The bits that `for_each_set_bit` goes through from `bit` on, in `fuel` turns. -/
def setBitsFrom (addr : Bitmap) (size : Nat) : Nat → Nat → List Nat
  | 0, _ => []
  | fuel + 1, bit =>
    if bit < size then bit :: setBitsFrom addr size fuel (findNextBit addr size (bit + 1))
    else []

/-- `for_each_set_bit`. Every turn is at a later bit, so `size` of them are enough. -/
def forEachSetBit (addr : Bitmap) (size : Nat) : List Nat :=
  setBitsFrom addr size size (findFirstBit addr size)

theorem FirstAt.not_hit {p : Nat → Bool} {lo hi r i : Nat} (h : FirstAt p lo hi r)
    (hr : hi ≤ r) : ¬ (lo ≤ i ∧ i < hi ∧ p i = true) := by
  rintro ⟨hlo, hi, hset⟩
  rw [h.miss i hlo (by omega)] at hset
  cases hset

theorem mem_setBitsFrom {addr : Bitmap} {size i : Nat} (fuel : Nat) :
    ∀ {lo bit}, FirstAt (fun j => testBit j addr) lo size bit → size ≤ fuel + bit →
      (i ∈ setBitsFrom addr size fuel bit ↔ lo ≤ i ∧ i < size ∧ testBit i addr = true) := by
  induction fuel with
  | zero =>
    intro lo bit h hle
    simp only [setBitsFrom, List.not_mem_nil, false_iff]
    exact h.not_hit (by omega)
  | succ fuel ih =>
    intro lo bit h hle
    rw [setBitsFrom]
    split
    · rename_i hlt
      have hnext := findNextBit_spec addr size (bit + 1)
      have hge := hnext.ge
      have hle' := hnext.le
      have hlo := h.ge hlt
      have hmiss : lo ≤ i → i < bit → testBit i addr = false := h.miss i
      rw [List.mem_cons, ih hnext (by omega)]
      constructor
      · rintro (rfl | ⟨h1, h2, h3⟩)
        · exact ⟨hlo, hlt, h.hit hlt⟩
        · exact ⟨by omega, h2, h3⟩
      · rintro ⟨h1, h2, h3⟩
        rcases Nat.lt_trichotomy i bit with hi | hi | hi
        · rw [hmiss h1 hi] at h3
          cases h3
        · exact .inl hi
        · exact .inr ⟨hi, h2, h3⟩
    · simp only [List.not_mem_nil, false_iff]
      exact h.not_hit (by omega)

/-- The loop goes through the bits that are set. -/
theorem mem_forEachSetBit {addr : Bitmap} {size i : Nat} :
    i ∈ forEachSetBit addr size ↔ i < size ∧ testBit i addr = true := by
  rw [forEachSetBit, mem_setBitsFrom size (findFirstBit_spec addr size) (by omega)]
  simp

end Minos
