import Minos.Core.FindBit

/-!
# Runs of bits

`core/bitmap.c`: `bitmap_set` and `bitmap_clear` change a run of bits word by
word, with a mask for the first and for the last word, and
`bitmap_find_next_zero_area_align` looks for a run of clear bits.
-/

namespace Minos

/-- `BITMAP_FIRST_WORD_MASK(start)`. -/
def bitmapFirstWordMask (start : Nat) : Word := BitVec.allOnes 64 <<< (start % 64)

/-- `BITMAP_LAST_WORD_MASK(nbits)`. -/
def bitmapLastWordMask (nbits : Nat) : Word := BitVec.allOnes 64 >>> ((64 - nbits % 64) % 64)

/-- The loop of `bitmap_set` and `bitmap_clear`: `op` is what is done to a word
under a mask, `bits` the number of bits from here to the end of word `p`. -/
def bitmapLoop (op : Word → Word → Word) (size : Nat) :
    Nat → Nat → Nat → Nat → Word → Bitmap → Bitmap
  | 0, _, _, _, _, map => map
  | fuel + 1, p, len, bits, mask, map =>
    if bits ≤ len then
      bitmapLoop op size fuel (p + 1) (len - bits) 64 (BitVec.allOnes 64)
        (map.set p (op (map.getD p 0) mask))
    else if len ≠ 0 then
      map.set p (op (map.getD p 0) (mask &&& bitmapLastWordMask size))
    else map

/-- A pass takes all of a word, so there are at most `len / 64 + 2`. -/
def bitmapApply (op : Word → Word → Word) (map : Bitmap) (start len : Nat) : Bitmap :=
  bitmapLoop op (start + len) (len / 64 + 2) (start / 64) len (64 - start % 64)
    (bitmapFirstWordMask start) map

/-- `bitmap_set`. -/
def bitmapSet (map : Bitmap) (start len : Nat) : Bitmap :=
  bitmapApply (fun w mask => w ||| mask) map start len

/-- `bitmap_clear`. -/
def bitmapClear (map : Bitmap) (start len : Nat) : Bitmap :=
  bitmapApply (fun w mask => w &&& ~~~ mask) map start len

/-- The passes of `bitmap_find_next_zero_area_align` from `start` on. -/
def zeroAreaLoop (map : Bitmap) (size nr align : Nat) : Nat → Nat → Nat
  | 0, _ => size + nr
  | fuel + 1, start =>
    let index := findNextZeroBit map size start
    let stop := index + nr
    if size < stop then stop
    else if index &&& (align - 1) ≠ 0 then zeroAreaLoop map size nr align fuel (index + 1)
    else
      let i := findNextBit map stop index
      if i < stop then zeroAreaLoop map size nr align fuel (i + 1)
      else index

/-- `bitmap_find_next_zero_area_align`. Every pass starts behind the last one,
so `size` of them are enough. -/
def bitmapFindNextZeroAreaAlign (map : Bitmap) (size start nr align : Nat) : Nat :=
  zeroAreaLoop map size nr align (size + 1) start

/-! ## Setting and clearing -/

variable {map : Bitmap}

/-- One word is changed. -/
theorem testBit_set_word {op : Word → Word → Word} {f : Bool → Bool → Bool}
    (hop : ∀ w m i, i < 64 → (op w m).getLsbD i = f (w.getLsbD i) (m.getLsbD i)) {p : Nat}
    (hp : p < map.length) (mask : Word) (j : Nat) :
    testBit j (map.set p (op (map.getD p 0) mask)) =
      if j / 64 = p then f (testBit j map) (mask.getLsbD (j % 64)) else testBit j map := by
  have hmod : j % 64 < 64 := Nat.mod_lt _ (by decide)
  unfold testBit
  split
  · rename_i hj
    rw [hj, List.getD_eq_getElem?_getD, List.getElem?_set_self hp, Option.getD_some,
      hop _ _ _ hmod]
  · rename_i hj
    rw [List.getD_eq_getElem?_getD, List.getElem?_set_ne (Ne.symm hj),
      ← List.getD_eq_getElem?_getD]

theorem getLsbD_firstWordMask (start i : Nat) (hi : i < 64) :
    (bitmapFirstWordMask start).getLsbD i = decide (start % 64 ≤ i) := by
  rw [bitmapFirstWordMask, BitVec.getLsbD_shiftLeft, BitVec.getLsbD_allOnes]
  by_cases h : start % 64 ≤ i
  · have hlt : i - start % 64 < 64 := by omega
    simp [h, hi, hlt]
  · simp [h, Nat.lt_of_not_le h]

theorem getLsbD_lastWordMask {nbits : Nat} (h : nbits % 64 ≠ 0) (i : Nat) :
    (bitmapLastWordMask nbits).getLsbD i = decide (i < nbits % 64) := by
  rw [bitmapLastWordMask, BitVec.getLsbD_ushiftRight, BitVec.getLsbD_allOnes]
  have hiff : (64 - nbits % 64) % 64 + i < 64 ↔ i < nbits % 64 := by omega
  exact decide_eq_decide.mpr hiff

variable {len start : Nat}

section Apply

variable {op : Word → Word → Word} {f : Bool → Bool → Bool}

theorem length_bitmapLoop (op : Word → Word → Word) (size fuel : Nat) :
    ∀ (p len bits : Nat) (mask : Word) (map : Bitmap),
      (bitmapLoop op size fuel p len bits mask map).length = map.length := by
  induction fuel with
  | zero => intro p len bits mask map; rfl
  | succ fuel ih =>
    intro p len bits mask map
    unfold bitmapLoop
    split
    · rw [ih, List.length_set]
    · split
      · rw [List.length_set]
      · rfl

/-- The loop at bit `64 * p + (64 - bits)`, with `len` bits left. -/
theorem testBit_bitmapLoop (hf : ∀ b, f b false = b)
    (hop : ∀ w m i, i < 64 → (op w m).getLsbD i = f (w.getLsbD i) (m.getLsbD i))
    (j size fuel : Nat) :
    ∀ (p len bits : Nat) (mask : Word) (map : Bitmap), 0 < bits → bits ≤ 64 →
      (∀ i, i < 64 → mask.getLsbD i = decide (64 - bits ≤ i)) →
      size = 64 * p + (64 - bits) + len → size ≤ 64 * map.length →
      len + 64 < bits + 64 * fuel →
      testBit j (bitmapLoop op size fuel p len bits mask map) =
        f (testBit j map) (decide (64 * p + (64 - bits) ≤ j ∧ j < size)) := by
  have hmod : j % 64 < 64 := Nat.mod_lt _ (by decide)
  induction fuel with
  | zero =>
    intro p len bits mask map hpos hbits hmask hsize hroom hfuel
    omega
  | succ fuel ih =>
    intro p len bits mask map hpos hbits hmask hsize hroom hfuel
    unfold bitmapLoop
    split
    · -- all of the word from here on
      rename_i hle
      have hp : p < map.length := by omega
      have hones (i : Nat) (hi : i < 64) :
          (BitVec.allOnes 64).getLsbD i = decide (64 - 64 ≤ i) := by
        rw [BitVec.getLsbD_allOnes, decide_eq_decide]
        omega
      rw [ih (p + 1) (len - bits) 64 (BitVec.allOnes 64) _ (by decide) (Nat.le_refl _) hones
        (by omega) (by rw [List.length_set]; exact hroom) (by omega),
        testBit_set_word hop hp]
      split
      · rename_i hj
        have hno : ¬ (64 * (p + 1) + (64 - 64) ≤ j ∧ j < size) := by omega
        have hiff : 64 - bits ≤ j % 64 ↔ 64 * p + (64 - bits) ≤ j ∧ j < size := by omega
        rw [decide_eq_false hno, hf, hmask _ hmod, decide_eq_decide.mpr hiff]
      · rename_i hj
        have hiff : 64 * (p + 1) + (64 - 64) ≤ j ∧ j < size ↔
            64 * p + (64 - bits) ≤ j ∧ j < size := by omega
        rw [decide_eq_decide.mpr hiff]
    · rename_i hlt
      split
      · -- the last word
        have hp : p < map.length := by omega
        have hend : size % 64 = 64 - bits + len := by omega
        rw [testBit_set_word hop hp]
        split
        · rename_i hj
          rw [BitVec.getLsbD_and, hmask _ hmod, getLsbD_lastWordMask (by omega),
            ← Bool.decide_and]
          have hiff : 64 - bits ≤ j % 64 ∧ j % 64 < size % 64 ↔
              64 * p + (64 - bits) ≤ j ∧ j < size := by omega
          rw [decide_eq_decide.mpr hiff]
        · rename_i hj
          have hno : ¬ (64 * p + (64 - bits) ≤ j ∧ j < size) := by omega
          rw [decide_eq_false hno, hf]
      · have hno : ¬ (64 * p + (64 - bits) ≤ j ∧ j < size) := by omega
        rw [decide_eq_false hno, hf]

theorem testBit_bitmapApply (hf : ∀ b, f b false = b)
    (hop : ∀ w m i, i < 64 → (op w m).getLsbD i = f (w.getLsbD i) (m.getLsbD i))
    (h : start + len ≤ 64 * map.length) (j : Nat) :
    testBit j (bitmapApply op map start len) =
      f (testBit j map) (decide (start ≤ j ∧ j < start + len)) := by
  have hmod : start % 64 < 64 := Nat.mod_lt _ (by decide)
  rw [bitmapApply, testBit_bitmapLoop hf hop j (start + len) _ _ _ _ _ _ (by omega) (by omega)
    (fun i hi => ?_) (by omega) h (by omega)]
  · have hpos : 64 * (start / 64) + (64 - (64 - start % 64)) = start := by omega
    rw [hpos]
  · have hbits : 64 - (64 - start % 64) = start % 64 := by omega
    rw [getLsbD_firstWordMask start i hi, hbits]

end Apply

@[simp] theorem length_bitmapSet (map : Bitmap) (start len : Nat) :
    (bitmapSet map start len).length = map.length := length_bitmapLoop ..

@[simp] theorem length_bitmapClear (map : Bitmap) (start len : Nat) :
    (bitmapClear map start len).length = map.length := length_bitmapLoop ..

theorem testBit_bitmapSet (h : start + len ≤ 64 * map.length) (j : Nat) :
    testBit j (bitmapSet map start len) =
      (testBit j map || decide (start ≤ j ∧ j < start + len)) :=
  testBit_bitmapApply (f := fun b m => b || m) (fun b => Bool.or_false b)
    (fun _ _ _ _ => BitVec.getLsbD_or) h j

theorem testBit_bitmapClear (h : start + len ≤ 64 * map.length) (j : Nat) :
    testBit j (bitmapClear map start len) =
      (testBit j map && !decide (start ≤ j ∧ j < start + len)) :=
  testBit_bitmapApply (f := fun b m => b && !m) (fun b => by simp)
    (fun w m i hi => by simp [hi]) h j

/-! ## Looking for a run of clear bits -/

/-- A pass of the search that returns a position has found a run. -/
theorem zeroAreaLoop_spec (map : Bitmap) (size : Nat) {nr align : Nat} (hnr : 0 < nr)
    (fuel : Nat) : ∀ start, zeroAreaLoop map size nr align fuel start < size →
      zeroAreaLoop map size nr align fuel start + nr ≤ size ∧
        ∀ j, zeroAreaLoop map size nr align fuel start ≤ j →
          j < zeroAreaLoop map size nr align fuel start + nr → testBit j map = false := by
  induction fuel with
  | zero =>
    intro start h
    rw [zeroAreaLoop] at h
    omega
  | succ fuel ih =>
    intro start h
    rw [zeroAreaLoop] at h ⊢
    simp only at h ⊢
    split at h
    · omega
    · rename_i hstop
      rw [if_neg hstop]
      split at h
      · rename_i halign
        rw [if_pos halign]
        exact ih _ h
      · rename_i halign
        rw [if_neg halign]
        split at h
        · rename_i hbit
          rw [if_pos hbit]
          exact ih _ h
        · rename_i hbit
          rw [if_neg hbit]
          have hspec := findNextBit_spec map (findNextZeroBit map size start + nr)
            (findNextZeroBit map size start)
          refine ⟨Nat.le_of_not_lt hstop, fun j hj hj' => ?_⟩
          exact hspec.miss j hj (Nat.lt_of_lt_of_le hj' (Nat.le_of_not_lt hbit))

theorem bitmapFindNextZeroAreaAlign_spec {size nr align : Nat} (hnr : 0 < nr)
    (h : bitmapFindNextZeroAreaAlign map size start nr align < size) :
    bitmapFindNextZeroAreaAlign map size start nr align + nr ≤ size ∧
      ∀ j, bitmapFindNextZeroAreaAlign map size start nr align ≤ j →
        j < bitmapFindNextZeroAreaAlign map size start nr align + nr → testBit j map = false :=
  zeroAreaLoop_spec map size hnr (size + 1) start h

end Minos
