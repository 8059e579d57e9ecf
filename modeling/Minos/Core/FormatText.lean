import Minos.Core.Vsprintf

/-!
# What formatted output says

A format as a list of pieces: literals, percent signs and directives with their arguments. Each
piece has its letters in the format and a text that it stands for; `vsprintf` writes a text of
its own (`Conv.written`), and `Conv.Right` says when the two are the same.
-/

namespace Minos.Str

open Minos.Lib

variable {c : Call} {s : St} {align : Nat} {l l' : List UInt8}

/-! ## Directives -/

/-- The directives. `xLong` is a `%x` that is given a `long`. -/
inductive Conv
  | d | ld | u | x | xLong | lx | o | p | s | c
  deriving DecidableEq, Repr

namespace Conv

def letters : Conv → List UInt8
  | .d => bytes "d"
  | .ld => bytes "ld"
  | .u => bytes "u"
  | .x => bytes "x"
  | .xLong => bytes "x"
  | .lx => bytes "lx"
  | .o => bytes "o"
  | .p => bytes "p"
  | .s => bytes "s"
  | .c => bytes "c"

/-- Signed decimal. -/
def signed (i : Int) : List UInt8 :=
  if i < 0 then '-'.toUInt8 :: numeral 10 i.natAbs else numeral 10 i.natAbs

/-- The text of an argument. An `int` is the lower half of its slot; what stands in the upper
half is left open by the ABI. -/
def render (str : BitVec 64 → List UInt8) (slot : BitVec 64) : Conv → List UInt8
  | .d => signed (slot.setWidth 32).toInt
  | .ld => signed slot.toInt
  | .u => numeral 10 (slot.setWidth 32).toNat
  | .x => numeral 16 (slot.setWidth 32).toNat
  | .xLong => numeral 16 slot.toNat
  | .lx => numeral 16 slot.toNat
  | .o => numeral 8 (slot.setWidth 32).toNat
  | .p => List.replicate (16 - (numeral 16 slot.toNat).length) (digit 0) ++ numeral 16 slot.toNat
  | .s => str slot
  | .c => [UInt8.ofNat slot.toNat]

/-- When `vsprintf` writes that text: no `long` is negative, no `int` is the smallest one, the
upper half of the slot of a `%x` is zero, and a `%o` has one digit. -/
def Right (slot : BitVec 64) : Conv → Prop
  | .d => slot.setWidth 32 ≠ BitVec.intMin 32
  | .ld => 0 ≤ slot.toInt
  | .x => slot.toNat < 2 ^ 32
  | .o => (slot.setWidth 32).toNat < 8
  | .u | .xLong | .lx | .p | .s | .c => True

/-- `xxxtoa` of an `int`. -/
def intText (num : BitVec 32) : List UInt8 :=
  if num.toInt < 0 then '-'.toUInt8 :: numeral 10 ((~~~num + 1).signExtend 64).toNat
  else numeral 10 (num.signExtend 64).toNat

/-- The text that `vsprintf` writes. -/
def written (str : BitVec 64 → List UInt8) (slot : BitVec 64) : Conv → List UInt8
  | .d => intText (slot.setWidth 32)
  | .ld => numeral 10 slot.toNat
  | .u => numeral 10 (slot.setWidth 32).toNat
  | .x => numeral 16 slot.toNat
  | .xLong => numeral 16 slot.toNat
  | .lx => numeral 16 slot.toNat
  | .o => intText (slot.setWidth 32)
  | .p => List.replicate (16 - (numeral 16 slot.toNat).length) (digit 0) ++ numeral 16 slot.toNat
  | .s => str slot
  | .c => [UInt8.ofNat slot.toNat]

variable {num : BitVec 32}

theorem notMem_numeral {b n : Nat} {ch : UInt8} (hch : ∀ d < 16, ch ≠ digit d) (hb : 1 < b)
    (hb' : b ≤ 16) : ch ∉ numeral b n := by
  intro h
  obtain ⟨d, hd, heq⟩ := mem_numeral hb h
  exact hch d (Nat.lt_of_lt_of_le hd hb') heq

theorem toNat_signExtend (h : 0 ≤ num.toInt) : (num.signExtend 64).toNat = num.toInt.natAbs := by
  have hint := BitVec.toInt_signExtend_of_le (x := num) (show 32 ≤ 64 by decide)
  rw [BitVec.toInt_eq_toNat_cond] at hint
  have hlt := (num.signExtend 64).isLt
  split at hint <;> omega

theorem intText_of_nonneg (h : 0 ≤ num.toInt) : intText num = numeral 10 num.toNat := by
  have hnat : num.toInt.natAbs = num.toNat := by
    rw [BitVec.toInt_eq_toNat_cond] at h ⊢
    split at h <;> omega
  rw [intText, if_neg (by omega), toNat_signExtend h, hnat]

theorem intText_of_neg (h : num.toInt < 0) (hmin : num ≠ BitVec.intMin 32) :
    intText num = signed num.toInt := by
  have hneg : (~~~num + 1).toInt = -num.toInt := by
    rw [← BitVec.toInt_neg_of_ne_intMin hmin, BitVec.neg_eq_not_add]
    rfl
  rw [intText, signed, if_pos h, if_pos h, toNat_signExtend (by rw [hneg]; omega), hneg,
    Int.natAbs_neg]

theorem intText_intMin : intText (BitVec.intMin 32) ≠ signed (BitVec.intMin 32).toInt := by
  intro h
  have hcons : '-'.toUInt8 :: numeral 10 (2 ^ 64 - 2 ^ 31) = '-'.toUInt8 :: numeral 10 (2 ^ 31) := h
  have hnum := (numeral_inj (by decide) (by decide)).mp (List.cons.inj hcons).2
  omega

theorem intText_eq_signed_iff (num : BitVec 32) :
    intText num = signed num.toInt ↔ num ≠ BitVec.intMin 32 := by
  constructor
  · rintro h rfl
    exact intText_intMin h
  · intro hmin
    by_cases hneg : num.toInt < 0
    · exact intText_of_neg hneg hmin
    · rw [intText, signed, if_neg hneg, if_neg hneg, toNat_signExtend (Int.not_lt.mp hneg)]

/-- `%o` writes a decimal number. -/
theorem intText_eq_octal_iff (num : BitVec 32) :
    intText num = numeral 8 num.toNat ↔ num.toNat < 8 := by
  by_cases hneg : num.toInt < 0
  · refine iff_of_false (fun h => ?_) (fun h => ?_)
    · have hmem : '-'.toUInt8 ∈ intText num := by
        rw [intText, if_pos hneg]
        exact List.mem_cons_self
      exact notMem_numeral (by decide) (by decide) (by decide) (h ▸ hmem)
    · rw [BitVec.toInt_eq_toNat_cond] at hneg
      split at hneg <;> omega
  · rw [intText_of_nonneg (Int.not_lt.mp hneg), eq_comm]
    exact numeral_eq_iff (by decide) (by decide) (by decide)

theorem decimal_eq_signed_iff (slot : BitVec 64) :
    numeral 10 slot.toNat = signed slot.toInt ↔ 0 ≤ slot.toInt := by
  by_cases hneg : slot.toInt < 0
  · refine iff_of_false (fun h => ?_) (Int.not_le.mpr hneg)
    rw [signed, if_pos hneg] at h
    exact notMem_numeral (by decide) (by decide) (by decide) (h ▸ List.mem_cons_self)
  · have hnat : slot.toInt.natAbs = slot.toNat := by
      rw [BitVec.toInt_eq_toNat_cond] at hneg ⊢
      split at hneg <;> omega
    rw [signed, if_neg hneg, hnat]
    exact iff_of_true rfl (Int.not_lt.mp hneg)

/-- Where the text that is written is the right one. -/
theorem written_eq_render_iff (conv : Conv) (str : BitVec 64 → List UInt8) (slot : BitVec 64) :
    conv.written str slot = conv.render str slot ↔ conv.Right slot := by
  cases conv with
  | d => exact intText_eq_signed_iff _
  | ld => exact decimal_eq_signed_iff slot
  | x =>
    refine (numeral_inj (by decide) (by decide)).trans ?_
    rw [BitVec.toNat_setWidth, Right]
    omega
  | o => exact intText_eq_octal_iff _
  | u | xLong | lx | p | s | c => exact iff_of_true rfl trivial

theorem xxxtoa_int (num : BitVec 32) : ∃ n, xxxtoa num = some (intText num, n) := by
  unfold xxxtoa intText
  split
  · rw [numToStr_eq (by decide) (by decide) ((~~~num + 1).signExtend 64).isLt]
    exact ⟨_, rfl⟩
  · exact ⟨_, numToStr_eq (by decide) (by decide) (num.signExtend 64).isLt⟩

/-- The flags that the letters of a number set. -/
def flag : Conv → BitVec 32
  | .d | .o => printfDec ||| printfSigned
  | .ld => printfLong ||| printfDec
  | .u => printfDec ||| printfUnsigned
  | .x | .xLong => printfHex ||| printfUnsigned
  | .lx => printfLong ||| printfHex
  | .p => printfPointer ||| printfUnsigned
  | .s | .c => 0

theorem numbric_eq {conv : Conv} (hs : conv ≠ .s) (hc : conv ≠ .c)
    (str : BitVec 64 → List UInt8) (slot : BitVec 64) :
    ∃ n, numbric slot conv.flag = some (conv.written str slot, n) := by
  have hlow : (slot.setWidth 32).toNat < 2 ^ 64 :=
    Nat.lt_trans (slot.setWidth 32).isLt (by decide)
  cases conv with
  | d | o => exact xxxtoa_int (slot.setWidth 32)
  | ld | x | xLong | lx => exact ⟨_, numToStr_eq (by decide) (by decide) slot.isLt⟩
  | u => exact ⟨_, numToStr_eq (by decide) (by decide) hlow⟩
  | p => exact ⟨_, numToStr_pointer slot.isLt⟩
  | s => exact absurd rfl hs
  | c => exact absurd rfl hc

end Conv

/-- A directive writes its text. -/
theorem conversion_eq (conv : Conv) (halign : align ≤ 9) (hflag : s.flag = 0)
    (hstr : conv = .s → (c.str (c.arg s.args)).length < 2 ^ 31) (fmt : List UInt8) :
    conversion c (conv.letters ++ fmt) align s = .ok (conv.letters.length,
      { s.put (padLeft align (conv.written c.str (c.arg s.args))) with args := s.args + 1 }) := by
  have hnumber : conv ≠ .s → conv ≠ .c → putNumber c align (setFlag s conv.flag) =
      .ok { s.put (padLeft align (conv.written c.str (c.arg s.args))) with
        args := s.args + 1 } := by
    intro hs hc
    obtain ⟨n, hn⟩ := Conv.numbric_eq hs hc c.str (c.arg s.args)
    have hset : (setFlag s conv.flag).flag = conv.flag := by simp [setFlag, hflag]
    rw [putNumber_eq halign (hset ▸ hn)]
    simp [setFlag, St.put, hflag]
  cases conv with
  | s => exact congrArg (Except.map (1, ·)) (putString_eq halign (hstr rfl))
  | c => exact congrArg (Except.map (1, ·)) (putChar_eq halign)
  | ld | lx => exact congrArg (Except.map (2, ·)) (hnumber (by decide) (by decide))
  | d | u | x | xLong | o | p =>
    exact congrArg (Except.map (1, ·)) (hnumber (by decide) (by decide))

/-! ## Whole formats -/

/-- A piece of a format. A literal is no NUL and no percent sign; a directive has its width, if
any, and the slot of its argument. -/
inductive Piece
  | lit (ch : UInt8) (h : ch ≠ 0 ∧ ch ≠ '%'.toUInt8)
  | percent
  | dir (width : Option (Fin 10)) (conv : Conv) (slot : BitVec 64)

namespace Piece

def letters : Piece → List UInt8
  | lit ch _ => [ch]
  | percent => bytes "%%"
  | dir none conv _ => '%'.toUInt8 :: conv.letters
  | dir (some w) conv _ => '%'.toUInt8 :: digit w :: conv.letters

/-- The arguments it takes. -/
def slots : Piece → List (BitVec 64)
  | lit _ _ | percent => []
  | dir _ _ slot => [slot]

/-- A directive without a width has the width 0. -/
def width : Option (Fin 10) → Nat
  | none => 0
  | some w => w

/-- The text it stands for, for a text of the directives. -/
def text (dirText : BitVec 64 → Conv → List UInt8) : Piece → List UInt8
  | lit ch _ => [ch]
  | percent => ['%'.toUInt8]
  | dir w conv slot => padLeft (width w) (dirText slot conv)

def Right : Piece → Prop
  | lit _ _ | percent => True
  | dir _ conv slot => conv.Right slot

/-- The strings it prints have a length that is an `int`. -/
def Short (str : BitVec 64 → List UInt8) : Piece → Prop
  | dir _ .s slot => (str slot).length < 2 ^ 31
  | _ => True

end Piece

theorem vsprintfLoop_skip (l fmt : List UInt8) (s : St) :
    vsprintfLoop c (l ++ fmt) l.length s = vsprintfLoop c fmt 0 s := by
  induction l with
  | nil => rfl
  | cons ch l ih => rw [List.cons_append, List.length_cons, vsprintfLoop, ih]

theorem digit_width (w : Fin 10) : isdigit (digit w) = true ∧ (digit w - 48).toNat = w := by
  revert w
  decide

/-- One piece. -/
theorem vsprintfLoop_piece (p : Piece) (hflag : s.flag = 0)
    (hargs : ∀ w ∈ p.slots, c.arg s.args = w) (hshort : p.Short c.str) (fmt : List UInt8) :
    vsprintfLoop c (p.letters ++ fmt) 0 s = vsprintfLoop c fmt 0
      { s.put (p.text (Conv.written c.str)) with args := s.args + p.slots.length } := by
  cases p with
  | lit ch h =>
    rw [Piece.letters, List.singleton_append, vsprintfLoop, if_neg h.1, if_pos h.2, vst_one,
      ok_bind]
    rfl
  | percent =>
    have hpercent : conversion c ('%'.toUInt8 :: fmt) 0 s = .ok (1, s.put ['%'.toUInt8]) :=
      congrArg (Except.map (1, ·)) (vst_one (c := c) s '%'.toUInt8)
    rw [show Piece.percent.letters = ['%'.toUInt8, '%'.toUInt8] from rfl, List.cons_append,
      vsprintfLoop_percent, List.singleton_append, directive_plain rfl, hpercent, ok_bind]
    rfl
  | dir w conv slot =>
    have harg : c.arg s.args = slot := hargs slot List.mem_cons_self
    have hstr : conv = .s → (c.str (c.arg s.args)).length < 2 ^ 31 := by
      rintro rfl
      rwa [harg]
    cases w with
    | none =>
      have hplain : directive c (conv.letters ++ fmt) s =
          conversion c (conv.letters ++ fmt) 0 s := by
        cases conv <;> rfl
      rw [Piece.letters, List.cons_append, vsprintfLoop_percent, hplain,
        conversion_eq conv (Nat.zero_le 9) hflag hstr, ok_bind, harg]
      exact vsprintfLoop_skip conv.letters fmt _
    | some w =>
      obtain ⟨hdigit, hwidth⟩ := digit_width w
      rw [Piece.letters, List.cons_append, vsprintfLoop_percent, List.cons_append,
        directive_width hdigit, hwidth,
        conversion_eq conv (Nat.le_of_lt_succ w.isLt) hflag hstr, ok_map, ok_bind, harg]
      exact vsprintfLoop_skip (digit w :: conv.letters) fmt _

/-- All pieces, one after another. -/
theorem vsprintfLoop_pieces (ps : List Piece) (hflag : s.flag = 0)
    (hargs : ∀ i w, (ps.flatMap Piece.slots)[i]? = some w → c.arg (s.args + i) = w)
    (hshort : ∀ p ∈ ps, p.Short c.str) (fmt : List UInt8) :
    vsprintfLoop c (ps.flatMap Piece.letters ++ fmt) 0 s = vsprintfLoop c fmt 0
      { s.put (ps.flatMap (Piece.text (Conv.written c.str))) with
        args := s.args + (ps.flatMap Piece.slots).length } := by
  induction ps generalizing s with
  | nil => simp
  | cons p ps ih =>
    have hfirst : ∀ w ∈ p.slots, c.arg s.args = w := by
      intro w hw
      refine hargs 0 w ?_
      cases p with
      | lit | percent => cases hw
      | dir width conv slot =>
        cases List.mem_singleton.mp hw
        rfl
    have hrest : ∀ i w, (ps.flatMap Piece.slots)[i]? = some w →
        c.arg (s.args + p.slots.length + i) = w := by
      intro i w hw
      rw [Nat.add_assoc]
      refine hargs _ w ?_
      rw [List.flatMap_cons, List.getElem?_append_right (Nat.le_add_right _ _),
        Nat.add_sub_cancel_left]
      exact hw
    rw [List.flatMap_cons, List.append_assoc,
      vsprintfLoop_piece p hflag hfirst (hshort p List.mem_cons_self),
      ih (s := { s.put (p.text (Conv.written c.str)) with args := s.args + p.slots.length })
        hflag hrest fun q hq => hshort q (List.mem_cons_of_mem _ hq)]
    simp [St.put, Int.add_assoc, Nat.add_assoc]

/-- The texts of all pieces. -/
def textOf (str : BitVec 64 → List UInt8) (ps : List Piece) : List UInt8 :=
  ps.flatMap (Piece.text (Conv.render str))

/-- `vsprintf` writes the texts and a NUL, and returns their length. -/
def FormatRight (c : Call) (ps : List Piece) : Prop :=
  vsprintf c (ps.flatMap Piece.letters ++ [0]) =
    .ok (textOf c.str ps ++ [0], (textOf c.str ps).length)

theorem vsprintf_pieces (ps : List Piece)
    (hargs : ∀ i w, (ps.flatMap Piece.slots)[i]? = some w → c.arg i = w)
    (hshort : ∀ p ∈ ps, p.Short c.str) :
    vsprintf c (ps.flatMap Piece.letters ++ [0]) =
      .ok (ps.flatMap (Piece.text (Conv.written c.str)) ++ [0],
        (BitVec.ofInt 32 (ps.flatMap (Piece.text (Conv.written c.str))).length).toInt) := by
  have hargs' : ∀ i w, (ps.flatMap Piece.slots)[i]? = some w → c.arg (({} : St).args + i) = w := by
    intro i w hw
    rw [show ({} : St).args = 0 from rfl, Nat.zero_add]
    exact hargs i w hw
  rw [vsprintf, vsprintfLoop_pieces ps rfl hargs' hshort, vsprintfLoop, if_pos rfl, ok_bind,
    vst_one, ok_map]
  simp only [St.put, List.nil_append, Int.zero_add]

theorem vsprintf_ret_lt {fmt : List UInt8} {text : List UInt8} {ret : Int}
    (h : vsprintf c fmt = .ok (text, ret)) : ret < 2 ^ 31 := by
  unfold vsprintf at h
  cases hs : vsprintfLoop c fmt 0 {} with
  | error e =>
    rw [hs] at h
    cases h
  | ok s =>
    rw [hs, ok_bind, vst_one] at h
    cases h
    exact BitVec.toInt_lt

theorem padLeft_inj {width : Nat} (hl : ' '.toUInt8 ∉ l) (hl' : ' '.toUInt8 ∉ l')
    (h : padLeft width l = padLeft width l') : l = l' := by
  have hself : ∀ m : List UInt8, ' '.toUInt8 ∉ m →
      (padLeft width m).filter (· ≠ ' '.toUInt8) = m := by
    intro m hm
    rw [padLeft, List.filter_append, List.filter_replicate, if_neg (by simp), List.nil_append,
      List.filter_eq_self]
    intro ch hch
    exact decide_eq_true fun heq => hm (heq ▸ hch)
  rw [← hself l hl, h, hself l' hl']

theorem Piece.text_written_iff (str : BitVec 64 → List UInt8) (p : Piece) :
    p.text (Conv.written str) = p.text (Conv.render str) ↔ p.Right := by
  have hnum : ∀ {b n : Nat}, 1 < b → b ≤ 16 → ' '.toUInt8 ∉ numeral b n :=
    Conv.notMem_numeral (by decide)
  have hint : ∀ num, ' '.toUInt8 ∉ Conv.intText num := by
    intro num
    unfold Conv.intText
    split
    · exact List.not_mem_cons_of_ne_of_not_mem (by decide) (hnum (by decide) (by decide))
    · exact hnum (by decide) (by decide)
  have hsigned : ∀ i, ' '.toUInt8 ∉ Conv.signed i := by
    intro i
    unfold Conv.signed
    split
    · exact List.not_mem_cons_of_ne_of_not_mem (by decide) (hnum (by decide) (by decide))
    · exact hnum (by decide) (by decide)
  cases p with
  | lit | percent => exact iff_of_true rfl trivial
  | dir w conv slot =>
    -- only blanks are added, and the texts that can be wrong have none
    refine Iff.trans ⟨fun h => ?_, congrArg (padLeft (width w))⟩
      (conv.written_eq_render_iff str slot)
    cases conv with
    | d => exact padLeft_inj (hint _) (hsigned _) h
    | ld => exact padLeft_inj (hnum (by decide) (by decide)) (hsigned _) h
    | x => exact padLeft_inj (hnum (by decide) (by decide)) (hnum (by decide) (by decide)) h
    | o => exact padLeft_inj (hint _) (hnum (by decide) (by decide)) h
    | u | xLong | lx | p | s | c => rfl

theorem textOf_append (str : BitVec 64 → List UInt8) (ps qs : List Piece) :
    textOf str (ps ++ qs) = textOf str ps ++ textOf str qs :=
  List.flatMap_append

theorem short_of_length {ps : List Piece} (h : (textOf c.str ps).length < 2 ^ 31) :
    ∀ p ∈ ps, p.Short c.str := by
  intro p hp
  obtain ⟨qs, rs, rfl⟩ := List.append_of_mem hp
  rw [textOf_append, List.length_append, textOf, textOf, List.flatMap_cons,
    List.length_append] at h
  cases p with
  | lit | percent => trivial
  | dir w conv slot =>
    cases conv with
    | s =>
      rw [Piece.text, padLeft, List.length_append] at h
      exact Nat.lt_of_le_of_lt (by simp only [Conv.render]; omega) h
    | d | ld | u | x | xLong | lx | o | p | c => trivial

theorem toInt_ofInt_iff (n : Nat) :
    (BitVec.ofInt 32 n).toInt = n ↔ n < 2 ^ 31 := by
  constructor
  · intro h
    have hlt : (BitVec.ofInt 32 n).toInt < 2 ^ 31 := BitVec.toInt_lt
    omega
  · intro h
    rw [BitVec.toInt_ofInt]
    exact Int.bmod_eq_of_le (by omega) (by omega)

/-- **Formatted output**: for every list of literals, percent signs and directives, with the
arguments in the slots of the call, `vsprintf` writes the texts of all of them and a NUL and
returns their length, here and for every beginning of the list, exactly if each directive is
one that is written right and the length is an `int`. -/
theorem vsprintf_right_iff (c : Call) (ps : List Piece)
    (hargs : ∀ i w, (ps.flatMap Piece.slots)[i]? = some w → c.arg i = w) :
    (∀ pre, pre <+: ps → FormatRight c pre) ↔
      (∀ p ∈ ps, p.Right) ∧ (textOf c.str ps).length < 2 ^ 31 := by
  have hpre : ∀ {pre}, pre <+: ps → ∀ i w, (pre.flatMap Piece.slots)[i]? = some w →
      c.arg i = w := by
    rintro pre ⟨post, rfl⟩ i w hw
    refine hargs i w ?_
    rw [List.flatMap_append]
    exact (List.getElem?_append_left (List.getElem?_eq_some_iff.mp hw).1).trans hw
  have hwritten : (∀ p ∈ ps, p.Short c.str) → ∀ pre, pre <+: ps → (FormatRight c pre ↔
      pre.flatMap (Piece.text (Conv.written c.str)) = textOf c.str pre ∧
        (textOf c.str pre).length < 2 ^ 31) := by
    intro hshort pre hbegin
    rw [FormatRight, vsprintf_pieces pre (hpre hbegin) fun p hp => hshort p (hbegin.subset hp),
      Except.ok.injEq, Prod.mk.injEq, List.append_left_inj]
    refine and_congr_right fun heq => ?_
    rw [heq]
    exact toInt_ofInt_iff _
  constructor
  · intro h
    have hlen : (textOf c.str ps).length < 2 ^ 31 := by
      have hret := vsprintf_ret_lt (h ps List.prefix_rfl)
      omega
    have hshort := short_of_length hlen
    refine ⟨fun p hp => ?_, hlen⟩
    obtain ⟨qs, rs, rfl⟩ := List.append_of_mem hp
    have hq := (hwritten hshort qs ⟨p :: rs, rfl⟩).mp (h _ ⟨p :: rs, rfl⟩)
    have hqp : qs ++ [p] <+: qs ++ p :: rs := ⟨rs, by simp⟩
    have hp := ((hwritten hshort _ hqp).mp (h _ hqp)).1
    rw [textOf_append, List.flatMap_append, hq.1, List.append_cancel_left_eq] at hp
    refine (Piece.text_written_iff c.str p).mp ?_
    simpa [textOf] using hp
  · rintro ⟨hright, hlen⟩ pre hbegin
    refine (hwritten (short_of_length hlen) pre hbegin).mpr ⟨?_, ?_⟩
    · refine List.flatMap_congr fun p hp => ?_
      exact (Piece.text_written_iff c.str p).mpr (hright p (hbegin.subset hp))
    · obtain ⟨post, rfl⟩ := hbegin
      rw [textOf_append, List.length_append] at hlen
      omega

/-- A call with one argument. -/
def oneArg (slot : BitVec 64) : Call := ⟨false, fun _ => slot, fun _ => []⟩

/-- `%5d` of -7. -/
theorem vsprintf_right_padded :
    FormatRight (oneArg (-7)) [.dir (some 5) .d (-7)] ∧
      textOf (oneArg (-7)).str [.dir (some 5) .d (-7)] = bytes "   -7" := by
  have htext : textOf (oneArg (-7)).str [.dir (some 5) .d (-7)] = bytes "   -7" := rfl
  have hargs : ∀ i w, ([Piece.dir (some 5) .d (-7)].flatMap Piece.slots)[i]? = some w →
      (oneArg (-7)).arg i = w := by
    intro i w hw
    cases i with
    | zero => exact Option.some.inj hw
    | succ i => cases hw
  refine ⟨(vsprintf_right_iff _ _ hargs).mpr ⟨?_, ?_⟩ _ List.prefix_rfl, htext⟩
  · intro p hp
    cases List.mem_singleton.mp hp
    exact show (-7 : BitVec 64).setWidth 32 ≠ BitVec.intMin 32 by decide
  · rw [htext]
    decide

/-- `%ld` of -1 is a number of twenty digits, and `%o` of 8 the digit 8. -/
theorem vsprintf_not_right :
    (vsprintf (oneArg (-1)) (bytes "%ld" ++ [0]) = .ok (bytes "18446744073709551615" ++ [0], 20) ∧
      textOf (oneArg (-1)).str [.dir none .ld (-1)] = bytes "-1") ∧
    vsprintf (oneArg 8) (bytes "%o" ++ [0]) = .ok (bytes "8" ++ [0], 1) ∧
      textOf (oneArg 8).str [.dir none .o 8] = bytes "10" :=
  ⟨⟨rfl, rfl⟩, rfl, rfl⟩

end Minos.Str
