import Mathlib.Data.BitVec
import Minos.Core.NumToStr

/-!
# Formatted output

`vsprintf` of `core/string.c`, with the conversions below it.

* A format is the list of its bytes with the NUL; `Fault.format` is a read behind it.
* The arguments are the 64-bit slots that `va_arg` takes one after another. A `Call` also knows
  the string that stands at an address.
* All output goes through `vst`: to the console if `buf` is `NULL`, and to memory otherwise. The
  size is an `int`, and `memcpy` gets a negative one as a huge number (`Fault.copy`).
-/

namespace Minos.Str

open Minos.Lib

/-! ## Computations that stop at a fault -/

section Checked

variable {ε α β : Type*}

@[simp] theorem ok_bind (a : α) (f : α → Except ε β) : (Except.ok a).bind f = f a := rfl

@[simp] theorem error_bind (e : ε) (f : α → Except ε β) :
    (Except.error e : Except ε α).bind f = .error e := rfl

@[simp] theorem ok_map (a : α) (f : α → β) : (Except.ok a : Except ε α).map f = .ok (f a) := rfl

@[simp] theorem error_map (e : ε) (f : α → β) :
    (Except.error e : Except ε α).map f = .error e := rfl

theorem bind_of_map {γ : Type*} (x : Except ε α) (f : α → β) (g : β → Except ε γ) :
    (x.map f).bind g = x.bind fun a => g (f a) := by
  cases x <;> rfl

end Checked

/-! ## Conversions -/

def printfDec : BitVec 32 := 0x0001
def printfHex : BitVec 32 := 0x0002
def printfOct : BitVec 32 := 0x0004
def printfBin : BitVec 32 := 0x0008
def printfPointer : BitVec 32 := 0x0010
def printfMask : BitVec 32 := 0xff
def printfUnsigned : BitVec 32 := 0x0100
def printfSigned : BitVec 32 := 0x0200
def printfLong : BitVec 32 := 0x0400

/-- `xxxtoa`: the sum wraps for the smallest number, which stays negative. -/
def xxxtoa {w : Nat} (num : BitVec w) : Option (List UInt8 × Nat) :=
  if num.toInt < 0 then
    (numToStr ((~~~num + 1).signExtend 64).toNat 10).map fun (buf, len) =>
      ('-'.toUInt8 :: buf, 1 + len)
  else numToStr (num.signExtend 64).toNat 10

/-- `numbric`: the characters in `num_buf`, and how many. -/
def numbric (num : BitVec 64) (flag : BitVec 32) : Option (List UInt8 × Nat) :=
  if flag &&& printfMask = printfDec then
    if flag &&& printfSigned ≠ 0 then
      if flag &&& printfLong ≠ 0 then xxxtoa num else xxxtoa (num.setWidth 32)
    else
      if flag &&& printfLong ≠ 0 then numToStr num.toNat 10
      else numToStr (num.setWidth 32).toNat 10
  else if flag &&& printfMask = printfHex then numToStr num.toNat 16
  else if flag &&& printfMask = printfOct then numToStr num.toNat 8
  else if flag &&& printfMask = printfBin then numToStr num.toNat 2
  else if flag &&& printfMask = printfPointer then numToStr num.toNat 32
  else some ([], 0)

/-! ## `vsprintf` -/

inductive Fault
  | format
  | copy
  | tmpBuf
  deriving DecidableEq, Repr

structure Call where
  /-- `buf` is `NULL`. -/
  console : Bool
  arg : Nat → BitVec 64
  str : BitVec 64 → List UInt8

/-- `text` is what has been put out, and `str` counts from `buf`. -/
structure St where
  text : List UInt8 := []
  str : Int := 0
  args : Nat := 0
  flag : BitVec 32 := 0

variable (c : Call)

/-- `console_vsprintf` and `memory_vsprintf`. -/
def vst (s : St) (src : List UInt8) (size : Int) : Except Fault St :=
  if 0 ≤ size then
    .ok { s with text := s.text ++ src.take size.toNat, str := s.str + size }
  else if c.console then .ok { s with str := s.str + size }
  else .error .copy

def printBlanks : Nat → St → Except Fault St
  | 0, s => .ok s
  | n + 1, s => (vst c s [' '.toUInt8] 1).bind (printBlanks n)

/-- `PRINT_ALIGN_CHAR`. -/
def printAlignChar (align len : Int) (s : St) : Except Fault St :=
  if align ≠ 0 ∧ len < align then printBlanks c (BitVec.ofInt 32 (align - len)).toInt.toNat s
  else .ok s

def readFmt : List UInt8 → Except Fault UInt8
  | [] => .error .format
  | ch :: _ => .ok ch

/-- What `vsprintf` does behind its `switch`. -/
def putNumber (align : Nat) (s : St) : Except Fault St :=
  match numbric (c.arg s.args) s.flag with
  | none => .error .tmpBuf
  | some (buf, len) =>
    (printAlignChar c align len { s with args := s.args + 1 }).bind fun s =>
      (vst c s buf len).map fun s => { s with flag := 0 }

def putString (align : Nat) (s : St) : Except Fault St :=
  let tmp := c.str (c.arg s.args)
  let len := (BitVec.ofNat 32 tmp.length).toInt
  (printAlignChar c align len { s with args := s.args + 1 }).bind fun s => vst c s tmp len

def putChar (align : Nat) (s : St) : Except Fault St :=
  (printAlignChar c align 1 s).bind fun s =>
    vst c { s with args := s.args + 1 } [UInt8.ofNat (c.arg s.args).toNat] 1

/-- The width as it stood in the format. -/
def alignChars (align : Nat) : List UInt8 := if align = 0 then [] else [UInt8.ofNat (48 + align)]

/-- `%`, the width and the characters behind it as they are. -/
def putBack (align : Nat) (chars : List UInt8) (s : St) : Except Fault St :=
  (vst c s ['%'.toUInt8] 1).bind fun s =>
    (vst c s (alignChars align) (alignChars align).length).bind fun s =>
      vst c s chars chars.length

def setFlag (s : St) (flag : BitVec 32) : St := { s with flag := s.flag ||| flag }

/-- The `switch`: `fmt` starts with its character. With the state comes how far `fmt` moves,
with the `fmt++` of the loop. -/
def conversion (fmt : List UInt8) (align : Nat) (s : St) : Except Fault (Nat × St) :=
  (readFmt fmt).bind fun ch =>
    if ch = 'l'.toUInt8 then
      (readFmt fmt.tail).bind fun ch =>
        if ch ≠ 'd'.toUInt8 ∧ ch ≠ 'x'.toUInt8 then
          (putBack c align ['l'.toUInt8, ch] s).map (2, ·)
        else if ch = 'd'.toUInt8 then
          (putNumber c align (setFlag s (printfLong ||| printfDec))).map (2, ·)
        else (putNumber c align (setFlag s (printfLong ||| printfHex))).map (2, ·)
    else Except.map (1, ·) <|
      if ch = 'd'.toUInt8 then putNumber c align (setFlag s (printfDec ||| printfSigned))
      else if ch = 'p'.toUInt8 then
        putNumber c align (setFlag s (printfPointer ||| printfUnsigned))
      else if ch = 'x'.toUInt8 then putNumber c align (setFlag s (printfHex ||| printfUnsigned))
      else if ch = 'u'.toUInt8 then putNumber c align (setFlag s (printfDec ||| printfUnsigned))
      else if ch = 's'.toUInt8 then putString c align s
      else if ch = 'c'.toUInt8 then putChar c align s
      else if ch = 'o'.toUInt8 then putNumber c align (setFlag s (printfDec ||| printfSigned))
      else if ch = '%'.toUInt8 then
        if align = 0 then vst c s ['%'.toUInt8] 1 else putBack c align ['%'.toUInt8] s
      else putBack c align [ch] s

/-- What stands behind a `%`. -/
def directive (fmt : List UInt8) (s : St) : Except Fault (Nat × St) :=
  (readFmt fmt).bind fun ch =>
    if isdigit ch then
      (conversion c fmt.tail (ch - 48).toNat s).map fun (n, s) => (n + 1, s)
    else conversion c fmt 0 s

/-- The `for` loop; the first `skip` characters have been read. -/
def vsprintfLoop : List UInt8 → Nat → St → Except Fault St
  | [], _, _ => .error .format
  | _ :: fmt, skip + 1, s => vsprintfLoop fmt skip s
  | ch :: fmt, 0, s =>
    if ch = 0 then .ok s
    else if ch ≠ '%'.toUInt8 then (vst c s [ch] 1).bind (vsprintfLoop fmt 0)
    else (directive c fmt s).bind fun (skip, s) => vsprintfLoop fmt skip s

/-- `vsprintf`: all characters it puts out, and what it returns. -/
def vsprintf (fmt : List UInt8) : Except Fault (List UInt8 × Int) :=
  (vsprintfLoop c fmt 0 {}).bind fun s =>
    (vst c s [0] 1).map fun s' => (s'.text, (BitVec.ofInt 32 s.str).toInt)

/-! ## What is put out -/

def St.put (s : St) (l : List UInt8) : St :=
  { s with text := s.text ++ l, str := s.str + l.length }

/-- The text of a directive, padded on the left with blanks. -/
def padLeft (width : Nat) (l : List UInt8) : List UInt8 :=
  List.replicate (width - l.length) ' '.toUInt8 ++ l

variable {c} {s : St} {align : Nat} {l l' buf : List UInt8} {ch : UInt8}

@[simp] theorem St.put_nil (s : St) : s.put [] = s := by
  simp [St.put]

@[simp] theorem St.put_put (s : St) (l l' : List UInt8) : (s.put l).put l' = s.put (l ++ l') := by
  simp [St.put, Int.add_assoc]

@[simp] theorem vst_length (s : St) (l : List UInt8) : vst c s l l.length = .ok (s.put l) := by
  simp [vst, St.put]

@[simp] theorem vst_one (s : St) (ch : UInt8) : vst c s [ch] 1 = .ok (s.put [ch]) :=
  vst_length s [ch]

theorem printBlanks_eq (n : Nat) (s : St) :
    printBlanks c n s = .ok (s.put (List.replicate n ' '.toUInt8)) := by
  induction n generalizing s with
  | zero => simp [printBlanks]
  | succ n ih => simp [printBlanks, ih, List.replicate_succ]

theorem printAlignChar_eq (len : Nat) (halign : align ≤ 9) :
    printAlignChar c align len s = .ok (s.put (List.replicate (align - len) ' '.toUInt8)) := by
  unfold printAlignChar
  split
  · rename_i hlt
    have hint : (BitVec.ofInt 32 ((align : Int) - len)).toInt = align - len := by
      rw [BitVec.toInt_ofInt]
      exact Int.bmod_eq_of_le (by omega) (by omega)
    rw [hint, printBlanks_eq, Int.toNat_sub]
  · rename_i hge
    have hzero : align - len = 0 := by omega
    rw [hzero, List.replicate_zero, St.put_nil]

@[simp] theorem putBack_eq (align : Nat) (l : List UInt8) (s : St) :
    putBack c align l s = .ok (s.put ('%'.toUInt8 :: (alignChars align ++ l))) := by
  simp [putBack]

/-- No number leaves its buffer. -/
theorem numToStr_some {num b : Nat} (hnum : num < 2 ^ 64) (hb : b ∈ [2, 8, 10, 16, 32]) :
    ∃ buf, numToStr num b = some (buf, buf.length) := by
  by_cases h32 : b = 32
  · have hlen : (numeral 16 num).length ≤ 16 :=
      (length_numeral_le (by decide) (by decide)).mpr (by simpa using hnum)
    rw [h32, numToStr_pointer hnum]
    refine ⟨_, congrArg some (Prod.ext rfl ?_)⟩
    simp [Nat.sub_add_cancel hlen]
  · simp only [List.mem_cons, List.not_mem_nil, or_false] at hb
    exact ⟨_, numToStr_eq (by omega) (by omega) hnum⟩

theorem xxxtoa_some {w : Nat} (num : BitVec w) : ∃ buf, xxxtoa num = some (buf, buf.length) := by
  unfold xxxtoa
  split
  · obtain ⟨buf, hbuf⟩ := numToStr_some ((~~~num + 1).signExtend 64).isLt
      (show 10 ∈ [2, 8, 10, 16, 32] by decide)
    rw [hbuf]
    exact ⟨'-'.toUInt8 :: buf, by simp [Nat.add_comm]⟩
  · exact numToStr_some (num.signExtend 64).isLt (by decide)

theorem numbric_some (num : BitVec 64) (flag : BitVec 32) :
    ∃ buf, numbric num flag = some (buf, buf.length) := by
  have hlow : (num.setWidth 32).toNat < 2 ^ 64 :=
    Nat.lt_trans (num.setWidth 32).isLt (by decide)
  unfold numbric
  split_ifs
  · exact xxxtoa_some num
  · exact xxxtoa_some (num.setWidth 32)
  · exact numToStr_some num.isLt (by decide)
  · exact numToStr_some hlow (by decide)
  · exact numToStr_some num.isLt (by decide)
  · exact numToStr_some num.isLt (by decide)
  · exact numToStr_some num.isLt (by decide)
  · exact numToStr_some num.isLt (by decide)
  · exact ⟨[], rfl⟩

theorem putNumber_eq {n : Nat} (halign : align ≤ 9)
    (h : numbric (c.arg s.args) s.flag = some (buf, n)) :
    putNumber c align s =
      .ok { s.put (padLeft align buf) with args := s.args + 1, flag := 0 } := by
  obtain ⟨buf', hbuf⟩ := numbric_some (c.arg s.args) s.flag
  cases h.symm.trans hbuf
  simp only [putNumber, h, printAlignChar_eq _ halign, ok_bind, vst_length, ok_map, St.put_put]
  rfl

theorem putString_eq (halign : align ≤ 9) (hlen : (c.str (c.arg s.args)).length < 2 ^ 31) :
    putString c align s =
      .ok { s.put (padLeft align (c.str (c.arg s.args))) with args := s.args + 1 } := by
  have hint : (BitVec.ofNat 32 (c.str (c.arg s.args)).length).toInt
      = (c.str (c.arg s.args)).length := by
    rw [BitVec.toInt_eq_toNat_bmod, BitVec.toNat_ofNat, Nat.mod_eq_of_lt (by omega)]
    exact Int.bmod_eq_of_le (by omega) (by omega)
  simp only [putString, hint, printAlignChar_eq _ halign, ok_bind, vst_length, St.put_put]
  rfl

theorem putChar_eq (halign : align ≤ 9) :
    putChar c align s = .ok { s.put (padLeft align [UInt8.ofNat (c.arg s.args).toNat]) with
      args := s.args + 1 } := by
  have halign' := printAlignChar_eq (c := c) (s := s) 1 halign
  rw [Nat.cast_one] at halign'
  rw [putChar, halign', ok_bind, vst_one, padLeft, ← St.put_put]
  rfl

/-! ## Reading the format -/

/-- A step that goes on, unless a string is too long for an `int`. -/
def Passes (c : Call) (x : Except Fault St) : Prop :=
  (∃ s', x = .ok s') ∨ x = .error .copy ∧ ∃ p, 2 ^ 31 ≤ (c.str p).length

theorem Passes.ite {p : Prop} [Decidable p] {x y : Except Fault St} (hx : Passes c x)
    (hy : Passes c y) : Passes c (if p then x else y) := by
  split
  · exact hx
  · exact hy

theorem passes_putNumber (halign : align ≤ 9) (s : St) : Passes c (putNumber c align s) := by
  obtain ⟨buf, hbuf⟩ := numbric_some (c.arg s.args) s.flag
  exact .inl ⟨_, putNumber_eq halign hbuf⟩

theorem passes_putString (halign : align ≤ 9) (s : St) : Passes c (putString c align s) := by
  by_cases hlen : (c.str (c.arg s.args)).length < 2 ^ 31
  · exact .inl ⟨_, putString_eq halign hlen⟩
  · have halign : ∀ len s, ∃ s', printAlignChar c align len s = .ok s' := by
      intro len s
      unfold printAlignChar
      split
      · exact ⟨_, printBlanks_eq _ s⟩
      · exact ⟨s, rfl⟩
    obtain ⟨s', hs'⟩ := halign (BitVec.ofNat 32 (c.str (c.arg s.args)).length).toInt
      { s with args := s.args + 1 }
    simp only [putString, hs', ok_bind, vst]
    split_ifs
    · exact .inl ⟨_, rfl⟩
    · exact .inl ⟨_, rfl⟩
    · exact .inr ⟨rfl, _, Nat.not_lt.mp hlen⟩

/-- The characters of a format that are read at once: a literal character, or a directive with
its width and its length. -/
inductive Item : List UInt8 → Prop
  | lit (ch : UInt8) : ch ≠ 0 → ch ≠ '%'.toUInt8 → Item [ch]
  | plain (ch : UInt8) : isdigit ch = false → ch ≠ 'l'.toUInt8 → Item ['%'.toUInt8, ch]
  | width (d ch : UInt8) : isdigit d = true → ch ≠ 'l'.toUInt8 →
    Item ['%'.toUInt8, d, ch]
  | long (ch : UInt8) : Item ['%'.toUInt8, 'l'.toUInt8, ch]
  | widthLong (d ch : UInt8) : isdigit d = true →
    Item ['%'.toUInt8, d, 'l'.toUInt8, ch]

/-- The format does not end within a directive. -/
inductive Complete : List UInt8 → Prop
  | nil : Complete []
  | cons {i fmt : List UInt8} : Item i → Complete fmt → Complete (i ++ fmt)

/-- The `switch` moves by one character, or by two behind an `l`. -/
theorem passes_conversion (halign : align ≤ 9) (s : St) (hch : ch ≠ 'l'.toUInt8)
    (fmt : List UInt8) :
    ∃ x, Passes c x ∧ conversion c (ch :: fmt) align s = x.map (1, ·) := by
  simp only [conversion, readFmt, ok_bind, if_neg hch]
  have hnumber : ∀ flag, Passes c (putNumber c align (setFlag s flag)) :=
    fun _ => passes_putNumber halign _
  refine ⟨_, ?_, rfl⟩
  refine .ite (hnumber _) (.ite (hnumber _) (.ite (hnumber _) (.ite (hnumber _) ?_)))
  refine .ite (passes_putString halign s) (.ite (.inl ⟨_, putChar_eq halign⟩) ?_)
  refine .ite (hnumber _) (.ite ?_ (.inl ⟨_, putBack_eq align _ s⟩))
  exact .ite (.inl ⟨_, vst_one s _⟩) (.inl ⟨_, putBack_eq align _ s⟩)

theorem passes_long (halign : align ≤ 9) (s : St) (ch : UInt8) (fmt : List UInt8) :
    ∃ x, Passes c x ∧ conversion c ('l'.toUInt8 :: ch :: fmt) align s = x.map (2, ·) := by
  simp only [conversion, readFmt, ok_bind, List.tail_cons, if_true]
  split_ifs
  · exact ⟨_, .inl ⟨_, putBack_eq align _ s⟩, rfl⟩
  · exact ⟨_, passes_putNumber halign _, rfl⟩
  · exact ⟨_, passes_putNumber halign _, rfl⟩

theorem isdigit_le {d : UInt8} (h : isdigit d = true) : (d - 48).toNat ≤ 9 := by
  simp only [isdigit, Bool.and_eq_true, decide_eq_true_eq, UInt8.le_iff_toNat_le] at h
  have hd : (d - 48).toNat = d.toNat - 48 := UInt8.toNat_sub_of_le _ _ h.1
  have h57 : (57 : UInt8).toNat = 57 := rfl
  omega

theorem vsprintfLoop_percent (fmt : List UInt8) (s : St) :
    vsprintfLoop c ('%'.toUInt8 :: fmt) 0 s =
      (directive c fmt s).bind fun (skip, s) => vsprintfLoop c fmt skip s := by
  rw [vsprintfLoop, if_neg (by decide), if_neg (fun h => h rfl)]

theorem directive_plain (hch : isdigit ch = false) (fmt : List UInt8) (s : St) :
    directive c (ch :: fmt) s = conversion c (ch :: fmt) 0 s := by
  simp [directive, readFmt, hch]

theorem directive_width (hch : isdigit ch = true) (fmt : List UInt8) (s : St) :
    directive c (ch :: fmt) s =
      (conversion c fmt (ch - 48).toNat s).map fun (n, s) => (n + 1, s) := by
  simp [directive, readFmt, hch]

/-- One item is read, and the loop goes on behind it. -/
theorem passes_item {i : List UInt8} (hi : Item i) (fmt : List UInt8) (s : St) :
    ∃ x, Passes c x ∧ vsprintfLoop c (i ++ fmt) 0 s = x.bind (vsprintfLoop c fmt 0) := by
  cases hi with
  | lit ch h0 hpercent =>
    refine ⟨vst c s [ch] 1, .inl ⟨_, vst_one s ch⟩, ?_⟩
    rw [List.singleton_append, vsprintfLoop, if_neg h0, if_pos hpercent]
  | plain ch hdigit hch =>
    obtain ⟨x, hx, heq⟩ := passes_conversion (c := c) (Nat.zero_le 9) s hch fmt
    refine ⟨x, hx, ?_⟩
    rw [List.cons_append, vsprintfLoop_percent, List.singleton_append, directive_plain hdigit,
      heq, bind_of_map]
    rfl
  | width d ch hdigit hch =>
    obtain ⟨x, hx, heq⟩ := passes_conversion (c := c) (isdigit_le hdigit) s hch fmt
    refine ⟨x, hx, ?_⟩
    rw [List.cons_append, vsprintfLoop_percent, List.cons_append, directive_width hdigit,
      List.singleton_append, heq, bind_of_map, bind_of_map]
    rfl
  | long ch =>
    obtain ⟨x, hx, heq⟩ := passes_long (c := c) (Nat.zero_le 9) s ch fmt
    refine ⟨x, hx, ?_⟩
    rw [List.cons_append, vsprintfLoop_percent, List.cons_append, directive_plain (by decide),
      List.singleton_append, heq, bind_of_map]
    rfl
  | widthLong d ch hdigit =>
    obtain ⟨x, hx, heq⟩ := passes_long (c := c) (isdigit_le hdigit) s ch fmt
    refine ⟨x, hx, ?_⟩
    rw [List.cons_append, vsprintfLoop_percent, List.cons_append, directive_width hdigit,
      List.cons_append, List.singleton_append, heq, bind_of_map, bind_of_map]
    rfl

/-- A run over whole items comes to the rest of the format, or to a string that is too long. -/
theorem complete_loop {fmt : List UInt8} (h : Complete fmt) (rest : List UInt8) (s : St) :
    ∃ x, Passes c x ∧ vsprintfLoop c (fmt ++ rest) 0 s = x.bind (vsprintfLoop c rest 0) := by
  induction h generalizing s with
  | nil => exact ⟨.ok s, .inl ⟨s, rfl⟩, rfl⟩
  | @cons i fmt hi hfmt ih =>
    obtain ⟨x, hx, heq⟩ := passes_item (c := c) hi (fmt ++ rest) s
    rw [List.append_assoc, heq]
    rcases hx with ⟨s', rfl⟩ | ⟨rfl, hlong⟩
    · exact ih s'
    · exact ⟨.error .copy, .inr ⟨rfl, hlong⟩, rfl⟩

/-- Every format is made of items, up to a directive that it ends in. With its NUL that
directive is an item too. -/
theorem complete_or (fmt : List UInt8) (hfmt : 0 ∉ fmt) :
    Complete fmt ∨ ∃ pre i, Complete pre ∧ Item i ∧ fmt ++ [0] = pre ++ i := by
  induction hn : fmt.length using Nat.strongRecOn generalizing fmt with
  | ind n ih =>
    have hstep : ∀ i rest, Item i → fmt = i ++ rest → rest.length < fmt.length →
        Complete fmt ∨ ∃ pre i, Complete pre ∧ Item i ∧ fmt ++ [0] = pre ++ i := by
      rintro i rest hi rfl hlt
      have hrest : 0 ∉ rest := fun h => hfmt (List.mem_append_right _ h)
      rcases ih _ (hn ▸ hlt) rest hrest rfl with h | ⟨pre, j, hpre, hj, heq⟩
      · exact .inl (.cons hi h)
      · refine .inr ⟨i ++ pre, j, .cons hi hpre, hj, ?_⟩
        rw [List.append_assoc, heq, List.append_assoc]
    have hend : ∀ i, Item i → fmt ++ [0] = i →
        Complete fmt ∨ ∃ pre i, Complete pre ∧ Item i ∧ fmt ++ [0] = pre ++ i :=
      fun i hi heq => .inr ⟨[], i, .nil, hi, heq⟩
    rcases fmt with _ | ⟨ch, fmt⟩
    · exact .inl .nil
    by_cases hch : ch = '%'.toUInt8
    case neg =>
      exact hstep [ch] fmt (.lit ch (fun h => hfmt (h ▸ List.mem_cons_self)) hch) rfl (by simp)
    subst hch
    rcases fmt with _ | ⟨d, fmt⟩
    · exact hend _ (.plain 0 rfl (by decide)) rfl
    by_cases hd : isdigit d = true
    · rcases fmt with _ | ⟨e, fmt⟩
      · exact hend _ (.width d 0 hd (by decide)) rfl
      by_cases he : e = 'l'.toUInt8
      · subst he
        rcases fmt with _ | ⟨ch, fmt⟩
        · exact hend _ (.widthLong d 0 hd) rfl
        · exact hstep _ fmt (.widthLong d ch hd) rfl (by simp only [List.length_cons]; omega)
      · exact hstep _ fmt (.width d e hd he) rfl (by simp only [List.length_cons]; omega)
    · rw [Bool.not_eq_true] at hd
      by_cases hl : d = 'l'.toUInt8
      · subst hl
        rcases fmt with _ | ⟨ch, fmt⟩
        · exact hend _ (.long 0) rfl
        · exact hstep _ fmt (.long ch) rfl (by simp only [List.length_cons]; omega)
      · exact hstep _ fmt (.plain d hd hl) rfl (by simp only [List.length_cons]; omega)

/-- **Reading the format**: `vsprintf` stays within every format that does not end in a
directive, whatever the arguments are; behind a trailing `%`, with a width or an `l` or both, it
reads on. -/
theorem vsprintf_in_format_iff {fmt : List UInt8} (hfmt : 0 ∉ fmt) :
    (∀ c, vsprintf c (fmt ++ [0]) ≠ .error .format) ↔ Complete fmt := by
  constructor
  · intro h
    refine (complete_or fmt hfmt).resolve_right ?_
    rintro ⟨pre, i, hpre, hi, heq⟩
    -- with short strings every item before the end is passed
    let c : Call := ⟨false, fun _ => 0, fun _ => []⟩
    have hshort : ¬ ∃ p, 2 ^ 31 ≤ (c.str p).length := by simp [c]
    obtain ⟨x, hx, hloop⟩ := complete_loop (c := c) hpre i {}
    obtain ⟨s, rfl⟩ := hx.resolve_right fun hlong => hshort hlong.2
    obtain ⟨y, hy, hlast⟩ := passes_item (c := c) hi [] s
    obtain ⟨s', rfl⟩ := hy.resolve_right fun hlong => hshort hlong.2
    rw [List.append_nil] at hlast
    refine h c ?_
    rw [vsprintf, heq, hloop, ok_bind, hlast]
    rfl
  · intro h c
    obtain ⟨x, hx, hloop⟩ := complete_loop (c := c) h [0] {}
    rw [vsprintf, hloop]
    rcases hx with ⟨s, rfl⟩ | ⟨rfl, -⟩
    · simp [vsprintfLoop]
    · simp

/-- No arguments: `va_arg` finds zeros, and no string. -/
def noArgs : Call := ⟨false, fun _ => 0, fun _ => []⟩

/-- A literal, a directive that is not known, a width with an `l`, and a percent sign. -/
theorem vsprintf_in_format_mixed : 0 ∉ bytes "a%z%5ld%%" ∧
    ∀ c, vsprintf c (bytes "a%z%5ld%%" ++ [0]) ≠ .error .format := by
  have hfmt : 0 ∉ bytes "a%z%5ld%%" := by decide
  refine ⟨hfmt, (vsprintf_in_format_iff hfmt).mpr ?_⟩
  have hitems : bytes "a%z%5ld%%" =
      bytes "a" ++ (bytes "%z" ++ (bytes "%5ld" ++ (bytes "%%" ++ []))) := by
    decide
  rw [hitems]
  exact .cons (.lit _ (by decide) (by decide)) (.cons (.plain _ rfl (by decide))
    (.cons (.widthLong _ _ rfl) (.cons (.plain _ rfl (by decide)) .nil)))

theorem vsprintf_beyond_format :
    vsprintf noArgs (bytes "%" ++ [0]) = .error .format ∧
      vsprintf noArgs (bytes "%5" ++ [0]) = .error .format ∧
      vsprintf noArgs (bytes "%l" ++ [0]) = .error .format :=
  ⟨rfl, rfl, rfl⟩

end Minos.Str
