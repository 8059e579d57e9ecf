import Mathlib.Data.List.Forall2
import Mathlib.Data.List.TakeWhile
import Mathlib.Logic.Function.Basic
import Minos.Core.Errno
import Minos.Core.NumToStr
import Minos.Lib.Bytes

/-!
# Boot arguments

`bootargs_init` of `core/bootarg.c` takes the command line apart with `strsep` (`core/string.c`),
in place: the options keep pointers into `cmdline`, in which every separator they were found by
has become a NUL. `__get_boot_option` looks through them, the last one first.

A pointer is an index into `cmdline`; `none` is a read behind its end. `malloc` succeeds.
-/

namespace Minos.Bootarg

open Minos.Lib Minos.Str

def cmdlineSize : Nat := 511

/-! ## The tokenizer -/

/-- The `do` loop of `strsep`: `c` is one of the delimiters, or the NUL behind them. -/
def span (c : UInt8) : List UInt8 → Bool
  | [] => false
  | sc :: spanp => if sc = c then true else if sc = 0 then false else span c spanp

/-- The `for` loop of `strsep`, with `room` bytes of `cmdline` left: the bytes and `*stringp`. -/
def strsepLoop (mem : Nat → UInt8) (delim : List UInt8) :
    Nat → Nat → Option ((Nat → UInt8) × Option Nat)
  | 0, _ => none
  | room + 1, s =>
    if span (mem s) delim then
      if mem s = 0 then some (mem, none) else some (Function.update mem s 0, some (s + 1))
    else strsepLoop mem delim room (s + 1)

/-- `strsep` of a pointer that is not `NULL`, which it returns. -/
def strsep (mem : Nat → UInt8) (s : Nat) (delim : List UInt8) :
    Option ((Nat → UInt8) × Option Nat) :=
  strsepLoop mem delim (cmdlineSize + 1 - s) s

/-! ## The options -/

/-- `struct boot_option`. -/
structure BootOption where
  name : Nat
  args : Option Nat

/-- `cmdline` and `boot_options`. -/
structure Boot where
  cmdline : Nat → UInt8
  options : List BootOption

/-- `bootarg_init_one`. -/
def bootargInitOne (b : Boot) (str : Nat) : Option Boot :=
  if b.cmdline str = 0 ∨ b.cmdline str = ' '.toUInt8 then some b
  else (strsep b.cmdline str (bytes "=" ++ [0])).map fun (mem, args) =>
    ⟨mem, ⟨str, args⟩ :: b.options⟩

/-- The `while` loop of `bootargs_init`. -/
def bootargsLoop : Nat → Boot → Option Nat → Option Boot
  | _, b, none => some b
  | 0, _, some _ => none
  | fuel + 1, b, some tmp =>
    (strsep b.cmdline tmp (bytes " " ++ [0])).bind fun (mem, tmp') =>
      (bootargInitOne ⟨mem, b.options⟩ tmp).bind fun b => bootargsLoop fuel b tmp'

/-- `bootargs_init`: `old` is in `cmdline` before. -/
def bootargsInit (old str : Nat → UInt8) (len : Nat) : Option Boot :=
  let len := if cmdlineSize < len then cmdlineSize else len
  bootargsLoop (cmdlineSize + 1)
    ⟨fun i => if i < len then str i else if i = len then 0 else old i, []⟩ (some 0)

/-- The string at a pointer. -/
def readStr (mem : Nat → UInt8) : Nat → Nat → Option (List UInt8)
  | 0, _ => none
  | room + 1, pos =>
    if mem pos = 0 then some [] else (readStr mem room (pos + 1)).map (mem pos :: ·)

def Boot.str (b : Boot) (pos : Nat) : Option (List UInt8) :=
  readStr b.cmdline (cmdlineSize + 1 - pos) pos

/-- `__get_boot_option`. -/
def getBootOption (b : Boot) (name : List UInt8) (parse : Option Nat → Except Errno Nat) :
    List BootOption → Option (Except Errno Nat)
  | [] => some (.error .enoent)
  | bo :: next =>
    (b.str bo.name).bind fun s =>
      if name ≠ s then getBootOption b name parse next else some (parse bo.args)

/-- `__parse_string`. -/
def parseString : Option Nat → Except Errno Nat
  | none => .error .einval
  | some args => .ok args

/-- `bootarg_parse_string`. -/
def bootargParseString (b : Boot) (name : List UInt8) : Option (Except Errno Nat) :=
  getBootOption b name parseString b.options

/-- What it returns, with the string at the pointer. -/
def bootargString (b : Boot) (name : List UInt8) : Option (Except Errno (List UInt8)) :=
  (bootargParseString b name).bind fun
    | .error e => some (.error e)
    | .ok args => (b.str args).map .ok

/-! ## What a command line says -/

/-- The tokens between blanks. -/
def tokens (cmd : List UInt8) : List (List UInt8) := (cmd.splitOn ' '.toUInt8).filter (· ≠ [])

def tokenName (tok : List UInt8) : List UInt8 := tok.takeWhile (· ≠ '='.toUInt8)

def tokenText (tok : List UInt8) : List UInt8 := (tok.dropWhile (· ≠ '='.toUInt8)).tail

/-- The text of a token that was found. -/
def found : Option (List UInt8) → Except Errno (List UInt8)
  | none => .error .enoent
  | some tok => if '='.toUInt8 ∈ tok then .ok (tokenText tok) else .error .einval

/-- The text of the last token with the name. -/
def optionText (cmd name : List UInt8) : Except Errno (List UInt8) :=
  found ((tokens cmd).reverse.find? fun tok => tokenName tok = name)

/-! ## Strings in `cmdline` -/

variable {mem mem' : Nat → UInt8} {pos lim room : Nat} {s tok rest : List UInt8}

/-- A string that ends before `lim`. -/
structure Placed (mem : Nat → UInt8) (lim pos : Nat) (s : List UInt8) : Prop where
  str : CStr mem pos s
  lt : pos + s.length < lim

theorem Placed.congr (h : Placed mem lim pos s)
    (hsame : ∀ i, pos ≤ i → i < lim → mem' i = mem i) : Placed mem' lim pos s := by
  refine ⟨⟨h.str.noNul, h.str.holds.congr fun i hle hlt => hsame i hle ?_⟩, h.lt⟩
  have hlim := h.lt
  rw [List.length_append, List.length_singleton] at hlt
  omega

theorem Placed.mono {lim' : Nat} (h : Placed mem lim pos s) (hle : lim ≤ lim') :
    Placed mem lim' pos s :=
  ⟨h.str, Nat.lt_of_lt_of_le h.lt hle⟩

theorem readStr_eq (h : CStr mem pos s) (hroom : s.length < room) :
    readStr mem room pos = some s := by
  induction s generalizing pos room with
  | nil =>
    obtain ⟨room, rfl⟩ := Nat.exists_eq_add_one_of_ne_zero (Nat.ne_of_gt hroom)
    rw [readStr, if_pos h.nil]
  | cons c s ih =>
    obtain ⟨room, rfl⟩ := Nat.exists_eq_add_one_of_ne_zero (Nat.ne_of_gt (Nat.zero_lt_of_lt hroom))
    obtain ⟨hc, hne, htail⟩ := h.cons
    rw [readStr, hc, if_neg hne, ih htail (Nat.lt_of_succ_lt_succ hroom)]
    rfl

theorem Placed.read {b : Boot} (h : Placed b.cmdline (cmdlineSize + 1) pos s) :
    b.str pos = some s := by
  have hlt := h.lt
  exact readStr_eq h.str (by omega)

/-! ## `strsep` -/

/-- `strsep` comes to the first delimiter, or to the NUL. -/
theorem strsepLoop_eq {d c : UInt8} (hs : Holds mem pos (s ++ [c]))
    (hnot : ∀ x ∈ s, x ≠ d ∧ x ≠ 0) (hc : c = d ∨ c = 0) (hroom : s.length < room) :
    strsepLoop mem [d, 0] room pos =
      if c = 0 then some (mem, none)
      else some (Function.update mem (pos + s.length) 0, some (pos + s.length + 1)) := by
  induction s generalizing pos room with
  | nil =>
    obtain ⟨room, rfl⟩ := Nat.exists_eq_add_one_of_ne_zero (Nat.ne_of_gt hroom)
    have hmem : mem pos = c := (holds_cons.mp hs).1
    have hspan : span c [d, 0] = true := by
      rcases hc with rfl | rfl <;> simp [span]
    rw [strsepLoop, hmem, if_pos hspan]
    rfl
  | cons x s ih =>
    obtain ⟨room, rfl⟩ := Nat.exists_eq_add_one_of_ne_zero (Nat.ne_of_gt (Nat.zero_lt_of_lt hroom))
    rw [List.cons_append, holds_cons] at hs
    obtain ⟨hd, h0⟩ := hnot x List.mem_cons_self
    have hspan : span x [d, 0] = false := by
      simp [span, Ne.symm hd, Ne.symm h0]
    rw [strsepLoop, hs.1, hspan, if_neg Bool.false_ne_true,
      ih hs.2 (fun y hy => hnot y (List.mem_cons_of_mem _ hy)) (Nat.lt_of_succ_lt_succ hroom),
      List.length_cons, Nat.add_assoc, Nat.add_comm 1]

/-- The string has no delimiter. -/
theorem strsep_last {d : UInt8} (h : Placed mem (cmdlineSize + 1) pos s) (hd : d ∉ s) :
    strsep mem pos [d, 0] = some (mem, none) := by
  have hlt := h.lt
  have hnot : ∀ x ∈ s, x ≠ d ∧ x ≠ 0 := fun x hx =>
    ⟨fun heq => hd (heq ▸ hx), fun heq => h.str.noNul (heq ▸ hx)⟩
  rw [strsep, strsepLoop_eq h.str.holds hnot (.inr rfl) (by omega), if_pos rfl]

/-- The string is cut at its first delimiter. -/
theorem strsep_cut {d : UInt8} (h : Placed mem (cmdlineSize + 1) pos (tok ++ d :: rest))
    (hd : d ∉ tok) : ∃ mem', strsep mem pos [d, 0] = some (mem', some (pos + tok.length + 1)) ∧
      Placed mem' (pos + tok.length + 1) pos tok ∧
      Placed mem' (cmdlineSize + 1) (pos + tok.length + 1) rest ∧
      ∀ i, i ≠ pos + tok.length → mem' i = mem i := by
  have hlt := h.lt
  rw [List.length_append, List.length_cons] at hlt
  have hno := h.str.noNul
  have hne : d ≠ 0 := fun heq => hno (heq ▸ List.mem_append_right _ List.mem_cons_self)
  have hholds := h.str.holds
  rw [List.append_assoc, List.cons_append, ← List.singleton_append, ← List.append_assoc,
    holds_append, List.length_append, List.length_singleton] at hholds
  have hnot : ∀ x ∈ tok, x ≠ d ∧ x ≠ 0 := fun x hx =>
    ⟨fun heq => hd (heq ▸ hx), fun heq => hno (heq ▸ List.mem_append_left _ hx)⟩
  have hsame : ∀ i, i ≠ pos + tok.length →
      Function.update mem (pos + tok.length) 0 i = mem i :=
    fun i hi => Function.update_of_ne hi _ _
  refine ⟨Function.update mem (pos + tok.length) 0, ?_, ⟨⟨?_, ?_⟩, by omega⟩, ⟨⟨?_, ?_⟩, by omega⟩,
    hsame⟩
  · rw [strsep, strsepLoop_eq hholds.1 hnot (.inl rfl) (by omega), if_neg hne]
  · exact fun hmem => hno (List.mem_append_left _ hmem)
  · refine holds_append.mpr ⟨?_, holds_cons.mpr ⟨Function.update_self .., holds_nil⟩⟩
    exact (holds_append.mp hholds.1).1.congr fun i _ hi => hsame i (by omega)
  · exact fun hmem => hno (List.mem_append_right _ (List.mem_cons_of_mem _ hmem))
  · exact hholds.2.congr fun i hi _ => hsame i (by omega)

/-! ## Tokens -/

theorem tokens_last (h : ' '.toUInt8 ∉ s) : tokens s = [s].filter (· ≠ []) := by
  rw [tokens, List.splitOn, List.splitOnP_eq_singleton]
  intro x hx
  exact beq_false_of_ne fun heq => h (heq ▸ hx)

theorem tokens_cut (h : ' '.toUInt8 ∉ tok) :
    tokens (tok ++ ' '.toUInt8 :: rest) = [tok].filter (· ≠ []) ++ tokens rest := by
  have hnot : ∀ x ∈ tok, (x == ' '.toUInt8) = false :=
    fun x hx => beq_false_of_ne fun heq => h (heq ▸ hx)
  rw [tokens, List.splitOn, List.splitOnP_append_cons_of_forall_mem hnot _ (beq_self_eq_true _),
    ← List.singleton_append, List.filter_append]
  rfl

theorem reverse_filter_singleton (tok : List UInt8) :
    ([tok].filter (· ≠ [])).reverse = [tok].filter (· ≠ []) := by
  rw [← List.filter_reverse, List.reverse_singleton]

theorem tokenName_of_notMem (h : '='.toUInt8 ∉ tok) : tokenName tok = tok := by
  rw [tokenName, List.takeWhile_eq_self_iff]
  intro x hx
  exact decide_eq_true fun heq => h (heq ▸ hx)

theorem token_cut (h : '='.toUInt8 ∉ s) (rest : List UInt8) :
    tokenName (s ++ '='.toUInt8 :: rest) = s ∧ tokenText (s ++ '='.toUInt8 :: rest) = rest := by
  have hall : ∀ x ∈ s, decide (x ≠ '='.toUInt8) = true :=
    fun x hx => decide_eq_true fun heq => h (heq ▸ hx)
  constructor
  · rw [tokenName, List.takeWhile_append_of_pos hall]
    simp
  · rw [tokenText, List.dropWhile_append_of_pos hall]
    simp

/-- An option holds a token. -/
structure Rep (mem : Nat → UInt8) (lim : Nat) (bo : BootOption) (tok : List UInt8) : Prop where
  name : Placed mem lim bo.name (tokenName tok)
  args : '='.toUInt8 ∉ tok ∧ bo.args = none ∨
    '='.toUInt8 ∈ tok ∧ ∃ a, bo.args = some a ∧ Placed mem lim a (tokenText tok)

theorem Rep.keep {bo : BootOption} {lim' : Nat} (h : Rep mem lim bo tok) (hle : lim ≤ lim')
    (hsame : ∀ i < lim, mem' i = mem i) : Rep mem' lim' bo tok := by
  refine ⟨(h.name.congr fun i _ hi => hsame i hi).mono hle, h.args.imp_right ?_⟩
  rintro ⟨hmem, a, ha, htext⟩
  exact ⟨hmem, a, ha, (htext.congr fun i _ hi => hsame i hi).mono hle⟩

/-- A token becomes an option, unless it is empty. -/
theorem bootargInitOne_eq (h : Placed mem (pos + tok.length + 1) pos tok)
    (hlim : pos + tok.length ≤ cmdlineSize) (hblank : ' '.toUInt8 ∉ tok)
    (opts : List BootOption) :
    ∃ mem' new, bootargInitOne ⟨mem, opts⟩ pos = some ⟨mem', new ++ opts⟩ ∧
      List.Forall₂ (Rep mem' (pos + tok.length + 1)) new ([tok].filter (· ≠ [])) ∧
      ∀ i, i < pos ∨ pos + tok.length < i → mem' i = mem i := by
  have hplaced := h.mono (Nat.succ_le_succ hlim)
  by_cases htok : tok = []
  · subst htok
    refine ⟨mem, [], if_pos (.inl h.str.nil), by simp, fun _ _ => rfl⟩
  have hfilter : [tok].filter (· ≠ []) = [tok] := by simp [htok]
  have hfirst : ¬ (mem pos = 0 ∨ mem pos = ' '.toUInt8) := by
    obtain ⟨c, t, rfl⟩ := List.exists_cons_of_ne_nil htok
    obtain ⟨hc, hne, -⟩ := h.str.cons
    rw [hc]
    rintro (h0 | hc)
    · exact hne h0
    · exact hblank (hc ▸ List.mem_cons_self)
  rw [hfilter, bootargInitOne, if_neg hfirst]
  by_cases heq : '='.toUInt8 ∈ tok
  · obtain ⟨l, r, rfl, hl⟩ := List.eq_append_cons_of_mem heq
    obtain ⟨mem', hstrsep, hname, htext, hsame⟩ := strsep_cut hplaced hl
    obtain ⟨hcut, hcut'⟩ := token_cut hl r
    rw [List.length_append, List.length_cons]
    refine ⟨mem', [⟨pos, some (pos + l.length + 1)⟩], ?_, .cons ⟨?_, .inr ⟨heq, _, rfl, ?_⟩⟩ .nil,
      fun i hi => hsame i (by omega)⟩
    · exact congrArg (Option.map _) hstrsep
    · rw [hcut]
      exact hname.mono (by omega)
    · rw [hcut']
      exact ⟨htext.str, by omega⟩
  · refine ⟨mem, [⟨pos, none⟩], congrArg (Option.map _) (strsep_last hplaced heq),
      .cons ⟨?_, .inl ⟨heq, rfl⟩⟩ .nil, fun _ _ => rfl⟩
    rw [tokenName_of_notMem heq]
    exact h

theorem bootargsLoop_turn {b b' : Boot} {tmp fuel : Nat} {tmp' : Option Nat}
    (hstrsep : strsep b.cmdline tmp [' '.toUInt8, 0] = some (mem, tmp'))
    (hone : bootargInitOne ⟨mem, b.options⟩ tmp = some b') :
    bootargsLoop (fuel + 1) b (some tmp) = bootargsLoop fuel b' tmp' := by
  rw [bootargsLoop, show bytes " " ++ [0] = [' '.toUInt8, 0] from rfl, hstrsep]
  simp only [Option.bind_some, hone]

/-- **The tokenizer**: all tokens of the rest of the line become options, the last one first, and
nothing changes before it. -/
theorem bootargsLoop_eq (fuel : Nat) (h : Placed mem (cmdlineSize + 1) pos s)
    (hfuel : s.length < fuel) (opts : List BootOption) :
    ∃ mem' new, bootargsLoop fuel ⟨mem, opts⟩ (some pos) = some ⟨mem', new ++ opts⟩ ∧
      List.Forall₂ (Rep mem' (cmdlineSize + 1)) new (tokens s).reverse ∧
      ∀ i < pos, mem' i = mem i := by
  induction fuel generalizing mem pos s opts with
  | zero => omega
  | succ fuel ih =>
    have hlt := h.lt
    by_cases hblank : ' '.toUInt8 ∈ s
    · obtain ⟨tok, rest, rfl, htok⟩ := List.eq_append_cons_of_mem hblank
      rw [List.length_append, List.length_cons] at hlt hfuel
      obtain ⟨mem₁, hstrsep, htok₁, hrest₁, hsame₁⟩ := strsep_cut h htok
      obtain ⟨mem₂, new₂, hone, hrep₂, hsame₂⟩ := bootargInitOne_eq htok₁ (by omega) htok opts
      have hrest₂ := hrest₁.congr fun i hi _ => hsame₂ i (by omega)
      obtain ⟨mem₃, new₃, hloop, hrep₃, hsame₃⟩ := ih hrest₂ (by omega) (new₂ ++ opts)
      refine ⟨mem₃, new₃ ++ new₂, ?_, ?_, fun i hi => ?_⟩
      · rw [bootargsLoop_turn hstrsep hone, hloop, List.append_assoc]
      · rw [tokens_cut htok, List.reverse_append, reverse_filter_singleton]
        refine List.rel_append hrep₃ (hrep₂.imp fun bo t ht => ?_)
        exact ht.keep (by omega) fun i hi => hsame₃ i hi
      · rw [hsame₃ i (by omega), hsame₂ i (by omega), hsame₁ i (by omega)]
    · obtain ⟨mem₂, new, hone, hrep, hsame⟩ :=
        bootargInitOne_eq ⟨h.str, Nat.lt_succ_self _⟩ (by omega) hblank opts
      refine ⟨mem₂, new, ?_, ?_, fun i hi => hsame i (.inl hi)⟩
      · rw [bootargsLoop_turn (strsep_last h hblank) hone, bootargsLoop]
      · rw [tokens_last hblank, reverse_filter_singleton]
        exact hrep.imp fun bo t ht => ht.keep (by omega) fun _ _ => rfl

/-! ## Looking up an option -/

theorem getBootOption_eq {b : Boot} {opts : List BootOption} {toks : List (List UInt8)}
    (h : List.Forall₂ (Rep b.cmdline (cmdlineSize + 1)) opts toks) (name : List UInt8) :
    ((getBootOption b name parseString opts).bind fun
      | .error e => some (.error e)
      | .ok args => (b.str args).map .ok) =
    some (found (toks.find? fun tok => tokenName tok = name)) := by
  induction h with
  | nil => rfl
  | @cons bo tok opts toks hrep _ ih =>
    rw [getBootOption, hrep.name.read, Option.bind_some, List.find?_cons]
    by_cases hname : tokenName tok = name
    · rw [if_neg (fun hne => hne hname.symm), decide_eq_true hname]
      rcases hrep.args with ⟨heq, hargs⟩ | ⟨heq, a, hargs, htext⟩
      · simp [hargs, parseString, found, heq]
      · simp [hargs, parseString, found, heq, htext.read]
    · rw [if_pos (Ne.symm hname), decide_eq_false hname]
      exact ih

/-- **Boot arguments**: for every command line that fits, with or without its NUL in `len`, the
text of an option is that of the last token with its name. -/
theorem bootarg_parse_string_right {cmd : List UInt8} (hlen : cmd.length ≤ cmdlineSize)
    {str : Nat → UInt8} (hstr : CStr str 0 cmd) {len : Nat}
    (hnul : len = cmd.length ∨ len = cmd.length + 1) (old : Nat → UInt8) :
    ∃ b, bootargsInit old str len = some b ∧
      ∀ name, bootargString b name = some (optionText cmd name) := by
  unfold bootargsInit
  generalize hcut : (if cmdlineSize < len then cmdlineSize else len) = len'
  have hle : cmd.length ≤ len' := by
    split at hcut <;> omega
  have hholds : Holds (fun i => if i < len' then str i else if i = len' then 0 else old i) 0
      (cmd ++ [0]) := by
    intro i c hc
    have hi := (List.getElem?_eq_some_iff.mp hc).1
    rw [List.length_append, List.length_singleton] at hi
    have hsame := hstr.holds i c hc
    rw [Nat.zero_add] at hsame ⊢
    dsimp only
    by_cases hlt : i < len'
    · rw [if_pos hlt, hsame]
    · obtain ⟨rfl, rfl⟩ : i = cmd.length ∧ len' = cmd.length := by omega
      rw [if_neg hlt, if_pos rfl]
      simpa using hc
  obtain ⟨mem, new, hloop, hrep, -⟩ := bootargsLoop_eq (cmdlineSize + 1)
    ⟨⟨hstr.noNul, hholds⟩, by omega⟩ (Nat.lt_succ_of_le hlen) []
  rw [List.append_nil] at hloop
  exact ⟨⟨mem, new⟩, hloop, fun name => getBootOption_eq hrep name⟩

def rootLine : List UInt8 := bytes "root=a quiet  root=b=c"

/-- The last `root` counts, `quiet` has no text, and there is no `tty`. -/
theorem bootarg_parse_string_line :
    ∃ b, bootargsInit (fun _ => 0) (fun i => rootLine.getD i 0) 23 = some b ∧
      bootargString b (bytes "root") = some (.ok (bytes "b=c")) ∧
      bootargString b (bytes "quiet") = some (.error .einval) ∧
      bootargString b (bytes "tty") = some (.error .enoent) := by
  have hlen : rootLine.length ≤ cmdlineSize := by decide
  obtain ⟨b, hb, hstring⟩ := bootarg_parse_string_right hlen (cstr_getD (by decide)) (.inr rfl)
    (fun _ => 0)
  exact ⟨b, hb, hstring _, hstring _, hstring _⟩

end Minos.Bootarg
