import Minos.Core.Errno
import Minos.Lib.Ring
import Minos.Lib.Run
import Minos.Lib.Word
import Mathlib.Data.Nat.Bitwise

/-!
# The debug console of a VM

`virt/debug_console.c`: two rings in memory that the VM can write. The
hypervisor puts characters for the VM into the first (`dcon_putc`); the VM puts
characters into the second and asks with a hypercall that they be printed
(`dcon_write`).

The VM writes what it likes into the headers at any time, so each read of a
field gives any word, and a call comes with what its reads give.
-/

namespace Minos.DebugConsole

open Minos.Lib

/-- `DCON_RX_RING_SIZE` and `DCON_TX_RING_SIZE`, as the VM sees them. -/
def rxRingSize : Nat := 2048
def txRingSize : Nat := 4096

/-- `VM_RING_IDX`. -/
def vmRingIdx (idx size : Nat) : Nat := idx &&& sub32 size 1

theorem vmRingIdx_rx (idx : Nat) : vmRingIdx idx rxRingSize = idx % rxRingSize :=
  Nat.and_two_pow_sub_one_eq_mod idx 11

theorem vmRingIdx_tx (idx : Nat) : vmRingIdx idx txRingSize = idx % txRingSize :=
  Nat.and_two_pow_sub_one_eq_mod idx 12

/-- The loop by which the driver of a VM fills a ring. -/
def fillRing (buf : Nat → Nat) (size widx : Nat) : List Nat → (Nat → Nat)
  | [] => buf
  | c :: cs => fillRing (Function.update buf (vmRingIdx widx size) c) size (u32 (widx + 1)) cs

/-- Filling a ring puts the characters behind those that are there. -/
theorem queued_fillRing {size : Nat} (hmask : ∀ i, vmRingIdx (u32 i) size = i % size)
    {buf : Nat → Nat} {pushed popped : List Nat} (cs : List Nat)
    (h : Queued buf size pushed popped)
    (hroom : pushed.length + cs.length ≤ popped.length + size) :
    Queued (fillRing buf size (u32 pushed.length) cs) size (pushed ++ cs) popped := by
  induction cs generalizing buf pushed with
  | nil =>
    rw [List.append_nil]
    exact h
  | cons c cs ih =>
    rw [List.length_cons] at hroom
    have hpush := h.push c (by omega)
    have hnext : u32 (u32 pushed.length + 1) = u32 (pushed ++ [c]).length := by
      rw [List.length_append, List.length_singleton, u32_add]
    have hrest := ih hpush (by rw [List.length_append, List.length_singleton]; omega)
    rw [fillRing, hmask, hnext]
    rwa [List.append_assoc] at hrest

/-- `dcon->open` and `dcon->tty->open`. -/
structure Console where
  dconOpen : Bool
  ttyOpen : Bool
  deriving DecidableEq, Repr

/-- What `dcon_putc` reads of the header, in order. -/
structure PutcReads where
  widx : Nat
  ridx : Nat
  size : Nat
  widxAgain : Nat
  deriving DecidableEq, Repr

/-- What `dcon_write` reads; the size is read again in each turn. -/
structure WriteReads where
  ridx : Nat
  widx : Nat
  size : Nat → Nat

/-- The index `dcon_putc` writes to, if any. -/
def dconPutc (c : Console) (r : PutcReads) : Option Nat :=
  if c.dconOpen = false then none
  else if u32 r.size < sub32 r.widx r.ridx then none
  else some (u32 r.widxAgain)

/-- The loop of `dcon_write`: the indices it reads from turn `k` on; `none` when
it takes more than `fuel` turns. -/
def writeLoop (size : Nat → Nat) (widx : Nat) : Nat → Nat → Nat → Option (List Nat)
  | 0, _, ridx => if ridx = widx then some [] else none
  | fuel + 1, k, ridx =>
    if ridx = widx then some []
    else
      (writeLoop size widx fuel (k + 1) (u32 (ridx + 1))).map
        fun l => vmRingIdx ridx (u32 (size k)) :: l

def dconWrite (c : Console) (r : WriteReads) (fuel : Nat) : Option (List Nat) :=
  if c.ttyOpen then writeLoop r.size (u32 r.widx) fuel 0 (u32 r.ridx) else some []

inductive Event
  | dcon (opened : Bool)
  | tty (opened : Bool)
  | putc (r : PutcReads)
  | write (r : WriteReads)

def conStep (c : Console) : Event → Option Console
  | .dcon o => some { c with dconOpen := o }
  | .tty o => some { c with ttyOpen := o }
  | .putc _ | .write _ => some c

/-- The indices are in the ring as it was set up, and `dcon_write` ends after as
many characters as it can hold. -/
def Confined (c : Console) : Event → Prop
  | .putc r => ∀ i ∈ dconPutc c r, i < rxRingSize
  | .write r => ∃ fuel l, dconWrite c r fuel = some l ∧ l.length ≤ txRingSize ∧
      ∀ i ∈ l, i < txRingSize
  | _ => True

/-- What the VM has to leave in the headers for that: an index in the ring for a
character that is accepted; no more characters than the ring can hold, and no bit
above the ring in both an index and the mask of its turn. -/
def HeaderOk (c : Console) : Event → Prop
  | .putc r => c.dconOpen = true → sub32 r.widx r.ridx ≤ u32 r.size →
      u32 r.widxAgain < rxRingSize
  | .write r => c.ttyOpen = true → sub32 (u32 r.widx) (u32 r.ridx) ≤ txRingSize ∧
      ∀ k < sub32 (u32 r.widx) (u32 r.ridx),
        u32 (u32 r.ridx + k) / txRingSize &&& sub32 (u32 (r.size k)) 1 / txRingSize = 0
  | _ => True

theorem vmRingIdx_lt_iff (idx size : Nat) :
    vmRingIdx idx size < txRingSize ↔ idx / txRingSize &&& sub32 size 1 / txRingSize = 0 := by
  have hdiv := Nat.and_div_two_pow (a := idx) (b := sub32 size 1) (n := 12)
  rw [vmRingIdx, txRingSize]
  rw [show (2 : Nat) ^ 12 = 4096 from rfl] at hdiv
  rw [← hdiv]
  omega

theorem writeLoop_done (size : Nat → Nat) (widx fuel k : Nat) :
    writeLoop size widx fuel k widx = some [] := by
  cases fuel with
  | zero | succ => rw [writeLoop, if_pos rfl]

/-- The loop takes as many turns as the indices are apart. -/
theorem writeLoop_eq (size : Nat → Nat) {widx : Nat} (hw : widx < 2 ^ 32) (n k ridx : Nat)
    (hr : ridx < 2 ^ 32) (hn : sub32 widx ridx = n) :
    writeLoop size widx n k ridx = some ((List.range n).map fun j =>
      vmRingIdx (u32 (ridx + j)) (u32 (size (k + j)))) := by
  induction n generalizing k ridx with
  | zero =>
    have heq : ridx = widx := by
      unfold sub32 at hn
      omega
    rw [heq, writeLoop_done]
    rfl
  | succ n ih =>
    have hne : ridx ≠ widx := by
      unfold sub32 at hn
      omega
    have hnext : sub32 widx (u32 (ridx + 1)) = n := by
      unfold sub32 u32 at *
      omega
    have hrest : ∀ j, u32 (u32 (ridx + 1) + j) = u32 (ridx + (j + 1)) := by
      intro j
      unfold u32
      omega
    rw [writeLoop, if_neg hne, ih (k + 1) _ (u32_lt _) hnext]
    simp only [Option.map_some, List.range_succ_eq_map, List.map_cons, List.map_map, u32_of_lt hr,
      hrest, Nat.add_zero, Nat.add_right_comm k 1, Function.comp_def, Nat.succ_eq_add_one,
      Nat.add_assoc]

/-- More fuel changes nothing. -/
theorem writeLoop_unique {size : Nat → Nat} {widx : Nat} {l l' : List Nat} {n m k ridx : Nat}
    (h : writeLoop size widx n k ridx = some l) (h' : writeLoop size widx m k ridx = some l') :
    l = l' := by
  by_cases heq : ridx = widx
  · subst heq
    rw [writeLoop_done] at h h'
    exact (Option.some.inj h).symm.trans (Option.some.inj h')
  · induction n generalizing m k ridx l l' with
    | zero => simp [writeLoop, heq] at h
    | succ n ih =>
      cases m with
      | zero => simp [writeLoop, heq] at h'
      | succ m =>
        rw [writeLoop, if_neg heq] at h h'
        obtain ⟨t, ht, rfl⟩ := Option.map_eq_some_iff.mp h
        obtain ⟨t', ht', rfl⟩ := Option.map_eq_some_iff.mp h'
        by_cases hlast : u32 (ridx + 1) = widx
        · rw [hlast, writeLoop_done] at ht ht'
          cases ht
          cases ht'
          rfl
        · rw [ih ht ht' hlast]

theorem confined_iff (c : Console) (e : Event) : Confined c e ↔ HeaderOk c e := by
  cases e with
  | dcon | tty => exact Iff.rfl
  | putc r =>
    simp only [Confined, HeaderOk, dconPutc]
    cases c.dconOpen with
    | false => simp
    | true =>
      by_cases hfull : u32 r.size < sub32 r.widx r.ridx
      · simp [hfull]
      · simp [hfull, Nat.not_lt.mp hfull]
  | write r =>
    simp only [Confined, HeaderOk, dconWrite]
    cases c.ttyOpen with
    | false => simp
    | true =>
      have hrun := writeLoop_eq r.size (u32_lt r.widx) _ 0 (u32 r.ridx) (u32_lt _) rfl
      simp only [if_true, forall_const]
      constructor
      · rintro ⟨fuel, l, hl, hlen, hin⟩
        rw [writeLoop_unique hl hrun] at hlen hin
        rw [List.length_map, List.length_range] at hlen
        refine ⟨hlen, fun k hk => ?_⟩
        have hi := hin _ (List.mem_map_of_mem (List.mem_range.mpr hk))
        rw [vmRingIdx_lt_iff, Nat.zero_add] at hi
        exact hi
      · rintro ⟨hlen, hin⟩
        refine ⟨_, _, hrun, by simpa using hlen, fun i hi => ?_⟩
        obtain ⟨k, hk, rfl⟩ := List.mem_map.mp hi
        rw [vmRingIdx_lt_iff, Nat.zero_add]
        exact hin k (List.mem_range.mp hk)

/-- **Console confinement**: over every sequence of characters, hypercalls and
openings, with anything in the headers, the indices stay in the rings and the
loop of `dcon_write` is bounded exactly when the headers are as `HeaderOk` says at
every call. -/
theorem console_confined_iff (c : Console) (l : List Event) :
    Along conStep Confined c l ↔ Along conStep HeaderOk c l :=
  along_congr (I := fun _ => True) (fun _ _ _ _ _ _ => trivial)
    (fun c e _ => confined_iff c e) trivial l

/-- A VM that leaves the headers as they are. -/
theorem console_confined_unchanged :
    Along conStep Confined ⟨false, true⟩
      [.dcon true, .putc ⟨0, 0, 2048, 0⟩, .write ⟨0, 1, fun _ => 4096⟩] := by
  refine (console_confined_iff _ _).mpr ⟨trivial, fun c hc => ?_⟩
  cases hc
  refine ⟨fun _ _ => by decide, fun c hc => ?_⟩
  cases hc
  exact ⟨fun _ => by decide, fun _ _ => trivial⟩

/-- With 5000 in `widx` the next character for the VM is written behind the
ring; and with `widx` one below `ridx` the loop goes round all words. -/
theorem console_not_confined :
    dconPutc ⟨true, true⟩ ⟨5000, 5000, 2048, 5000⟩ = some 5000 ∧
      ¬ Along conStep Confined ⟨true, true⟩ [.putc ⟨5000, 5000, 2048, 5000⟩] ∧
      ¬ Along conStep Confined ⟨true, true⟩ [.write ⟨1, 0, fun _ => 4096⟩] := by
  refine ⟨by decide, fun h => ?_, fun h => ?_⟩
  · exact absurd (h.1 5000 (by decide)) (by decide)
  · have hok := (confined_iff _ _).mp h.1
    exact absurd (hok rfl).1 (by decide)

end Minos.DebugConsole
