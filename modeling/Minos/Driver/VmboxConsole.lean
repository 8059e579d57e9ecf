import Minos.Virt.DebugConsole

/-!
# The console ring of a vmbox

`vmbox_hvc_write_console` and `vmbox_hvc_read_console` of the guest driver
(`vmbox_console.c`): one ring from a writer in one VM to a reader in another.
When the ring is full the writer waits, unless it believes the other side closed:
then it moves the reader's index itself, by as many characters as it still has.
What it believes comes by notifications, at any time.

The ring has `2 ^ k` characters. A call of the writer takes a step for its reads
of the indices, one for the decision when the ring is full and one for copying; a
call of the reader takes one for each character. What leaves the ring is kept in
`out`, with `true` for what the reader took and `false` for what the writer threw
away.
-/

namespace Minos.VmboxConsole

open Minos.Lib
open Minos.DebugConsole (vmRingIdx fillRing queued_fillRing)

/-- Where the writer is, with the characters it still has and the indices it read. -/
inductive Writer
  | idle
  | again (cs : List Nat)
  | full (r w : Nat) (cs : List Nat)
  | ready (r w : Nat) (cs : List Nat)
  deriving DecidableEq, Repr

structure Sys where
  ridx : Nat
  widx : Nat
  buf : Nat → Nat
  /-- `otherside_state` of the writer is `VMBOX_DEV_STAT_OPENED` -/
  otherOpened : Bool
  readerOpen : Bool
  writer : Writer
  /-- a read in progress: its index, and the `widx` it saw -/
  reader : Option (Nat × Nat)
  /-- the reader's `BUG_ON` -/
  bug : Bool
  /-- something was thrown away while the reader was open -/
  lost : Bool
  written : List Nat
  out : List (Bool × Nat)

def init : Sys := ⟨0, 0, fun _ => 0, false, false, .idle, none, false, false, [], []⟩

inductive Event
  | write (cs : List Nat)
  /-- the writer reads the indices -/
  | look
  /-- the writer finds the other side closed, or opened -/
  | discard
  | wait
  | copy
  | notify (opened : Bool)
  | openReader
  | closeReader
  | readBegin
  | readChar
  | readEnd
  deriving DecidableEq, Repr

/-- `count` when the call has come back to its outer loop. -/
def Writer.left : List Nat → Writer
  | [] => .idle
  | c :: cs => .again (c :: cs)

/-- How many characters fit, by the indices the writer has. -/
def sendCount (size r w : Nat) (cs : List Nat) : Nat :=
  if sub32 w r < size then min cs.length (size - sub32 w r) else 0

def step (size : Nat) (s : Sys) : Event → Option Sys
  | .write cs => if s.writer = .idle then some { s with writer := .left cs } else none
  | .look =>
    match s.writer with
    | .again cs =>
      if sub32 s.widx s.ridx = size then some { s with writer := .full s.ridx s.widx cs }
      else some { s with writer := .ready s.ridx s.widx cs }
    | _ => none
  | .discard =>
    match s.writer with
    | .full r w cs =>
      if s.otherOpened then none
      else some { s with
        ridx := u32 (r + cs.length)
        writer := .ready (u32 (r + cs.length)) w cs
        lost := s.lost || s.readerOpen
        out := s.out ++ (ringList s.buf size r cs.length).map (Prod.mk false) }
    | _ => none
  | .wait =>
    match s.writer with
    | .full _ _ cs => if s.otherOpened then some { s with writer := .again cs } else none
    | _ => none
  | .copy =>
    match s.writer with
    | .ready r w cs =>
      let send := sendCount size r w cs
      some { s with
        widx := u32 (w + send)
        buf := fillRing s.buf size w (cs.take send)
        writer := .left (cs.drop send)
        written := s.written ++ cs.take send }
    | _ => none
  | .notify opened => some { s with otherOpened := opened }
  | .openReader => some { s with readerOpen := true }
  | .closeReader => if s.reader = none then some { s with readerOpen := false } else none
  | .readBegin =>
    if s.readerOpen = true ∧ s.reader = none then
      if size < sub32 s.widx s.ridx then some { s with bug := true }
      else some { s with reader := some (s.ridx, s.widx) }
    else none
  | .readChar =>
    s.reader.bind fun (r, w) =>
      if r = w then none
      else some { s with
        reader := some (u32 (r + 1), w)
        out := s.out ++ [(true, s.buf (vmRingIdx r size))] }
  | .readEnd => s.reader.map fun (r, _) => { s with ridx := r, reader := none }

/-! ## Statements -/

/-- The indices are at most the ring apart, and every character that is written
leaves the ring once and in order, to the reader while that is open. -/
structure Right (size : Nat) (s : Sys) : Prop where
  bug : s.bug = false
  lost : s.lost = false
  apart : sub32 s.widx s.ridx ≤ size
  inOrder : s.out.map Prod.snd <+: s.written
  rest : s.reader = none →
    s.written = s.out.map Prod.snd ++ ringList s.buf size s.ridx (sub32 s.widx s.ridx)

/-- What is thrown away fits into the ring, the reader is not open, and its index
is still the one that the writer read. -/
def CallOk (size : Nat) (s : Sys) : Event → Prop
  | .discard => ∀ r w cs, s.writer = .full r w cs →
      cs.length ≤ size ∧ s.readerOpen = false ∧ s.ridx = r
  | _ => True

/-! ## Invariant -/

/-- What the writer knows: it has read an index `R₀` not past `R`, the number of
characters whose places are free again. -/
def WriterOk (size : Nat) (s : Sys) (R : Nat) : Prop :=
  match s.writer with
  | .full r w _ => w = s.widx ∧ ∃ R₀ ≤ R, r = u32 R₀ ∧ s.written.length = R₀ + size
  | .ready r w _ => w = s.widx ∧ ∃ R₀ ≤ R, r = u32 R₀ ∧ R₀ ≤ s.written.length ∧
      s.written.length ≤ R₀ + size
  | _ => True

structure Inv (size : Nat) (s : Sys) (R : Nat) : Prop where
  bug : s.bug = false
  lost : s.lost = false
  widx : s.widx = u32 s.written.length
  ridx : s.ridx = u32 R
  queued : Queued s.buf size s.written (s.out.map Prod.snd)
  freed : R ≤ s.out.length
  room : s.written.length ≤ R + size
  closed : s.readerOpen = false → s.reader = none
  idle : s.reader = none → R = s.out.length
  reading : ∀ r w, s.reader = some (r, w) → r = u32 s.out.length ∧
    ∃ V, w = u32 V ∧ s.out.length ≤ V ∧ V ≤ s.written.length
  writer : WriterOk size s R

variable {k R : Nat} {s s' : Sys} {e : Event}

theorem init_inv (size : Nat) : Inv size init 0 :=
  ⟨rfl, rfl, rfl, rfl, rfl, Nat.le_refl _, Nat.zero_le _, fun _ => rfl, fun _ => rfl, nofun,
    trivial⟩

theorem u32_mod_size (hk : k ≤ 31) (n : Nat) : u32 n % 2 ^ k = n % 2 ^ k :=
  Nat.mod_mod_of_dvd n (Nat.pow_dvd_pow 2 (by omega))

theorem size_lt (hk : k ≤ 31) : 2 ^ k < 2 ^ 32 := Nat.pow_lt_pow_right (by decide) (by omega)

theorem vmRingIdx_size (hk : k ≤ 31) (n : Nat) : vmRingIdx (u32 n) (2 ^ k) = n % 2 ^ k := by
  have hpos : 0 < 2 ^ k := Nat.two_pow_pos k
  have hlt := size_lt hk
  have hmask : sub32 (2 ^ k) 1 = 2 ^ k - 1 := by
    unfold sub32
    omega
  rw [vmRingIdx, hmask, Nat.and_two_pow_sub_one_eq_mod, u32_mod_size hk]

section Steps

variable (hk : k ≤ 31) (h : Inv (2 ^ k) s R)
include h

theorem Inv.taken_le : s.out.length ≤ s.written.length := by
  have hle := h.queued.le
  rwa [List.length_map] at hle

include hk

theorem Inv.apart : sub32 s.widx s.ridx = s.written.length - R := by
  have hle := h.taken_le
  have hfreed := h.freed
  have hroom := h.room
  have hlt := size_lt hk
  rw [h.widx, h.ridx]
  exact sub32_counters (by omega) (by omega)

theorem Inv.look (hs : step (2 ^ k) s .look = some s') : Inv (2 ^ k) s' R := by
  have hapart := h.apart hk
  have hle := h.taken_le
  have hfreed := h.freed
  simp only [step] at hs
  split at hs
  · split_ifs at hs with hfull
    · cases hs
      refine { h with writer := ⟨rfl, R, Nat.le_refl R, h.ridx, ?_⟩ }
      rw [hapart] at hfull
      exact (Nat.sub_eq_iff_eq_add' (Nat.le_trans hfreed hle)).mp hfull
    · cases hs
      exact { h with writer := ⟨rfl, R, Nat.le_refl R, h.ridx, Nat.le_trans hfreed hle, h.room⟩ }
  · cases hs

/-- With the reader out of the way the writer throws away the oldest characters. -/
theorem Inv.discard (hok : CallOk (2 ^ k) s .discard)
    (hs : step (2 ^ k) s .discard = some s') : ∃ R', Inv (2 ^ k) s' R' := by
  have hlt := size_lt hk
  simp only [step] at hs
  split at hs
  · rename_i r w cs hwriter
    obtain ⟨hcount, hclosed, hridx⟩ := hok r w cs hwriter
    have hreader := h.closed hclosed
    have hidle := h.idle hreader
    have hknown := h.writer
    rw [WriterOk, hwriter] at hknown
    obtain ⟨hw, R₀, hle₀, hr, hwritten⟩ := hknown
    have hroom := h.room
    have hfreed := h.freed
    have htaken := h.taken_le
    -- the index has not moved, so the ring is full still
    have heq : R₀ = R := by
      rw [h.ridx, hr] at hridx
      unfold u32 at hridx
      omega
    subst heq
    split_ifs at hs
    cases hs
    have hslots : ringList s.buf (2 ^ k) r cs.length
        = ringList s.buf (2 ^ k) (s.out.map Prod.snd).length cs.length := by
      rw [hr, ← ringList_mod, u32_mod_size hk, ringList_mod, List.length_map, hidle]
    have hlen : (s.out ++ (ringList s.buf (2 ^ k) r cs.length).map (Prod.mk false)).length
        = R₀ + cs.length := by
      rw [List.length_append, List.length_map, ringList_length, hidle]
    have hnext : u32 (r + cs.length) = u32 (R₀ + cs.length) := by rw [hr, u32_add]
    refine ⟨R₀ + cs.length, h.bug, ?_, h.widx, hnext, ?_, hlen.ge, ?_, h.closed,
      fun _ => hlen.symm, fun r' w' hr' => absurd hr' (by simp [hreader]),
      hw, R₀ + cs.length, Nat.le_refl _, hnext, ?_, ?_⟩
    · rw [h.lost, hclosed]
      rfl
    · have hpop := h.queued.popAll (n := cs.length) (by rw [List.length_map]; omega)
      rw [List.map_append, List.map_map, hslots]
      simpa [Function.comp_def] using hpop
    · exact Nat.le_trans hroom (by omega)
    · exact Nat.le_trans (Nat.add_le_add_left hcount R₀) hwritten.ge
    · exact Nat.le_trans hroom (by omega)
  · cases hs

theorem Inv.copy (hs : step (2 ^ k) s .copy = some s') : Inv (2 ^ k) s' R := by
  have hlt := size_lt hk
  simp only [step] at hs
  split at hs
  · rename_i r w cs hwriter
    cases hs
    have hknown := h.writer
    rw [WriterOk, hwriter] at hknown
    obtain ⟨hw, R₀, hle₀, hr, hbelow, habove⟩ := hknown
    have hfreed := h.freed
    have hdist : sub32 w r = s.written.length - R₀ := by
      rw [hw, h.widx, hr]
      exact sub32_counters hbelow (by omega)
    have hsend : (cs.take (sendCount (2 ^ k) r w cs)).length = sendCount (2 ^ k) r w cs := by
      rw [List.length_take, sendCount]
      split <;> omega
    have hfits : s.written.length + sendCount (2 ^ k) r w cs ≤ R₀ + 2 ^ k := by
      rw [sendCount, hdist]
      split <;> omega
    have hnew : (s.written ++ cs.take (sendCount (2 ^ k) r w cs)).length
        = s.written.length + sendCount (2 ^ k) r w cs := by
      rw [List.length_append, hsend]
    refine { h with
      widx := ?_, queued := ?_, room := ?_, reading := fun r' w' hr' => ?_, writer := ?_ }
    · rw [hnew, hw, h.widx, u32_add]
    · have hq := queued_fillRing (vmRingIdx_size hk) (cs.take (sendCount (2 ^ k) r w cs))
        h.queued (by rw [hsend, List.length_map]; omega)
      rwa [← h.widx, ← hw] at hq
    · rw [hnew]
      omega
    · obtain ⟨hr'', V, hV, hout, hVle⟩ := h.reading r' w' hr'
      refine ⟨hr'', V, hV, hout, ?_⟩
      rw [hnew]
      exact Nat.le_add_right_of_le hVle
    · rw [WriterOk]
      cases cs.drop (sendCount (2 ^ k) r w cs) <;> trivial
  · cases hs

theorem Inv.read (he : e = .readBegin ∨ e = .readChar ∨ e = .readEnd)
    (hs : step (2 ^ k) s e = some s') : ∃ R', Inv (2 ^ k) s' R' := by
  have hlt := size_lt hk
  have hroom := h.room
  have hfreed := h.freed
  have htaken := h.taken_le
  rcases he with rfl | rfl | rfl
  · simp only [step, h.apart hk] at hs
    split_ifs at hs with hopen hbug
    · omega
    · cases hs
      have hidle := h.idle hopen.2
      refine ⟨R, { h with closed := ?_, idle := nofun, reading := fun r w hr => ?_ }⟩
      · intro hclosed
        rw [hopen.1] at hclosed
        cases hclosed
      · cases hr
        exact ⟨hidle ▸ h.ridx, s.written.length, h.widx, htaken, Nat.le_refl _⟩
  · obtain ⟨⟨r, w⟩, hreader, hs⟩ := Option.bind_eq_some_iff.mp hs
    obtain ⟨hr, V, hV, hout, hVle⟩ := h.reading r w hreader
    simp only at hs
    split_ifs at hs with hend
    cases hs
    have hpos : s.out.length < V := by
      by_contra hno
      rw [hr, hV] at hend
      exact hend (congrArg u32 (by omega))
    have hlen : ∀ x, (s.out ++ [x]).length = s.out.length + 1 := fun x => by simp
    refine ⟨R, { h with
      queued := ?_, freed := ?_, closed := ?_, idle := nofun, reading := fun r' w' hr' => ?_ }⟩
    · rw [List.map_append, hr, vmRingIdx_size hk]
      have hpop := h.queued.pop (by rw [List.length_map]; omega)
      rwa [List.length_map] at hpop
    · rw [hlen]
      exact Nat.le_succ_of_le hfreed
    · intro hclosed
      exact absurd (h.closed hclosed) (by simp [hreader])
    · cases hr'
      rw [hlen]
      exact ⟨by rw [hr, u32_add], V, hV, hpos, hVle⟩
  · obtain ⟨⟨r, w⟩, hreader, rfl⟩ := Option.map_eq_some_iff.mp hs
    obtain ⟨hr, V, hV, hout, hVle⟩ := h.reading r w hreader
    refine ⟨s.out.length, h.bug, h.lost, h.widx, hr, h.queued, Nat.le_refl _, ?_, fun _ => rfl,
      fun _ => rfl, nofun, ?_⟩
    · exact Nat.le_trans hroom (Nat.add_le_add_right hfreed _)
    · have hknown := h.writer
      rw [WriterOk] at hknown ⊢
      simp only
      split at hknown
      case h_3 => trivial
      all_goals
        obtain ⟨hw, R₀, hle₀, hrest⟩ := hknown
        exact ⟨hw, R₀, Nat.le_trans hle₀ hfreed, hrest⟩

/-- **One step** of either side. -/
theorem Inv.step (hok : CallOk (2 ^ k) s e) (hs : step (2 ^ k) s e = some s') :
    ∃ R', Inv (2 ^ k) s' R' := by
  cases e with
  | look => exact ⟨R, h.look hk hs⟩
  | discard => exact h.discard hk hok hs
  | copy => exact ⟨R, h.copy hk hs⟩
  | readBegin => exact h.read hk (Or.inl rfl) hs
  | readChar => exact h.read hk (Or.inr (Or.inl rfl)) hs
  | readEnd => exact h.read hk (Or.inr (Or.inr rfl)) hs
  | write cs =>
    simp only [VmboxConsole.step] at hs
    split_ifs at hs
    cases hs
    refine ⟨R, { h with writer := ?_ }⟩
    cases cs <;> trivial
  | wait =>
    simp only [VmboxConsole.step] at hs
    split at hs
    · split_ifs at hs
      cases hs
      exact ⟨R, { h with writer := trivial }⟩
    · cases hs
  | notify opened =>
    cases hs
    exact ⟨R, { h with }⟩
  | openReader =>
    cases hs
    exact ⟨R, { h with closed := nofun }⟩
  | closeReader =>
    simp only [VmboxConsole.step] at hs
    split_ifs at hs with hreader
    cases hs
    exact ⟨R, { h with closed := fun _ => hreader }⟩

theorem Inv.right : Right (2 ^ k) s := by
  have hapart := h.apart hk
  have hroom := h.room
  refine ⟨h.bug, h.lost, by rw [hapart]; exact Nat.sub_le_iff_le_add'.mpr hroom,
    h.queued.popped_pre, fun hreader => ?_⟩
  have hidle := h.idle hreader
  have hq := h.queued
  rw [Queued, List.length_map] at hq
  rw [hapart, h.ridx, ← ringList_mod, u32_mod_size hk, ringList_mod, hidle]
  exact hq

end Steps

/-- **The console ring**: with a ring of any power of two, in every interleaving of
the two sides and the notifications in which the writer throws away only while the
reader is closed, after reading its index as it still is, and no more than the ring
holds, the indices stay at most the ring apart and every character leaves the ring
once and in order. -/
theorem vmbox_console_right (k : Nat) (hk : k ≤ 31) (l : List Event)
    (hl : Along (step (2 ^ k)) (CallOk (2 ^ k)) init l) :
    ∀ pre, pre <+: l → ∀ s, run (step (2 ^ k)) init pre = some s → Right (2 ^ k) s := by
  intro pre hpre s hr
  have hinv : ∃ R, Inv (2 ^ k) s R :=
    run_invariant (I := fun s => ∃ R, Inv (2 ^ k) s R)
      (fun s e s' h hok hs => h.elim fun R hR => hR.step hk hok hs) ⟨0, init_inv _⟩
      (along_of_pre hpre hl) hr
  obtain ⟨R, h⟩ := hinv
  exact h.right hk

instance (size : Nat) (s : Sys) (e : Event) : Decidable (CallOk size s e) :=
  match e with
  | .discard =>
    match h : s.writer with
    | .full r w cs =>
      decidable_of_iff (cs.length ≤ size ∧ s.readerOpen = false ∧ s.ridx = r)
        ⟨fun hc r' w' cs' h' => by
          rw [h] at h'
          cases h'
          exact hc, fun hc => hc r w cs h⟩
    | .idle | .again _ | .ready _ _ _ => isTrue fun _ _ _ h' => nomatch h.symm.trans h'
  | .write _ | .look | .wait | .copy | .notify _ | .openReader | .closeReader | .readBegin
  | .readChar | .readEnd => isTrue trivial

/-- The ring of four fills while the reader is closed, and the writer throws one
character away; then the reader opens. -/
def closedThenOpen : List Event :=
  [.write [1, 2, 3, 4], .look, .copy, .write [5], .look, .discard, .copy, .openReader,
    .notify true, .readBegin, .readChar, .readEnd]

theorem vmbox_console_right_closed :
    Along (step (2 ^ 2)) (CallOk (2 ^ 2)) init closedThenOpen ∧
      ∀ pre, pre <+: closedThenOpen →
        ∀ s, run (step (2 ^ 2)) init pre = some s → Right (2 ^ 2) s := by
  have hok : Along (step (2 ^ 2)) (CallOk (2 ^ 2)) init closedThenOpen := by decide +kernel
  exact ⟨hok, vmbox_console_right 2 (by decide) _ hok⟩

/-- With nine characters to write the reader's index goes past the writer's; and a
reader whose opening the writer has not heard of puts the index back, so that the
next read comes to its `BUG_ON`. -/
theorem vmbox_console_not_right :
    (∃ s, run (step (2 ^ 2)) init [.write [1, 2, 3, 4], .look, .copy,
        .write [1, 2, 3, 4, 5, 6, 7, 8, 9], .look, .discard] = some s ∧
        s.ridx = 9 ∧ s.widx = 4 ∧ ¬ Right (2 ^ 2) s) ∧
      ∃ s, run (step (2 ^ 2)) init [.write [1, 2, 3, 4], .look, .copy, .write [5, 6, 7], .look,
        .openReader, .readBegin, .discard, .copy, .readChar, .readEnd, .readBegin] = some s ∧
        s.bug = true ∧ ¬ Right (2 ^ 2) s := by
  constructor
  · refine exists_found (P := fun s => s.ridx = 9 ∧ s.widx = 4)
      (fun s _ ⟨hr, hw⟩ => ⟨hr, hw, fun h => ?_⟩) (by decide +kernel)
    have hapart := h.apart
    rw [hr, hw] at hapart
    exact absurd hapart (by decide)
  · refine exists_found_more (fun s _ hbug h => ?_) (by decide +kernel)
    rw [h.bug] at hbug
    cases hbug

end Minos.VmboxConsole
