import Minos.Virt.DebugConsole

/-!
# Delivery of console characters

The two rings of `DebugConsole` with the driver of the VM at the other end
(`vm_debug_read_console` and `vm_debug_write_console`), while both ends are open.
`dcon_putc` and the driver's reader share the first ring, the driver's writers
and `dcon_write` the second. The writers fill the ring one at a time, and only
with what it has room for; each then makes its hypercall, so that `dcon_write`
runs beside later writers, and beside itself.

`dcon_putc` and the filling of the second ring are single steps. A read by the
driver and a `dcon_write` take a step for each character.
-/

namespace Minos.DebugConsole

open Minos.Lib

structure Ring where
  ridx : Nat
  widx : Nat
  buf : Nat → Nat

/-- The characters accepted at one end of each ring and delivered at the other
are kept in `sent` and `got`, and in `written` and `printed`. -/
structure Link where
  down : Ring
  /-- a read in progress: its index, and the `widx` it saw -/
  reader : Option (Nat × Nat)
  sent : List Nat
  got : List Nat
  up : Ring
  /-- the calls of `dcon_write` in progress, in the same way -/
  writes : List (Nat × Nat)
  written : List Nat
  printed : List Nat

def linkInit : Link :=
  ⟨⟨0, 0, fun _ => 0⟩, none, [], [], ⟨0, 0, fun _ => 0⟩, [], [], []⟩

/-- `dcon_putc` finds more in the ring than fits. -/
def Link.overflow (s : Link) : Bool := rxRingSize < sub32 s.down.widx s.down.ridx

/-- What `dcon_putc` returns. -/
def Link.putcRet (s : Link) : Except Errno Unit := if s.overflow then .error .eio else .ok ()

inductive LinkEvent
  | putc (ch : Nat)
  | readBegin
  | readChar
  | readEnd
  | fill (cs : List Nat)
  | writeBegin
  | writeChar (j : Nat)
  | writeEnd (j : Nat)
  deriving DecidableEq, Repr

def linkStep (s : Link) : LinkEvent → Option Link
  | .putc ch =>
    if s.overflow then some s
    else
      -- the index is not masked
      some { s with
        down := ⟨s.down.ridx, u32 (s.down.widx + 1), Function.update s.down.buf s.down.widx ch⟩
        sent := s.sent ++ [ch] }
  | .readBegin =>
    -- a `BUG_ON` ends the driver
    if s.reader = none ∧ sub32 s.down.widx s.down.ridx ≤ rxRingSize then
      some { s with reader := some (s.down.ridx, s.down.widx) }
    else none
  | .readChar =>
    s.reader.bind fun (r, w) =>
      if r = w then none
      else some { s with
        reader := some (u32 (r + 1), w)
        got := s.got ++ [s.down.buf (vmRingIdx r rxRingSize)] }
  | .readEnd =>
    s.reader.map fun (r, _) => { s with down := { s.down with ridx := r }, reader := none }
  | .fill cs =>
    if cs.length + sub32 s.up.widx s.up.ridx ≤ txRingSize then
      some { s with
        up := ⟨s.up.ridx, u32 (s.up.widx + cs.length), fillRing s.up.buf txRingSize s.up.widx cs⟩
        written := s.written ++ cs }
    else none
  | .writeBegin => some { s with writes := s.writes ++ [(s.up.ridx, s.up.widx)] }
  | .writeChar j =>
    s.writes[j]?.bind fun (r, w) =>
      if r = w then none
      else some { s with
        writes := s.writes.set j (u32 (r + 1), w)
        printed := s.printed ++ [s.up.buf (vmRingIdx r txRingSize)] }
  | .writeEnd j =>
    s.writes[j]?.bind fun (r, w) =>
      if r = w then
        some { s with up := { s.up with ridx := s.up.widx }, writes := s.writes.eraseIdx j }
      else none

/-! ## Statements -/

/-- What the ring has from `ridx` to `widx`. -/
def Ring.pending (r : Ring) (size : Nat) : List Nat :=
  ringList r.buf size r.ridx (sub32 r.widx r.ridx)

/-- Characters are delivered in order and none twice; when no call is in progress,
those not delivered are in the ring. -/
structure Delivered (s : Link) : Prop where
  got : s.got <+: s.sent
  printed : s.printed <+: s.written
  unread : s.reader = none → s.sent = s.got ++ s.down.pending rxRingSize
  unprinted : s.writes = [] → s.written = s.printed ++ s.up.pending txRingSize

/-- A character that finds the ring full is refused. -/
def Reported (s : Link) : LinkEvent → Prop
  | .putc _ => rxRingSize ≤ sub32 s.down.widx s.down.ridx → s.putcRet = .error .eio
  | _ => True

/-- The index of the first ring has not come to its end, and the second ring is
left alone while `dcon_write` runs. -/
def CallOk (s : Link) : LinkEvent → Prop
  | .putc _ => s.down.widx < rxRingSize
  | .fill _ | .writeBegin => s.writes = []
  | _ => True

instance (s : Link) : (e : LinkEvent) → Decidable (CallOk s e)
  | .putc _ => inferInstanceAs (Decidable (s.down.widx < rxRingSize))
  | .fill _ | .writeBegin => inferInstanceAs (Decidable (s.writes = []))
  | .readBegin | .readChar | .readEnd | .writeChar _ | .writeEnd _ => isTrue trivial

/-! ## Invariants -/

/-- The first ring: up to its end the index that is not masked is the right one. -/
structure DownInv (s : Link) : Prop where
  widx : s.down.widx = s.sent.length
  room : s.sent.length ≤ rxRingSize
  queued : Queued s.down.buf rxRingSize s.sent s.got
  idle : s.reader = none → s.down.ridx = s.got.length
  reading : ∀ r w, s.reader = some (r, w) →
    s.down.ridx ≤ r ∧ r = s.got.length ∧ r ≤ w ∧ w ≤ s.sent.length

/-- The second ring, whose indices run freely. -/
structure UpInv (s : Link) : Prop where
  widx : s.up.widx = u32 s.written.length
  room : s.written.length ≤ s.printed.length + txRingSize
  queued : Queued s.up.buf txRingSize s.written s.printed
  idle : s.writes = [] → s.up.ridx = u32 s.printed.length
  running : s.writes = [] ∨ s.writes = [(u32 s.printed.length, s.up.widx)]

structure Inv (s : Link) : Prop where
  down : DownInv s
  up : UpInv s

theorem linkInit_inv : Inv linkInit :=
  ⟨⟨rfl, by decide, rfl, fun _ => rfl, nofun⟩, ⟨rfl, by decide, rfl, fun _ => rfl, Or.inl rfl⟩⟩

variable {s s' : Link}

theorem u32_mod_tx (n : Nat) : u32 n % txRingSize = n % txRingSize :=
  Nat.mod_mod_of_dvd n (by decide)

theorem vmRingIdx_u32_tx (n : Nat) : vmRingIdx (u32 n) txRingSize = n % txRingSize := by
  rw [vmRingIdx_tx, u32_mod_tx]

theorem DownInv.putc (h : DownInv s) (ch : Nat) (hok : CallOk s (.putc ch))
    (hs : linkStep s (.putc ch) = some s') : DownInv s' := by
  have hlt : s.sent.length < rxRingSize := h.widx ▸ hok
  have hle := h.queued.le
  simp only [linkStep] at hs
  split at hs
  · cases hs
    exact h
  · cases hs
    refine ⟨?_, ?_, ?_, h.idle, fun r w hr => ?_⟩
    · rw [List.length_append, List.length_singleton, h.widx]
      refine u32_of_lt (Nat.lt_of_le_of_lt (Nat.succ_le_of_lt hlt) (by decide))
    · rw [List.length_append, List.length_singleton]
      exact hlt
    · have hpush := h.queued.push ch (by omega)
      rw [Nat.mod_eq_of_lt hlt, ← h.widx] at hpush
      exact hpush
    · obtain ⟨hridx, hr, hrw, hw⟩ := h.reading r w hr
      refine ⟨hridx, hr, hrw, ?_⟩
      rw [List.length_append]
      exact Nat.le_add_right_of_le hw

theorem DownInv.read (h : DownInv s) {e : LinkEvent}
    (he : e = .readBegin ∨ e = .readChar ∨ e = .readEnd) (hs : linkStep s e = some s') :
    DownInv s' := by
  have hroom := h.room
  have hle := h.queued.le
  rcases he with rfl | rfl | rfl
  · simp only [linkStep] at hs
    split_ifs at hs with hidle
    cases hs
    refine ⟨h.widx, h.room, h.queued, nofun, fun r w hr => ?_⟩
    cases hr
    rw [h.idle hidle.1, h.widx]
    exact ⟨Nat.le_refl _, rfl, hle, Nat.le_refl _⟩
  · obtain ⟨⟨r, w⟩, hreader, hs⟩ := Option.bind_eq_some_iff.mp hs
    obtain ⟨hridx, hr, hrw, hw⟩ := h.reading r w hreader
    simp only at hs
    split_ifs at hs with hend
    cases hs
    have hpos : s.got.length < s.sent.length := by omega
    have hnext : u32 (r + 1) = r + 1 := by
      refine u32_of_lt ?_
      rw [rxRingSize] at hroom
      omega
    refine ⟨h.widx, h.room, ?_, nofun, fun r' w' hr' => ?_⟩
    · rw [vmRingIdx_rx, hr]
      exact h.queued.pop hpos
    · cases hr'
      rw [hnext, List.length_append, List.length_singleton]
      exact ⟨Nat.le_succ_of_le hridx, by omega, by omega, hw⟩
  · obtain ⟨⟨r, w⟩, hreader, rfl⟩ := Option.map_eq_some_iff.mp hs
    obtain ⟨hridx, hr, hrw, hw⟩ := h.reading r w hreader
    exact ⟨h.widx, h.room, h.queued, fun _ => hr, nofun⟩

theorem UpInv.fill (h : UpInv s) (cs : List Nat) (hok : CallOk s (.fill cs))
    (hs : linkStep s (.fill cs) = some s') : UpInv s' := by
  have hle := h.queued.le
  have hroom := h.room
  simp only [linkStep] at hs
  split_ifs at hs with hfits
  cases hs
  have hdist : sub32 s.up.widx s.up.ridx = s.written.length - s.printed.length := by
    rw [h.widx, h.idle hok]
    refine sub32_counters hle ?_
    rw [txRingSize] at hroom
    omega
  have hnew : s.written.length + cs.length ≤ s.printed.length + txRingSize := by
    rw [hdist] at hfits
    omega
  refine ⟨?_, ?_, ?_, h.idle, Or.inl hok⟩
  · rw [List.length_append]
    exact (congrArg (fun w => u32 (w + cs.length)) h.widx).trans (u32_add _ _)
  · rw [List.length_append]
    exact hnew
  · rw [h.widx]
    exact queued_fillRing vmRingIdx_u32_tx cs h.queued hnew

theorem UpInv.print (h : UpInv s) {e : LinkEvent} (hok : CallOk s e)
    (he : e = .writeBegin ∨ (∃ j, e = .writeChar j) ∨ ∃ j, e = .writeEnd j)
    (hs : linkStep s e = some s') : UpInv s' := by
  have hle := h.queued.le
  -- a call in progress is the only one
  have hone : ∀ {j : Nat} {p : Nat × Nat}, s.writes[j]? = some p →
      j = 0 ∧ p = (u32 s.printed.length, s.up.widx) ∧
        s.writes = [(u32 s.printed.length, s.up.widx)] := by
    intro j p hj
    rcases h.running with hnil | hcall
    · simp [hnil] at hj
    · rw [hcall, List.getElem?_singleton] at hj
      split_ifs at hj with hzero
      cases hj
      exact ⟨hzero, rfl, hcall⟩
  rcases he with rfl | ⟨j, rfl⟩ | ⟨j, rfl⟩
  · cases hs
    have hnil : s.writes = [] := hok
    refine ⟨h.widx, h.room, h.queued, ?_, Or.inr ?_⟩
    · simp
    · rw [hnil, h.idle hnil]
      rfl
  · obtain ⟨⟨r, w⟩, hj, hs⟩ := Option.bind_eq_some_iff.mp hs
    obtain ⟨rfl, hp, hcall⟩ := hone hj
    cases hp
    simp only at hs
    split_ifs at hs with hend
    cases hs
    have hpos : s.printed.length < s.written.length := by
      rw [h.widx] at hend
      by_contra hno
      exact hend (congrArg u32 (by omega))
    refine ⟨h.widx, ?_, ?_, ?_, Or.inr ?_⟩
    · rw [List.length_append, Nat.add_right_comm]
      exact Nat.le_add_right_of_le h.room
    · rw [vmRingIdx_u32_tx]
      exact h.queued.pop hpos
    · simp [hcall]
    · rw [hcall, List.length_append, List.length_singleton, u32_add]
      rfl
  · obtain ⟨⟨r, w⟩, hj, hs⟩ := Option.bind_eq_some_iff.mp hs
    obtain ⟨rfl, hp, hcall⟩ := hone hj
    cases hp
    simp only at hs
    split_ifs at hs with hend
    cases hs
    refine ⟨h.widx, h.room, h.queued, fun _ => hend.symm, Or.inl ?_⟩
    rw [hcall]
    rfl

theorem Inv.step (h : Inv s) {e : LinkEvent} (hok : CallOk s e) (hs : linkStep s e = some s') :
    Inv s' := by
  -- the steps of one ring leave the other
  cases e with
  | putc ch =>
    refine ⟨h.down.putc ch hok hs, ?_⟩
    simp only [linkStep] at hs
    split at hs <;> cases hs <;> exact { h.up with }
  | readBegin =>
    refine ⟨h.down.read (Or.inl rfl) hs, ?_⟩
    simp only [linkStep] at hs
    split_ifs at hs
    cases hs
    exact { h.up with }
  | readChar =>
    refine ⟨h.down.read (Or.inr (Or.inl rfl)) hs, ?_⟩
    obtain ⟨⟨r, w⟩, -, hs⟩ := Option.bind_eq_some_iff.mp hs
    simp only at hs
    split_ifs at hs
    cases hs
    exact { h.up with }
  | readEnd =>
    refine ⟨h.down.read (Or.inr (Or.inr rfl)) hs, ?_⟩
    obtain ⟨_, -, rfl⟩ := Option.map_eq_some_iff.mp hs
    exact { h.up with }
  | fill cs =>
    refine ⟨?_, h.up.fill cs hok hs⟩
    simp only [linkStep] at hs
    split_ifs at hs
    cases hs
    exact { h.down with }
  | writeBegin =>
    refine ⟨?_, h.up.print hok (Or.inl rfl) hs⟩
    cases hs
    exact { h.down with }
  | writeChar j =>
    refine ⟨?_, h.up.print hok (Or.inr (Or.inl ⟨j, rfl⟩)) hs⟩
    obtain ⟨⟨r, w⟩, -, hs⟩ := Option.bind_eq_some_iff.mp hs
    simp only at hs
    split_ifs at hs
    cases hs
    exact { h.down with }
  | writeEnd j =>
    refine ⟨?_, h.up.print hok (Or.inr (Or.inr ⟨j, rfl⟩)) hs⟩
    obtain ⟨⟨r, w⟩, -, hs⟩ := Option.bind_eq_some_iff.mp hs
    simp only at hs
    split_ifs at hs
    cases hs
    exact { h.down with }

theorem Inv.delivered (h : Inv s) : Delivered s := by
  have hroom := h.down.room
  have hroom' := h.up.room
  rw [rxRingSize] at hroom
  rw [txRingSize] at hroom'
  refine ⟨h.down.queued.popped_pre, h.up.queued.popped_pre, fun hidle => ?_, fun hidle => ?_⟩
  · have hle := h.down.queued.le
    have hdist : sub32 s.down.widx s.down.ridx = s.sent.length - s.got.length := by
      rw [h.down.widx, h.down.idle hidle]
      unfold sub32
      omega
    rw [Ring.pending, hdist, h.down.idle hidle]
    exact h.down.queued
  · have hdist : sub32 s.up.widx s.up.ridx = s.written.length - s.printed.length := by
      rw [h.up.widx, h.up.idle hidle]
      exact sub32_counters h.up.queued.le (by omega)
    rw [Ring.pending, hdist, h.up.idle hidle, ← ringList_mod, u32_mod_tx, ringList_mod]
    exact h.up.queued

/-- While the first ring has not come to its end it is never full. -/
theorem Inv.reported (h : Inv s) {e : LinkEvent} (hok : CallOk s e) : Reported s e := by
  cases e with
  | putc ch =>
    intro hfull
    have hlt : s.down.widx < rxRingSize := hok
    have hridx : s.down.ridx ≤ s.down.widx := by
      have hle := h.down.queued.le
      cases hreader : s.reader with
      | none => rw [h.down.idle hreader, h.down.widx]; exact hle
      | some p =>
        obtain ⟨h₁, -, h₂, h₃⟩ := h.down.reading p.1 p.2 hreader
        rw [h.down.widx]
        omega
    rw [rxRingSize] at hfull hlt
    unfold sub32 at hfull
    omega
  | _ => trivial

/-- **Console delivery**: while fewer than 2048 characters were put into the first
ring, and the second is left alone while `dcon_write` runs, every character is
delivered once and in order, and none is lost. -/
theorem console_delivered (l : List LinkEvent) (hl : Along linkStep CallOk linkInit l) :
    (∀ pre, pre <+: l → ∀ s, run linkStep linkInit pre = some s → Delivered s) ∧
      Along linkStep Reported linkInit l := by
  constructor
  · intro pre hpre s hr
    exact (run_invariant (fun s e s' h hok hs => h.step hok hs) linkInit_inv
      (along_of_pre hpre hl) hr).delivered
  · exact along_of_invariant (fun s e s' h hok hs => h.step hok hs)
      (fun s e h hok => h.reported hok) linkInit_inv hl

/-- Three characters for the VM, two of which it reads, and two from it. -/
theorem console_delivered_short :
    (run linkStep linkInit [.putc 97, .putc 98, .readBegin, .readChar, .putc 99, .readChar,
        .readEnd, .fill [100, 101], .writeBegin, .writeChar 0, .writeChar 0, .writeEnd 0]).map
        (fun s => (s.got, s.printed)) = some ([97, 98], [100, 101]) ∧
      Along linkStep Reported linkInit [.putc 97, .putc 98, .readBegin, .readChar, .putc 99,
        .readChar, .readEnd, .fill [100, 101], .writeBegin, .writeChar 0, .writeChar 0,
        .writeEnd 0] := by
  exact ⟨by decide +kernel, (console_delivered _ (by decide +kernel)).2⟩

/-- What `n` characters for a VM that reads none leave. -/
theorem putc_run (n : Nat) (hn : n ≤ rxRingSize) :
    ∃ s, run linkStep linkInit (List.replicate n (.putc 97)) = some s ∧
      s.down.widx = n ∧ s.down.ridx = 0 := by
  induction n with
  | zero => exact ⟨linkInit, rfl, rfl, rfl⟩
  | succ n ih =>
    obtain ⟨s, hs, hw, hr⟩ := ih (Nat.le_of_succ_le hn)
    rw [rxRingSize] at hn
    have hfits : s.overflow = false := by
      simp only [Link.overflow, hw, hr, rxRingSize, sub32, decide_eq_false_iff_not]
      omega
    obtain ⟨s₁, hs₁, hw₁, hr₁⟩ : ∃ s₁, linkStep s (.putc 97) = some s₁ ∧
        s₁.down.widx = u32 (s.down.widx + 1) ∧ s₁.down.ridx = s.down.ridx := by
      simp [linkStep, hfits]
    refine ⟨s₁, ?_, ?_, hr₁.trans hr⟩
    · rw [List.replicate_succ', run_append hs, run_cons, hs₁]
      rfl
    · rw [hw₁, hw]
      exact u32_of_lt (by omega)

/-- The character after 2048 that were not read is not refused, and written
behind the ring; and one that comes while `dcon_write` runs is lost. -/
theorem console_not_delivered :
    (∃ s, run linkStep linkInit (List.replicate 2048 (.putc 97)) = some s ∧
        s.putcRet = .ok () ∧ s.down.widx = 2048 ∧ ¬ Reported s (.putc 98)) ∧
      ∃ s, run linkStep linkInit [.fill [97], .writeBegin, .writeChar 0, .fill [98], .writeEnd 0]
          = some s ∧ s.written = [97, 98] ∧ s.printed = [97] ∧ s.writes = [] ∧
        s.up.ridx = s.up.widx ∧ ¬ Delivered s := by
  constructor
  · obtain ⟨s, hs, hw, hr⟩ := putc_run 2048 (Nat.le_refl _)
    have hret : s.putcRet = .ok () := by
      rw [Link.putcRet, Link.overflow, hw, hr]
      rfl
    refine ⟨s, hs, hret, hw, fun h => ?_⟩
    have herr := h (by rw [hw, hr]; decide)
    rw [hret] at herr
    cases herr
  · refine exists_found (P := fun s => s.written = [97, 98] ∧ s.printed = [97] ∧ s.writes = [] ∧
        s.up.ridx = s.up.widx) (fun s _ ⟨hwritten, hprinted, hidle, heq⟩ =>
      ⟨hwritten, hprinted, hidle, heq, fun h => ?_⟩) (by decide +kernel)
    have hall := congrArg List.length (h.unprinted hidle)
    rw [hwritten, hprinted, Ring.pending, List.length_append, ringList_length, heq] at hall
    simp only [sub32, List.length_cons, List.length_nil] at hall
    omega

end Minos.DebugConsole
