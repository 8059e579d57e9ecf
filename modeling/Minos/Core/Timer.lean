import Minos.Lib.Run
import Minos.Lib.Word
import Mathlib.Data.List.Nodup
import Mathlib.Logic.Function.Basic

/-!
# Timers of a cpu

`core/timer.c` on one cpu: the list of active timers, the cached
`next_timer` and the hardware timer below them. The hardware is reprogrammed
when a timer starts that is due before `next_timer`, and at the end of each
timer interrupt, for the earliest timer that is left.

`soft_timer_interrupt` drops the lock for each callback, and a callback may
start, modify and stop timers, so an interrupt is a sequence of steps:
timers are taken off `active` one by one, those that are not due go to
`tmp_head`. Timers have numbers. Times are nanoseconds, as they are passed to
`enable_timer`.
-/

namespace Minos.SoftTimer

open Minos.Lib

/-! ## State -/

/-- `TIMER_PRECISION`. -/
def timerPrecision : Nat := 1000000

/-- `DEFAULT_TIMER_MARGIN`. -/
def defaultTimerMargin : Nat := timerPrecision / 2

/-- `struct timer`; `cpu` is `timer->cpu != -1`. -/
structure Timer where
  cpu : Bool
  stop : Bool
  expires : Nat
  timeout : Nat
  deriving DecidableEq, Repr

inductive IrqPc
  /-- in the loop, with the lock -/
  | scan
  /-- in the callback of `running_timer`, without the lock -/
  | callback (t : Nat)
  /-- past the loop, before the hardware is programmed -/
  | leave
  deriving DecidableEq, Repr

/-- The locals of `soft_timer_interrupt`. -/
structure Irq where
  now : Nat
  tmpHead : List Nat
  nextTimer : Option Nat
  pc : IrqPc
  deriving DecidableEq, Repr

structure Sys where
  timer : Nat → Timer
  active : List Nat
  nextTimer : Option Nat
  /-- the compare register, and whether it raises an interrupt -/
  compare : Nat
  enabled : Bool
  irq : Option Irq

/-- After `init_raw_timers`, with every timer initialised. -/
def init : Sys := ⟨fun _ => ⟨false, false, 0, 0⟩, [], none, 0, false, none⟩

def Sys.expires (s : Sys) (t : Nat) : Nat := (s.timer t).expires

def Sys.setTimer (s : Sys) (t : Nat) (x : Timer) : Sys :=
  { s with timer := Function.update s.timer t x }

@[simp] theorem Sys.setTimer_self (s : Sys) (t : Nat) (x : Timer) :
    (s.setTimer t x).expires t = x.expires := by
  simp [Sys.setTimer, Sys.expires]

variable {t : Nat}

theorem Sys.setTimer_of_ne (s : Sys) {u : Nat} (x : Timer) (h : u ≠ t) :
    (s.setTimer t x).expires u = s.expires u := by
  simp [Sys.setTimer, Sys.expires, h]

/-! ## The calls -/

/-- `arch_enable_timer`. -/
def enableTimer (s : Sys) (expires : Nat) : Sys :=
  if expires = 0 then { s with enabled := false }
  else { s with compare := expires, enabled := true }

/-- `detach_timer`: the entry is on `active`, or on the `tmp_head` of a timer
interrupt. -/
def detachTimer (s : Sys) (t : Nat) : Sys :=
  { s with
    active := s.active.erase t
    irq := s.irq.map fun i => { i with tmpHead := i.tmpHead.erase t } }

/-- The test of `__mod_timer`. -/
def dueBeforeNext (s : Sys) (t : Nat) : Bool :=
  match s.nextTimer with
  | none => true
  | some n => u64 (s.expires t + defaultTimerMargin) < s.expires n

/-- The first half of `__mod_timer`: the timer goes to the end of `active`. -/
def linkTimer (s : Sys) (t : Nat) : Sys :=
  let s := (detachTimer s t).setTimer t { s.timer t with stop := false, cpu := true }
  { s with active := s.active ++ [t] }

/-- The `ASSERT` of `__mod_timer`: a timer does not move from one cpu to another. Here `none` is
-1. -/
def MayMod (timerCpu : Option Nat) (cpu : Nat) : Prop := timerCpu = none ∨ timerCpu = some cpu

instance (timerCpu : Option Nat) (cpu : Nat) : Decidable (MayMod timerCpu cpu) :=
  inferInstanceAs (Decidable (_ ∨ _))

/-- `__mod_timer`, for a timer whose `expires` is set. -/
def modTimerLocked (s : Sys) (t : Nat) : Sys :=
  let s := linkTimer s t
  if dueBeforeNext s t then enableTimer { s with nextTimer := some t } (s.expires t) else s

/-- What `mod_timer` stores in `expires`. -/
def modExpires (now cval : Nat) : Nat :=
  if cval < u64 (now + timerPrecision) then u64 (now + timerPrecision) else cval

/-- `mod_timer`. -/
def modTimer (s : Sys) (t now cval : Nat) : Sys :=
  modTimerLocked (s.setTimer t { s.timer t with expires := modExpires now cval }) t

/-- What `__start_delay_timer` makes of a timeout. -/
def startTimeout (timeout : Nat) : Nat :=
  if timeout < timerPrecision then timerPrecision else timeout

/-- `start_timer`. -/
def startTimer (s : Sys) (t now : Nat) : Sys :=
  let timeout := startTimeout (s.timer t).timeout
  modTimerLocked
    (s.setTimer t { s.timer t with timeout := timeout, expires := u64 (now + timeout) }) t

/-- `stop_timer`. -/
def stopTimer (s : Sys) (t : Nat) : Sys :=
  if (s.timer t).cpu then
    (detachTimer s t).setTimer t { s.timer t with stop := true, cpu := false, expires := 0 }
  else s

/-! ## The interrupt -/

/-- The choice of the local `next_timer` in the loop. -/
def earlierTimer (s : Sys) (next : Option Nat) (t : Nat) : Nat :=
  match next with
  | none => t
  | some n => if s.expires t < s.expires n then t else n

/-- One step of `soft_timer_interrupt`. -/
def irqStep (s : Sys) (i : Irq) : Sys :=
  match i.pc with
  | .scan =>
    match s.active with
    | [] => { s with active := i.tmpHead, irq := some { i with tmpHead := [], pc := .leave } }
    | t :: rest =>
      if s.expires t ≤ u64 (i.now + defaultTimerMargin) then
        let pc := if (s.timer t).stop then IrqPc.scan else .callback t
        { s with active := rest, irq := some { i with pc := pc } }
      else
        let next := earlierTimer s i.nextTimer t
        { s with
          active := rest
          irq := some { i with tmpHead := i.tmpHead ++ [t], nextTimer := some next } }
  | .callback _ => { s with irq := some { i with pc := .scan } }
  | .leave =>
    let s := { s with nextTimer := i.nextTimer, irq := none }
    match i.nextTimer with
    | none => s
    | some n => enableTimer s (s.expires n)

/-! ## Sequences of calls -/

inductive Call
  /-- `setup_timer` -/
  | setup (t tval : Nat)
  | start (t now : Nat)
  | mod (t now cval : Nat)
  | stop (t : Nat)
  /-- the hardware interrupt: `timer_interrupt_handler` masks it -/
  | interrupt (now : Nat)
  /-- the interrupt goes on -/
  | irq
  deriving DecidableEq, Repr

/-- Calls of this cpu come outside the interrupt or from a callback. -/
def Sys.callable (s : Sys) : Bool :=
  match s.irq with
  | none => true
  | some i => i.pc != .scan && i.pc != .leave

/-- `stop_timer` may also come from another cpu: it takes the lock and waits
for the callback of its timer. -/
def Sys.stoppable (s : Sys) (t : Nat) : Bool :=
  match s.irq with
  | none => true
  | some i => i.pc != .scan && i.pc != .callback t

def timerStep (s : Sys) : Call → Option Sys
  | .setup t tval =>
    if s.callable then some (s.setTimer t { s.timer t with timeout := tval }) else none
  | .start t now => if s.callable then some (startTimer s t now) else none
  | .mod t now cval => if s.callable then some (modTimer s t now cval) else none
  | .stop t => if s.stoppable t then some (stopTimer s t) else none
  | .interrupt now =>
    if s.irq = none then
      some { s with enabled := false, irq := some ⟨u64 now, [], none, .scan⟩ }
    else none
  | .irq => s.irq.map (irqStep s)

/-! ## What the timers promise -/

/-- Outside the interrupt the hardware is programmed for no later than any
active timer, up to the margin. -/
def NotLate (s : Sys) : Prop :=
  s.irq = none → ∀ t ∈ s.active,
    s.enabled = true ∧ s.compare ≤ s.expires t + defaultTimerMargin

/-- A timer may be started now: `next_timer` is another timer that is still
active, and no callback starts the timer its interrupt is going to program. -/
def StartOk (s : Sys) (t : Nat) : Prop :=
  match s.irq with
  | none => ∀ n, s.nextTimer = some n → n ≠ t ∧ n ∈ s.active
  | some i => i.nextTimer ≠ some t

/-- A timer may be stopped now, if it is not the one the interrupt is going to
program. -/
def StopOk (s : Sys) (t : Nat) : Prop :=
  match s.irq with
  | none => True
  | some i => i.nextTimer ≠ some t

/-- The calls whose arguments and times do not overflow, and that leave the
cached timers alone. -/
def CallOk (s : Sys) : Call → Prop
  | .start t now =>
    now + startTimeout (s.timer t).timeout + defaultTimerMargin < 2 ^ 64 ∧ StartOk s t
  | .mod t now cval =>
    max (now + timerPrecision) cval + defaultTimerMargin < 2 ^ 64 ∧ StartOk s t
  | .stop t => StopOk s t
  | _ => True

/-! ## What the calls do -/

/-- The timers that an interrupt has put aside. -/
def Sys.aside (s : Sys) : List Nat :=
  match s.irq with
  | none => []
  | some i => i.tmpHead

/-- Off both lists. -/
structure Detached (s s' : Sys) (t : Nat) : Prop where
  irq : s'.irq = s.irq.map fun i => { i with tmpHead := i.tmpHead.erase t }
  other : ∀ u, u ≠ t → s'.expires u = s.expires u

/-- A timer is started with the expiry `e`. -/
structure Armed (s s' : Sys) (t e : Nat) : Prop extends Detached s s' t where
  active : s'.active = s.active.erase t ++ [t]
  self : s'.expires t = e
  hardware :
    (s'.nextTimer = some t ∧ s'.compare = e ∧ s'.enabled = true ∧
      ∀ n, s.nextTimer = some n → n ≠ t → e + defaultTimerMargin < s.expires n) ∨
    (s'.nextTimer = s.nextTimer ∧ s'.compare = s.compare ∧ s'.enabled = s.enabled ∧
      ∃ n, s.nextTimer = some n ∧ (n ≠ t → s.expires n ≤ e + defaultTimerMargin))

variable {e : Nat} {s : Sys}

theorem enableTimer_of_ne_zero (he : e ≠ 0) :
    enableTimer s e = { s with compare := e, enabled := true } :=
  if_neg he

theorem linkTimer_expires (s : Sys) (t : Nat) : (linkTimer s t).expires = s.expires := by
  funext u
  by_cases hu : u = t
  · subst hu
    exact (Sys.setTimer_self (detachTimer s u) u _).trans rfl
  · exact (Sys.setTimer_of_ne (detachTimer s t) _ hu).trans rfl

/-- **The spec of `__mod_timer`**, for an expiry that does not overflow. -/
theorem armed_modTimerLocked (s : Sys) (t : Nat) {x : Timer} (hpos : x.expires ≠ 0)
    (hlt : x.expires + defaultTimerMargin < 2 ^ 64) :
    Armed s (modTimerLocked (s.setTimer t x) t) t x.expires := by
  have hself : (linkTimer (s.setTimer t x) t).expires t = x.expires := by
    rw [linkTimer_expires, Sys.setTimer_self]
  have hother : ∀ u, u ≠ t → (linkTimer (s.setTimer t x) t).expires u = s.expires u := by
    intro u hu
    rw [linkTimer_expires, Sys.setTimer_of_ne s x hu]
  simp only [modTimerLocked]
  rw [hself, enableTimer_of_ne_zero hpos]
  have hdue : dueBeforeNext (linkTimer (s.setTimer t x) t) t =
      match s.nextTimer with
      | none => true
      | some n => decide (x.expires + defaultTimerMargin <
          (linkTimer (s.setTimer t x) t).expires n) := by
    rw [dueBeforeNext, hself, u64_of_lt hlt]
    rfl
  split
  case isTrue hd =>
    refine ⟨⟨rfl, hother⟩, rfl, hself, .inl ⟨rfl, rfl, rfl, fun n hn hne => ?_⟩⟩
    rw [hdue, hn] at hd
    rw [← hother n hne]
    exact of_decide_eq_true hd
  case isFalse hd =>
    refine ⟨⟨rfl, hother⟩, rfl, hself, .inr ⟨rfl, rfl, rfl, ?_⟩⟩
    rw [hdue] at hd
    cases hn : s.nextTimer with
    | none =>
      rw [hn] at hd
      exact absurd rfl hd
    | some n =>
      rw [hn] at hd
      refine ⟨n, rfl, fun hne => ?_⟩
      rw [← hother n hne]
      exact Nat.le_of_not_lt fun hlt => hd (decide_eq_true hlt)

theorem startTimeout_pos (timeout : Nat) : 0 < startTimeout timeout := by
  unfold startTimeout
  split
  · decide
  · rename_i h
    exact Nat.lt_of_lt_of_le (by decide) (Nat.le_of_not_lt h)

variable {now : Nat}

theorem armed_startTimer (s : Sys)
    (h : now + startTimeout (s.timer t).timeout + defaultTimerMargin < 2 ^ 64) :
    ∃ e, e ≠ 0 ∧ Armed s (startTimer s t now) t e := by
  have hpos := startTimeout_pos (s.timer t).timeout
  have hu : u64 (now + startTimeout (s.timer t).timeout)
      = now + startTimeout (s.timer t).timeout := u64_of_lt (by omega)
  have hne : u64 (now + startTimeout (s.timer t).timeout) ≠ 0 := by
    rw [hu]
    omega
  exact ⟨_, hne, armed_modTimerLocked s t hne (by dsimp only; rw [hu]; exact h)⟩

theorem modExpires_spec {cval : Nat} (h : now + timerPrecision < 2 ^ 64) :
    modExpires now cval = max (now + timerPrecision) cval := by
  rw [modExpires, u64_of_lt h]
  split
  case isTrue hlt => exact (Nat.max_eq_left (Nat.le_of_lt hlt)).symm
  case isFalse hge => exact (Nat.max_eq_right (Nat.le_of_not_lt hge)).symm

theorem armed_modTimer (s : Sys) {cval : Nat}
    (h : max (now + timerPrecision) cval + defaultTimerMargin < 2 ^ 64) :
    ∃ e, e ≠ 0 ∧ Armed s (modTimer s t now cval) t e := by
  have hle : now + timerPrecision ≤ max (now + timerPrecision) cval := Nat.le_max_left _ _
  have heq : modExpires now cval = max (now + timerPrecision) cval :=
    modExpires_spec (Nat.lt_of_le_of_lt (Nat.le_trans hle (Nat.le_add_right _ _)) h)
  have hne : modExpires now cval ≠ 0 := by
    rw [heq]
    exact Nat.ne_of_gt (Nat.lt_of_lt_of_le (Nat.add_pos_right now (by decide)) hle)
  have hlt : modExpires now cval + defaultTimerMargin < 2 ^ 64 := by
    rw [heq]
    exact h
  refine ⟨modExpires now cval, hne, ?_⟩
  unfold modTimer
  generalize modExpires now cval = e at hne hlt
  exact armed_modTimerLocked s t hne hlt

/-! ## Invariant -/

/-- The timers that the interrupt has passed over: put aside, or already back
on `active`. -/
def Irq.passed (i : Irq) (s : Sys) : List Nat :=
  if i.pc = .leave then s.active else i.tmpHead

/-- Between interrupts, the hardware is at `next_timer` as long as that one is
active. -/
structure Idle (s : Sys) : Prop where
  empty : s.nextTimer = none → s.active = []
  cached : ∀ n, s.nextTimer = some n → n ∈ s.active → s.enabled = true ∧ s.compare = s.expires n
  early : ∀ t ∈ s.active, s.enabled = true ∧ s.compare ≤ s.expires t + defaultTimerMargin

/-- In the interrupt, the local `next_timer` is the first of the timers that
were passed over. -/
structure Scan (s : Sys) (i : Irq) : Prop where
  empty : i.nextTimer = none → i.passed s = []
  mem : ∀ n, i.nextTimer = some n → n ∈ i.passed s
  first : ∀ n, i.nextTimer = some n → ∀ t ∈ i.passed s, s.expires n ≤ s.expires t

structure Inv (s : Sys) : Prop where
  nodup : (s.active ++ s.aside).Nodup
  positive : ∀ t, t ∈ s.active ++ s.aside → s.expires t ≠ 0
  idle : s.irq = none → Idle s
  scan : ∀ i, s.irq = some i → Scan s i

theorem Inv.init : Inv init where
  nodup := List.nodup_nil
  positive t ht := by cases ht
  idle _ := ⟨fun _ => rfl, fun n hn => (by cases hn), fun t ht => (by cases ht)⟩
  scan i hi := by cases hi

theorem Inv.notLate (h : Inv s) : NotLate s := fun hirq => (h.idle hirq).early

section Calls

variable {s s' : Sys} {t : Nat}

theorem Detached.aside (h : Detached s s' t) : s'.aside = s.aside.erase t := by
  simp only [Sys.aside, h.irq]
  cases s.irq <;> rfl

/-- An entry that is on the lists after the detach is another one. -/
theorem mem_erased (hnodup : (s.active ++ s.aside).Nodup) {u : Nat}
    (hu : u ∈ s.active.erase t ++ s.aside.erase t) : u ≠ t ∧ u ∈ s.active ++ s.aside := by
  obtain ⟨ha, hb, -⟩ := List.nodup_append'.1 hnodup
  rcases List.mem_append.1 hu with hu | hu
  · obtain ⟨hne, hmem⟩ := ha.mem_erase_iff.1 hu
    exact ⟨hne, List.mem_append_left _ hmem⟩
  · obtain ⟨hne, hmem⟩ := hb.mem_erase_iff.1 hu
    exact ⟨hne, List.mem_append_right _ hmem⟩

theorem nodup_erased (h : (s.active ++ s.aside).Nodup) :
    (s.active.erase t ++ s.aside.erase t).Nodup := by
  have hsub : (s.active.erase t ++ s.aside.erase t).Sublist (s.active ++ s.aside) :=
    List.Sublist.append List.erase_sublist List.erase_sublist
  exact hsub.nodup h

/-- A timer other than the one that is going to be programmed leaves the list
of those that were passed over. -/
theorem Scan.erase {i i' : Irq} (h : Scan s i) (hnodup : (i.passed s).Nodup)
    (hpassed : i'.passed s' = (i.passed s).erase t) (hnext : i'.nextTimer = i.nextTimer)
    (hother : ∀ u, u ≠ t → s'.expires u = s.expires u) (hne : i.nextTimer ≠ some t) :
    Scan s' i' where
  empty hn := by
    rw [hpassed, h.empty (hnext ▸ hn)]
    rfl
  mem n hn := by
    rw [hnext] at hn
    have hnt : n ≠ t := fun heq => hne (heq ▸ hn)
    rw [hpassed]
    exact (List.mem_erase_of_ne hnt).2 (h.mem n hn)
  first n hn u hu := by
    rw [hnext] at hn
    have hnt : n ≠ t := fun heq => hne (heq ▸ hn)
    rw [hpassed] at hu
    obtain ⟨hut, hmem⟩ := hnodup.mem_erase_iff.1 hu
    rw [hother n hnt, hother u hut]
    exact h.first n hn u hmem

/-- Between interrupts, a timer is started. -/
theorem Idle.arm (h : Idle s) (ha : Armed s s' t e) (hnodup : s.active.Nodup)
    (hok : ∀ n, s.nextTimer = some n → n ≠ t ∧ n ∈ s.active) : Idle s' := by
  have hmem : ∀ u, u ∈ s'.active → u = t ∨ u ≠ t ∧ u ∈ s.active := by
    intro u hu
    rw [ha.active] at hu
    rcases List.mem_append.1 hu with hu | hu
    · exact .inr (hnodup.mem_erase_iff.1 hu)
    · exact .inl (List.mem_singleton.1 hu)
  rcases ha.hardware with ⟨hnext, hcomp, hen, hdue⟩ | ⟨hnext, hcomp, hen, n, hn, hdue⟩
  · -- the hardware is programmed for `t`, which is due before all others
    refine ⟨fun hnone => ?_, fun n hn _ => ?_, fun u hu => ⟨hen, ?_⟩⟩
    · rw [hnext] at hnone
      cases hnone
    · rw [hnext] at hn
      cases hn
      exact ⟨hen, hcomp.trans ha.self.symm⟩
    · rcases hmem u hu with rfl | ⟨hut, hu⟩
      · rw [hcomp, ha.self]
        exact Nat.le_add_right _ _
      · rw [hcomp, ha.other u hut]
        cases hn : s.nextTimer with
        | none =>
          rw [h.empty hn] at hu
          cases hu
        | some n =>
          obtain ⟨hnt, hact⟩ := hok n hn
          have h1 := hdue n hn hnt
          have h2 := (h.cached n hn hact).2
          have h3 := (h.early u hu).2
          omega
  · -- `next_timer` stays, and is due before `t` or soon after it
    obtain ⟨hnt, hact⟩ := hok n hn
    obtain ⟨hen', hcomp'⟩ := h.cached n hn hact
    refine ⟨fun hnone => ?_, fun m hm hmem' => ?_, fun u hu => ?_⟩
    · rw [hnext, hn] at hnone
      cases hnone
    · rw [hnext] at hm
      obtain ⟨hmt, hmact⟩ := hok m hm
      rw [hen, hcomp, ha.other m hmt]
      exact h.cached m hm hmact
    · refine ⟨hen.trans hen', ?_⟩
      rw [hcomp]
      rcases hmem u hu with rfl | ⟨hut, hu⟩
      · rw [ha.self, hcomp']
        exact hdue hnt
      · rw [ha.other u hut]
        exact (h.early u hu).2

/-- **`start_timer` and `mod_timer` keep the invariant.** -/
theorem Inv.arm (h : Inv s) (ha : Armed s s' t e) (hpos : e ≠ 0)
    (hcall : s.callable = true) (hok : StartOk s t) : Inv s' where
  nodup := by
    have hn := nodup_erased (t := t) h.nodup
    rw [ha.active, ha.aside, List.append_assoc]
    refine (List.perm_append_comm_assoc _ _ _).nodup_iff.2 (List.nodup_cons.2 ⟨fun hmem => ?_, hn⟩)
    exact (mem_erased h.nodup hmem).1 rfl
  positive u hu := by
    by_cases hut : u = t
    · rw [hut, ha.self]
      exact hpos
    · rw [ha.other u hut]
      rw [ha.active, ha.aside] at hu
      refine h.positive u (mem_erased h.nodup (t := t) ?_).2
      simpa [hut] using hu
  idle hirq := by
    have hnone : s.irq = none := by
      rw [ha.irq] at hirq
      exact Option.map_eq_none_iff.1 hirq
    have hnodup : s.active.Nodup := (List.nodup_append'.1 h.nodup).1
    rw [StartOk, hnone] at hok
    exact (h.idle hnone).arm ha hnodup hok
  scan i' hi' := by
    rw [ha.irq] at hi'
    obtain ⟨i, hi, rfl⟩ := Option.map_eq_some_iff.1 hi'
    rw [StartOk, hi] at hok
    -- a callback runs, so the timers that were passed over are still aside
    have hpc : i.pc ≠ .leave := by
      intro hpc
      rw [Sys.callable, hi] at hcall
      simp [hpc] at hcall
    have hpassed : i.passed s = s.aside := by
      rw [Irq.passed, if_neg hpc, Sys.aside, hi]
    refine (h.scan i hi).erase (t := t) ?_ ?_ rfl ha.other hok
    · rw [hpassed]
      exact (List.nodup_append'.1 h.nodup).2.1
    · rw [hpassed, Irq.passed, if_neg hpc, Sys.aside, hi]

end Calls

section Stop

variable {s : Sys} {t : Nat}

/-- A stop between interrupts: the cache and the hardware stay as they are. -/
theorem Idle.stop {s' : Sys} (h : Idle s) (hd : Detached s s' t) (hnodup : s.active.Nodup)
    (hactive : s'.active = s.active.erase t) (hnext : s'.nextTimer = s.nextTimer)
    (hcomp : s'.compare = s.compare) (hen : s'.enabled = s.enabled) : Idle s' where
  empty hn := by
    rw [hactive, h.empty (hnext ▸ hn)]
    rfl
  cached n hn hmem := by
    rw [hactive] at hmem
    obtain ⟨hnt, hmem⟩ := hnodup.mem_erase_iff.1 hmem
    rw [hen, hcomp, hd.other n hnt]
    exact h.cached n (hnext ▸ hn) hmem
  early u hu := by
    rw [hactive] at hu
    obtain ⟨hut, hmem⟩ := hnodup.mem_erase_iff.1 hu
    rw [hen, hcomp, hd.other u hut]
    exact h.early u hmem

/-- **`stop_timer` keeps the invariant.** -/
theorem Inv.stop (h : Inv s) (hok : StopOk s t) : Inv (stopTimer s t) := by
  unfold stopTimer
  split
  case isFalse => exact h
  case isTrue =>
    have hd : Detached s ((detachTimer s t).setTimer t
        { s.timer t with stop := true, cpu := false, expires := 0 }) t :=
      ⟨rfl, fun u hu => Sys.setTimer_of_ne (detachTimer s t) _ hu⟩
    obtain ⟨hna, hnb, -⟩ := List.nodup_append'.1 h.nodup
    refine ⟨?_, fun u hu => ?_, fun hirq => ?_, fun i' hi' => ?_⟩
    · rw [hd.aside]
      exact nodup_erased h.nodup
    · rw [hd.aside] at hu
      obtain ⟨hut, hmem⟩ := mem_erased h.nodup hu
      rw [hd.other u hut]
      exact h.positive u hmem
    · have hnone : s.irq = none := Option.map_eq_none_iff.1 (hd.irq.symm.trans hirq)
      exact (h.idle hnone).stop hd hna rfl rfl rfl rfl
    · obtain ⟨i, hi, rfl⟩ := Option.map_eq_some_iff.1 (hd.irq.symm.trans hi')
      rw [StopOk, hi] at hok
      have haside : s.aside = i.tmpHead := by rw [Sys.aside, hi]
      refine (h.scan i hi).erase (t := t) ?_ ?_ rfl hd.other hok
      · unfold Irq.passed
        split
        · exact hna
        · rw [← haside]
          exact hnb
      · unfold Irq.passed
        dsimp only
        split <;> rfl

/-- What does not touch the expiries, the lists and the hardware. -/
theorem Inv.setTimer (h : Inv s) {x : Timer} (hx : x.expires = s.expires t) :
    Inv (s.setTimer t x) := by
  have hexp : (s.setTimer t x).expires = s.expires := by
    funext u
    by_cases hu : u = t
    · subst hu
      rw [Sys.setTimer_self, hx]
    · exact s.setTimer_of_ne x hu
  refine ⟨h.nodup, fun u hu => ?_, fun hirq => ?_, fun i hi => ?_⟩
  · rw [hexp]
    exact h.positive u hu
  · obtain ⟨h1, h2, h3⟩ := h.idle hirq
    refine ⟨h1, fun n hn hm => ?_, fun u hu => ?_⟩
    · rw [hexp]
      exact h2 n hn hm
    · rw [hexp]
      exact h3 u hu
  · obtain ⟨h1, h2, h3⟩ := h.scan i hi
    refine ⟨h1, h2, fun n hn u hu => ?_⟩
    rw [hexp]
    exact h3 n hn u hu

end Stop

/-! ## The interrupt -/

section Interrupt

variable {s : Sys} {i : Irq}

theorem Inv.interrupt (h : Inv s) (hirq : s.irq = none) (now : Nat) :
    Inv { s with enabled := false, irq := some ⟨u64 now, [], none, .scan⟩ } := by
  have haside : s.aside = [] := by rw [Sys.aside, hirq]
  refine ⟨?_, fun u hu => h.positive u ?_, nofun, fun i hi => ?_⟩
  · have hn := h.nodup
    rw [haside] at hn
    exact hn
  · rw [haside]
    exact hu
  · cases hi
    exact ⟨fun _ => rfl, nofun, nofun⟩

/-- Outside its last part the interrupt drops expired timers from `active`, and
enters and leaves callbacks. -/
theorem Inv.rescan (h : Inv s) (hi : s.irq = some i) (hpc : i.pc ≠ .leave) {l : List Nat}
    (hl : l.Sublist s.active) {pc : IrqPc} (hpc' : pc ≠ .leave) :
    Inv { s with active := l, irq := some { i with pc := pc } } := by
  have haside : s.aside = i.tmpHead := by rw [Sys.aside, hi]
  have hsub : (l ++ i.tmpHead).Sublist (s.active ++ s.aside) := by
    rw [haside]
    exact hl.append (List.Sublist.refl _)
  obtain ⟨hempty, hmem, hfirst⟩ := h.scan i hi
  have hpassed : i.passed s = i.tmpHead := if_neg hpc
  have hpassed' : Irq.passed { i with pc := pc }
      { s with active := l, irq := some { i with pc := pc } } = i.tmpHead := if_neg hpc'
  rw [hpassed] at hempty hmem hfirst
  refine ⟨hsub.nodup h.nodup, fun u hu => h.positive u (hsub.subset hu), nofun, fun j hj => ?_⟩
  cases hj
  exact ⟨by rw [hpassed']; exact hempty, by rw [hpassed']; exact hmem,
    by rw [hpassed']; exact hfirst⟩

/-- The first of the timers put aside, with one more. -/
theorem earlierTimer_spec {next : Option Nat} {l : List Nat} (t : Nat)
    (hempty : next = none → l = []) (hmem : ∀ n, next = some n → n ∈ l)
    (hfirst : ∀ n, next = some n → ∀ u ∈ l, s.expires n ≤ s.expires u) :
    earlierTimer s next t ∈ l ++ [t] ∧
      ∀ u ∈ l ++ [t], s.expires (earlierTimer s next t) ≤ s.expires u := by
  have hlast : ∀ u ∈ l ++ [t], u ∈ l ∨ u = t := fun u hu => by simpa using hu
  cases next with
  | none =>
    rw [hempty rfl]
    refine ⟨List.mem_singleton_self t, fun u hu => ?_⟩
    rw [List.mem_singleton.1 hu]
    exact Nat.le_refl _
  | some n =>
    have hold := hfirst n rfl
    simp only [earlierTimer]
    split
    case isTrue hlt =>
      refine ⟨List.mem_append_right _ (List.mem_singleton_self t), fun u hu => ?_⟩
      rcases hlast u hu with hu | rfl
      · exact Nat.le_trans (Nat.le_of_lt hlt) (hold u hu)
      · exact Nat.le_refl _
    case isFalse hge =>
      refine ⟨List.mem_append_left _ (hmem n rfl), fun u hu => ?_⟩
      rcases hlast u hu with hu | rfl
      · exact hold u hu
      · exact Nat.le_of_not_lt hge

/-- A timer that is not due goes aside, and is compared with `next_timer`. -/
theorem Inv.putAside (h : Inv s) (hi : s.irq = some i) (hpc : i.pc = .scan)
    {rest : List Nat} (hact : s.active = t :: rest) :
    Inv { s with
      active := rest
      irq := some { i with
        tmpHead := i.tmpHead ++ [t]
        nextTimer := some (earlierTimer s i.nextTimer t) } } := by
  have haside : s.aside = i.tmpHead := by rw [Sys.aside, hi]
  have hnodup := h.nodup
  rw [hact, haside] at hnodup
  obtain ⟨hempty, hmem, hfirst⟩ := h.scan i hi
  have hnleave : i.pc ≠ .leave := by
    rw [hpc]
    exact nofun
  have hpassed : i.passed s = i.tmpHead := if_neg hnleave
  rw [hpassed] at hempty hmem hfirst
  obtain ⟨hin, hleast⟩ := earlierTimer_spec t hempty hmem hfirst
  have hperm : (rest ++ (i.tmpHead ++ [t])).Perm (t :: rest ++ i.tmpHead) := by
    rw [← List.append_assoc]
    exact List.perm_append_singleton t _
  refine ⟨hperm.nodup_iff.2 hnodup, fun u hu => h.positive u ?_, nofun, fun j hj => ?_⟩
  · rw [hact, haside]
    exact hperm.mem_iff.1 hu
  · cases hj
    refine ⟨nofun, fun n hn => ?_, fun n hn => ?_⟩
    · cases hn
      rw [Irq.passed, if_neg hnleave]
      exact hin
    · cases hn
      rw [Irq.passed, if_neg hnleave]
      exact hleast

/-- The end of the loop: the timers put aside are the active ones. -/
theorem Inv.swap (h : Inv s) (hi : s.irq = some i) (hpc : i.pc = .scan) (hact : s.active = []) :
    Inv { s with active := i.tmpHead, irq := some { i with tmpHead := [], pc := .leave } } := by
  have haside : s.aside = i.tmpHead := by rw [Sys.aside, hi]
  have hnodup := h.nodup
  rw [hact, haside, List.nil_append] at hnodup
  obtain ⟨hempty, hmem, hfirst⟩ := h.scan i hi
  have hpassed : i.passed s = i.tmpHead := if_neg (by rw [hpc]; exact nofun)
  rw [hpassed] at hempty hmem hfirst
  refine ⟨?_, fun u hu => h.positive u ?_, nofun, fun j hj => ?_⟩
  · rw [Sys.aside, List.append_nil]
    exact hnodup
  · rw [Sys.aside, List.append_nil] at hu
    rw [hact, haside]
    exact hu
  · cases hj
    exact ⟨hempty, hmem, hfirst⟩

/-- The hardware is programmed for the first of the timers that are left. -/
theorem Inv.leave (h : Inv s) (hi : s.irq = some i) (hpc : i.pc = .leave) :
    Inv (irqStep s i) := by
  have hnodup : s.active.Nodup := (List.nodup_append'.1 h.nodup).1
  have hpos : ∀ u ∈ s.active, s.expires u ≠ 0 :=
    fun u hu => h.positive u (List.mem_append_left _ hu)
  obtain ⟨hempty, hmem, hfirst⟩ := h.scan i hi
  have hpassed : i.passed s = s.active := if_pos hpc
  rw [hpassed] at hempty hmem hfirst
  simp only [irqStep, hpc]
  cases hn : i.nextTimer with
  | none =>
    have hnil := hempty hn
    refine ⟨?_, fun u hu => ?_, fun _ => ⟨fun _ => hnil, nofun, fun u hu => ?_⟩, nofun⟩
    · rw [Sys.aside, List.append_nil]
      exact hnodup
    · rw [Sys.aside, List.append_nil] at hu
      exact hpos u hu
    · rw [hnil] at hu
      cases hu
  | some n =>
    have hne : s.expires n ≠ 0 := hpos n (hmem n hn)
    dsimp only
    rw [show ({ s with nextTimer := some n, irq := none } : Sys).expires n = s.expires n from rfl,
      enableTimer_of_ne_zero hne]
    refine ⟨?_, fun u hu => ?_, fun _ => ⟨nofun, fun m hm _ => ?_, fun u hu => ⟨rfl, ?_⟩⟩, nofun⟩
    · rw [Sys.aside, List.append_nil]
      exact hnodup
    · rw [Sys.aside, List.append_nil] at hu
      exact hpos u hu
    · cases hm
      exact ⟨rfl, rfl⟩
    · exact Nat.le_trans (hfirst n hn u hu) (Nat.le_add_right _ _)

/-- **One step of the interrupt keeps the invariant.** -/
theorem Inv.irqStep (h : Inv s) (hi : s.irq = some i) : Inv (irqStep s i) := by
  cases hpc : i.pc with
  | leave => exact h.leave hi hpc
  | callback t =>
    simp only [SoftTimer.irqStep, hpc]
    exact h.rescan hi (by rw [hpc]; exact nofun) (List.Sublist.refl _) nofun
  | scan =>
    simp only [SoftTimer.irqStep, hpc]
    split
    case h_1 hact => exact h.swap hi hpc hact
    case h_2 t rest hact =>
      split
      · refine h.rescan hi (by rw [hpc]; exact nofun) ?_ ?_
        · rw [hact]
          exact List.sublist_cons_self t rest
        · split <;> exact nofun
      · exact hpc ▸ h.putAside hi hpc hact

end Interrupt

/-! ## Runs -/

instance (s : Sys) (t : Nat) : Decidable (StartOk s t) :=
  match h : s.irq with
  | none =>
    match hn : s.nextTimer with
    | none => isTrue (by rw [StartOk, h]; intro n hn'; rw [hn] at hn'; cases hn')
    | some n => decidable_of_iff (n ≠ t ∧ n ∈ s.active)
        (by rw [StartOk, h]; simp [hn])
  | some i => decidable_of_iff (i.nextTimer ≠ some t) (by rw [StartOk, h])

instance (s : Sys) (t : Nat) : Decidable (StopOk s t) :=
  match h : s.irq with
  | none => isTrue (by rw [StopOk, h]; trivial)
  | some i => decidable_of_iff (i.nextTimer ≠ some t) (by rw [StopOk, h])

instance (s : Sys) : (c : Call) → Decidable (CallOk s c)
  | .start .. => inferInstanceAs (Decidable (_ ∧ _))
  | .mod .. => inferInstanceAs (Decidable (_ ∧ _))
  | .stop t => inferInstanceAs (Decidable (StopOk s t))
  | .setup .. | .interrupt _ | .irq => isTrue trivial

/-- **One call keeps the invariant.** -/
theorem Inv.step {s' : Sys} {c : Call} (h : Inv s) (hok : CallOk s c)
    (hs : timerStep s c = some s') : Inv s' := by
  cases c with
  | setup t tval =>
    obtain ⟨-, ⟨⟩⟩ := Option.ite_none_right_eq_some.1 hs
    exact h.setTimer rfl
  | start t now =>
    obtain ⟨hcall, ⟨⟩⟩ := Option.ite_none_right_eq_some.1 hs
    obtain ⟨e, hpos, ha⟩ := armed_startTimer s hok.1
    exact h.arm ha hpos hcall hok.2
  | mod t now cval =>
    obtain ⟨hcall, ⟨⟩⟩ := Option.ite_none_right_eq_some.1 hs
    obtain ⟨e, hpos, ha⟩ := armed_modTimer s hok.1
    exact h.arm ha hpos hcall hok.2
  | stop t =>
    obtain ⟨-, ⟨⟩⟩ := Option.ite_none_right_eq_some.1 hs
    exact h.stop hok
  | interrupt now =>
    obtain ⟨hirq, ⟨⟩⟩ := Option.ite_none_right_eq_some.1 hs
    exact h.interrupt hirq now
  | irq =>
    obtain ⟨i, hi, rfl⟩ := Option.map_eq_some_iff.1 hs
    exact h.irqStep hi

/-- **Timers are not late**, as long as a timer is started only while
`next_timer` is another timer that is still active, nobody stops or restarts
the timer that a running interrupt is going to program, and no time
overflows. -/
theorem timers_not_late (l : List Call) (hl : Along timerStep CallOk init l) :
    ∀ pre, pre <+: l → ∀ s, run timerStep init pre = some s → NotLate s := by
  intro pre hpre s hs
  have hstep : ∀ s c s', Inv s → CallOk s c → timerStep s c = some s' → Inv s' :=
    fun s c s' h hok hs => h.step hok hs
  exact (run_invariant hstep Inv.init (along_of_pre hpre hl) hs).notLate

/-- Three timers; the earliest expires and its callback restarts it and stops
the last one. -/
def periodicTimer : List Call :=
  [.setup 1 10000000, .start 1 0, .mod 2 0 4000000, .mod 3 0 30000000, .interrupt 4000000,
    .irq, .irq, .start 2 4000000, .stop 3, .irq, .irq, .irq, .irq]

theorem timers_not_late_periodic :
    (run timerStep init periodicTimer).map
      (fun s => (s.active, s.nextTimer, s.compare, s.enabled))
      = some ([1, 2], some 2, 5000000, true) ∧
    ∀ pre, pre <+: periodicTimer → ∀ s, run timerStep init pre = some s → NotLate s :=
  ⟨by decide +kernel, timers_not_late periodicTimer (by decide +kernel)⟩

/-- A timer of 10ms is stopped and another one of 5ms is started: it is
compared with the stopped timer, whose expiry is now `0`, and the hardware
stays at 10ms. -/
theorem timers_late_after_stop :
    ∃ s, run timerStep init [.setup 1 10000000, .start 1 0, .stop 1, .setup 2 5000000,
        .start 2 0] = some s ∧
      s.active = [2] ∧ s.expires 2 = 5000000 ∧ s.compare = 10000000 ∧ ¬ NotLate s := by
  refine exists_found (P := fun s => s.irq = none ∧ s.active = [2] ∧ s.expires 2 = 5000000 ∧
      s.compare = 10000000) (fun s _ ⟨hirq, hact, hexp, hcomp⟩ =>
    ⟨hact, hexp, hcomp, fun hlate => ?_⟩) (by decide +kernel)
  have hle := (hlate hirq 2 (by rw [hact]; exact List.mem_singleton_self 2)).2
  rw [hexp, hcomp] at hle
  exact absurd hle (by decide)

end Minos.SoftTimer
