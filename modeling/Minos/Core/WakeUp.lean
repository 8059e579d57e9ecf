import Minos.Lib.Run
import Mathlib.Algebra.Group.Nat.Defs
import Mathlib.Logic.Function.Basic

/-!
# Waking a task

`__wake_up` of `core/sched.c`, step by step: one task that blocks again and
again, and any number of wakers that race for it. A waker on another cpu
goes through `wake_up_common`: it takes `task->s_lock`, looks at the state,
waits until the task has left its cpu, writes the result and puts the task on
a ready queue. The delay timer of the task does the same, in an interrupt on
the task's own cpu. An interrupt that hits the task while it is still running
towards `sched()` goes through `wake_up_interrupted`, which only tries the
lock.

`wins` are the wakers of the current block that were told `0`, `puts` counts
the insertions into a ready list since it began, and `left` says whether it
took the task off its queue.
-/

namespace Minos.WakeUp

open Minos.Lib

/-! ## State -/

inductive TaskState
  | running
  | ready
  | waitEvent
  | waking
  deriving DecidableEq, Repr

inductive PendState
  | ok
  | to
  | abort
  deriving DecidableEq, Repr

/-- The arguments of a `__wake_up`: `isFlag` is `event == OS_EVENT_TYPE_FLAG`,
and `data` is a message or ready flags. -/
structure Wake where
  pendState : PendState
  isFlag : Bool
  data : Nat
  deriving DecidableEq, Repr

/-- Where the task is. -/
inductive Pc
  | run
  /-- past `__wait_event`, on the way into the scheduler -/
  | sched
  /-- in the scheduler, off its ready list, with interrupts disabled -/
  | picked
  /-- switched out -/
  | out
  /-- back from `sched()` -/
  | resumed
  deriving DecidableEq, Repr

/-- The list that `task->state_list` is in. -/
inductive Place
  | readyList
  | newList
  deriving DecidableEq, Repr

structure Task where
  state : TaskState
  pendState : PendState
  delay : Nat
  msg : Nat
  flagsRdy : Nat
  /-- `task->cpu != -1` -/
  onCpu : Bool
  place : Option Place
  /-- the delay timer is active -/
  timer : Bool
  pc : Pc
  wins : List Wake
  puts : Nat
  left : Bool
  deriving DecidableEq, Repr

inductive Who
  | cpu (n : Nat)
  | timer
  | irq
  deriving DecidableEq, Repr

/-- Where a waker is: in `wake_up_common`, or, with a name in `irq`, in
`wake_up_interrupted`. -/
inductive Waker
  | idle
  /-- before `s_lock` -/
  | lock (w : Wake)
  /-- with the lock, before the test of the state -/
  | test (w : Wake)
  /-- waiting for `task->cpu == -1` -/
  | spin (w : Wake)
  /-- the result is written, the lock still held -/
  | unlock (timeout : Nat)
  | stopTimer (timeout : Nat)
  /-- before `task_ready` -/
  | ready
  /-- the state was another one: before the unlock -/
  | refused
  | irqTest (w : Wake)
  | irqTry (w : Wake)
  /-- with the lock, before the second test -/
  | irqRetest (w : Wake)
  deriving DecidableEq, Repr

/-- What the task saw when it returned from a block. -/
structure Seen where
  wins : List Wake
  puts : Nat
  left : Bool
  pendState : PendState
  msg : Nat
  flagsRdy : Nat
  deriving DecidableEq, Repr

structure Sys where
  task : Task
  sLock : Option Who
  waker : Who → Waker
  seen : List Seen

/-- A running task. -/
def initTask : Task where
  state := .running
  pendState := .ok
  delay := 0
  msg := 0
  flagsRdy := 0
  onCpu := true
  place := some .readyList
  timer := false
  pc := .run
  wins := []
  puts := 0
  left := false

def init : Sys := ⟨initTask, none, fun _ => .idle, []⟩

def Sys.setWaker (s : Sys) (who : Who) (x : Waker) : Sys :=
  { s with waker := Function.update s.waker who x }

@[simp] theorem Sys.setWaker_self (s : Sys) (who : Who) (x : Waker) :
    (s.setWaker who x).waker who = x := by
  simp [Sys.setWaker]

theorem Sys.setWaker_of_ne (s : Sys) {who b : Who} (x : Waker) (h : b ≠ who) :
    (s.setWaker who x).waker b = s.waker b := by
  simp [Sys.setWaker, h]

/-! ## The task -/

/-- `__wait_event`; a timeout of `-1` is none. -/
def Task.block (t : Task) (timeout : Nat) : Task :=
  { t with
    state := .waitEvent
    pendState := .ok
    delay := if timeout = 2 ^ 32 - 1 then 0 else timeout
    pc := .sched
    wins := []
    puts := 0
    left := false }

/-- `pick_next_task`, and `switch_to_task` when the task is still running;
`other`: another task is picked. -/
def Task.trap (t : Task) (other : Bool) : Task :=
  if t.state = .running then
    if other then { t with state := .ready, onCpu := false, pc := .out }
    else { t with pc := .resumed }
  else { t with place := none, left := true, pc := .picked }

/-- `switch_to_task` for a task that waits. -/
def Task.switch (t : Task) : Task :=
  { t with timer := decide (0 < t.delay), onCpu := false, pc := .out }

/-- The task is switched to again. -/
def Task.schedIn (t : Task) : Task :=
  { t with state := .running, onCpu := true, pc := .resumed }

/-- The return from the blocking call, with `event_pend_down`. -/
def Task.pendDown (t : Task) : Task :=
  { t with pendState := .ok, msg := 0, pc := .run }

def Task.see (t : Task) : Seen := ⟨t.wins, t.puts, t.left, t.pendState, t.msg, t.flagsRdy⟩

/-! ## The wakers -/

/-- The stores of `wake_up_common` and `wake_up_interrupted`. -/
def Task.win (t : Task) (w : Wake) (state : TaskState) : Task :=
  { t with
    pendState := w.pendState
    state := state
    delay := 0
    flagsRdy := if w.isFlag then w.data else 0
    msg := if w.isFlag then 0 else w.data
    wins := w :: t.wins }

/-- `task_ready`: onto the ready list here, or onto `new_list` of the task's
cpu. Both want the task in no list. -/
def Task.makeReady (t : Task) (here : Bool) : Option Task :=
  if t.place = none then
    some (if here then { t with place := some .readyList, puts := t.puts + 1 }
      else { t with place := some .newList })
  else none

/-- The turn of `irqwork_handler` for the task. -/
def Task.irqwork (t : Task) : Task :=
  if t.state = .running then { t with place := none }
  else
    { t with
      place := some .readyList
      puts := t.puts + 1
      state := .ready
      timer := if t.delay ≠ 0 then false else t.timer
      delay := 0 }

/-- The next step of a waker. A spinning waker and one that waits for the
lock do not move. -/
def wakerStep (s : Sys) (who : Who) (here : Bool) : Option Sys :=
  let t := s.task
  match s.waker who with
  | .idle => none
  | .lock w =>
    if s.sLock = none then some ({ s with sLock := some who }.setWaker who (.test w))
    else none
  | .test w =>
    some (s.setWaker who (if t.state = .waitEvent then .spin w else .refused))
  | .spin w =>
    if t.onCpu then none
    else some ({ s with task := t.win w .waking }.setWaker who (.unlock t.delay))
  | .unlock timeout => some ({ s with sLock := none }.setWaker who (.stopTimer timeout))
  | .stopTimer timeout =>
    if timeout ≠ 0 ∧ t.pendState ≠ .to then
      -- `stop_timer` waits for a handler that is running
      if s.waker .timer = .idle then
        some ({ s with task := { t with timer := false } }.setWaker who .ready)
      else none
    else some (s.setWaker who .ready)
  | .ready => (t.makeReady here).map fun t => { s with task := t }.setWaker who .idle
  | .refused => some ({ s with sLock := none }.setWaker who .idle)
  | .irqTest w => some (s.setWaker who (if t.state = .waitEvent then .irqTry w else .idle))
  | .irqTry w =>
    if s.sLock = none then some ({ s with sLock := some who }.setWaker who (.irqRetest w))
    else some (s.setWaker who .idle)
  | .irqRetest w =>
    let t := if t.state = .waitEvent then t.win w .running else t
    some ({ s with task := t, sLock := none }.setWaker who .idle)

/-! ## Interleavings -/

/-- The task is the current one of its cpu, and interrupts are enabled. -/
def Task.Current (t : Task) : Prop := t.pc = .run ∨ t.pc = .sched ∨ t.pc = .resumed

instance (t : Task) : Decidable t.Current := inferInstanceAs (Decidable (_ ∨ _ ∨ _))

inductive Event
  | block (timeout : Nat)
  | trap (other : Bool)
  | switch
  | irqwork
  | schedIn
  | resume
  /-- an event post or an abort, on a cpu where the task is not the current one -/
  | wake (n : Nat) (w : Wake)
  /-- the same, in an interrupt that hits the task -/
  | interrupt (w : Wake)
  /-- the delay timer expires -/
  | fire
  | step (who : Who) (here : Bool)
  deriving DecidableEq, Repr

/-- The task moves when no interrupt is on top of it, and is not switched to
while its cpu runs the handler of its timer. Only the timer wakes with
`PEND_TO`, which `wake_up_interrupted` asserts. -/
def wakeStep (s : Sys) : Event → Option Sys
  | .block timeout =>
    if s.task.pc = .run ∧ s.waker .irq = .idle then
      some { s with task := s.task.block timeout }
    else none
  | .trap other =>
    if s.task.pc = .sched ∧ s.waker .irq = .idle then
      some { s with task := s.task.trap other }
    else none
  | .switch => if s.task.pc = .picked then some { s with task := s.task.switch } else none
  | .irqwork =>
    if s.task.place = some .newList then some { s with task := s.task.irqwork } else none
  | .schedIn =>
    if s.task.pc = .out ∧ s.task.place = some .readyList ∧ s.waker .timer = .idle then
      some { s with task := s.task.schedIn }
    else none
  | .resume =>
    if s.task.pc = .resumed ∧ s.waker .irq = .idle then
      some { s with task := s.task.pendDown, seen := s.task.see :: s.seen }
    else none
  | .wake n w =>
    if s.waker (.cpu n) = .idle ∧ w.pendState ≠ .to then
      some (s.setWaker (.cpu n) (.lock w))
    else none
  | .interrupt w =>
    if s.task.Current ∧ s.waker .irq = .idle ∧ w.pendState ≠ .to then
      some (s.setWaker .irq (.irqTest w))
    else none
  | .fire =>
    if s.task.timer ∧ ¬ s.task.Current then
      some ({ s with task := { s.task with timer := false } }.setWaker .timer
        (.lock ⟨.to, false, 0⟩))
    else none
  | .step who here => wakerStep s who here

/-! ## What waking promises -/

/-- The task has the result of the waker `w`. -/
def Task.Carries (t : Task) (w : Wake) : Prop :=
  t.pendState = w.pendState ∧ t.msg = (if w.isFlag then 0 else w.data) ∧
    t.flagsRdy = (if w.isFlag then w.data else 0)

/-- What was seen at the end of a block: the result of the one waker, and one
insertion if the task had left its queue. -/
def Seen.Ok (o : Seen) : Prop :=
  ∃ w, o.wins = [w] ∧ o.pendState = w.pendState ∧
    o.msg = (if w.isFlag then 0 else w.data) ∧
    o.flagsRdy = (if w.isFlag then w.data else 0) ∧ o.puts = if o.left then 1 else 0

/-- At most one waker of a block succeeds and the task is inserted at most
once, into a queue it is not in; a timer never expires on its running task;
and every return saw the result of the one waker. -/
structure WakeOk (s : Sys) : Prop where
  once : s.task.wins.length ≤ 1
  put : s.task.puts ≤ 1
  unlinked : ∀ who, s.waker who = .ready → s.task.place = none
  expires : s.task.timer = true → ¬ s.task.Current
  seen : ∀ o ∈ s.seen, o.Ok

/-! ## Invariant -/

/-- The phases of a block, as `pc`, `state`, `onCpu`, `place`, `puts` and
`left` of the task. -/
inductive Phase : Pc → TaskState → Bool → Option Place → Nat → Bool → Prop
  | run {puts : Nat} {left : Bool} (h : puts ≤ 1) :
      Phase .run .running true (some .readyList) puts left
  | waiting : Phase .sched .waitEvent true (some .readyList) 0 false
  | hit : Phase .sched .running true (some .readyList) 0 false
  | leaving : Phase .picked .waitEvent true none 0 true
  | blocked : Phase .out .waitEvent false none 0 true
  | waking : Phase .out .waking false none 0 true
  | left : Phase .out .waking false (some .newList) 0 true
  | queued {state : TaskState} (h : state = .waking ∨ state = .ready) :
      Phase .out state false (some .readyList) 1 true
  | yielded : Phase .out .ready false (some .readyList) 0 false
  | resumed {puts : Nat} {left : Bool} (h : puts = if left then 1 else 0) :
      Phase .resumed .running true (some .readyList) puts left

def Task.InPhase (t : Task) : Prop := Phase t.pc t.state t.onCpu t.place t.puts t.left

/-- Nobody has won while the task waits, and one has as long as it returns. -/
structure Task.WinOk (t : Task) : Prop where
  waiting : t.state = .waitEvent → t.wins = []
  once : t.wins.length ≤ 1
  won : t.pc ≠ .run → t.state ≠ .waitEvent → ∃ w, t.wins = [w] ∧ t.Carries w

/-- The waker holds `s_lock`. -/
def Waker.Holds : Waker → Prop
  | .test _ | .spin _ | .unlock _ | .refused | .irqRetest _ => True
  | _ => False

/-- The waker has won and not put the task on a queue yet. -/
def Waker.Won : Waker → Prop
  | .unlock _ | .stopTimer _ | .ready => True
  | _ => False

/-- The waker is on its way to waking with `w`. -/
def Waker.Brings (w : Wake) : Waker → Prop
  | .lock w' | .test w' | .spin w' => w' = w
  | _ => False

/-- The waker knows that the task had this timeout. -/
def Waker.Knows (n : Nat) : Waker → Prop
  | .unlock n' | .stopTimer n' => n' = n
  | _ => False

/-- The waker is in `wake_up_interrupted`. -/
def Waker.InIrq : Waker → Prop
  | .irqTest _ | .irqTry _ | .irqRetest _ => True
  | _ => False

/-- What holds of the waker `who` at `x` when `s_lock` is `l`. -/
structure WakerOk (t : Task) (l : Option Who) (who : Who) (x : Waker) : Prop where
  handler : who = .timer → x ≠ .idle → t.pc = .out ∧ t.timer = false
  irq : who = .irq → x ≠ .idle → t.Current
  own : x.InIrq → who = .irq
  lock : x.Holds → l = some who
  spin : ∀ w, x = .spin w → t.state = .waitEvent
  won : x.Won → t.state = .waking ∧ t.place = none
  brings : ∀ w, x.Brings w → w.pendState = .to → who = .timer
  knows : ∀ n, x.Knows n → t.timer = true → n ≠ 0 ∧ t.pendState ≠ .to
  stopped : x = .ready → t.timer = false

structure Inv (s : Sys) : Prop where
  phase : s.task.InPhase
  wins : s.task.WinOk
  timer : s.task.timer = true →
    s.task.place = none ∧ s.task.pc = .out ∧ (s.task.state = .waitEvent → s.task.delay ≠ 0)
  waker : ∀ who, WakerOk s.task s.sLock who (s.waker who)
  one : ∀ a b, (s.waker a).Won → (s.waker b).Won → a = b
  seen : ∀ o ∈ s.seen, o.Ok

/-- An idle waker fits everywhere. -/
theorem WakerOk.idle {t : Task} {l : Option Who} {who : Who} : WakerOk t l who .idle where
  handler _ hne := absurd rfl hne
  irq _ hne := absurd rfl hne
  own := nofun
  lock := nofun
  spin := nofun
  won := nofun
  brings := nofun
  knows := nofun
  stopped := nofun

theorem Inv.init : Inv init where
  phase := .run (Nat.zero_le 1)
  wins := ⟨nofun, Nat.zero_le 1, fun h => absurd rfl h⟩
  timer := nofun
  waker _ := .idle
  one := nofun
  seen := nofun

theorem Waker.Knows.won {n : Nat} : {x : Waker} → x.Knows n → x.Won
  | .unlock _, _ => trivial
  | .stopTimer _, _ => trivial

/-! ## What a phase says -/

section Phases

variable {t : Task}

theorem Phase.inPhase {pc : Pc} {state : TaskState} {onCpu : Bool} {place : Option Place}
    {puts : Nat} {left : Bool} (h : Phase pc state onCpu place puts left) (hpc : t.pc = pc)
    (hstate : t.state = state) (hcpu : t.onCpu = onCpu) (hplace : t.place = place)
    (hputs : t.puts = puts) (hleft : t.left = left) : t.InPhase := by
  subst hpc hstate hcpu hplace hputs hleft
  exact h

theorem Task.InPhase.puts_le (h : t.InPhase) : t.puts ≤ 1 := by
  cases t
  cases h <;> simp_all
  split <;> simp

theorem Task.InPhase.run (h : t.InPhase) (hpc : t.pc = .run) :
    t.state = .running ∧ t.onCpu = true ∧ t.place = some .readyList := by
  cases t
  cases h <;> simp_all

theorem Task.InPhase.sched (h : t.InPhase) (hpc : t.pc = .sched) :
    (t.state = .waitEvent ∨ t.state = .running) ∧ t.onCpu = true ∧
      t.place = some .readyList ∧ t.puts = 0 ∧ t.left = false := by
  cases t
  cases h <;> simp_all

theorem Task.InPhase.picked (h : t.InPhase) (hpc : t.pc = .picked) :
    t.state = .waitEvent ∧ t.place = none ∧ t.puts = 0 ∧ t.left = true := by
  cases t
  cases h <;> simp_all

theorem Task.InPhase.resumed (h : t.InPhase) (hpc : t.pc = .resumed) :
    t.state = .running ∧ t.onCpu = true ∧ t.place = some .readyList ∧
      t.puts = if t.left then 1 else 0 := by
  cases t
  cases h <;> simp_all

/-- On its queue again, or never off it. -/
theorem Task.InPhase.out (h : t.InPhase) (hpc : t.pc = .out) (hplace : t.place = some .readyList) :
    t.state ≠ .waitEvent ∧ t.puts = if t.left then 1 else 0 := by
  cases t
  cases h <;> simp_all
  rename_i h
  rcases h with h | h <;> rw [h] <;> decide

theorem Task.InPhase.newList (h : t.InPhase) (hplace : t.place = some .newList) :
    t.pc = .out ∧ t.state = .waking ∧ t.onCpu = false ∧ t.puts = 0 ∧ t.left = true := by
  cases t
  cases h <;> simp_all

/-- Waiting and switched out. -/
theorem Task.InPhase.blocked (h : t.InPhase) (hstate : t.state = .waitEvent)
    (hcpu : t.onCpu = false) :
    t.pc = .out ∧ t.place = none ∧ t.puts = 0 ∧ t.left = true := by
  cases t
  cases h <;> simp_all

/-- Won, and in no list yet. -/
theorem Task.InPhase.waking (h : t.InPhase) (hstate : t.state = .waking) (hplace : t.place = none) :
    t.pc = .out ∧ t.onCpu = false ∧ t.puts = 0 ∧ t.left = true := by
  cases t
  cases h <;> simp_all

/-- Waiting, and not yet in the scheduler. -/
theorem Task.InPhase.waiting (h : t.InPhase) (hstate : t.state = .waitEvent) (hcur : t.Current) :
    t.pc = .sched ∧ t.onCpu = true ∧ t.place = some .readyList ∧ t.puts = 0 ∧
      t.left = false := by
  cases t
  cases h <;> simp_all [Task.Current]

end Phases

/-- **The invariant gives what is promised.** -/
theorem Inv.wakeOk {s : Sys} (h : Inv s) : WakeOk s where
  once := h.wins.once
  put := h.phase.puts_le
  unlinked who hw := ((h.waker who).won (by rw [hw]; trivial)).2
  expires ht := by
    rw [Task.Current, (h.timer ht).2.1]
    decide
  seen := h.seen

/-! ## Steps of the task -/

section Tasks

variable {s : Sys}

/-- A waker that has won still has the task in no list. -/
theorem Inv.no_won (h : Inv s) (hno : s.task.state ≠ .waking ∨ s.task.place ≠ none) (who : Who) :
    ¬ (s.waker who).Won := by
  intro hw
  obtain ⟨hstate, hplace⟩ := (h.waker who).won hw
  exact hno.elim (absurd hstate) (absurd hplace)

/-- The task moves, while no waker that has won still has to put it on a
queue. -/
theorem Inv.setTask (h : Inv s) {t' : Task} (hphase : t'.InPhase) (hwins : t'.WinOk)
    (hno : ∀ who, ¬ (s.waker who).Won)
    (htimer : t'.timer = true →
      t'.place = none ∧ t'.pc = .out ∧ (t'.state = .waitEvent → t'.delay ≠ 0))
    (hhandler : s.waker .timer ≠ .idle → t'.pc = .out ∧ t'.timer = false)
    (hspin : ∀ who w, s.waker who = .spin w → t'.state = .waitEvent)
    (hirq : s.waker .irq ≠ .idle → t'.Current) : Inv { s with task := t' } :=
  { h with
    phase := hphase
    wins := hwins
    timer := htimer
    waker := fun who =>
      { h.waker who with
        handler := fun heq hne => hhandler (heq ▸ hne)
        irq := fun heq hne => hirq (heq ▸ hne)
        spin := hspin who
        won := fun hw => absurd hw (hno who)
        knows := fun n hw => absurd hw.won (hno who)
        stopped := fun hw => absurd (show (s.waker who).Won by rw [hw]; trivial) (hno who) } }

/-- Who spins has seen the task wait. -/
theorem Inv.no_spin (h : Inv s) (hstate : s.task.state ≠ .waitEvent) {p : Prop}
    (who : Who) (w : Wake) (hw : s.waker who = .spin w) : p :=
  absurd ((h.waker who).spin w hw) hstate

/-- Off `out`, neither the timer nor its handler is active. -/
theorem Inv.no_timer (h : Inv s) (hpc : s.task.pc ≠ .out) :
    s.task.timer = false ∧ s.waker .timer = .idle := by
  constructor
  · by_contra ht
    exact hpc (h.timer (by simpa using ht)).2.1
  · by_contra hne
    exact hpc ((h.waker .timer).handler rfl hne).1

/-- The task moves by itself, outside interrupts, its timer being off. -/
theorem Inv.moveTask (h : Inv s) {t' : Task} (hpc : s.task.pc ≠ .out)
    (hirq : s.waker .irq = .idle) (ht' : t'.timer = s.task.timer) (hphase : t'.InPhase)
    (hwins : t'.WinOk) (hno : ∀ who, ¬ (s.waker who).Won)
    (hspin : ∀ who w, s.waker who = .spin w → t'.state = .waitEvent) :
    Inv { s with task := t' } := by
  obtain ⟨htimer, hhandler⟩ := h.no_timer hpc
  refine h.setTask hphase hwins hno (fun ht => ?_) (fun hne => absurd hhandler hne) hspin
    (fun hne => absurd hirq hne)
  rw [ht', htimer] at ht
  cases ht

theorem Inv.block (h : Inv s) (hpc : s.task.pc = .run) (hirq : s.waker .irq = .idle)
    (timeout : Nat) : Inv { s with task := s.task.block timeout } := by
  obtain ⟨hstate, hcpu, hplace⟩ := h.phase.run hpc
  exact h.moveTask (by rw [hpc]; decide) hirq rfl
    (Phase.waiting.inPhase rfl rfl hcpu hplace rfl rfl)
    ⟨fun _ => rfl, Nat.zero_le 1, fun _ hne => absurd rfl hne⟩
    (h.no_won (.inl (by rw [hstate]; decide))) (fun _ _ _ => rfl)

theorem Inv.trap (h : Inv s) (hpc : s.task.pc = .sched) (hirq : s.waker .irq = .idle)
    (other : Bool) : Inv { s with task := s.task.trap other } := by
  obtain ⟨hstate, hcpu, hplace, hputs, hleft⟩ := h.phase.sched hpc
  have hout : s.task.pc ≠ .out := by rw [hpc]; decide
  have hno := h.no_won (.inr (by rw [hplace]; decide))
  unfold Task.trap
  rcases hstate with hstate | hstate
  · -- the task waits: it leaves its ready list
    have hrun : ¬ s.task.state = .running := by rw [hstate]; decide
    rw [if_neg hrun]
    exact h.moveTask hout hirq rfl (Phase.leaving.inPhase rfl hstate hcpu rfl hputs rfl)
      ⟨h.wins.waiting, h.wins.once, fun _ hne => absurd hstate hne⟩ hno
      (fun who => (h.waker who).spin)
  · -- an interrupt has woken it: it goes on, at once or later
    have hrun : s.task.state ≠ .waitEvent := by rw [hstate]; decide
    have hwon := h.wins.won (by rw [hpc]; decide) hrun
    rw [if_pos hstate]
    cases other with
    | true =>
      exact h.moveTask hout hirq rfl (Phase.yielded.inPhase rfl rfl rfl hplace hputs hleft)
        ⟨nofun, h.wins.once, fun _ _ => hwon⟩ hno (h.no_spin hrun)
    | false =>
      exact h.moveTask hout hirq rfl
        ((Phase.resumed (by rw [hputs, hleft]; rfl)).inPhase rfl hstate hcpu hplace rfl rfl)
        ⟨h.wins.waiting, h.wins.once, fun _ _ => hwon⟩ hno (h.no_spin hrun)

theorem Inv.switch (h : Inv s) (hpc : s.task.pc = .picked) :
    Inv { s with task := s.task.switch } := by
  obtain ⟨hstate, hplace, hputs, hleft⟩ := h.phase.picked hpc
  obtain ⟨-, hhandler⟩ := h.no_timer (by rw [hpc]; decide)
  refine h.setTask (Phase.blocked.inPhase rfl hstate rfl hplace hputs hleft)
    ⟨h.wins.waiting, h.wins.once, fun _ hne => absurd hstate hne⟩
    (h.no_won (.inl (by rw [hstate]; decide)))
    (fun ht => ⟨hplace, rfl, fun _ => Nat.ne_of_gt (of_decide_eq_true ht)⟩)
    (fun hne => absurd hhandler hne) (fun who => (h.waker who).spin) (fun hne => ?_)
  have hcur := (h.waker .irq).irq rfl hne
  rw [Task.Current, hpc] at hcur
  exact absurd hcur (by decide)

theorem Inv.irqwork (h : Inv s) (hplace : s.task.place = some .newList) :
    Inv { s with task := s.task.irqwork } := by
  obtain ⟨hpc, hstate, hcpu, hputs, hleft⟩ := h.phase.newList hplace
  have hno : s.task.state ≠ .waitEvent := by rw [hstate]; decide
  have hwon := h.wins.won (by rw [hpc]; decide) hno
  -- a task whose timer is active is in no list
  have hoff : s.task.timer = false := by
    by_contra ht
    have hnone := (h.timer (by simpa using ht)).1
    rw [hplace] at hnone
    cases hnone
  rw [Task.irqwork, if_neg (by rw [hstate]; decide), hoff, ite_self]
  exact h.setTask ((Phase.queued (.inr rfl)).inPhase hpc rfl hcpu rfl (by rw [hputs]) hleft)
    ⟨nofun, h.wins.once, fun _ _ => hwon⟩ (h.no_won (.inr (by rw [hplace]; decide))) nofun
    (fun hne => ⟨((h.waker .timer).handler rfl hne).1, rfl⟩) (h.no_spin hno)
    ((h.waker .irq).irq rfl)

theorem Inv.schedIn (h : Inv s) (hpc : s.task.pc = .out)
    (hplace : s.task.place = some .readyList) (hhandler : s.waker .timer = .idle) :
    Inv { s with task := s.task.schedIn } := by
  obtain ⟨hstate, hputs⟩ := h.phase.out hpc hplace
  have hwon := h.wins.won (by rw [hpc]; decide) hstate
  refine h.setTask ((Phase.resumed hputs).inPhase rfl rfl rfl hplace rfl rfl)
    ⟨nofun, h.wins.once, fun _ _ => hwon⟩ (h.no_won (.inr (by rw [hplace]; decide)))
    (fun ht => ?_) (fun hne => absurd hhandler hne) (h.no_spin hstate) (fun _ => .inr (.inr rfl))
  have hnone := (h.timer ht).1
  rw [hplace] at hnone
  cases hnone

theorem Inv.resume (h : Inv s) (hpc : s.task.pc = .resumed) (hirq : s.waker .irq = .idle) :
    Inv { s with task := s.task.pendDown, seen := s.task.see :: s.seen } := by
  obtain ⟨hstate, hcpu, hplace, hputs⟩ := h.phase.resumed hpc
  have hno : s.task.state ≠ .waitEvent := by rw [hstate]; decide
  obtain ⟨w, hw, hpend, hmsg, hflags⟩ := h.wins.won (by rw [hpc]; decide) hno
  have hmoved : Inv { s with task := s.task.pendDown } :=
    h.moveTask (by rw [hpc]; decide) hirq rfl
      ((Phase.run h.phase.puts_le).inPhase rfl hstate hcpu hplace rfl rfl)
      ⟨fun hs => absurd hs hno, h.wins.once, fun hne => absurd rfl hne⟩
      (h.no_won (.inl (by rw [hstate]; decide))) (h.no_spin hno)
  refine { hmoved with seen := fun o ho => ?_ }
  rcases List.mem_cons.1 ho with rfl | ho
  · exact ⟨w, hw, hpend, hmsg, hflags, hputs⟩
  · exact h.seen o ho

end Tasks

/-! ## Steps of the wakers -/

/-- A waker that goes from `y` to `x` has nothing it did not have. -/
structure Waker.Keeps (y x : Waker) : Prop where
  won : x.Won → y.Won
  brings : ∀ w, x.Brings w → y.Brings w
  knows : ∀ n, x.Knows n → y.Knows n
  own : x.InIrq → y.InIrq

section Wakers

variable {s : Sys} {who : Who} {w : Wake} {l : Option Who} {n : Nat}

/-- The waker `who` moves to `x` and leaves `s_lock` at `l`. -/
theorem Inv.setWaker (h : Inv s) {x : Waker} (hx : WakerOk s.task l who x)
    (hothers : ∀ b, b ≠ who → (s.waker b).Holds → l = some b)
    (hone : x.Won → ∀ b, b ≠ who → ¬ (s.waker b).Won) :
    Inv ({ s with sLock := l }.setWaker who x) :=
  { h with
    waker := by
      refine (Function.forall_update_iff s.waker fun b y => WakerOk s.task l b y).2 ⟨hx, ?_⟩
      exact fun b hb => { h.waker b with lock := hothers b hb }
    one := fun a b ha hb => by
      by_cases hwa : a = who
      · by_cases hwb : b = who
        · exact hwa.trans hwb.symm
        · rw [hwa] at ha
          refine absurd ?_ (hone (by simpa using ha) b hwb)
          simpa [Sys.setWaker_of_ne _ _ hwb] using hb
      · have ha' : (s.waker a).Won := by
          simpa [Sys.setWaker_of_ne _ _ hwa] using ha
        by_cases hwb : b = who
        · rw [hwb] at hb
          exact absurd ha' (hone (by simpa using hb) a hwa)
        · exact h.one a b ha' (by simpa [Sys.setWaker_of_ne _ _ hwb] using hb) }

/-- A waker gives up. -/
theorem Inv.stepAside (h : Inv s) : Inv (s.setWaker who .idle) :=
  h.setWaker .idle (fun b _ => (h.waker b).lock) nofun

/-- Who holds `s_lock` holds it alone. -/
theorem Inv.alone (h : Inv s) (hw : (s.waker who).Holds) (b : Who) (hb : b ≠ who) :
    ¬ (s.waker b).Holds := by
  intro hh
  have heq := ((h.waker b).lock hh).symm.trans ((h.waker who).lock hw)
  exact hb (Option.some.inj heq)

/-- So nobody else spins. -/
theorem Inv.alone_spin (h : Inv s) (hw : (s.waker who).Holds) {p : Prop} (b : Who) (w : Wake)
    (hb : (({ s with sLock := l } : Sys).setWaker who .idle).waker b = .spin w) : p := by
  by_cases hbw : b = who
  · rw [hbw] at hb
    simp at hb
  · rw [Sys.setWaker_of_ne _ _ hbw] at hb
    have hb' : s.waker b = .spin w := hb
    exact absurd (show (s.waker b).Holds by rw [hb']; trivial) (h.alone hw b hbw)

theorem Inv.free (h : Inv s) (hfree : s.sLock = none) (b : Who) : ¬ (s.waker b).Holds := by
  intro hh
  have heq := ((h.waker b).lock hh).symm.trans hfree
  cases heq

/-- A waker that is under way goes on. -/
theorem Inv.goOn (h : Inv s) {x y : Waker} (hw : s.waker who = y)
    (hne : y ≠ .idle) (hkeeps : y.Keeps x) (hlock : x.Holds → l = some who)
    (hothers : ∀ b, b ≠ who → (s.waker b).Holds → l = some b)
    (hspin : ∀ w, x = .spin w → s.task.state = .waitEvent)
    (hready : x = .ready → s.task.timer = false) :
    Inv ({ s with sLock := l }.setWaker who x) := by
  have hok : WakerOk s.task s.sLock who y := hw ▸ h.waker who
  refine h.setWaker
    { handler := fun heq _ => hok.handler heq hne
      irq := fun heq _ => hok.irq heq hne
      own := fun hx => hok.own (hkeeps.own hx)
      lock := hlock
      spin := hspin
      won := fun hx => hok.won (hkeeps.won hx)
      brings := fun w hx => hok.brings w (hkeeps.brings w hx)
      knows := fun n hx => hok.knows n (hkeeps.knows n hx)
      stopped := hready } hothers fun hx b hb hb' => hb (h.one b who hb' ?_)
  rw [hw]
  exact hkeeps.won hx

theorem Inv.step_lock (h : Inv s) (hw : s.waker who = .lock w)
    (hfree : s.sLock = none) : Inv ({ s with sLock := some who }.setWaker who (.test w)) :=
  h.goOn hw nofun ⟨id, fun _ => id, fun _ => id, id⟩ (fun _ => rfl)
    (fun b _ hb => absurd hb (h.free hfree b)) nofun nofun

theorem Inv.step_test (h : Inv s) (hw : s.waker who = .test w) :
    Inv (s.setWaker who (if s.task.state = .waitEvent then .spin w else .refused)) := by
  have hlock : s.sLock = some who := (h.waker who).lock (by rw [hw]; trivial)
  split
  case isTrue hstate =>
    exact h.goOn hw nofun ⟨id, fun _ => id, fun _ => id, id⟩ (fun _ => hlock)
      (fun b _ => (h.waker b).lock) (fun _ _ => hstate) nofun
  case isFalse =>
    exact h.goOn hw nofun ⟨id, nofun, fun _ => id, id⟩ (fun _ => hlock)
      (fun b _ => (h.waker b).lock) nofun nofun

/-- The winner: the task waits and is off its cpu. -/
theorem Inv.step_spin (h : Inv s) (hw : s.waker who = .spin w) (hcpu : s.task.onCpu = false) :
    Inv ({ s with task := s.task.win w .waking }.setWaker who (.unlock s.task.delay)) := by
  have hok : WakerOk s.task s.sLock who (.spin w) := hw ▸ h.waker who
  have hstate : s.task.state = .waitEvent := hok.spin w rfl
  have hholds : (s.waker who).Holds := by
    rw [hw]
    trivial
  obtain ⟨hpc, hplace, hputs, hleft⟩ := h.phase.blocked hstate hcpu
  have hwins := h.wins.waiting hstate
  have haway : ∀ b, b ≠ who → (s.setWaker who .idle).waker b = s.waker b :=
    fun b => s.setWaker_of_ne .idle
  -- the waker steps aside, the task takes its result, and the waker goes on
  have haside : Inv (s.setWaker who .idle) := h.stepAside
  have hmoved : Inv { s.setWaker who .idle with task := s.task.win w .waking } :=
    haside.setTask (Phase.waking.inPhase hpc rfl hcpu hplace hputs hleft)
      ⟨nofun, by simp [Task.win, hwins], fun _ _ => ⟨w, by simp [Task.win, hwins], rfl, rfl, rfl⟩⟩
      (haside.no_won (.inl fun hs => absurd (hstate.symm.trans hs) (by decide)))
      (fun _ => ⟨hplace, hpc, nofun⟩) ((haside.waker .timer).handler rfl) (h.alone_spin hholds)
      ((haside.waker .irq).irq rfl)
  have hknows : ∀ n, s.task.delay = n → s.task.timer = true → n ≠ 0 ∧ w.pendState ≠ .to := by
    -- an active timer has a timeout, and is not the one that wakes
    intro n hn ht
    refine ⟨hn ▸ (h.timer ht).2.2 hstate, fun hto => ?_⟩
    have hoff := (hok.handler (hok.brings w rfl hto) nofun).2
    rw [ht] at hoff
    cases hoff
  have hwon : WakerOk (s.task.win w .waking) s.sLock who (.unlock s.task.delay) :=
    { handler := fun heq _ => hok.handler heq nofun
      irq := fun heq _ => hok.irq heq nofun
      own := nofun
      lock := fun _ => hok.lock trivial
      spin := nofun
      won := fun _ => ⟨rfl, hplace⟩
      brings := nofun
      knows := hknows
      stopped := nofun }
  have hgone := hmoved.setWaker hwon
    (fun b hb hh => absurd (haway b hb ▸ hh) (h.alone hholds b hb))
    (fun _ b hb hb' => h.no_won (.inl (by rw [hstate]; decide)) b (haway b hb ▸ hb'))
  simpa [Sys.setWaker] using hgone

/-- Whoever holds the lock may drop it on the way to `x`. -/
theorem Inv.drop (h : Inv s) {x y : Waker} (hw : s.waker who = y) (hholds : y.Holds)
    (hkeeps : y.Keeps x) (hx : ¬ x.Holds) (hspin : ∀ w, x ≠ .spin w) (hready : x ≠ .ready) :
    Inv ({ s with sLock := none }.setWaker who x) := by
  refine h.goOn hw ?_ hkeeps (fun hh => absurd hh hx)
    (fun b hb hh => absurd hh (h.alone (hw ▸ hholds) b hb)) (fun w hw => absurd hw (hspin w))
    (fun hr => absurd hr hready)
  rintro rfl
  exact hholds

theorem Inv.step_unlock (h : Inv s) (hw : s.waker who = .unlock n) :
    Inv ({ s with sLock := none }.setWaker who (.stopTimer n)) :=
  h.drop hw trivial ⟨id, fun _ => id, fun _ => id, id⟩ id nofun nofun

theorem Inv.step_refused (h : Inv s) (hw : s.waker who = .refused) :
    Inv ({ s with sLock := none }.setWaker who .idle) :=
  h.drop hw trivial ⟨id, fun _ => id, fun _ => id, id⟩ id nofun nofun

/-- A timer can be stopped at any time. -/
theorem Inv.timerOff (h : Inv s) : Inv { s with task := { s.task with timer := false } } :=
  { h with
    wins := ⟨h.wins.waiting, h.wins.once, h.wins.won⟩
    timer := nofun
    waker := fun who =>
      { h.waker who with
        handler := fun heq hne => ⟨((h.waker who).handler heq hne).1, rfl⟩
        knows := nofun
        stopped := fun _ => rfl } }

/-- The winner goes on to `task_ready`, the timer being off. -/
theorem Inv.toReady (h : Inv s) (hw : s.waker who = .stopTimer n)
    (hoff : s.task.timer = false) : Inv (s.setWaker who .ready) :=
  h.goOn hw nofun ⟨id, fun _ => id, nofun, id⟩ nofun (fun b _ => (h.waker b).lock) nofun
    (fun _ => hoff)

theorem Inv.step_stopTimer (h : Inv s) (hw : s.waker who = .stopTimer n) {s' : Sys}
    (hstep : (if n ≠ 0 ∧ s.task.pendState ≠ .to then
      if s.waker .timer = .idle then
        some ({ s with task := { s.task with timer := false } }.setWaker who .ready)
      else none
      else some (s.setWaker who .ready)) = some s') : Inv s' := by
  split at hstep
  case isTrue =>
    obtain ⟨-, ⟨⟩⟩ := Option.ite_none_right_eq_some.1 hstep
    exact h.timerOff.toReady hw rfl
  case isFalse hno =>
    cases hstep
    refine h.toReady hw ?_
    by_contra ht
    exact hno ((h.waker who).knows n (by rw [hw]; rfl) (by simpa using ht))

/-- The winner puts the task on a queue and is done. -/
theorem Inv.step_ready (h : Inv s) (hw : s.waker who = .ready) (here : Bool) {t : Task}
    (ht : s.task.makeReady here = some t) : Inv ({ s with task := t }.setWaker who .idle) := by
  have hok : WakerOk s.task s.sLock who .ready := hw ▸ h.waker who
  obtain ⟨hstate, hplace⟩ := hok.won trivial
  obtain ⟨hpc, hcpu, hputs, hleft⟩ := h.phase.waking hstate hplace
  have hoff : s.task.timer = false := hok.stopped rfl
  have hcarry := h.wins.won (by rw [hpc]; decide) (by rw [hstate]; decide)
  have haside : Inv (s.setWaker who .idle) := h.stepAside
  have hnowon : ∀ b, ¬ ((s.setWaker who .idle).waker b).Won := by
    intro b hb
    by_cases hbw : b = who
    · rw [hbw] at hb
      simp [Waker.Won] at hb
    · rw [s.setWaker_of_ne .idle hbw] at hb
      exact hbw (h.one b who hb (by rw [hw]; trivial))
  have hnospin : ∀ b w, (s.setWaker who .idle).waker b = .spin w → t.state = .waitEvent :=
    haside.no_spin (by rw [show (s.setWaker who .idle).task = s.task from rfl, hstate]; decide)
  rw [Task.makeReady, if_pos hplace] at ht
  cases ht
  cases here with
  | true =>
    exact haside.setTask
      ((Phase.queued (.inl rfl)).inPhase hpc hstate hcpu rfl (by simp [hputs]) hleft)
      ⟨h.wins.waiting, h.wins.once, fun _ _ => hcarry⟩ hnowon
      (fun ht => absurd (hoff.symm.trans ht) (by decide)) (fun _ => ⟨hpc, hoff⟩) hnospin
      ((haside.waker .irq).irq rfl)
  | false =>
    exact haside.setTask (Phase.left.inPhase hpc hstate hcpu rfl hputs hleft)
      ⟨h.wins.waiting, h.wins.once, fun _ _ => hcarry⟩ hnowon
      (fun ht => absurd (hoff.symm.trans ht) (by decide)) (fun _ => ⟨hpc, hoff⟩) hnospin
      ((haside.waker .irq).irq rfl)

theorem Inv.step_irqTest (h : Inv s) (hw : s.waker who = .irqTest w) :
    Inv (s.setWaker who (if s.task.state = .waitEvent then .irqTry w else .idle)) := by
  split
  · exact h.goOn hw nofun ⟨id, fun _ => id, fun _ => id, id⟩ nofun (fun b _ => (h.waker b).lock)
      nofun nofun
  · exact h.stepAside

theorem Inv.step_irqTry (h : Inv s) (hw : s.waker who = .irqTry w) (hfree : s.sLock = none) :
    Inv ({ s with sLock := some who }.setWaker who (.irqRetest w)) :=
  h.goOn hw nofun ⟨id, fun _ => id, fun _ => id, id⟩ (fun _ => rfl)
    (fun b _ hb => absurd hb (h.free hfree b)) nofun nofun

/-- An interrupt wakes the task that has not got to the scheduler yet. -/
theorem Inv.step_irqRetest (h : Inv s) (hw : s.waker who = .irqRetest w) :
    Inv (({ s with
      task := if s.task.state = .waitEvent then s.task.win w .running else s.task
      sLock := none } : Sys).setWaker who .idle) := by
  have hok : WakerOk s.task s.sLock who (.irqRetest w) := hw ▸ h.waker who
  have haside : Inv (({ s with sLock := none } : Sys).setWaker who .idle) :=
    h.drop hw trivial ⟨id, fun _ => id, fun _ => id, nofun⟩ id nofun nofun
  split
  case isFalse => exact haside
  case isTrue hstate =>
    have hirq : who = .irq := hok.own trivial
    have hcur : s.task.Current := hok.irq hirq nofun
    obtain ⟨hpc, hcpu, hplace, hputs, hleft⟩ := h.phase.waiting hstate hcur
    have hwins := h.wins.waiting hstate
    -- the lock was this interrupt's, so nobody spins
    refine haside.moveTask (fun hout => absurd (hpc.symm.trans hout) (by decide))
      (by rw [hirq, Sys.setWaker_self]) rfl (Phase.hit.inPhase hpc rfl hcpu hplace hputs hleft)
      ⟨nofun, by simp [Task.win, hwins], fun _ _ => ⟨w, by simp [Task.win, hwins], rfl, rfl, rfl⟩⟩
      (haside.no_won (.inl fun hs => absurd (hstate.symm.trans hs) (by decide)))
      (h.alone_spin (by rw [hw]; trivial))

end Wakers

/-! ## Runs -/

/-- **One step of a waker keeps the invariant.** -/
theorem Inv.wakerStep {s s' : Sys} (h : Inv s) {who : Who} {here : Bool}
    (hstep : wakerStep s who here = some s') : Inv s' := by
  simp only [WakeUp.wakerStep] at hstep
  split at hstep
  case h_1 => cases hstep
  case h_2 w hw =>
    split at hstep <;> cases hstep
    exact h.step_lock hw ‹_›
  case h_3 w hw =>
    cases hstep
    exact h.step_test hw
  case h_4 w hw =>
    split at hstep <;> cases hstep
    exact h.step_spin hw (by simpa using ‹¬ s.task.onCpu = true›)
  case h_5 n hw =>
    cases hstep
    exact h.step_unlock hw
  case h_6 n hw => exact h.step_stopTimer hw hstep
  case h_7 hw =>
    obtain ⟨t, ht, rfl⟩ := Option.map_eq_some_iff.1 hstep
    exact h.step_ready hw here ht
  case h_8 hw =>
    cases hstep
    exact h.step_refused hw
  case h_9 w hw =>
    cases hstep
    exact h.step_irqTest hw
  case h_10 w hw =>
    split at hstep <;> cases hstep
    · exact h.step_irqTry hw ‹_›
    · exact h.stepAside
  case h_11 w hw =>
    cases hstep
    exact h.step_irqRetest hw

/-- A new call of `wake_up_common` starts with nothing; only the timer says
`PEND_TO`. -/
theorem Inv.start {s : Sys} (h : Inv s) {who : Who} {w : Wake} (hirq : who ≠ .irq)
    (htimer : who = .timer → s.task.pc = .out ∧ s.task.timer = false)
    (hto : w.pendState = .to → who = .timer) : Inv (s.setWaker who (.lock w)) :=
  h.setWaker
    { handler := fun hw _ => htimer hw
      irq := fun hw => absurd hw hirq
      own := nofun
      lock := nofun
      spin := nofun
      won := nofun
      brings := fun _ hx hp => hto (hx ▸ hp)
      knows := nofun
      stopped := nofun } (fun b _ => (h.waker b).lock) nofun

theorem Inv.interrupt {s : Sys} (h : Inv s) (hcur : s.task.Current) (w : Wake) :
    Inv (s.setWaker .irq (.irqTest w)) :=
  h.setWaker
    { handler := nofun
      irq := fun _ _ => hcur
      own := fun _ => rfl
      lock := nofun
      spin := nofun
      won := nofun
      brings := nofun
      knows := nofun
      stopped := nofun } (fun b _ => (h.waker b).lock) nofun

/-- **One step keeps the invariant.** -/
theorem Inv.step {s s' : Sys} {e : Event} (h : Inv s) (hstep : wakeStep s e = some s') :
    Inv s' := by
  cases e with
  | step who here => exact h.wakerStep hstep
  | block timeout =>
    obtain ⟨hg, ⟨⟩⟩ := Option.ite_none_right_eq_some.1 hstep
    exact h.block hg.1 hg.2 timeout
  | trap other =>
    obtain ⟨hg, ⟨⟩⟩ := Option.ite_none_right_eq_some.1 hstep
    exact h.trap hg.1 hg.2 other
  | switch =>
    obtain ⟨hg, ⟨⟩⟩ := Option.ite_none_right_eq_some.1 hstep
    exact h.switch hg
  | irqwork =>
    obtain ⟨hg, ⟨⟩⟩ := Option.ite_none_right_eq_some.1 hstep
    exact h.irqwork hg
  | schedIn =>
    obtain ⟨hg, ⟨⟩⟩ := Option.ite_none_right_eq_some.1 hstep
    exact h.schedIn hg.1 hg.2.1 hg.2.2
  | resume =>
    obtain ⟨hg, ⟨⟩⟩ := Option.ite_none_right_eq_some.1 hstep
    exact h.resume hg.1 hg.2
  | wake n w =>
    obtain ⟨hg, ⟨⟩⟩ := Option.ite_none_right_eq_some.1 hstep
    exact h.start nofun nofun fun hto => absurd hto hg.2
  | interrupt w =>
    obtain ⟨hg, ⟨⟩⟩ := Option.ite_none_right_eq_some.1 hstep
    exact h.interrupt hg.1 w
  | fire =>
    obtain ⟨hg, ⟨⟩⟩ := Option.ite_none_right_eq_some.1 hstep
    -- the task has left its cpu
    exact h.timerOff.start nofun (fun _ => ⟨(h.timer hg.1).2.1, rfl⟩) fun _ => rfl

/-- **Racing wakers of a task.** Whatever the interleaving of the task, the
wakers, the interrupts and the timer, at most one waker of a block succeeds;
the blocking call returns with the result of that one; and a task that was
switched out is put on a ready queue once, one that was not stays on its
queue. -/
theorem wakeUp_ok (l : List Event) (s : Sys) (h : run wakeStep init l = some s) : WakeOk s := by
  have hstep : ∀ s e s', Inv s → True → wakeStep s e = some s' → Inv s' :=
    fun s e s' hs _ he => hs.step he
  exact (run_invariant hstep Inv.init (along_true init l) h).wakeOk

/-- A post, an abort and the timeout race for a task that is switched out;
the post is first, and stops the timer after its handler has been refused. -/
def threeWakers : List Event :=
  [Event.block 5, .trap true, .switch, .wake 1 ⟨.ok, false, 7⟩, .wake 2 ⟨.abort, false, 0⟩,
    .fire] ++
    List.replicate 4 (Event.step (.cpu 1) false) ++ List.replicate 3 (Event.step .timer true) ++
    List.replicate 2 (Event.step (.cpu 1) false) ++ [Event.irqwork, .schedIn] ++
    List.replicate 3 (Event.step (.cpu 2) true) ++ [Event.resume]

theorem wakeUp_ok_threeWakers :
    (run wakeStep init threeWakers).map Sys.seen
      = some [⟨[⟨.ok, false, 7⟩], 1, true, .ok, 7, 0⟩] ∧
    ∀ s, run wakeStep init threeWakers = some s → WakeOk s :=
  ⟨by decide +kernel, wakeUp_ok threeWakers⟩

/-- An interrupt on the cpu of the task posts between `__wait_event` and the
scheduler. -/
def postInInterrupt : List Event :=
  [Event.block 5, .interrupt ⟨.ok, false, 7⟩] ++ List.replicate 3 (Event.step .irq true) ++
    [Event.trap false, .resume]

/-- A task woken before it reached the scheduler returns without having been
put on a ready queue: it never left the one it is in. -/
theorem wakeUp_not_requeued :
    ∃ s o, run wakeStep init postInInterrupt = some s ∧ o ∈ s.seen ∧
      o.wins = [⟨.ok, false, 7⟩] ∧ o.puts ≠ 1 := by
  have hrun : (run wakeStep init postInInterrupt).map Sys.seen
      = some [⟨[⟨.ok, false, 7⟩], 0, false, .ok, 7, 0⟩] := by decide +kernel
  obtain ⟨s, hs, hseen⟩ := Option.map_eq_some_iff.1 hrun
  exact ⟨s, _, hs, by rw [hseen]; exact List.mem_singleton_self _, rfl, by decide⟩

end Minos.WakeUp
