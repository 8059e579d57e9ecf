import Minos.Core.WakeUp
import Minos.Virt.Vgic

/-!
# Idle vcpus

A vcpu without work blocks in `vcpu_idle` (`virt/vm.c`), and `send_virq`
(`virt/virq.c`) wakes it. The sender sets the pending bit without a lock and
then calls `wake` (`core/event.c`): on another cpu under `ev->lock`, in an
interrupt that hits the vcpu without it. The vcpu looks at its bitmaps twice,
the second time under `ev->lock` with interrupts disabled, and only then
changes its state, drops the lock and calls `sched()`.

The task and the steps of `__wake_up` are those of `Minos.WakeUp`; `wk` is
its state. The reads of `vcpu_can_idle` are single steps, so a line can be
raised between any two of them.
-/

namespace Minos.VcpuIdle

open Minos.Lib Minos.Virq
open Minos.WakeUp (Who Wake Waker wakeStep wakerStep)

/-! ## State -/

/-- The reads of `vcpu_can_idle`. -/
inductive Read
  | vmState
  | needStop
  | pending
  | active
  deriving DecidableEq, Repr

/-- Where the vcpu is in `wait_event`. -/
inductive IdlePc
  /-- outside `vcpu_idle` -/
  | run
  /-- before a read of the first or, with the lock, the second check -/
  | check (locked : Bool) (r : Read)
  /-- before `ev->lock` -/
  | lock
  /-- before `__wait_event` -/
  | wait
  | unlock (needWait : Bool)
  /-- past the lock, in or before `sched()` -/
  | sched
  deriving DecidableEq, Repr

/-- Where a `send_virq` is. -/
inductive SendPc
  | idle
  /-- the state of the VM was checked -/
  | mark (cur : Nat) (r : DescRef)
  /-- the bit is set, before `wake` -/
  | kick
  /-- in `__wake_up` -/
  | wake
  deriving DecidableEq, Repr

inductive Holder
  | vcpu
  | sender (n : Nat)
  deriving DecidableEq, Repr

structure Sys where
  wk : WakeUp.Sys
  vm : Vm
  /-- `is_task_need_stop` -/
  needStop : Bool
  evLock : Option Holder
  pc : IdlePc
  /-- senders on cpus where the vcpu is not the current task -/
  send : Nat → SendPc
  /-- a sender in an interrupt that hits the vcpu -/
  irq : SendPc

def init (vm : Vm) (needStop : Bool) : Sys :=
  ⟨WakeUp.init, vm, needStop, none, .run, fun _ => .idle, .idle⟩

def Sys.setSend (s : Sys) (n : Nat) (x : SendPc) : Sys :=
  { s with send := Function.update s.send n x }

@[simp] theorem Sys.setSend_self (s : Sys) (n : Nat) (x : SendPc) :
    (s.setSend n x).send n = x := by
  simp [Sys.setSend]

theorem Sys.setSend_of_ne (s : Sys) {n m : Nat} (x : SendPc) (h : m ≠ n) :
    (s.setSend n x).send m = s.send m := by
  simp [Sys.setSend, h]

/-! ## The vcpu -/

section Model

variable (v : Nat)

/-- One read of `vcpu_can_idle`: whether it lets the vcpu go on. The last two
are the halves of `vcpu_has_irq`. -/
def vcpuCanIdle (s : Sys) : Read → Bool
  | .vmState => s.vm.state = .online
  | .needStop => !s.needStop
  | .pending =>
    vmIrqCount s.vm ≤ findFirstBit (s.vm.vcpu v).pendingBitmap (vmIrqCount s.vm)
  | .active =>
    vmIrqCount s.vm ≤ findFirstBit (s.vm.vcpu v).activeBitmap (vmIrqCount s.vm)

/-- What follows a read that lets the vcpu go on. -/
def Read.next (locked : Bool) : Read → IdlePc
  | .vmState => .check locked .needStop
  | .needStop => .check locked .pending
  | .pending => .check locked .active
  | .active => if locked then .wait else .lock

/-- `wait_event(&vcpu->vcpu_event, vcpu_can_idle(vcpu), 0)`, up to `sched()`. -/
def vcpuIdle (s : Sys) : Option Sys :=
  match s.pc with
  | .run => if s.wk.task.pc = .run then some { s with pc := .check false .vmState } else none
  | .check locked r =>
    if vcpuCanIdle v s r then some { s with pc := r.next locked }
    else some { s with pc := if locked then .unlock false else .run }
  | .lock =>
    if s.evLock = none then
      some { s with evLock := some .vcpu, pc := .check true .vmState }
    else none
  | .wait => (wakeStep s.wk (.block 0)).map fun wk => { s with wk := wk, pc := .unlock true }
  | .unlock needWait =>
    some { s with evLock := none, pc := if needWait then .sched else .run }
  | .sched => none

/-! ## The senders -/

/-- The start of a `send_virq`: the state of the VM is looked at. -/
def sendStart (vm : Vm) (cur : Nat) (r : Option DescRef) : Option SendPc :=
  match sendVirq vm cur v r, r with
  | some (.ok _), some r => some (.mark cur r)
  | some _, _ => some .idle
  | none, _ => none

/-- What `wake` passes to `__wake_up`. -/
def wakeArgs : Wake := ⟨.ok, false, 0⟩

/-- A sender on a cpu where the vcpu is not the current task. -/
def senderStep (s : Sys) (n : Nat) : Option Sys :=
  match s.send n with
  | .idle => none
  | .mark cur r => some ({ s with vm := sendVirqPending s.vm cur v r }.setSend n .kick)
  | .kick =>
    if s.evLock = none then
      (wakeStep s.wk (.wake n wakeArgs)).map fun wk =>
        { s with wk := wk, evLock := some (.sender n) }.setSend n .wake
    else none
  | .wake =>
    if s.wk.waker (.cpu n) = .idle then some ({ s with evLock := none }.setSend n .idle)
    else none

/-- A sender in an interrupt that hits the vcpu: `wake` finds the task to be
the current one and takes no lock. -/
def handlerStep (s : Sys) : Option Sys :=
  match s.irq with
  | .idle => none
  | .mark cur r => some { s with vm := sendVirqPending s.vm cur v r, irq := .kick }
  | .kick =>
    (wakeStep s.wk (.interrupt wakeArgs)).map fun wk => { s with wk := wk, irq := .wake }
  | .wake => if s.wk.waker .irq = .idle then some { s with irq := .idle } else none

/-! ## Interleavings -/

/-- Interrupts are disabled from `spin_lock_irqsave` to the unlock. -/
def IdlePc.locked : IdlePc → Bool
  | .check true _ | .wait | .unlock _ => true
  | _ => false

/-- Steps of the task in and after `sched()`, of its timer, and of wakers. The
other steps of a task are those of `vcpuIdle` and of the senders. -/
def taskEvent (s : Sys) : WakeUp.Event → Bool
  | .trap _ => s.pc = .sched && s.irq = .idle
  | .switch | .irqwork | .schedIn | .resume => s.irq = .idle
  | .fire | .step _ _ => true
  | _ => false

inductive Event
  | vcpu
  | task (e : WakeUp.Event)
  /-- `send_virq` is called on the cpu `n` -/
  | send (n cur : Nat) (r : Option DescRef)
  /-- `wake` is called there for another reason -/
  | wake (n : Nat)
  | sender (n : Nat)
  /-- an interrupt hits the vcpu and calls `send_virq` -/
  | interrupt (cur : Nat) (r : Option DescRef)
  /-- an interrupt hits the vcpu and calls `wake` -/
  | interruptWake
  | handler
  | vmState (state : VmState)
  | needStop (b : Bool)
  /-- the line is injected, or the VM is reset -/
  | clearPending (i : Nat)
  | setActive (i : Nat)
  | clearActive (i : Nat)

def Sys.setVs (s : Sys) (vs : VirqStruct) : Sys := { s with vm := s.vm.setVcpu v vs }

def idleStep (s : Sys) : Event → Option Sys
  | .vcpu => if s.irq = .idle then vcpuIdle v s else none
  | .task e =>
    if taskEvent s e then
      (wakeStep s.wk e).map fun wk => { s with wk := wk, pc := if e = .resume then .run else s.pc }
    else none
  | .send n cur r =>
    if s.send n = .idle then (sendStart v s.vm cur r).map (s.setSend n) else none
  | .wake n => if s.send n = .idle then some (s.setSend n .kick) else none
  | .sender n => senderStep v s n
  | .interrupt cur r =>
    if s.wk.task.Current ∧ s.pc.locked = false ∧ s.irq = .idle then
      (sendStart v s.vm cur r).map fun x => { s with irq := x }
    else none
  | .interruptWake =>
    if s.wk.task.Current ∧ s.pc.locked = false ∧ s.irq = .idle then
      some { s with irq := .kick }
    else none
  | .handler => handlerStep v s
  | .vmState state => some { s with vm := { s.vm with state := state } }
  | .needStop b => some { s with needStop := b }
  | .clearPending i =>
    let vs := s.vm.vcpu v
    some (s.setVs v { vs with pendingBitmap := clearBit i vs.pendingBitmap })
  | .setActive i =>
    let vs := s.vm.vcpu v
    some (s.setVs v { vs with activeBitmap := setBit i vs.activeBitmap })
  | .clearActive i =>
    let vs := s.vm.vcpu v
    some (s.setVs v { vs with activeBitmap := clearBit i vs.activeBitmap })

/-! ## What idling promises -/

/-- One of the lines of the vcpu is pending. -/
def Pending (s : Sys) : Prop :=
  ∃ i, i < vmIrqCount s.vm ∧ testBit i (s.vm.vcpu v).pendingBitmap = true

end Model

/-- The waker has not decided yet. -/
def Undecided : Waker → Prop
  | .lock _ | .test _ | .spin _ | .irqTest _ | .irqTry _ | .irqRetest _ => True
  | _ => False

/-- A wake-up of the vcpu is in progress: a sender is about to call `wake`, or
is in `__wake_up` and has not found the task awake or woken it. -/
def Coming (s : Sys) : Prop :=
  (∃ n, s.send n = .kick) ∨ s.irq = .kick ∨ ∃ who, Undecided (s.wk.waker who)

/-! ## What a step of a waker does -/

/-- `s_lock` is held by a waker that is past it. -/
def Held (s : WakeUp.Sys) : Prop := ∀ who, s.sLock = some who → (s.waker who).Holds

/-- What the rest of the system sees of a step of the waker `who`. -/
structure Moved (s s' : WakeUp.Sys) (who : Who) : Prop where
  busy : s.waker who ≠ .idle
  others : ∀ b, b ≠ who → s'.waker b = s.waker b
  state : s'.task.state = .waitEvent → s.task.state = .waitEvent
  pc : s'.task.pc = s.task.pc
  delay : s.task.delay = 0 → s'.task.delay = 0
  timer : s.task.timer = false → s'.task.timer = false
  refused : s'.waker who = .refused → s'.task.state ≠ .waitEvent
  held : Held s → Held s'
  -- a waker gives up on a waiting task only when it finds the lock taken
  goesOn : Undecided (s.waker who) → s'.task.state = .waitEvent →
    Undecided (s'.waker who) ∨ (∃ w, s.waker who = .irqTry w) ∧ s.sLock ≠ none

section Moved

variable {s : WakeUp.Sys} {who : Who}

/-- The lock after a step that moves `who` to `x` and leaves it at `l`. -/
theorem Held.setWaker {l : Option Who} {x : Waker} (h : Held s)
    (hx : l = some who → x.Holds) (hl : ∀ b, b ≠ who → l = some b → s.sLock = some b) :
    Held ({ s with sLock := l }.setWaker who x) := by
  intro b hb
  by_cases hbw : b = who
  · subst hbw
    rw [WakeUp.Sys.setWaker_self]
    exact hx hb
  · rw [WakeUp.Sys.setWaker_of_ne _ _ hbw]
    exact h b (hl b hbw hb)

/-- A step that leaves the task alone. -/
theorem Moved.setWaker {l : Option Who} {x : Waker} (hbusy : s.waker who ≠ .idle)
    (hrefused : x = .refused → s.task.state ≠ .waitEvent)
    (hx : Held s → l = some who → x.Holds)
    (hl : ∀ b, b ≠ who → l = some b → s.sLock = some b)
    (hgo : Undecided (s.waker who) → s.task.state = .waitEvent →
      Undecided x ∨ (∃ w, s.waker who = .irqTry w) ∧ s.sLock ≠ none) :
    Moved s ({ s with sLock := l }.setWaker who x) who where
  busy := hbusy
  others _ hb := WakeUp.Sys.setWaker_of_ne _ _ hb
  state := id
  pc := rfl
  delay := id
  timer := id
  refused hr := hrefused (by simpa using hr)
  held h := h.setWaker (hx h) hl
  goesOn hu hs := by simpa using hgo hu hs

/-- The waker takes `s_lock`. -/
theorem Moved.take {x : Waker} (hbusy : s.waker who ≠ .idle) (hx : x.Holds) (hu : Undecided x) :
    Moved s ({ s with sLock := some who }.setWaker who x) who :=
  .setWaker hbusy (by rintro rfl; exact hu.elim) (fun _ _ => hx)
    (fun _ hb hl => absurd (Option.some.inj hl).symm hb) (fun _ _ => .inl hu)

/-- The waker drops it. -/
theorem Moved.drop {x : Waker} (hbusy : s.waker who ≠ .idle) (hx : x ≠ .refused)
    (hu : ¬ Undecided (s.waker who)) : Moved s ({ s with sLock := none }.setWaker who x) who :=
  .setWaker hbusy (fun hr => absurd hr hx) nofun nofun (fun hu' => absurd hu' hu)

/-- A step after which the task does not wait, and the waker does not refuse. -/
theorem Moved.setTask {t : WakeUp.Task} {l : Option Who} {x : Waker}
    (hbusy : s.waker who ≠ .idle) (hstate : t.state ≠ .waitEvent) (hpc : t.pc = s.task.pc)
    (hdelay : s.task.delay = 0 → t.delay = 0)
    (htimer : s.task.timer = false → t.timer = false)
    (hx : Held s → l = some who → x.Holds)
    (hl : ∀ b, b ≠ who → l = some b → s.sLock = some b) :
    Moved s (({ s with task := t, sLock := l } : WakeUp.Sys).setWaker who x) who where
  busy := hbusy
  others _ hb := WakeUp.Sys.setWaker_of_ne _ _ hb
  state hs := absurd hs hstate
  pc := hpc
  delay := hdelay
  timer := htimer
  refused _ := hstate
  held h := Held.setWaker (s := { s with task := t }) h (hx h) hl
  goesOn _ hs := absurd hs hstate

theorem makeReady_state {t t' : WakeUp.Task} {here : Bool} (h : t.makeReady here = some t') :
    t'.state = t.state ∧ t'.pc = t.pc ∧ t'.delay = t.delay ∧ t'.timer = t.timer := by
  unfold WakeUp.Task.makeReady at h
  obtain ⟨-, ⟨⟩⟩ := Option.ite_none_right_eq_some.1 h
  cases here <;> exact ⟨rfl, rfl, rfl, rfl⟩

end Moved

/-- A waker outside the lock does not have it. -/
theorem Held.of_waker {s : WakeUp.Sys} {who : Who} {x : Waker} {p : Prop}
    (hw : s.waker who = x) (hx : ¬ x.Holds) (h : Held s) (hl : s.sLock = some who) : p :=
  absurd (hw ▸ h who hl) hx

/-- **One step of a waker.** -/
theorem moved_of_wakerStep {s s' : WakeUp.Sys} (hinv : WakeUp.Inv s) {who : Who} {here : Bool}
    (h : wakerStep s who here = some s') : Moved s s' who := by
  have hbusy : s.waker who ≠ .idle := by
    intro hidle
    simp [wakerStep, hidle] at h
  have hwon : (s.waker who).Won → s.task.state ≠ .waitEvent := by
    intro hw
    rw [((hinv.waker who).won hw).1]
    decide
  have hkeep : ∀ b, b ≠ who → s.sLock = some b → s.sLock = some b := fun _ _ hl => hl
  simp only [wakerStep] at h
  split at h
  case h_1 => cases h
  case h_2 w hw =>
    split at h <;> cases h
    exact .take hbusy trivial trivial
  case h_3 w hw =>
    cases h
    split
    · exact .setWaker hbusy (by rintro ⟨⟩) (fun _ _ => trivial) hkeep (fun _ _ => .inl trivial)
    · exact .setWaker hbusy (fun _ => ‹_›) (fun _ _ => trivial) hkeep (fun _ hs => absurd hs ‹_›)
  case h_4 w hw =>
    split at h <;> cases h
    exact .setTask hbusy (by rintro ⟨⟩) rfl (fun _ => rfl) id (fun _ _ => trivial) hkeep
  case h_5 n hw =>
    cases h
    exact .drop hbusy (by rintro ⟨⟩) (by rw [hw]; exact id)
  case h_6 n hw =>
    have hwait := hwon (by rw [hw]; trivial)
    split at h
    · split at h <;> cases h
      exact .setTask hbusy hwait rfl id (fun _ => rfl) (Held.of_waker hw id) hkeep
    · cases h
      exact .setWaker hbusy (by rintro ⟨⟩) (Held.of_waker hw id) hkeep (fun _ hs => absurd hs hwait)
  case h_7 hw =>
    obtain ⟨t, ht, rfl⟩ := Option.map_eq_some_iff.1 h
    obtain ⟨hs, hpc, hd, ho⟩ := makeReady_state ht
    have hwait := hwon (by rw [hw]; trivial)
    exact .setTask hbusy (hs ▸ hwait) hpc (fun h0 => hd.trans h0)
      (fun h0 => ho.trans h0) (Held.of_waker hw id) hkeep
  case h_8 hw =>
    cases h
    exact .drop hbusy (by rintro ⟨⟩) (by rw [hw]; exact id)
  case h_9 w hw =>
    cases h
    split
    · exact .setWaker hbusy (by rintro ⟨⟩) (Held.of_waker hw id) hkeep (fun _ _ => .inl trivial)
    · exact .setWaker hbusy (by rintro ⟨⟩) (Held.of_waker hw id) hkeep (fun _ hs => absurd hs ‹_›)
  case h_10 w hw =>
    -- the interrupt only tries it: the one step that can give up on a waiting task
    split at h <;> cases h
    · exact .take hbusy trivial trivial
    · exact .setWaker hbusy (by rintro ⟨⟩) (Held.of_waker hw id) hkeep
        (fun _ _ => .inr ⟨⟨w, hw⟩, ‹_›⟩)
  case h_11 w hw =>
    cases h
    refine .setTask hbusy ?_ ?_ ?_ ?_ (by rintro _ ⟨⟩) (by rintro _ _ ⟨⟩)
    · split
      · rintro ⟨⟩
      · exact ‹_›
    · split <;> rfl
    · split
      · exact fun _ => rfl
      · exact id
    · split <;> exact id

/-! ## Invariant -/

/-- The vcpu waits, or has found no pending line and holds the lock. -/
def Watched (s : Sys) : Prop :=
  s.wk.task.state = .waitEvent ∨ s.pc = .wait ∨ s.pc = .check true .active

structure IdleInv (v : Nat) (s : Sys) : Prop where
  wk : WakeUp.Inv s.wk
  held : Held s.wk
  delay : s.wk.task.delay = 0
  timer : s.wk.task.timer = false
  handler : s.wk.waker .timer = .idle
  vcpu : s.pc.locked = true → s.evLock = some .vcpu
  sender : ∀ n, s.send n = .wake → s.evLock = some (.sender n)
  busy : ∀ n, s.wk.waker (.cpu n) ≠ .idle → s.send n = .wake
  irq : s.wk.waker .irq ≠ .idle → s.irq = .wake
  irqOff : s.irq ≠ .idle → s.pc.locked = false
  waits : s.wk.task.state = .waitEvent → s.pc = .unlock true ∨ s.pc = .sched
  refused : ∀ who, s.wk.waker who = .refused → s.wk.task.state ≠ .waitEvent
  noLost : Watched s → Pending v s → Coming s

theorem IdleInv.init (v : Nat) (vm : Vm) (needStop : Bool) : IdleInv v (init vm needStop) where
  wk := WakeUp.Inv.init
  held := nofun
  delay := rfl
  timer := rfl
  handler := rfl
  vcpu := nofun
  sender := nofun
  busy n h := absurd rfl h
  irq h := absurd rfl h
  irqOff h := absurd rfl h
  waits := nofun
  refused := nofun
  noLost h := by rcases h with h | h | h <;> cases h

variable {v n : Nat} {s s' : Sys} {wk : WakeUp.Sys} {x : SendPc}

/-- While the vcpu holds the lock, nobody else is in `__wake_up`. -/
theorem IdleInv.quiet (h : IdleInv v s) (hpc : s.pc.locked = true) (who : Who) :
    s.wk.waker who = .idle := by
  by_contra hne
  cases who with
  | cpu n =>
    have heq := (h.vcpu hpc).symm.trans (h.sender n (h.busy n hne))
    cases heq
  | timer => exact hne h.handler
  | irq =>
    have hoff := h.irqOff (by rw [h.irq hne]; exact nofun)
    rw [hpc] at hoff
    cases hoff

/-- `ev->lock` changes hands, and the vcpu moves. -/
theorem IdleInv.setLock (h : IdleInv v s) (hirq : s.irq = .idle) {pc : IdlePc}
    {l : Option Holder} (hlocked : pc.locked = true → l = some .vcpu)
    (hsender : ∀ n, s.send n = .wake → l = some (.sender n))
    (hwaits : s.wk.task.state = .waitEvent → pc = .unlock true ∨ pc = .sched)
    (hlost : Watched { s with pc := pc } → Pending v s → Coming s) :
    IdleInv v { s with evLock := l, pc := pc } :=
  { h with
    vcpu := hlocked
    sender := hsender
    irqOff := fun hne => absurd hirq hne
    waits := hwaits
    noLost := hlost }

/-- A vcpu that runs moves, and nothing else does. -/
theorem IdleInv.setPc (h : IdleInv v s) (hirq : s.irq = .idle)
    (hrun : s.wk.task.state ≠ .waitEvent) {pc : IdlePc}
    (hlocked : pc.locked = true → s.evLock = some .vcpu)
    (hlost : Watched { s with pc := pc } → Pending v s → Coming s) :
    IdleInv v { s with pc := pc } :=
  h.setLock hirq hlocked h.sender (fun hs => absurd hs hrun) hlost

theorem not_watched (hrun : s.wk.task.state ≠ .waitEvent) (h1 : s.pc ≠ .wait)
    (h2 : s.pc ≠ .check true .active) : ¬ Watched s := by
  rintro (hs | hs | hs)
  · exact hrun hs
  · exact h1 hs
  · exact h2 hs

/-- A vcpu in the middle of a check runs. -/
theorem IdleInv.running (h : IdleInv v s) (h1 : s.pc ≠ .unlock true) (h2 : s.pc ≠ .sched) :
    s.wk.task.state ≠ .waitEvent := by
  intro hs
  rcases h.waits hs with hpc | hpc
  · exact h1 hpc
  · exact h2 hpc

/-- A read that lets the vcpu go on leaves no pending line behind. -/
theorem not_pending_of_read (hread : vcpuCanIdle v s .pending = true) : ¬ Pending v s := by
  rintro ⟨i, hi, hbit⟩
  have hle : vmIrqCount s.vm ≤ findFirstBit (s.vm.vcpu v).pendingBitmap (vmIrqCount s.vm) :=
    of_decide_eq_true hread
  have hmiss := (findFirstBit_spec (s.vm.vcpu v).pendingBitmap (vmIrqCount s.vm)).miss i
    (Nat.zero_le i) (Nat.lt_of_lt_of_le hi hle)
  rw [hbit] at hmiss
  cases hmiss

/-- A read of `vcpu_can_idle` that lets the vcpu go on. -/
theorem IdleInv.read (h : IdleInv v s) (hirq : s.irq = .idle) {locked : Bool} {r : Read}
    (hpc : s.pc = .check locked r) (hread : vcpuCanIdle v s r = true) :
    IdleInv v { s with pc := r.next locked } := by
  have hrun : s.wk.task.state ≠ .waitEvent :=
    h.running (by rw [hpc]; exact nofun) (by rw [hpc]; exact nofun)
  have hlock : locked = true → s.evLock = some .vcpu := by
    rintro rfl
    exact h.vcpu (by rw [hpc]; rfl)
  refine h.setPc hirq hrun ?_ ?_
  · intro hl
    apply hlock
    cases r <;> cases locked <;> first | rfl | cases hl
  · rintro (hs | hs | hs) hp
    · exact absurd hs hrun
    · -- the last read: what was found by the one before still holds
      cases r <;> cases locked <;> cases hs
      exact h.noLost (.inr (.inr hpc)) hp
    · cases r <;> cases locked <;> cases hs
      exact absurd hp (not_pending_of_read hread)

/-- A read that sends the vcpu back. -/
theorem IdleInv.readFailed (h : IdleInv v s) (hirq : s.irq = .idle) {locked : Bool} {r : Read}
    (hpc : s.pc = .check locked r) :
    IdleInv v { s with pc := if locked then .unlock false else .run } := by
  have hrun : s.wk.task.state ≠ .waitEvent :=
    h.running (by rw [hpc]; exact nofun) (by rw [hpc]; exact nofun)
  cases locked with
  | true =>
    exact h.setPc hirq hrun (fun _ => h.vcpu (by rw [hpc]; rfl))
      fun hw => absurd hw (not_watched hrun nofun nofun)
  | false =>
    exact h.setPc hirq hrun nofun fun hw => absurd hw (not_watched hrun nofun nofun)

/-- `__wait_event`: what the second check found still holds. -/
theorem IdleInv.wait (h : IdleInv v s) (hirq : s.irq = .idle) (hpc : s.pc = .wait)
    (hwk : wakeStep s.wk (.block 0) = some wk) :
    IdleInv v { s with wk := wk, pc := .unlock true } := by
  have hinv : WakeUp.Inv wk := h.wk.step hwk
  have hlocked : s.pc.locked = true := by rw [hpc]; rfl
  obtain ⟨-, ⟨⟩⟩ := Option.ite_none_right_eq_some.1 hwk
  exact
    { h with
      wk := hinv
      delay := rfl
      vcpu := fun _ => h.vcpu hlocked
      irqOff := fun hne => absurd hirq hne
      waits := fun _ => .inl rfl
      refused := fun who hw => by
        rw [show s.wk.waker who = .idle from h.quiet hlocked who] at hw
        cases hw
      noLost := fun _ hp => h.noLost (.inr (.inl hpc)) hp }

/-- **A step of `vcpu_idle`.** -/
theorem IdleInv.vcpuIdle (h : IdleInv v s) (hirq : s.irq = .idle)
    (hs : vcpuIdle v s = some s') : IdleInv v s' := by
  simp only [VcpuIdle.vcpuIdle] at hs
  split at hs
  case h_1 hpc =>
    obtain ⟨-, ⟨⟩⟩ := Option.ite_none_right_eq_some.1 hs
    have hrun := h.running (by rw [hpc]; exact nofun) (by rw [hpc]; exact nofun)
    exact h.setPc hirq hrun nofun fun hw => absurd hw (not_watched hrun nofun nofun)
  case h_2 locked r hpc =>
    split at hs <;> cases hs
    · exact h.read hirq hpc ‹_›
    · exact h.readFailed hirq hpc
  case h_3 hpc =>
    obtain ⟨hfree, ⟨⟩⟩ := Option.ite_none_right_eq_some.1 hs
    have hrun := h.running (by rw [hpc]; exact nofun) (by rw [hpc]; exact nofun)
    refine h.setLock hirq (fun _ => rfl) (fun n hn => ?_) (fun hs => absurd hs hrun)
      fun hw => absurd hw (not_watched hrun nofun nofun)
    have heq := hfree.symm.trans (h.sender n hn)
    cases heq
  case h_4 hpc =>
    obtain ⟨wk, hwk, rfl⟩ := Option.map_eq_some_iff.1 hs
    exact h.wait hirq hpc hwk
  case h_5 needWait hpc =>
    cases hs
    have hlock := h.vcpu (by rw [hpc]; rfl)
    refine h.setLock hirq (fun hl => ?_) (fun n hn => ?_) (fun hw => ?_) ?_
    · cases needWait <;> cases hl
    · have heq := hlock.symm.trans (h.sender n hn)
      cases heq
    · rcases h.waits hw with hu | hu
      · rw [hpc] at hu
        cases hu
        exact .inr rfl
      · rw [hpc] at hu
        cases hu
    · rintro (hw | hw | hw) hp
      · exact h.noLost (.inl hw) hp
      · cases needWait <;> cases hw
      · cases needWait <;> cases hw
  case h_6 => cases hs

/-! ## Steps of the wakers -/

/-- A taken `s_lock` of a waiting task is held by a waker that will wake it. -/
theorem IdleInv.undecided_of_held (h : IdleInv v s) (hstate : s.wk.task.state = .waitEvent)
    {b : Who} (hb : (s.wk.waker b).Holds) : Undecided (s.wk.waker b) := by
  cases hw : s.wk.waker b with
  | unlock n =>
    have hwon := ((h.wk.waker b).won (by rw [hw]; trivial)).1
    rw [hstate] at hwon
    cases hwon
  | refused => exact absurd hstate (h.refused b hw)
  | test | spin | irqRetest => trivial
  | idle | lock | stopTimer | ready | irqTest | irqTry =>
    rw [hw] at hb
    exact hb.elim

/-- A wake-up that is coming is not lost by a step of a waker. -/
theorem IdleInv.coming_of_moved (h : IdleInv v s) {who : Who}
    (hm : Moved s.wk wk who) (hstate : wk.task.state = .waitEvent) (hc : Coming s) :
    Coming { s with wk := wk } := by
  rcases hc with hc | hc | ⟨b, hb⟩
  · exact .inl hc
  · exact .inr (.inl hc)
  by_cases hbw : b = who
  · subst hbw
    rcases hm.goesOn hb hstate with hu | ⟨⟨w, htry⟩, htaken⟩
    · exact .inr (.inr ⟨b, hu⟩)
    · -- the lock was taken: who holds it wakes the vcpu
      obtain ⟨c, hc⟩ := Option.ne_none_iff_exists'.1 htaken
      have hholds := h.held c hc
      have hne : c ≠ b := by
        rintro rfl
        rw [htry] at hholds
        exact hholds
      refine .inr (.inr ⟨c, ?_⟩)
      rw [show wk.waker c = s.wk.waker c from hm.others c hne]
      exact h.undecided_of_held (hm.state hstate) hholds
  · refine .inr (.inr ⟨b, ?_⟩)
    rw [show wk.waker b = s.wk.waker b from hm.others b hbw]
    exact hb

/-- **A step of a waker.** -/
theorem IdleInv.moved (h : IdleInv v s) {who : Who}
    (hinv : WakeUp.Inv wk) (hm : Moved s.wk wk who) : IdleInv v { s with wk := wk } := by
  -- the waker was under way, so the vcpu is not in its critical section
  have hunlocked : s.pc.locked = false := by
    by_contra hl
    exact hm.busy (h.quiet (by simpa using hl) who)
  have hidle : ∀ b, s.wk.waker b = .idle → wk.waker b = .idle := by
    intro b hb
    by_cases hbw : b = who
    · subst hbw
      exact absurd hb hm.busy
    · rw [hm.others b hbw, hb]
  exact
    { h with
      wk := hinv
      held := hm.held h.held
      delay := hm.delay h.delay
      timer := hm.timer h.timer
      handler := hidle _ h.handler
      busy := fun n hne => h.busy n fun hb => hne (hidle _ hb)
      irq := fun hne => h.irq fun hb => hne (hidle _ hb)
      waits := fun hs => h.waits (hm.state hs)
      refused := fun b hb => by
        by_cases hbw : b = who
        · subst hbw
          exact hm.refused hb
        · rw [show wk.waker b = s.wk.waker b from hm.others b hbw] at hb
          exact fun hs => h.refused b hb (hm.state hs)
      noLost := fun hw hp => by
        rcases hw with hs | hpc | hpc
        · exact h.coming_of_moved hm hs (h.noLost (.inl (hm.state hs)) hp)
        · rw [show s.pc = .wait from hpc] at hunlocked
          cases hunlocked
        · rw [show s.pc = .check true .active from hpc] at hunlocked
          cases hunlocked }

/-! ## Steps of the task -/

/-- What the rest of the system sees of a step of the task in the scheduler. -/
structure TaskMoved (wk wk' : WakeUp.Sys) : Prop where
  waker : wk'.waker = wk.waker
  sLock : wk'.sLock = wk.sLock
  state : wk'.task.state = .waitEvent → wk.task.state = .waitEvent
  delay : wk.task.delay = 0 → wk'.task.delay = 0
  timer : wk.task.delay = 0 → wk.task.timer = false → wk'.task.timer = false

theorem IdleInv.taskMoved (h : IdleInv v s) (hinv : WakeUp.Inv wk)
    (hm : TaskMoved s.wk wk) : IdleInv v { s with wk := wk } where
  wk := hinv
  held who hl := by
    rw [show wk.waker = s.wk.waker from hm.waker]
    exact h.held who (hm.sLock.symm.trans hl)
  delay := hm.delay h.delay
  timer := hm.timer h.delay h.timer
  handler := (congrFun hm.waker _).trans h.handler
  vcpu := h.vcpu
  sender := h.sender
  busy n hne := h.busy n fun hb => hne ((congrFun hm.waker _).trans hb)
  irq hne := h.irq fun hb => hne ((congrFun hm.waker _).trans hb)
  irqOff := h.irqOff
  waits hs := h.waits (hm.state hs)
  refused who hw hs := h.refused who ((congrFun hm.waker who).symm.trans hw) (hm.state hs)
  noLost hw hp := by
    have hw' : Watched s := hw.imp hm.state id
    rcases h.noLost hw' hp with hc | hc | ⟨b, hb⟩
    · exact .inl hc
    · exact .inr (.inl hc)
    · exact .inr (.inr ⟨b, by rw [show wk.waker = s.wk.waker from hm.waker]; exact hb⟩)

theorem TaskMoved.trap (wk : WakeUp.Sys) (other : Bool) :
    TaskMoved wk { wk with task := wk.task.trap other } := by
  unfold WakeUp.Task.trap
  split
  · split
    · exact ⟨rfl, rfl, nofun, id, fun _ => id⟩
    · exact ⟨rfl, rfl, id, id, fun _ => id⟩
  · exact ⟨rfl, rfl, id, id, fun _ => id⟩

theorem TaskMoved.irqwork (wk : WakeUp.Sys) :
    TaskMoved wk { wk with task := wk.task.irqwork } := by
  unfold WakeUp.Task.irqwork
  split
  · exact ⟨rfl, rfl, id, id, fun _ => id⟩
  · refine ⟨rfl, rfl, nofun, fun _ => rfl, fun hd ht => ?_⟩
    rw [← ht]
    exact if_neg (not_not_intro hd)

/-- A timeout of `0` starts no timer. -/
theorem TaskMoved.switch (wk : WakeUp.Sys) :
    TaskMoved wk { wk with task := wk.task.switch } :=
  ⟨rfl, rfl, id, id, fun hd _ => by simp [WakeUp.Task.switch, hd]⟩

/-- The vcpu returns from `vcpu_idle`. -/
theorem IdleInv.resume (h : IdleInv v s) (hirq : s.irq = .idle)
    (hwk : wakeStep s.wk .resume = some wk) : IdleInv v { s with wk := wk, pc := .run } := by
  have hinv : WakeUp.Inv wk := h.wk.step hwk
  obtain ⟨⟨hpc, -⟩, ⟨⟩⟩ := Option.ite_none_right_eq_some.1 hwk
  have hrun : s.wk.task.pendDown.state ≠ .waitEvent := by
    rw [show s.wk.task.pendDown.state = .running from (h.wk.phase.resumed hpc).1]
    exact nofun
  have hmoved := h.taskMoved hinv ⟨rfl, rfl, id, id, fun _ => id⟩
  exact hmoved.setPc hirq hrun nofun fun hw => absurd hw (not_watched hrun nofun nofun)

/-- **A step of the task, its timer or a waker.** -/
theorem IdleInv.task (h : IdleInv v s) {e : WakeUp.Event} (hg : taskEvent s e = true)
    (hwk : wakeStep s.wk e = some wk) :
    IdleInv v { s with wk := wk, pc := if e = .resume then .run else s.pc } := by
  have hinv : WakeUp.Inv wk := h.wk.step hwk
  cases e with
  | block | wake | interrupt => cases hg
  | trap other =>
    obtain ⟨-, ⟨⟩⟩ := Option.ite_none_right_eq_some.1 hwk
    exact h.taskMoved hinv (.trap s.wk other)
  | switch =>
    obtain ⟨-, ⟨⟩⟩ := Option.ite_none_right_eq_some.1 hwk
    exact h.taskMoved hinv (.switch s.wk)
  | irqwork =>
    obtain ⟨-, ⟨⟩⟩ := Option.ite_none_right_eq_some.1 hwk
    exact h.taskMoved hinv (.irqwork s.wk)
  | schedIn =>
    obtain ⟨-, ⟨⟩⟩ := Option.ite_none_right_eq_some.1 hwk
    exact h.taskMoved hinv ⟨rfl, rfl, nofun, id, fun _ => id⟩
  | resume => exact h.resume (of_decide_eq_true hg) hwk
  | fire =>
    obtain ⟨⟨ht, -⟩, -⟩ := Option.ite_none_right_eq_some.1 hwk
    rw [h.timer] at ht
    cases ht
  | step who here => exact h.moved hinv (moved_of_wakerStep h.wk hwk)

/-! ## Steps of the senders -/

/-- A change of the VM that raises no line. -/
theorem IdleInv.setVm (h : IdleInv v s) {vm : Vm}
    (hp : Pending v { s with vm := vm } → Pending v s) : IdleInv v { s with vm := vm } :=
  { h with noLost := fun hw hp' => h.noLost hw (hp hp') }

/-- A sender that has set its bit. -/
theorem IdleInv.raise (h : IdleInv v s) (vm : Vm) (hc : Coming s) :
    IdleInv v { s with vm := vm } :=
  { h with noLost := fun _ _ => hc }

/-- A sender that is not in `__wake_up` afterwards, whatever it does to
`ev->lock`. -/
theorem IdleInv.setSend (h : IdleInv v s) {l : Option Holder}
    (hidle : s.wk.waker (.cpu n) = .idle) (hx : x ≠ .wake)
    (hvcpu : s.pc.locked = true → l = some .vcpu)
    (hother : ∀ m, m ≠ n → s.send m = .wake → l = some (.sender m))
    (hkick : s.send n = .kick → x = .kick) : IdleInv v ({ s with evLock := l }.setSend n x) :=
  { h with
    vcpu := hvcpu
    sender := by
      refine (Function.forall_update_iff s.send fun m y => y = .wake → l = some (.sender m)).2 ?_
      exact ⟨fun hw => absurd hw hx, hother⟩
    busy := by
      refine (Function.forall_update_iff s.send
        fun m y => s.wk.waker (.cpu m) ≠ .idle → y = .wake).2 ?_
      exact ⟨fun hne => absurd hidle hne, fun m _ => h.busy m⟩
    noLost := fun hw hp => by
      rcases h.noLost hw hp with ⟨m, hm⟩ | hc | hc
      · refine .inl ⟨m, ?_⟩
        by_cases hmn : m = n
        · subst hmn
          rw [Sys.setSend_self]
          exact hkick hm
        · rw [Sys.setSend_of_ne _ x hmn]
          exact hm
      · exact .inr (.inl hc)
      · exact .inr (.inr hc) }

/-- A sender outside `__wake_up` moves there, without the lock. -/
theorem IdleInv.setMark (h : IdleInv v s) (hn : s.send n ≠ .wake)
    (hx : x ≠ .wake) (hkick : s.send n = .kick → x = .kick) : IdleInv v (s.setSend n x) := by
  refine h.setSend ?_ hx h.vcpu (fun m _ => h.sender m) hkick
  by_contra hne
  exact hn (h.busy n hne)

/-- The vcpu is not in its critical section while another has the lock, or
nobody. -/
theorem IdleInv.not_locked (h : IdleInv v s) (hlock : s.evLock ≠ some .vcpu) :
    s.pc.locked = false := by
  by_contra hl
  exact hlock (h.vcpu (by simpa using hl))

section Start

variable {who : Who} {x : Waker}

/-- A waker that starts does not have `s_lock`. -/
theorem IdleInv.held_start (h : IdleInv v s) (hidle : s.wk.waker who = .idle) :
    Held (s.wk.setWaker who x) :=
  h.held.setWaker (h.held.of_waker hidle id) (fun _ _ hl => hl)

/-- Nor does it refuse. -/
theorem IdleInv.refused_start (h : IdleInv v s) {b : Who}
    (hb : (s.wk.setWaker who x).waker b = .refused) (hx : x ≠ .refused) :
    s.wk.task.state ≠ .waitEvent := by
  by_cases hbw : b = who
  · subst hbw
    rw [WakeUp.Sys.setWaker_self] at hb
    exact absurd hb hx
  · rw [WakeUp.Sys.setWaker_of_ne _ _ hbw] at hb
    exact h.refused b hb

/-- The other wakers are where they were. -/
theorem busy_of_start {b : Who} (hne : (s.wk.setWaker who x).waker b ≠ .idle) (hb : b ≠ who) :
    s.wk.waker b ≠ .idle := by
  rwa [WakeUp.Sys.setWaker_of_ne _ _ hb] at hne

theorem undecided_start (hx : Undecided x) : ∃ b, Undecided ((s.wk.setWaker who x).waker b) := by
  refine ⟨who, ?_⟩
  rw [WakeUp.Sys.setWaker_self]
  exact hx

end Start

/-- `spin_lock_irqsave(&ev->lock)` of `wake`, and the call of `__wake_up`. -/
theorem IdleInv.senderLock (h : IdleInv v s) (hfree : s.evLock = none)
    (hwk : wakeStep s.wk (.wake n wakeArgs) = some wk) :
    IdleInv v ({ s with wk := wk, evLock := some (.sender n) }.setSend n .wake) := by
  have hinv : WakeUp.Inv wk := h.wk.step hwk
  obtain ⟨⟨hidle, -⟩, ⟨⟩⟩ := Option.ite_none_right_eq_some.1 hwk
  have hunlocked : s.pc.locked = false := h.not_locked (by rw [hfree]; exact nofun)
  have hnone : ∀ m, s.send m ≠ .wake := by
    intro m hm
    have heq := hfree.symm.trans (h.sender m hm)
    cases heq
  exact
    { h with
      wk := hinv
      held := h.held_start hidle
      handler := (WakeUp.Sys.setWaker_of_ne _ _ (by simp)).trans h.handler
      vcpu := fun hl => absurd (hunlocked.symm.trans hl) nofun
      sender := by
        refine (Function.forall_update_iff s.send
          fun m y => y = .wake → some (.sender n) = some (Holder.sender m)).2 ?_
        exact ⟨fun _ => rfl, fun m _ hm => absurd hm (hnone m)⟩
      busy := fun m hne => by
        by_cases hmn : m = n
        · rw [hmn, Sys.setSend_self]
        · have hne' : Who.cpu m ≠ .cpu n := fun heq => hmn (Who.cpu.inj heq)
          exact absurd (h.busy m (busy_of_start hne hne')) (hnone m)
      irq := fun hne => h.irq (busy_of_start hne nofun)
      refused := fun b hb => h.refused_start hb nofun
      noLost := fun _ _ => .inr (.inr (undecided_start trivial)) }

/-- The end of `wake`: the sender has the lock, and is done with the vcpu. -/
theorem IdleInv.senderUnlock (h : IdleInv v s) (hn : s.send n = .wake)
    (hidle : s.wk.waker (.cpu n) = .idle) :
    IdleInv v ({ s with evLock := none }.setSend n .idle) := by
  have hlock := h.sender n hn
  have hunlocked : s.pc.locked = false := h.not_locked (by rw [hlock]; exact nofun)
  refine h.setSend hidle nofun (fun hl => absurd (hunlocked.symm.trans hl) nofun)
    (fun m hmn hm => ?_) (fun hk => absurd (hn.symm.trans hk) nofun)
  have heq := hlock.symm.trans (h.sender m hm)
  cases heq
  exact absurd rfl hmn

/-- **A step of a sender.** -/
theorem IdleInv.senderStep (h : IdleInv v s) (hs : senderStep v s n = some s') : IdleInv v s' := by
  simp only [VcpuIdle.senderStep] at hs
  split at hs
  case h_1 => cases hs
  case h_2 cur r hn =>
    cases hs
    have hmoved : IdleInv v (s.setSend n .kick) :=
      h.setMark (by rw [hn]; exact nofun) nofun fun _ => rfl
    exact hmoved.raise _ (.inl ⟨n, Sys.setSend_self s n .kick⟩)
  case h_3 =>
    obtain ⟨hfree, hs⟩ := Option.ite_none_right_eq_some.1 hs
    obtain ⟨wk, hwk, rfl⟩ := Option.map_eq_some_iff.1 hs
    exact h.senderLock hfree hwk
  case h_4 hn =>
    obtain ⟨hidle, ⟨⟩⟩ := Option.ite_none_right_eq_some.1 hs
    exact h.senderUnlock hn hidle

/-- The interrupt moves outside `__wake_up`, with interrupts disabled. -/
theorem IdleInv.setIrq (h : IdleInv v s) (hidle : s.wk.waker .irq = .idle)
    (hoff : x ≠ .idle → s.pc.locked = false) (hkick : s.irq = .kick → x = .kick) :
    IdleInv v { s with irq := x } :=
  { h with
    irq := fun hne => absurd hidle hne
    irqOff := hoff
    noLost := fun hw hp => by
      rcases h.noLost hw hp with hc | hc | hc
      · exact .inl hc
      · exact .inr (.inl (hkick hc))
      · exact .inr (.inr hc) }

/-- `wake` in an interrupt that hits the vcpu. -/
theorem IdleInv.handlerKick (h : IdleInv v s) (hn : s.irq = .kick)
    (hwk : wakeStep s.wk (.interrupt wakeArgs) = some wk) :
    IdleInv v { s with wk := wk, irq := .wake } := by
  have hinv : WakeUp.Inv wk := h.wk.step hwk
  obtain ⟨⟨-, hidle, -⟩, ⟨⟩⟩ := Option.ite_none_right_eq_some.1 hwk
  exact
    { h with
      wk := hinv
      held := h.held_start hidle
      handler := (WakeUp.Sys.setWaker_of_ne _ _ (by simp)).trans h.handler
      busy := fun m hne => h.busy m (busy_of_start hne nofun)
      irq := fun _ => rfl
      irqOff := fun _ => h.irqOff (by rw [hn]; exact nofun)
      refused := fun b hb => h.refused_start hb nofun
      noLost := fun _ _ => .inr (.inr (undecided_start trivial)) }

theorem IdleInv.irqIdle (h : IdleInv v s) (hirq : s.irq ≠ .wake) : s.wk.waker .irq = .idle := by
  by_contra hne
  exact hirq (h.irq hne)

/-- **A step of the interrupt.** -/
theorem IdleInv.handlerStep (h : IdleInv v s) (hs : handlerStep v s = some s') :
    IdleInv v s' := by
  simp only [VcpuIdle.handlerStep] at hs
  split at hs
  case h_1 => cases hs
  case h_2 cur r hn =>
    cases hs
    have hmoved : IdleInv v { s with irq := .kick } :=
      h.setIrq (h.irqIdle (by rw [hn]; exact nofun))
        (fun _ => h.irqOff (by rw [hn]; exact nofun)) fun _ => rfl
    exact hmoved.raise _ (.inr (.inl rfl))
  case h_3 hn =>
    obtain ⟨wk, hwk, rfl⟩ := Option.map_eq_some_iff.1 hs
    exact h.handlerKick hn hwk
  case h_4 hn =>
    obtain ⟨hidle, ⟨⟩⟩ := Option.ite_none_right_eq_some.1 hs
    exact h.setIrq hidle (fun hne => absurd rfl hne) fun hk => absurd (hn.symm.trans hk) nofun

/-! ## Runs -/

/-- A line that is pending after a bit was cleared was pending before. -/
theorem pending_clearPending {i : Nat} {vs : VirqStruct}
    (hvs : vs.pendingBitmap = clearBit i (s.vm.vcpu v).pendingBitmap)
    (hp : Pending v (s.setVs v vs)) : Pending v s := by
  obtain ⟨j, hj, hbit⟩ := hp
  refine ⟨j, hj, ?_⟩
  rw [show (s.setVs v vs).vm.vcpu v = vs by simp [Sys.setVs, Vm.setVcpu], hvs,
    testBit_clearBit] at hbit
  simp only [Bool.and_eq_true] at hbit
  exact hbit.1

/-- A change of the vcpu's other fields raises no line. -/
theorem pending_setVs {vs : VirqStruct} (hvs : vs.pendingBitmap = (s.vm.vcpu v).pendingBitmap)
    (hp : Pending v (s.setVs v vs)) : Pending v s := by
  obtain ⟨j, hj, hbit⟩ := hp
  rw [show (s.setVs v vs).vm.vcpu v = vs by simp [Sys.setVs, Vm.setVcpu], hvs] at hbit
  exact ⟨j, hj, hbit⟩

/-- A `send_virq` starts outside `__wake_up`, and with no bit set. -/
theorem sendStart_spec {vm : Vm} {cur : Nat} {r : Option DescRef}
    (h : sendStart v vm cur r = some x) : x ≠ .wake := by
  unfold sendStart at h
  split at h <;> cases h <;> exact nofun

/-- **One step keeps the invariant.** -/
theorem IdleInv.step (h : IdleInv v s) {e : Event} (hs : idleStep v s e = some s') :
    IdleInv v s' := by
  cases e with
  | vcpu =>
    obtain ⟨hirq, hs⟩ := Option.ite_none_right_eq_some.1 hs
    exact h.vcpuIdle hirq hs
  | task e =>
    obtain ⟨hg, hs⟩ := Option.ite_none_right_eq_some.1 hs
    obtain ⟨wk, hwk, rfl⟩ := Option.map_eq_some_iff.1 hs
    exact h.task hg hwk
  | send n cur r =>
    obtain ⟨hn, hs⟩ := Option.ite_none_right_eq_some.1 hs
    obtain ⟨x, hx, rfl⟩ := Option.map_eq_some_iff.1 hs
    exact h.setMark (by rw [hn]; exact nofun) (sendStart_spec hx)
      fun hk => absurd (hn.symm.trans hk) nofun
  | wake n =>
    obtain ⟨hn, ⟨⟩⟩ := Option.ite_none_right_eq_some.1 hs
    exact h.setMark (by rw [hn]; exact nofun) nofun fun _ => rfl
  | sender n => exact h.senderStep hs
  | interrupt cur r =>
    obtain ⟨⟨-, hoff, hirq⟩, hs⟩ := Option.ite_none_right_eq_some.1 hs
    obtain ⟨x, hx, rfl⟩ := Option.map_eq_some_iff.1 hs
    exact h.setIrq (h.irqIdle (by rw [hirq]; exact nofun)) (fun _ => hoff)
      fun hk => absurd (hirq.symm.trans hk) nofun
  | interruptWake =>
    obtain ⟨⟨-, hoff, hirq⟩, ⟨⟩⟩ := Option.ite_none_right_eq_some.1 hs
    exact h.setIrq (h.irqIdle (by rw [hirq]; exact nofun)) (fun _ => hoff) fun _ => rfl
  | handler => exact h.handlerStep hs
  | vmState state =>
    cases hs
    exact h.setVm id
  | needStop b =>
    cases hs
    exact { h with }
  | clearPending i =>
    cases hs
    exact h.setVm (pending_clearPending rfl)
  | setActive | clearActive =>
    cases hs
    exact h.setVm (pending_setVs rfl)

/-- **No lost wake-up.** Whatever the interleaving, from any VM, a vcpu that
waits while one of its lines is pending is about to be woken. -/
theorem vcpuIdle_no_lost_wakeup (v : Nat) (vm : Vm) (needStop : Bool) (l : List Event) (s : Sys)
    (h : run (idleStep v) (init vm needStop) l = some s)
    (hwaits : s.wk.task.state = .waitEvent) (hp : Pending v s) : Coming s := by
  have hstep : ∀ s e s', IdleInv v s → True → idleStep v s e = some s' → IdleInv v s' :=
    fun s e s' hs _ he => hs.step he
  have hinv := run_invariant hstep (IdleInv.init v vm needStop) (along_true _ l) h
  exact hinv.noLost (.inl hwaits) hp

/-- A vcpu of an online VM without lines pending. -/
def quietVm : Vm where
  vmid := 1
  state := .online
  vspiNr := 32
  vspiDesc _ := {}
  vspiMap := [0]
  vcpuNr := 1
  vcpu _ :=
    { nrLrs := 4
      lastFailVirq := 0
      pendingVirq := 0
      activeVirq := 0
      localDesc := fun i => { vno := i }
      pendingBitmap := [0]
      activeBitmap := [0]
      lrsBitmap := [0] }

/-- Line 27 is raised on another cpu when the vcpu has made its last read.
The vcpu goes to wait; an interrupt on its own cpu then finds `s_lock` taken
by the sender and gives up. -/
def raisedAfterCheck : List Event :=
  List.replicate 10 Event.vcpu ++
    [Event.send 1 0 (some (.percpu 0 27)), .sender 1, .vcpu, .vcpu, .sender 1,
      .task (.step (.cpu 1) true), .interruptWake, .handler, .task (.step .irq true),
      .task (.step .irq true), .handler, .task (.trap true)]

theorem vcpuIdle_no_lost_wakeup_raised :
    ∃ s, run (idleStep 0) (init quietVm false) raisedAfterCheck = some s ∧
      s.wk.task.state = .waitEvent ∧ Pending 0 s ∧ Coming s := by
  refine exists_found (P := fun s => s.wk.task.state = .waitEvent ∧ vmIrqCount s.vm = 64 ∧
      testBit 27 (s.vm.vcpu 0).pendingBitmap = true) (fun s hs ⟨hstate, hcount, hbit⟩ => ?_)
    (by decide +kernel)
  have hp : Pending 0 s := ⟨27, by rw [hcount]; decide, hbit⟩
  exact ⟨hstate, hp, vcpuIdle_no_lost_wakeup 0 quietVm false _ s hs hstate hp⟩

end Minos.VcpuIdle
