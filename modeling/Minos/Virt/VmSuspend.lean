import Minos.Virt.VcpuIdle
import Minos.Virt.VirqDelivery

/-!
# Suspending a VM

`__vm_suspend` (`virt/vm_pm.c`): vcpu 0 finds the other vcpus stopped, sets the
state of the VM to `SUSPEND`, tells the mvm, calls `vcpu_idle` to wait for an
interrupt that can wake the VM, and sets the state back to `ONLINE`. From the first
store on `send_virq` refuses lines that cannot wake the VM.

The wait, the senders and the wake-ups are those of `Minos.VcpuIdle`, with the vcpu
that calls as `v`. The request to the mvm is a step of its own that leaves the VM and
its interrupts as they are. Others store the state of the VM at any time, but never
`SUSPEND`: power off and reset store `FREEZEING` and `OFFLINE`, and a start after that
`ONLINE`. Such a store is a request to stop.

`down` says that the state has become `SUSPEND` and not `ONLINE` since, and `woken`
that since then a line that can wake the VM was pending or active on the vcpu, or that
the vcpu or the VM was asked to stop.
-/

namespace Minos.VmSuspend

open Minos.Lib Minos.Virq
open Minos.VcpuIdle (idleStep vcpuIdle vcpuCanIdle)

/-! ## The call -/

/-- Where the vcpu is in `__vm_suspend`. -/
inductive Pc
  | run
  /-- before the loop over the other vcpus -/
  | check
  /-- before `vm->state = VM_STATE_SUSPEND` -/
  | store
  /-- before the request to the mvm -/
  | trap
  /-- before `vcpu_idle` -/
  | call
  /-- in `vcpu_idle`, or past it and before `vm->state = VM_STATE_ONLINE` -/
  | wait
  deriving DecidableEq, Repr

structure Sys where
  idle : VcpuIdle.Sys
  pc : Pc
  down : Bool
  woken : Bool

def init (vm : Vm) (needStop : Bool) : Sys :=
  ⟨VcpuIdle.init vm needStop, .run, false, false⟩

/-- Line `i` of the vcpu can wake the VM. -/
def lineWakes (vm : Vm) (v i : Nat) : Bool :=
  match getVirqDesc vm v i with
  | none => false
  | some r => virqCanWakeup (vm.desc r)

/-- A line that can wake the VM is pending or active on the vcpu, or it is asked to
stop. -/
def awake (v : Nat) (s : VcpuIdle.Sys) : Bool :=
  s.needStop || (List.range (vmIrqCount s.vm)).any fun i =>
    (testBit i (s.vm.vcpu v).pendingBitmap || testBit i (s.vm.vcpu v).activeBitmap) &&
      lineWakes s.vm v i

section Model

variable (v : Nat)

/-- The state after a step; `asked` when the step is a request to stop. -/
def Sys.next (s : Sys) (pc : Pc) (asked : Bool) (idle : VcpuIdle.Sys) : Sys where
  idle := idle
  pc := pc
  down := s.down && !decide (idle.vm.state = .online)
  woken := s.woken || asked || awake v idle

def setState (s : VcpuIdle.Sys) (st : VmState) : VcpuIdle.Sys :=
  { s with vm := { s.vm with state := st } }

def asksStop : VcpuIdle.Event → Bool
  | .vmState _ => true
  | _ => false

/-- The next step of `__vm_suspend`. -/
def vmSuspend (s : Sys) : Option Sys :=
  match s.pc with
  | .run => none
  | .check => none
  | .store =>
    -- a VM that is not online was asked to stop
    let asked := !decide (s.idle.vm.state = .online)
    let idle := setState s.idle .suspend
    some ⟨idle, .trap, true, asked || awake v idle⟩
  | .trap => some (s.next v .call false s.idle)
  | .call => (vcpuIdle v s.idle).map (s.next v .wait false)
  | .wait =>
    if s.idle.pc = .run then some (s.next v .run false (setState s.idle .online)) else none

/-! ## Interleavings -/

inductive Event
  /-- the guest calls `SYSTEM_SUSPEND` -/
  | suspend
  /-- the loop over the other vcpus, which finds them all stopped or not -/
  | others (stopped : Bool)
  | vcpu
  | idle (e : VcpuIdle.Event)

/-- What else happens: steps in `vcpu_idle` when it has been called, and stores of
the state by others. -/
def idleAllowed (s : Sys) : VcpuIdle.Event → Prop
  | .vcpu => s.pc = .run ∨ s.pc = .wait ∧ s.idle.pc ≠ .run
  | .vmState st => st ≠ .suspend
  | _ => True

instance (s : Sys) (e : VcpuIdle.Event) : Decidable (idleAllowed s e) := by
  unfold idleAllowed
  split <;> infer_instance

def step (s : Sys) : Event → Option Sys
  | .suspend =>
    if s.pc = .run ∧ s.idle.pc = .run ∧ s.idle.wk.task.pc = .run ∧ s.idle.irq = .idle then
      -- only vcpu 0 may
      some { s with pc := if v = 0 then .check else .run }
    else none
  | .others stopped =>
    if s.pc = .check ∧ s.idle.irq = .idle then
      some { s with pc := if stopped then .store else .run }
    else none
  | .vcpu => if s.idle.irq = .idle then vmSuspend v s else none
  | .idle e =>
    if idleAllowed s e then (idleStep v s.idle e).map (s.next v s.pc (asksStop e)) else none

/-! ## Statements -/

/-- A VM that became `SUSPEND` goes back to `ONLINE` only when it was woken. -/
def WakesFirst (s : Sys) (e : Event) : Prop :=
  ∀ s' ∈ step v s e, s.down = true → s'.idle.vm.state = .online → s'.woken = true

/-- When the vcpu calls `vcpu_idle` there is already what it should wait for, or the
VM is being stopped. -/
def CallOk (s : Sys) : Event → Prop
  | .vcpu => s.pc = .call → awake v s.idle = true ∨ s.idle.vm.state ≠ .suspend
  | _ => True

end Model

/-! ## Steps of the rest -/

section Idle

variable {v : Nat} {s s' : VcpuIdle.Sys} {e : VcpuIdle.Event}

/-- `vcpu_idle` leaves the VM alone. -/
theorem vcpuIdle_vm (h : vcpuIdle v s = some s') : s'.vm = s.vm := by
  unfold vcpuIdle at h
  split at h
  · obtain ⟨-, ⟨⟩⟩ := Option.ite_none_right_eq_some.mp h
    rfl
  · split at h <;> cases h <;> rfl
  · obtain ⟨-, ⟨⟩⟩ := Option.ite_none_right_eq_some.mp h
    rfl
  · obtain ⟨wk, -, rfl⟩ := Option.map_eq_some_iff.mp h
    rfl
  · cases h
    rfl
  · cases h

/-- What a step of the rest leaves alone: the state of the VM, unless it is that step,
and where the vcpu is in `vcpu_idle`, unless it is its own step or it resumes. -/
structure Frame (s : VcpuIdle.Sys) (e : VcpuIdle.Event) (s' : VcpuIdle.Sys) : Prop where
  state : (∀ st, e ≠ .vmState st) → s'.vm.state = s.vm.state
  pc : e ≠ .vcpu → s'.pc = s.pc ∨ s'.pc = .run

theorem senderStep_frame {n : Nat} (h : VcpuIdle.senderStep v s n = some s') :
    s'.vm.state = s.vm.state ∧ s'.pc = s.pc := by
  unfold VcpuIdle.senderStep at h
  split at h
  · cases h
  · cases h
    exact ⟨(Delivery.sendVirqPending_frame _ _ _ _).state, rfl⟩
  · obtain ⟨-, h⟩ := Option.ite_none_right_eq_some.mp h
    obtain ⟨wk, -, rfl⟩ := Option.map_eq_some_iff.mp h
    exact ⟨rfl, rfl⟩
  · obtain ⟨-, ⟨⟩⟩ := Option.ite_none_right_eq_some.mp h
    exact ⟨rfl, rfl⟩

theorem handlerStep_frame (h : VcpuIdle.handlerStep v s = some s') :
    s'.vm.state = s.vm.state ∧ s'.pc = s.pc := by
  unfold VcpuIdle.handlerStep at h
  split at h
  · cases h
  · cases h
    exact ⟨(Delivery.sendVirqPending_frame _ _ _ _).state, rfl⟩
  · obtain ⟨wk, -, rfl⟩ := Option.map_eq_some_iff.mp h
    exact ⟨rfl, rfl⟩
  · obtain ⟨-, ⟨⟩⟩ := Option.ite_none_right_eq_some.mp h
    exact ⟨rfl, rfl⟩

theorem idleStep_frame (h : idleStep v s e = some s') : Frame s e s' := by
  cases e with
  | vcpu =>
    obtain ⟨-, h⟩ := Option.ite_none_right_eq_some.mp h
    exact ⟨fun _ => by rw [vcpuIdle_vm h], fun he => absurd rfl he⟩
  | task e =>
    obtain ⟨-, h⟩ := Option.ite_none_right_eq_some.mp h
    obtain ⟨wk, -, rfl⟩ := Option.map_eq_some_iff.mp h
    refine ⟨fun _ => rfl, fun _ => ?_⟩
    simp only
    split
    · exact Or.inr rfl
    · exact Or.inl rfl
  | send | interrupt =>
    obtain ⟨-, h⟩ := Option.ite_none_right_eq_some.mp h
    obtain ⟨x, -, rfl⟩ := Option.map_eq_some_iff.mp h
    exact ⟨fun _ => rfl, fun _ => Or.inl rfl⟩
  | wake | interruptWake =>
    obtain ⟨-, ⟨⟩⟩ := Option.ite_none_right_eq_some.mp h
    exact ⟨fun _ => rfl, fun _ => Or.inl rfl⟩
  | sender n =>
    obtain ⟨hstate, hpc⟩ := senderStep_frame h
    exact ⟨fun _ => hstate, fun _ => Or.inl hpc⟩
  | handler =>
    obtain ⟨hstate, hpc⟩ := handlerStep_frame h
    exact ⟨fun _ => hstate, fun _ => Or.inl hpc⟩
  | vmState st =>
    cases h
    exact ⟨fun he => absurd rfl (he st), fun _ => Or.inl rfl⟩
  | needStop b | clearPending i | setActive i | clearActive i =>
    cases h
    exact ⟨fun _ => rfl, fun _ => Or.inl rfl⟩

end Idle

/-! ## The invariant -/

/-- From the store of `SUSPEND` to that of `ONLINE`. -/
def Pc.suspended : Pc → Bool
  | .trap | .call | .wait => true
  | _ => false

/-- What holds in every run. While the VM is suspended the vcpu, when it has called
`vcpu_idle`, is not past the first read there. -/
structure Inv (v : Nat) (s : Sys) : Prop where
  down : s.down = true → s.pc.suspended = true ∧ s.idle.vm.state ≠ .online
  suspended : s.idle.vm.state = .suspend → s.pc.suspended = true
  outside : s.pc ≠ .run → s.pc ≠ .wait → s.idle.pc = .run
  inside : s.pc = .wait → s.idle.vm.state = .suspend →
    s.idle.pc = .run ∨ s.idle.pc = .check false .vmState
  stopped : s.pc.suspended = true → s.idle.vm.state ≠ .suspend → s.woken = true
  awake : s.pc.suspended = true → VmSuspend.awake v s.idle = true → s.woken = true

variable {v : Nat} {s s' : Sys} {e : Event}

theorem Inv.init {vm : Vm} (hvm : vm.state ≠ .suspend) (needStop : Bool) :
    Inv v (init vm needStop) where
  down := nofun
  suspended h := absurd h hvm
  outside h := absurd rfl h
  inside := nofun
  stopped := nofun
  awake := nofun

theorem vcpuIdle_busy {s s' : VcpuIdle.Sys} (hs : vcpuIdle v s = some s')
    (hpc : s.pc = .check false .vmState) (hstate : s.vm.state ≠ .online) : s'.pc = .run := by
  have hbusy : vcpuCanIdle v s .vmState = false := decide_eq_false hstate
  rw [vcpuIdle, hpc] at hs
  simp only [hbusy, Bool.false_eq_true, if_false] at hs
  cases hs
  rfl

variable {asked : Bool} {idle : VcpuIdle.Sys} {pc : Pc}

theorem next_awake (h : awake v idle = true) : (s.next v pc asked idle).woken = true := by
  rw [Sys.next, h, Bool.or_true]

theorem next_woken (h : s.woken = true) : (s.next v pc asked idle).woken = true := by
  rw [Sys.next, h, Bool.true_or, Bool.true_or]

theorem next_asked :
    (s.next v pc true idle).woken = true := by
  rw [Sys.next, Bool.or_true, Bool.true_or]

theorem next_down :
    (s.next v pc asked idle).down = true ↔ s.down = true ∧ idle.vm.state ≠ .online := by
  rw [Sys.next, Bool.and_eq_true, Bool.not_eq_true', decide_eq_false_iff_not]

/-- Others at work, or the vcpu inside `vcpu_idle`. -/
theorem Inv.idleStep {e : VcpuIdle.Event} (h : Inv v s) (hs : step v s (.idle e) = some s') :
    Inv v s' := by
  obtain ⟨hallowed, hs⟩ := Option.ite_none_right_eq_some.mp hs
  obtain ⟨idle, hidle, rfl⟩ := Option.map_eq_some_iff.mp hs
  have hframe := idleStep_frame hidle
  have hstate : idle.vm.state = s.idle.vm.state ∨
      asksStop e = true ∧ idle.vm.state ≠ .suspend := by
    by_cases hst : ∃ st, e = .vmState st
    · obtain ⟨st, rfl⟩ := hst
      cases hidle
      exact Or.inr ⟨rfl, hallowed⟩
    · exact Or.inl (hframe.state fun st he => hst ⟨st, he⟩)
  have hback : idle.vm.state = .suspend → s.idle.vm.state = .suspend := by
    intro hsus
    rcases hstate with heq | ⟨-, hne⟩
    · exact heq.symm.trans hsus
    · exact absurd hsus hne
  refine ⟨?_, fun hsus => h.suspended (hback hsus), ?_, ?_, ?_, fun _ => next_awake⟩
  · intro hdown
    obtain ⟨hold, honline⟩ := next_down.mp hdown
    exact ⟨(h.down hold).1, honline⟩
  · intro hrun hwait
    have hne : e ≠ .vcpu := by
      rintro rfl
      rcases hallowed with hpc | ⟨hpc, -⟩
      · exact hrun hpc
      · exact hwait hpc
    rcases hframe.pc hne with heq | heq
    · exact heq.trans (h.outside hrun hwait)
    · exact heq
  · intro hwait hsus
    have hold := h.inside hwait (hback hsus)
    by_cases hv : e = .vcpu
    · subst hv
      obtain ⟨-, hidle⟩ := Option.ite_none_right_eq_some.mp hidle
      rcases hallowed with hpc | ⟨-, hpc⟩
      · rw [show s.pc = .wait from hwait] at hpc
        cases hpc
      · refine Or.inl (vcpuIdle_busy hidle (hold.resolve_left hpc) ?_)
        rw [hback hsus]
        nofun
    · rcases hframe.pc hv with heq | heq
      · rw [← heq] at hold
        exact hold
      · exact Or.inl heq
  · intro hpc hne
    rcases hstate with heq | ⟨hasked, -⟩
    · rw [show (s.next v s.pc (asksStop e) idle).idle.vm.state = _ from heq] at hne
      exact next_woken (h.stopped hpc hne)
    · rw [hasked]
      exact next_asked

/-- The vcpu's own steps in `__vm_suspend`. -/
theorem Inv.vmSuspend (h : Inv v s) (hs : vmSuspend v s = some s') : Inv v s' := by
  unfold VmSuspend.vmSuspend at hs
  split at hs
  case h_1 | h_2 => cases hs
  case h_3 hpc =>
    cases hs
    refine ⟨fun _ => ⟨rfl, by rintro ⟨⟩⟩, fun _ => rfl, fun _ _ => ?_, by rintro ⟨⟩,
      fun _ hne => absurd rfl hne, fun _ hawake => ?_⟩
    · exact h.outside (by rw [hpc]; rintro ⟨⟩) (by rw [hpc]; rintro ⟨⟩)
    · simp only [hawake, Bool.or_true]
  case h_4 hpc =>
    cases hs
    have hold : s.pc.suspended = true := by rw [hpc]; rfl
    refine ⟨fun hdown => ⟨rfl, (next_down.mp hdown).2⟩, fun _ => rfl, fun _ _ => ?_, by rintro ⟨⟩,
      fun _ hne => next_woken (h.stopped hold hne), fun _ => next_awake⟩
    exact h.outside (by rw [hpc]; rintro ⟨⟩) (by rw [hpc]; rintro ⟨⟩)
  case h_5 hpc =>
    obtain ⟨idle, hidle, rfl⟩ := Option.map_eq_some_iff.mp hs
    have hold : s.pc.suspended = true := by rw [hpc]; rfl
    have hrun : s.idle.pc = .run := h.outside (by rw [hpc]; rintro ⟨⟩) (by rw [hpc]; rintro ⟨⟩)
    have hvm := vcpuIdle_vm hidle
    refine ⟨fun hdown => ⟨rfl, (next_down.mp hdown).2⟩, fun _ => rfl,
      fun _ hwait => absurd rfl hwait, fun _ _ => ?_, fun _ hne => ?_, fun _ => next_awake⟩
    · rw [vcpuIdle, hrun] at hidle
      obtain ⟨-, ⟨⟩⟩ := Option.ite_none_right_eq_some.mp hidle
      exact Or.inr rfl
    · refine next_woken (h.stopped hold ?_)
      rw [← hvm]
      exact hne
  case h_6 hpc =>
    obtain ⟨-, ⟨⟩⟩ := Option.ite_none_right_eq_some.mp hs
    refine ⟨fun hdown => absurd rfl (next_down.mp hdown).2, by rintro ⟨⟩,
      fun hrun => absurd rfl hrun, by rintro ⟨⟩, by rintro ⟨⟩, fun _ => next_awake⟩

/-- Before the store of `SUSPEND` the vcpu only moves on. -/
theorem Inv.move (h : Inv v s) (hold : s.pc.suspended = false)
    (hrun : s.idle.pc = .run) (hpc : pc.suspended = false) : Inv v { s with pc := pc } where
  down hdown := absurd (h.down hdown).1 (Bool.eq_false_iff.mp hold)
  suspended hsus := absurd (h.suspended hsus) (Bool.eq_false_iff.mp hold)
  outside _ _ := hrun
  inside _ _ := Or.inl hrun
  stopped hne := absurd hne (Bool.eq_false_iff.mp hpc)
  awake hne := absurd hne (Bool.eq_false_iff.mp hpc)

theorem Inv.step (h : Inv v s) (hs : step v s e = some s') : Inv v s' := by
  cases e with
  | suspend =>
    obtain ⟨⟨hpc, hrun, -⟩, ⟨⟩⟩ := Option.ite_none_right_eq_some.mp hs
    refine h.move (by rw [hpc]; rfl) hrun ?_
    split <;> rfl
  | others stopped =>
    obtain ⟨⟨hpc, -⟩, ⟨⟩⟩ := Option.ite_none_right_eq_some.mp hs
    have hrun : s.idle.pc = .run :=
      h.outside (by rw [hpc]; nofun) (by rw [hpc]; nofun)
    refine h.move (by rw [hpc]; rfl) hrun ?_
    split <;> rfl
  | vcpu =>
    obtain ⟨-, hs⟩ := Option.ite_none_right_eq_some.mp hs
    exact h.vmSuspend hs
  | idle e => exact h.idleStep hs

/-! ## Results -/

/-- While the VM is suspended its vcpu never waits: `vcpu_can_idle` lets a vcpu wait
only when the VM is online. -/
theorem suspend_never_waits {vm : Vm} (hvm : vm.state ≠ .suspend) (needStop : Bool)
    {l : List Event} (hr : run (step v) (init vm needStop) l = some s)
    (hsus : s.idle.vm.state = .suspend) :
    s.idle.pc = .run ∨ s.idle.pc = .check false .vmState := by
  have hinv : Inv v s :=
    run_invariant (P := fun _ _ => True) (fun _ _ _ h _ hs => h.step hs)
      (Inv.init hvm needStop) (along_true _ l) hr
  by_cases hwait : s.pc = .wait
  · exact hinv.inside hwait hsus
  · refine Or.inl (hinv.outside ?_ hwait)
    intro hrun
    have hpc := hinv.suspended hsus
    rw [hrun] at hpc
    cases hpc

/-- The vcpu in `vcpu_idle` has been woken already. -/
def WokenInv (v : Nat) (s : Sys) : Prop :=
  Inv v s ∧ (s.pc = .wait → s.woken = true)

theorem WokenInv.step (h : WokenInv v s) (hok : CallOk v s e) (hs : step v s e = some s') :
    WokenInv v s' := by
  refine ⟨h.1.step hs, fun hwait => ?_⟩
  cases e with
  | suspend | others =>
    obtain ⟨-, ⟨⟩⟩ := Option.ite_none_right_eq_some.mp hs
    simp only at hwait
    split at hwait <;> cases hwait
  | vcpu =>
    obtain ⟨-, hs⟩ := Option.ite_none_right_eq_some.mp hs
    unfold VmSuspend.vmSuspend at hs
    split at hs
    case h_1 | h_2 => cases hs
    case h_3 | h_4 =>
      cases hs
      cases hwait
    case h_5 hpc =>
      obtain ⟨idle, -, rfl⟩ := Option.map_eq_some_iff.mp hs
      have hsus : s.pc.suspended = true := by rw [hpc]; rfl
      refine next_woken ?_
      rcases hok hpc with hawake | hne
      · exact h.1.awake hsus hawake
      · exact h.1.stopped hsus hne
    case h_6 =>
      obtain ⟨-, ⟨⟩⟩ := Option.ite_none_right_eq_some.mp hs
      cases hwait
  | idle e =>
    obtain ⟨-, hs⟩ := Option.ite_none_right_eq_some.mp hs
    obtain ⟨idle, -, rfl⟩ := Option.map_eq_some_iff.mp hs
    exact next_woken (h.2 hwait)

/-- One step of a vcpu that was woken before it called `vcpu_idle`. -/
theorem WokenInv.wakesFirst (h : WokenInv v s) : WakesFirst v s e := by
  intro s' hs hdown honline
  obtain ⟨-, hne⟩ := h.1.down hdown
  cases e with
  | suspend | others stopped =>
    obtain ⟨-, ⟨⟩⟩ := Option.ite_none_right_eq_some.mp hs
    exact absurd honline hne
  | vcpu =>
    obtain ⟨-, hs⟩ := Option.ite_none_right_eq_some.mp hs
    unfold VmSuspend.vmSuspend at hs
    split at hs
    case h_1 | h_2 => cases hs
    case h_3 =>
      cases hs
      cases honline
    case h_4 =>
      cases hs
      exact absurd honline hne
    case h_5 =>
      obtain ⟨idle, hidle, rfl⟩ := Option.map_eq_some_iff.mp hs
      rw [← vcpuIdle_vm hidle] at hne
      exact absurd honline hne
    case h_6 hpc =>
      obtain ⟨-, ⟨⟩⟩ := Option.ite_none_right_eq_some.mp hs
      exact next_woken (h.2 hpc)
  | idle e =>
    obtain ⟨-, hs⟩ := Option.ite_none_right_eq_some.mp hs
    obtain ⟨idle, hidle, rfl⟩ := Option.map_eq_some_iff.mp hs
    by_cases hst : ∃ st, e = .vmState st
    · obtain ⟨st, rfl⟩ := hst
      exact next_asked
    · rw [← (idleStep_frame hidle).state fun st he => hst ⟨st, he⟩] at hne
      exact absurd honline hne

/-- In every run in which the vcpu is woken before it calls `vcpu_idle`, the VM goes
back to `ONLINE` only after it was woken. -/
theorem vm_suspend_wakes_first (v : Nat) {vm : Vm} (hvm : vm.state ≠ .suspend)
    (needStop : Bool) (l : List Event)
    (hl : Along (step v) (CallOk v) (init vm needStop) l) :
    Along (step v) (WakesFirst v) (init vm needStop) l := by
  have hinit : WokenInv v (init vm needStop) :=
    ⟨Inv.init hvm needStop, nofun⟩
  exact along_of_invariant (fun _ _ _ h hok hs => WokenInv.step h hok hs)
    (fun _ _ h _ => WokenInv.wakesFirst h) hinit hl

/-- A vcpu suspends the VM. -/
def suspendRun : List Event :=
  [.suspend, .others true, .vcpu, .vcpu, .vcpu, .idle .vcpu, .vcpu]

instance (v : Nat) (s : Sys) : (e : Event) → Decidable (CallOk v s e)
  | .vcpu =>
    inferInstanceAs (Decidable (s.pc = .call → awake v s.idle = true ∨
      s.idle.vm.state ≠ .suspend))
  | .suspend | .others _ | .idle _ => isTrue trivial

instance (v : Nat) (s : Sys) (e : Event) : Decidable (WakesFirst v s e) :=
  inferInstanceAs (Decidable (∀ s' ∈ step v s e,
    s.down = true → s'.idle.vm.state = .online → s'.woken = true))

/-- Its lines can wake the VM. -/
def wakeableVm : Vm :=
  { VcpuIdle.quietVm with
    vcpu := fun v =>
      { VcpuIdle.quietVm.vcpu v with
        localDesc := fun i => { vno := i, flags := BitVec.twoPow 32 virqsCanWakeupBit } } }

/-- Line 27 is raised on another cpu while the mvm is told. -/
def raisedBeforeIdle : List Event :=
  [.suspend, .others true, .vcpu, .idle (.send 1 0 (some (.percpu 0 27))), .idle (.sender 1),
    .vcpu, .vcpu, .idle .vcpu, .vcpu]

theorem vm_suspend_wakes_first_raised :
    (run (step 0) (init wakeableVm false) raisedBeforeIdle).map
        (fun s => (s.pc, s.idle.vm.state, s.woken)) = some (.run, .online, true) ∧
      Along (step 0) (WakesFirst 0) (init wakeableVm false) raisedBeforeIdle :=
  ⟨by decide +kernel,
    vm_suspend_wakes_first 0 (by decide) false raisedBeforeIdle (by decide +kernel)⟩

/-- No interrupt comes and nobody asks the VM to stop: it is online again at once. -/
theorem vm_suspend_not_woken :
    ¬ ∀ (v : Nat) (vm : Vm), vm.state ≠ .suspend → ∀ (needStop : Bool) (l : List Event),
      Along (step v) (WakesFirst v) (init vm needStop) l := by
  intro h
  exact absurd (h 0 VcpuIdle.quietVm (by decide) false suspendRun) (by decide +kernel)

end Minos.VmSuspend
