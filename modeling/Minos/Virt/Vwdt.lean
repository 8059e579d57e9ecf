import Minos.Core.Timer
import Minos.Virt.Hypercall
import Minos.Virt.VirqDelivery

/-!
# The virtual watchdog

`virt/vwdt.c`: a VM has an SP805 watchdog. Its registers are written by the vcpus of
the VM, and its timer runs on the cpu of the vcpu that started it. When the timer
expires the VM gets an interrupt; when that is still not cleared at the next expiry,
the VM is to be reset: a native VM with `panic`, another with a trap to the mvm
(`__vcpu_trap`, `virt/vmcs.c`).

`vwdt_timer_expire` runs in the interrupt of the physical timer, on top of the task
that has the cpu. `__vcpu_trap` takes the vcpu from that task, and a call of `sched`
there ends in `sched_check`.

An access and an expiry are steps of their own, without steps of others in between,
up to the loop of `__vcpu_trap` that waits for the trap before: `acked` says that the
mvm answers that one, otherwise the task is asked to stop. Reads change nothing and
are left out. The timer of a watchdog is one of `SoftTimer`, whose other timers it does not
see (`modTimer_softTimer`, `stopTimer_softTimer`), and a trap takes the steps of `Vmcs`
(`trapFromIrq_page`).
-/

namespace Minos.Vwdt

open Minos.Lib Minos.Hypercall
open Minos.Virq (vmLocalVirqNr vmIrqCount)

/-! ## Data -/

/-- The timer of a watchdog; `cpu` is `none` for -1. -/
structure WdtTimer where
  pending : Bool
  cpu : Option Nat
  expires : Nat
  deriving DecidableEq, Repr

/-- `struct vwdt_dev`; `vm` is the VM of its `vdev`. -/
structure VwdtDev where
  vm : Nat
  intEnable : Bool
  resetEnable : Bool
  intTrigger : Bool
  accessLock : Bool
  loadValue : Nat
  timeoutValue : Nat
  timer : WdtTimer
  deriving DecidableEq, Repr

structure Sys where
  machine : Machine
  /-- the VM and the vcpu whose task a cpu runs, unless the task is not a vcpu's -/
  current : Nat → Option (Nat × Nat)
  wdt : Nat → Option VwdtDev

def init (m : Machine) : Sys := ⟨m, fun _ => none, fun _ => none⟩

def Sys.setWdt (s : Sys) (i : Nat) (w : Option VwdtDev) : Sys :=
  { s with wdt := Function.update s.wdt i w }

/-! ## The timer -/

/-- `mod_timer`. -/
def modTimer (t : WdtTimer) (cpu now cval : Nat) : Except Fault WdtTimer :=
  if SoftTimer.MayMod t.cpu cpu then .ok ⟨true, some cpu, SoftTimer.modExpires now cval⟩
  else .error .assertion

def stopTimer (t : WdtTimer) : WdtTimer := if t.cpu = none then t else ⟨false, none, 0⟩

/-- The timer `t` of a cpu, outside of its interrupt. -/
def softTimer (s : SoftTimer.Sys) (t cpu : Nat) : WdtTimer :=
  ⟨decide (t ∈ s.active), if (s.timer t).cpu then some cpu else none, s.expires t⟩

theorem modTimer_softTimer (s : SoftTimer.Sys) (t cpu now cval : Nat) :
    modTimer (softTimer s t cpu) cpu now cval
      = .ok (softTimer (SoftTimer.modTimer s t now cval) t cpu) := by
  have hcpu : SoftTimer.MayMod (softTimer s t cpu).cpu cpu := by
    unfold softTimer
    cases (s.timer t).cpu with
    | false => exact Or.inl rfl
    | true => exact Or.inr rfl
  rw [modTimer, if_pos hcpu]
  simp only [SoftTimer.modTimer, SoftTimer.modTimerLocked]
  generalize SoftTimer.modExpires now cval = e
  split
  · unfold SoftTimer.enableTimer
    split <;> simp [softTimer, SoftTimer.linkTimer, SoftTimer.Sys.setTimer, SoftTimer.Sys.expires]
  · simp [softTimer, SoftTimer.linkTimer, SoftTimer.Sys.setTimer, SoftTimer.Sys.expires]

theorem stopTimer_softTimer {s : SoftTimer.Sys} (hs : s.active.Nodup) (t cpu : Nat) :
    stopTimer (softTimer s t cpu) = softTimer (SoftTimer.stopTimer s t) t cpu := by
  unfold stopTimer SoftTimer.stopTimer softTimer
  cases hcpu : (s.timer t).cpu with
  | false => simp [hcpu]
  | true =>
    simp [SoftTimer.detachTimer, SoftTimer.Sys.setTimer, SoftTimer.Sys.expires,
      hs.mem_erase_iff]

/-- The timer is started with `load_value`. -/
def VwdtDev.restart (w : VwdtDev) (cpu now : Nat) : Except Fault VwdtDev :=
  let timeout := u64 (now + w.loadValue)
  (modTimer w.timer cpu now timeout).map fun t => { w with timeoutValue := timeout, timer := t }

/-! ## Registers -/

def sp805WdtLoad : Nat := 0x00
def sp805WdtCtl : Nat := 0x08
def sp805WdtIntclr : Nat := 0x0c
def sp805WdtLock : Nat := 0xc00

def wdtLock : Nat := 0x00000001
def wdtUnlock : Nat := 0x1acce551
def wdtClkRate : Nat := 32768

def vwdtConfigCtrl (w : VwdtDev) (cpu now : Nat) (intEnable resetEnable : Bool) :
    Except Fault VwdtDev :=
  let enabled : Except Fault VwdtDev :=
    if w.intEnable = intEnable then .ok w
    else if intEnable then { w with intEnable := true }.restart cpu now
    else .ok { w with intEnable := false, intTrigger := false, timer := stopTimer w.timer }
  enabled.map fun w => { w with resetEnable := resetEnable }

def vwdtConfigIntclr (w : VwdtDev) (cpu now : Nat) : Except Fault VwdtDev :=
  let cleared := { w with intTrigger := false }
  if w.intEnable then cleared.restart cpu now else .ok cleared

/-- The seconds are rounded up, in 32 bits. -/
def vwdtConfigLoad (w : VwdtDev) (v : Nat) : VwdtDev :=
  { w with loadValue := u32 (v + (wdtClkRate - 1)) / wdtClkRate * 1000000000 }

/-- A write that the watchdog refuses leaves it as it is. -/
def vwdtMmioWrite (w : VwdtDev) (cpu now offset value : Nat) :
    Except Fault (Except Errno VwdtDev) :=
  let v := u32 value
  if offset ≠ sp805WdtLock ∧ w.accessLock = true then .ok (.error .eperm)
  else if offset = sp805WdtLoad then .ok (.ok (vwdtConfigLoad w v))
  else if offset = sp805WdtCtl then
    (vwdtConfigCtrl w cpu now (v.testBit 0) (v.testBit 1)).map .ok
  else if offset = sp805WdtIntclr then (vwdtConfigIntclr w cpu now).map .ok
  else if offset = sp805WdtLock then
    .ok (.ok (if v = wdtUnlock then { w with accessLock := false }
      else if v = wdtLock then { w with accessLock := true } else w))
  else .ok (.ok w)

def vwdtReset (w : VwdtDev) : VwdtDev :=
  ⟨w.vm, false, false, false, true, 0, 0, stopTimer w.timer⟩

/-- The watchdog `vwdt_init` leaves. -/
def vwdtInit (vm : Nat) : VwdtDev := ⟨vm, false, false, false, true, 0, 0, ⟨false, none, 0⟩⟩

/-! ## Expiry -/

def vmtrapReasonWdtTimeout : Nat := 7
def timeoutTrap : VmTrap.Trap := ⟨vmtrapTypeCommon, vmtrapReasonWdtTimeout, 0, 0⟩
def sp805Irq : Nat := 32

/-- The vcpu waits for the trap it posted, by `sched`: it shares its cpu with vcpu 0
of the host VM, and the number of that cpu is below `vcpu_nr`. -/
def schedsForAnswer (m : Machine) (c v : Nat) : Bool :=
  match m.host, (m.vm c).vmcs v with
  | some h, some p =>
    p.guestIndex ≠ p.hostIndex && (m.vm c).affinity v = (m.vm h).affinity 0 &&
      (m.vm c).affinity v < (m.vm h).virq.vcpuNr
  | _, _ => false

/-- `__vcpu_trap` once the trap before is answered. -/
def postFromIrq (m : Machine) (c v : Nat) : Except Fault Machine :=
  (trapVcpu m c v vmtrapReasonWdtTimeout).bind fun m =>
    if schedsForAnswer m c v then .error .panic else .ok m

/-- `trap_vcpu_nonblock` of `vwdt_timer_expire`, when vcpu `v` of VM `c` is current. -/
def trapFromIrq (m : Machine) (c v : Nat) (acked : Bool) : Except Fault Machine :=
  match (m.vm c).vmcsIrq v with
  | none => .ok m
  | some _ =>
    match (m.vm c).vmcs v with
    | none => .error .panic
    | some p =>
      if p.guestIndex = p.hostIndex then postFromIrq m c v
      else
        match m.host with
        | none => .error .panic
        | some h =>
          -- `sched` in an interrupt
          if (m.vm c).affinity v < (m.vm h).affinity 0 then .error .panic
          else if acked then
            postFromIrq (m.setVm c ((m.vm c).setVmcs v
              { p with guestIndex := p.hostIndex })) c v
          else .ok m

/-- The interrupt for the VM of the watchdog. -/
def sendTimeout (m : Machine) (c cur : Nat) : Except Fault Machine :=
  (sendVirqToVm (m.vm c) cur sp805Irq).map fun
    | some vm => m.setVm c vm
    | none => m

def vwdtTimerExpire (m : Machine) (current : Option (Nat × Nat)) (w : VwdtDev) (cpu now : Nat)
    (acked : Bool) : Except Fault (Machine × VwdtDev) :=
  if w.intTrigger ∧ w.resetEnable then
    if (m.vm w.vm).native then .error .panic
    else
      match current with
      -- the task has no vcpu to dereference
      | none => .error .panic
      | some (c, v) => (trapFromIrq m c v acked).map fun m => (m, w)
  else if w.intEnable then
    (sendTimeout m w.vm ((current.map Prod.snd).getD 0)).bind fun m =>
      ({ w with intTrigger := true }.restart cpu now).map fun w => (m, w)
  else .ok (m, w)

/-! ## Runs -/

/-- What `virq_create_vm` and `__request_virq` leave of the lines of a VM: the bitmaps have a
bit for each, and a shared one goes to a vcpu that exists. -/
structure VirqOk (vm : Virq.Vm) : Prop where
  sized : Virq.Delivery.Sized vm
  vcpu : ∀ i < vm.vspiNr, (vm.vspiDesc i).vcpuId < vm.vcpuNr

inductive Event
  /-- the cpu goes to a vcpu, or to a task that is not a vcpu's -/
  | sched (cpu : Nat) (task : Option (Nat × Nat))
  /-- the vcpu that has the cpu writes a register of watchdog `i` of its VM -/
  | write (cpu i now offset value : Nat)
  /-- the timer of watchdog `i` expires -/
  | expire (cpu i now : Nat) (acked : Bool)
  | create (i vm : Nat)
  | reset (i : Nat)
  | deinit (i : Nat)
  /-- whatever else changes a VM: its kind and the cpus of its vcpus stay -/
  | vm (i : Nat) (vm : Vm) (hvm : VirqOk vm.virq)

/-- A vcpu runs on its own cpu. -/
def mayRun (m : Machine) (cpu : Nat) : Option (Nat × Nat) → Prop
  | none => True
  | some (c, v) => v < (m.vm c).virq.vcpuNr ∧ (m.vm c).affinity v = cpu

instance (m : Machine) (cpu : Nat) : (t : Option (Nat × Nat)) → Decidable (mayRun m cpu t)
  | none => isTrue trivial
  | some (c, v) =>
    inferInstanceAs (Decidable (v < (m.vm c).virq.vcpuNr ∧ (m.vm c).affinity v = cpu))

/-- The step of an event that can happen. -/
def outcome (s : Sys) : Event → Option (Except Fault Sys)
  | .sched cpu task =>
    if mayRun s.machine cpu task then
      some (.ok { s with current := Function.update s.current cpu task })
    else none
  | .write cpu i now offset value =>
    (s.wdt i).bind fun w =>
      if (s.current cpu).map Prod.fst = some w.vm then
        some ((vwdtMmioWrite w cpu now offset value).map fun
          | .ok w => s.setWdt i (some w)
          | .error _ => s)
      else none
  | .expire cpu i now acked =>
    (s.wdt i).bind fun w =>
      if w.timer.pending = true ∧ w.timer.cpu = some cpu ∧
          w.timer.expires ≤ now + SoftTimer.defaultTimerMargin then
        let fired := { w with timer := { w.timer with pending := false } }
        some ((vwdtTimerExpire s.machine (s.current cpu) fired cpu now acked).map fun r =>
          { s with machine := r.1 }.setWdt i (some r.2))
      else none
  | .create i vm => if s.wdt i = none then some (.ok (s.setWdt i (some (vwdtInit vm)))) else none
  | .reset i => (s.wdt i).map fun w => .ok (s.setWdt i (some (vwdtReset w)))
  | .deinit i => (s.wdt i).map fun _ => .ok (s.setWdt i none)
  | .vm i vm _ =>
    let old := s.machine.vm i
    let new := { vm with native := old.native, affinity := old.affinity }
    some (.ok { s with machine := s.machine.setVm i new })

def step (s : Sys) (e : Event) : Option Sys := (outcome s e).bind Except.toOption

/-! ## Statements -/

/-- Of the VMs only `c` is concerned: the host VM, which is asked to reset it, gets the
virq of a vcpu of `c`, and no other VM changes. -/
def Concerns (m : Machine) (c : Nat) (m' : Machine) : Prop :=
  ∀ j, j ≠ c → (m'.vm j).vmcs = (m.vm j).vmcs ∧
    (m'.vm j = m.vm j ∨ m.host = some j ∧ ∃ v irq, (m.vm c).vmcsIrq v = some irq ∧
      m'.vm j = heard (m.vm j) v irq)

/-- A trap of the vcpu in an interrupt does not come to `sched` or to a pointer that
is `NULL`. -/
structure TrapSafe (m : Machine) (c v : Nat) : Prop where
  page : (m.vm c).vmcs v ≠ none
  -- the trap before is answered, or `cpu_relax` waits for that
  before : ∀ p ∈ (m.vm c).vmcs v, p.guestIndex ≠ p.hostIndex →
    ∃ h ∈ m.host, (m.vm h).affinity 0 ≤ (m.vm c).affinity v
  after : ∀ h ∈ m.host, (m.vm c).affinity v ≠ (m.vm h).affinity 0 ∨
    (m.vm h).virq.vcpuNr ≤ (m.vm c).affinity v

/-- When the watchdog of a VM asks for its reset by a trap, a vcpu of that VM has the
cpu, or one that has no line for traps. -/
def ResetOk (m : Machine) (vm : Nat) (current : Option (Nat × Nat)) : Prop :=
  ∃ t ∈ current, (m.vm t.1).vmcsIrq t.2 ≠ none → t.1 = vm ∧ TrapSafe m t.1 t.2

def ExpireOk (m : Machine) (w : VwdtDev) (current : Option (Nat × Nat)) : Prop :=
  w.intTrigger = true → w.resetEnable = true → (m.vm w.vm).native = false →
    ResetOk m w.vm current

/-- The write enables the watchdog or clears its interrupt, and starts the timer. -/
def StartsTimer (w : VwdtDev) (offset value : Nat) : Prop :=
  w.accessLock = false ∧
    ((offset = sp805WdtCtl ∧ w.intEnable = false ∧ (u32 value).testBit 0 = true) ∨
      (offset = sp805WdtIntclr ∧ w.intEnable = true))

instance (w : VwdtDev) (offset value : Nat) : Decidable (StartsTimer w offset value) :=
  inferInstanceAs (Decidable (_ ∧ _))

/-- A write that starts the timer comes from the cpu the timer is on. -/
def WriteOk (w : VwdtDev) (cpu offset value : Nat) : Prop :=
  StartsTimer w offset value → SoftTimer.MayMod w.timer.cpu cpu

def StepOk (s : Sys) : Event → Prop
  | .write cpu i _ offset value => ∀ w ∈ s.wdt i, WriteOk w cpu offset value
  | .expire cpu i _ _ => ∀ w ∈ s.wdt i, ExpireOk s.machine w (s.current cpu)
  | _ => True

/-! ## Lines -/

section Lines

variable {vm vm' : Virq.Vm}

theorem VirqOk.setDesc {r : Virq.DescRef} {d : Virq.VirqDesc} (h : VirqOk vm) (map : Bitmap)
    (hvno : d.vno < vmIrqCount vm) (hvcpu : ∀ i, r = .spi i → d.vcpuId < vm.vcpuNr) :
    VirqOk ({ vm with vspiMap := map }.setDesc r d) := by
  have hdesc := Virq.desc_setDesc { vm with vspiMap := map } r d
  have hsame : ∀ q, Virq.Vm.desc { vm with vspiMap := map } q = vm.desc q := by
    intro q
    cases q <;> rfl
  have hcount : vmIrqCount ({ vm with vspiMap := map }.setDesc r d) = vmIrqCount vm := by
    cases r <;> rfl
  have hnr : ({ vm with vspiMap := map }.setDesc r d).vcpuNr = vm.vcpuNr := by cases r <;> rfl
  have hspi : ({ vm with vspiMap := map }.setDesc r d).vspiNr = vm.vspiNr := by cases r <;> rfl
  refine ⟨⟨fun w => ?_, fun w => ?_, fun q hq => ?_⟩, fun i hi => ?_⟩
  · rw [Virq.Delivery.setDesc_pendingBitmap, hcount]
    exact h.sized.pendLen w
  · rw [Virq.Delivery.setDesc_activeBitmap, hcount]
    exact h.sized.actLen w
  · rw [hdesc, hcount]
    split
    · exact hvno
    · rw [hsame]
      refine h.sized.vno q ?_
      cases q <;> simpa only [Virq.Vm.HasDesc, hnr, hspi] using hq
  · have hi' := hdesc (.spi i)
    simp only [Virq.Vm.desc] at hi'
    rw [hi', hnr]
    split
    · rename_i heq
      exact hvcpu i heq.symm
    · exact h.vcpu i (by rwa [hspi] at hi)

/-- A line is requested for a vcpu that exists. -/
theorem VirqOk.request {virq hwirq affinity : Nat} {flags : BitVec 64} (h : VirqOk vm)
    (hr : Virq.requestVirqAffinity vm virq hwirq affinity flags = .ok vm') : VirqOk vm' := by
  unfold Virq.requestVirqAffinity at hr
  split at hr
  · cases hr
  rename_i haff
  split at hr
  · cases hr
  rename_i r hget
  have hvirq : virq < vmIrqCount vm := by
    unfold Virq.getVirqDesc at hget
    unfold vmIrqCount
    split_ifs at hget <;> omega
  simp only [Virq.requestVirqDesc] at hr
  split at hr
  · cases hr
  cases hr
  have hvno : virq % 2 ^ 16 < vmIrqCount vm := (Nat.mod_le _ _).trans_lt hvirq
  have hvcpu : affinity % 2 ^ 8 < vm.vcpuNr := (Nat.mod_le _ _).trans_lt (Nat.lt_of_not_le haff)
  split
  · refine h.setDesc _ ?_ fun _ _ => ?_
    · rw [(Virq.updateVirqCap_vno _ _).1]
      split <;> exact hvno
    · rw [(Virq.updateVirqCap_vno _ _).2]
      split <;> exact hvcpu
  · refine h.setDesc vm.vspiMap ?_ fun _ _ => ?_
    · rw [(Virq.updateVirqCap_vno _ _).1]
      split <;> exact hvno
    · rw [(Virq.updateVirqCap_vno _ _).2]
      split <;> exact hvcpu

/-- A line that is given back goes to vcpu 0. -/
theorem VirqOk.release (h : VirqOk vm) (hvcpu : 0 < vm.vcpuNr) (virq : Int) :
    VirqOk (Virq.releaseVmVirq vm virq) := by
  unfold Virq.releaseVmVirq
  simp only
  split
  · exact h
  · exact h.setDesc (r := .spi (virq - vmLocalVirqNr).toNat) (d := {}) (clearBit _ vm.vspiMap)
      (Nat.lt_of_lt_of_le (by decide) (Nat.le_add_left vmLocalVirqNr _)) fun _ _ => hvcpu

theorem VirqOk.sent (h : VirqOk vm) (cur v : Nat) (r : Virq.DescRef) :
    VirqOk (Virq.sendVirqPending vm cur v r) := by
  have hframe := Virq.Delivery.sendVirqPending_frame vm cur v r
  refine ⟨h.sized.keeps hframe.toKeeps, fun i hi => ?_⟩
  rw [hframe.vspiNr] at hi
  rw [hframe.vcpuNr]
  exact (hframe.vcpuId (.spi i)).trans_lt (h.vcpu i hi)

end Lines

variable {vm : Vm}

/-- A virq to a VM is heard, or refused or dropped. -/
theorem VirqOk.sendVirqToVm_eq (h : VirqOk vm.virq) (cur irq : Nat) :
    sendVirqToVm vm cur irq
      = .ok (if Accepted vm irq ∧ Deliverable vm irq then some (heard vm cur irq) else none) := by
  rw [Hypercall.sendVirqToVm_eq, if_neg]
  · split <;> rfl
  · rintro ⟨⟨hlocal, hcount, -⟩, hvcpu⟩
    refine Nat.not_lt.mpr hvcpu (h.vcpu (irq - vmLocalVirqNr) ?_)
    unfold vmIrqCount at hcount
    omega

theorem VirqOk.heard (h : VirqOk vm.virq) (cur irq : Nat) : VirqOk (heard vm cur irq).virq :=
  h.sent _ _ _

/-! ## Traps -/

section Traps

variable {m m' : Machine} {c v irq h : Nat} {p : VmTrap.Vmcs}

theorem Concerns.refl (m : Machine) (c : Nat) : Concerns m c m :=
  fun _ _ => ⟨rfl, Or.inl rfl⟩

theorem concerns_setVm (m : Machine) (c : Nat) (vm : Vm) : Concerns m c (m.setVm c vm) := by
  intro j hj
  rw [spares_setVm m c vm j hj]
  exact ⟨rfl, Or.inl rfl⟩

theorem Concerns.of_setVm (h : Concerns (m.setVm c vm) c m')
    (hirq : vm.vmcsIrq = (m.vm c).vmcsIrq) : Concerns m c m' := by
  intro j hj
  have hnew := h j hj
  rw [spares_setVm m c vm j hj, setVm_self, hirq] at hnew
  exact hnew

/-- The vcpus are where they were. -/
structure SamePlaces (m m' : Machine) : Prop where
  host : m'.host = m.host
  affinity : ∀ j, (m'.vm j).affinity = (m.vm j).affinity
  vcpuNr : ∀ j, (m'.vm j).virq.vcpuNr = (m.vm j).virq.vcpuNr

theorem samePlaces_setVm (haff : vm.affinity = (m.vm c).affinity)
    (hnr : vm.virq.vcpuNr = (m.vm c).virq.vcpuNr) : SamePlaces m (m.setVm c vm) := by
  refine ⟨rfl, fun j => ?_, fun j => ?_⟩
  all_goals
    by_cases hj : j = c
    · rw [hj, setVm_self]
      assumption
    · rw [spares_setVm m c vm j hj]

theorem SamePlaces.trans {m'' : Machine} (h : SamePlaces m m') (h' : SamePlaces m' m'') :
    SamePlaces m m'' :=
  ⟨h'.host.trans h.host, fun j => (h'.affinity j).trans (h.affinity j),
    fun j => (h'.vcpuNr j).trans (h.vcpuNr j)⟩

theorem samePlaces_heard (h cur irq : Nat) :
    SamePlaces m (m.setVm h (heard (m.vm h) cur irq)) :=
  samePlaces_setVm rfl (Virq.Delivery.sendVirqPending_frame _ _ _ _).vcpuNr

/-- The VMs of the machine have lines as they should. -/
def LinesOk (m : Machine) : Prop := ∀ j, VirqOk (m.vm j).virq

theorem LinesOk.setVm (hm : LinesOk m) (hvm : VirqOk vm.virq) : LinesOk (m.setVm c vm) := by
  intro j
  by_cases hj : j = c
  · rw [hj, setVm_self]
    exact hvm
  · rw [spares_setVm m c vm j hj]
    exact hm j

/-- The trap is on the page, and its virq in the host VM `h`. -/
def posted (m : Machine) (c v irq h : Nat) (p : VmTrap.Vmcs) : Machine :=
  (m.setVm h (heard (m.vm h) v irq)).setVm c ((m.vm c).setVmcs v (p.post timeoutTrap))

/-- The trap is taken back. -/
def takenBack (m : Machine) (c v : Nat) (p : VmTrap.Vmcs) : Machine :=
  m.setVm c ((m.vm c).setVmcs v (p.post timeoutTrap).takeBack)

/-- The host VM `h` hears the virq. -/
def Hears (m : Machine) (irq h : Nat) : Prop :=
  m.host = some h ∧ Accepted (m.vm h) irq ∧ Deliverable (m.vm h) irq

/-- The vcpu would call `sched` while it waits for the answer. -/
def Blocks (m : Machine) (c v h : Nat) : Prop :=
  (m.vm c).affinity v = (m.vm h).affinity 0 ∧ (m.vm c).affinity v < (m.vm h).virq.vcpuNr

theorem trapVcpu_eq (hm : LinesOk m) (hirq : (m.vm c).vmcsIrq v = some irq)
    (hp : (m.vm c).vmcs v = some p) :
    (∃ h, Hears m irq h ∧
        trapVcpu m c v vmtrapReasonWdtTimeout = .ok (posted m c v irq h p)) ∨
      (¬ ∃ h, Hears m irq h) ∧
        trapVcpu m c v vmtrapReasonWdtTimeout = .ok (takenBack m c v p) := by
  simp only [trapVcpu, hirq, hp, sendVirqToHost]
  cases hhost : m.host with
  | none =>
    refine Or.inr ⟨?_, rfl⟩
    rintro ⟨h, hh⟩
    cases hhost.symm.trans hh.1
  | some h =>
    simp only [(hm h).sendVirqToVm_eq]
    by_cases hears : Accepted (m.vm h) irq ∧ Deliverable (m.vm h) irq
    · rw [if_pos hears]
      exact Or.inl ⟨h, ⟨hhost, hears⟩, rfl⟩
    · rw [if_neg hears]
      refine Or.inr ⟨?_, rfl⟩
      rintro ⟨h', hh'⟩
      obtain rfl := Option.some.inj (hhost.symm.trans hh'.1)
      exact hears hh'.2

theorem samePlaces_posted : SamePlaces m (posted m c v irq h p) := by
  have hheard : SamePlaces m (m.setVm h (heard (m.vm h) v irq)) := samePlaces_heard h v irq
  exact hheard.trans (samePlaces_setVm (hheard.affinity c).symm (hheard.vcpuNr c).symm)

theorem schedsForAnswer_posted (hhost : m.host = some h) (hidle : p.guestIndex = p.hostIndex) :
    schedsForAnswer (posted m c v irq h p) c v = true ↔ Blocks m c v h := by
  have hsame : SamePlaces m (posted m c v irq h p) := samePlaces_posted
  have hpage : ((posted m c v irq h p).vm c).vmcs v = some (p.post timeoutTrap) := by
    rw [posted, setVm_self, setVmcs_self]
  simp only [schedsForAnswer, hsame.host.trans hhost, hpage, hsame.affinity, hsame.vcpuNr]
  simp [VmTrap.Vmcs.post, hidle, Blocks]

theorem schedsForAnswer_takenBack (hidle : p.guestIndex = p.hostIndex) :
    schedsForAnswer (takenBack m c v p) c v = false := by
  have hpage : ((takenBack m c v p).vm c).vmcs v = some (p.post timeoutTrap).takeBack := by
    rw [takenBack, setVm_self, setVmcs_self]
  simp only [schedsForAnswer, hpage]
  split
  · rename_i hp
    cases hp
    simp [VmTrap.Vmcs.post, VmTrap.Vmcs.takeBack, hidle, BitVec.add_sub_cancel]
  · rfl

/-- **One trap**, once the trap before is answered: the host VM hears it, unless it would be
waited for with `sched`, or it is taken back. -/
theorem postFromIrq_cases (hm : LinesOk m) (hirq : (m.vm c).vmcsIrq v = some irq)
    (hp : (m.vm c).vmcs v = some p) (hidle : p.guestIndex = p.hostIndex) :
    (∃ h, Hears m irq h ∧ Blocks m c v h ∧ postFromIrq m c v = .error .panic) ∨
      (∃ h, Hears m irq h ∧ ¬ Blocks m c v h ∧ postFromIrq m c v = .ok (posted m c v irq h p)) ∨
        (¬ ∃ h, Hears m irq h) ∧ postFromIrq m c v = .ok (takenBack m c v p) := by
  unfold postFromIrq
  obtain ⟨h, hears, hr⟩ | ⟨hno, hr⟩ := trapVcpu_eq hm hirq hp
  · rw [hr, Except.bind]
    have hblocks : schedsForAnswer (posted m c v irq h p) c v = true ↔ Blocks m c v h :=
      schedsForAnswer_posted hears.1 hidle
    split
    · rename_i hsched
      exact Or.inl ⟨h, hears, hblocks.mp hsched, rfl⟩
    · rename_i hsched
      exact Or.inr (Or.inl ⟨h, hears, mt hblocks.mpr hsched, rfl⟩)
  · rw [hr, Except.bind, schedsForAnswer_takenBack hidle]
    exact Or.inr (Or.inr ⟨hno, rfl⟩)

/-- What a trap does to the rest of the machine. -/
structure Effect (m : Machine) (c : Nat) (m' : Machine) : Prop where
  concerns : Concerns m c m'
  lines : LinesOk m'

theorem effect_posted (hm : LinesOk m) (hirq : (m.vm c).vmcsIrq v = some irq)
    (hhost : m.host = some h) : Effect m c (posted m c v irq h p) := by
  refine ⟨fun j hj => ?_, (hm.setVm ((hm h).heard v irq)).setVm (hm c)⟩
  rw [posted, spares_setVm _ c _ j hj]
  by_cases hjh : j = h
  · rw [hjh, setVm_self]
    exact ⟨rfl, Or.inr ⟨hhost, v, irq, hirq, rfl⟩⟩
  · rw [spares_setVm m h _ j hjh]
    exact ⟨rfl, Or.inl rfl⟩

theorem effect_setVm (hm : LinesOk m) (hvm : VirqOk vm.virq) : Effect m c (m.setVm c vm) :=
  ⟨concerns_setVm m c vm, hm.setVm hvm⟩

theorem postFromIrq_effect (hm : LinesOk m) (hirq : (m.vm c).vmcsIrq v = some irq)
    (hp : (m.vm c).vmcs v = some p) (hidle : p.guestIndex = p.hostIndex)
    (hr : postFromIrq m c v = .ok m') : Effect m c m' := by
  obtain ⟨h, -, -, hr'⟩ | ⟨h, hears, -, hr'⟩ | ⟨-, hr'⟩ := postFromIrq_cases hm hirq hp hidle
  · cases hr.symm.trans hr'
  · cases hr.symm.trans hr'
    exact effect_posted hm hirq hears.1
  · cases hr.symm.trans hr'
    exact effect_setVm hm (hm c)

/-- The page of the trap, with the trap before answered. -/
def answered (m : Machine) (c v : Nat) (p : VmTrap.Vmcs) : Machine :=
  m.setVm c ((m.vm c).setVmcs v { p with guestIndex := p.hostIndex })

/-- **A trap in an interrupt**, case by case: it is not made, it dereferences `NULL`, it is posted
at once, it calls `sched` or finds no host VM, it is posted when the mvm has answered, it gives
up. -/
inductive TrapCase (m : Machine) (c v : Nat) (acked : Bool) : Prop
  | noLine (hirq : (m.vm c).vmcsIrq v = none) (hr : trapFromIrq m c v acked = .ok m)
  | noPage (irq : Nat) (hirq : (m.vm c).vmcsIrq v = some irq) (hp : (m.vm c).vmcs v = none)
      (hr : trapFromIrq m c v acked = .error .panic)
  | atOnce (irq : Nat) (p : VmTrap.Vmcs) (hirq : (m.vm c).vmcsIrq v = some irq)
      (hp : (m.vm c).vmcs v = some p) (hidle : p.guestIndex = p.hostIndex)
      (hr : trapFromIrq m c v acked = postFromIrq m c v)
  | faults (irq : Nat) (p : VmTrap.Vmcs) (hirq : (m.vm c).vmcsIrq v = some irq)
      (hp : (m.vm c).vmcs v = some p) (hbusy : p.guestIndex ≠ p.hostIndex)
      (hhost : ∀ h ∈ m.host, (m.vm c).affinity v < (m.vm h).affinity 0)
      (hr : trapFromIrq m c v acked = .error .panic)
  | later (irq h : Nat) (p : VmTrap.Vmcs) (hirq : (m.vm c).vmcsIrq v = some irq)
      (hp : (m.vm c).vmcs v = some p) (hbusy : p.guestIndex ≠ p.hostIndex)
      (hhost : m.host = some h) (hle : (m.vm h).affinity 0 ≤ (m.vm c).affinity v)
      (hacked : acked = true)
      (hr : trapFromIrq m c v acked = postFromIrq (answered m c v p) c v)
  | givesUp (irq : Nat) (p : VmTrap.Vmcs) (hirq : (m.vm c).vmcsIrq v = some irq)
      (hp : (m.vm c).vmcs v = some p) (hbusy : p.guestIndex ≠ p.hostIndex)
      (hacked : acked = false) (hr : trapFromIrq m c v acked = .ok m)

theorem trapFromIrq_cases (m : Machine) (c v : Nat) (acked : Bool) : TrapCase m c v acked := by
  cases hirq : (m.vm c).vmcsIrq v with
  | none => exact .noLine hirq (by rw [trapFromIrq, hirq])
  | some irq =>
    cases hp : (m.vm c).vmcs v with
    | none => exact .noPage irq hirq hp (by simp only [trapFromIrq, hirq, hp])
    | some p =>
      by_cases hidle : p.guestIndex = p.hostIndex
      · exact .atOnce irq p hirq hp hidle (by simp only [trapFromIrq, hirq, hp, if_pos hidle])
      have hr : trapFromIrq m c v acked = match m.host with
          | none => .error .panic
          | some h =>
            if (m.vm c).affinity v < (m.vm h).affinity 0 then .error .panic
            else if acked then postFromIrq (answered m c v p) c v else .ok m := by
        simp only [trapFromIrq, hirq, hp, if_neg hidle]
        rfl
      cases hhost : m.host with
      | none => exact .faults irq p hirq hp hidle (by simp [hhost]) (by rw [hr, hhost])
      | some h =>
        simp only [hhost] at hr
        by_cases hlt : (m.vm c).affinity v < (m.vm h).affinity 0
        · exact .faults irq p hirq hp hidle (by simpa [hhost] using hlt) (hr.trans (if_pos hlt))
        rw [if_neg hlt] at hr
        cases acked with
        | true => exact .later irq h p hirq hp hidle hhost (Nat.le_of_not_lt hlt) rfl hr
        | false => exact .givesUp irq p hirq hp hidle rfl hr

theorem answered_page : ((answered m c v p).vm c).vmcs v
    = some { p with guestIndex := p.hostIndex } := by
  rw [answered, setVm_self, setVmcs_self]

theorem answered_irq : ((answered m c v p).vm c).vmcsIrq = (m.vm c).vmcsIrq := by
  rw [answered, setVm_self]
  rfl

theorem LinesOk.answered (hm : LinesOk m) : LinesOk (answered m c v p) := hm.setVm (hm c)

theorem samePlaces_answered : SamePlaces m (answered m c v p) := samePlaces_setVm rfl rfl

theorem trapFromIrq_effect {acked : Bool} (hm : LinesOk m)
    (hr : trapFromIrq m c v acked = .ok m') : Effect m c m' := by
  cases trapFromIrq_cases m c v acked with
  | noLine _ hr' | givesUp _ _ _ _ _ _ hr' =>
    cases hr.symm.trans hr'
    exact ⟨Concerns.refl m c, hm⟩
  | noPage _ _ _ hr' | faults _ _ _ _ _ _ hr' => cases hr.symm.trans hr'
  | atOnce irq p hirq hp hidle hr' => exact postFromIrq_effect hm hirq hp hidle (hr'.symm.trans hr)
  | later irq h p hirq hp _ hhost _ _ hr' =>
    have heffect := postFromIrq_effect hm.answered (by rw [answered_irq]; exact hirq)
      answered_page rfl (hr'.symm.trans hr)
    exact ⟨heffect.concerns.of_setVm rfl, heffect.lines⟩

theorem TrapSafe.answered (hsafe : TrapSafe m c v) : TrapSafe (answered m c v p) c v where
  page := by simp [answered_page]
  before q hq hne := by
    rw [answered_page] at hq
    cases hq
    exact absurd rfl hne
  after h hhost := by
    have hsame : SamePlaces m (Vwdt.answered m c v p) := samePlaces_answered
    rw [hsame.affinity, hsame.affinity, hsame.vcpuNr]
    exact hsafe.after h hhost

theorem sendTimeout_eq (hm : LinesOk m) (c cur : Nat) : sendTimeout m c cur = .ok
    (if Accepted (m.vm c) sp805Irq ∧ Deliverable (m.vm c) sp805Irq then
      m.setVm c (heard (m.vm c) cur sp805Irq) else m) := by
  rw [sendTimeout, (hm c).sendVirqToVm_eq]
  split <;> rfl

theorem sendTimeout_effect (hm : LinesOk m) {cur : Nat} (hr : sendTimeout m c cur = .ok m') :
    Effect m c m' := by
  rw [sendTimeout_eq hm] at hr
  cases hr
  split
  · exact effect_setVm hm ((hm c).heard cur sp805Irq)
  · exact ⟨Concerns.refl m c, hm⟩

/-! ## The steps of a trap -/

/-- What a trap in an interrupt does by the steps of `Vmcs`: a trap before is answered first, or
the task has to stop. -/
def trapEvents (p : VmTrap.Vmcs) (acked ok : Bool) (n : Nat) : List VmTrap.Event :=
  if p.guestIndex = p.hostIndex then .trap timeoutTrap false true :: List.replicate n (.vcpu ok)
  else if acked then
    .mvm 0 0 :: .trap timeoutTrap false true :: List.replicate n (.vcpu ok)
  else [.trap timeoutTrap false true, .stop]

theorem trapVcpu_of_post (hr : postFromIrq m c v = .ok m') :
    trapVcpu m c v vmtrapReasonWdtTimeout = .ok m' := by
  obtain ⟨m₁, htrap, hr⟩ := bind_eq_ok hr
  split_ifs at hr
  rwa [← hr]

/-- The page is left as those steps leave it, from an mvm that is about to answer. -/
theorem trapFromIrq_page {acked : Bool} (hirq : (m.vm c).vmcsIrq v ≠ none)
    (hp : (m.vm c).vmcs v = some p)
    (hindex : p.guestIndex = p.hostIndex ∨ p.guestIndex + 1 = p.hostIndex)
    (hr : trapFromIrq m c v acked = .ok m') :
    ∃ ok n s', run (VmTrap.vmcsStep ⟨true, false⟩)
        { VmTrap.vmcsInit with vmcs := p, mvm := .ackIncr } (trapEvents p acked ok n) = some s' ∧
      (m'.vm c).vmcs v = some s'.vmcs := by
  unfold trapEvents
  cases trapFromIrq_cases m c v acked with
  | noLine hno => exact absurd hno hirq
  | noPage _ _ _ hr' | faults _ _ _ _ _ _ hr' => cases hr.symm.trans hr'
  | atOnce irq q _ hq hidle hr' =>
    obtain rfl := Option.some.inj (hp.symm.trans hq)
    simp only [if_pos hidle]
    exact trapVcpu_page { VmTrap.vmcsInit with vmcs := p, mvm := .ackIncr } hirq hp hidle
      (by decide) (trapVcpu_of_post (hr'.symm.trans hr))
  | later irq h q _ hq hbusy _ _ hacked hr' =>
    obtain rfl := Option.some.inj (hp.symm.trans hq)
    simp only [if_neg hbusy, hacked, if_true]
    have hack : VmTrap.vmcsStep ⟨true, false⟩
        { VmTrap.vmcsInit with vmcs := p, mvm := .ackIncr } (.mvm 0 0)
        = some { VmTrap.vmcsInit with vmcs := { p with guestIndex := p.guestIndex + 1 } } := rfl
    rw [hindex.resolve_left hbusy] at hack
    obtain ⟨ok, n, s', hrun, hpage⟩ := trapVcpu_page
      { VmTrap.vmcsInit with vmcs := { p with guestIndex := p.hostIndex } }
      (by rwa [answered_irq]) answered_page rfl (by decide)
      (trapVcpu_of_post (hr'.symm.trans hr))
    exact ⟨ok, n, s', by rw [run_cons, hack]; exact hrun, hpage⟩
  | givesUp irq q _ hq hbusy hacked hr' =>
    obtain rfl := Option.some.inj (hp.symm.trans hq)
    cases hr.symm.trans hr'
    simp only [if_neg hbusy, hacked, Bool.false_eq_true, if_false]
    refine ⟨true, 0, { VmTrap.vmcsInit with vmcs := p, mvm := .ackIncr }, ?_, hp⟩
    have hstop : VmTrap.vcpuStop { VmTrap.vmcsInit with
        vmcs := p, mvm := .ackIncr, stack := [⟨timeoutTrap, false, true, .wait⟩] }
        ⟨timeoutTrap, false, true, .wait⟩ []
        = some { VmTrap.vmcsInit with vmcs := p, mvm := .ackIncr } :=
      if_neg hbusy
    have hrun := congrArg (Option.bind · some) hstop
    exact hrun

end Traps

/-! ## Steps -/

variable {cpu : Nat} {w : VwdtDev} {offset value : Nat}

theorem restart_ok_iff (w : VwdtDev) (cpu now : Nat) :
    (∃ w', w.restart cpu now = .ok w') ↔ SoftTimer.MayMod w.timer.cpu cpu := by
  simp only [VwdtDev.restart, modTimer]
  split
  · rename_i hcpu
    exact iff_of_true ⟨_, rfl⟩ hcpu
  · rename_i hcpu
    exact iff_of_false nofun hcpu

/-- A write that starts the timer. -/
theorem vwdtMmioWrite_of_starts (cpu now : Nat) (h : StartsTimer w offset value) :
    ∃ (w₁ : VwdtDev) (reset : VwdtDev → Bool), w₁.timer = w.timer ∧ w₁.loadValue = w.loadValue ∧
      vwdtMmioWrite w cpu now offset value
        = (w₁.restart cpu now).map fun w₂ => .ok { w₂ with resetEnable := reset w₂ } := by
  obtain ⟨hopen, ⟨rfl, hoff, hbit⟩ | ⟨rfl, hon⟩⟩ := h
  · refine ⟨{ w with intEnable := true }, fun _ => (u32 value).testBit 1, rfl, rfl, ?_⟩
    rw [vwdtMmioWrite, if_neg (by simp [hopen]), if_neg (by decide), if_pos rfl, vwdtConfigCtrl,
      if_neg (by simp [hoff, hbit]), if_pos hbit]
    cases { w with intEnable := true }.restart cpu now <;> rfl
  · refine ⟨{ w with intTrigger := false }, VwdtDev.resetEnable, rfl, rfl, ?_⟩
    rw [vwdtMmioWrite, if_neg (by simp [hopen]), if_neg (by decide), if_neg (by decide),
      if_pos rfl, vwdtConfigIntclr, if_pos hon]

/-- Any other write returns. -/
theorem vwdtMmioWrite_of_not_starts (cpu now : Nat) (h : ¬ StartsTimer w offset value) :
    ∃ r, vwdtMmioWrite w cpu now offset value = .ok r := by
  unfold vwdtMmioWrite
  simp only
  split_ifs with hlock hload hctl hclr
  · exact ⟨_, rfl⟩
  · exact ⟨_, rfl⟩
  · have hopen : w.accessLock = false :=
      Bool.eq_false_iff.mpr fun hl => hlock ⟨by rw [hctl]; decide, hl⟩
    unfold vwdtConfigCtrl
    simp only
    split_ifs with heq hbit
    · exact ⟨_, rfl⟩
    · rw [hbit] at heq
      exact absurd ⟨hopen, Or.inl ⟨hctl, Bool.eq_false_iff.mpr heq, hbit⟩⟩ h
    · exact ⟨_, rfl⟩
  · have hopen : w.accessLock = false :=
      Bool.eq_false_iff.mpr fun hl => hlock ⟨by rw [hclr]; decide, hl⟩
    unfold vwdtConfigIntclr
    simp only
    split_ifs with hon
    · exact absurd ⟨hopen, Or.inr ⟨hclr, hon⟩⟩ h
    · exact ⟨_, rfl⟩
  all_goals exact ⟨_, rfl⟩

theorem vwdtMmioWrite_ok_iff (w : VwdtDev) (cpu now offset value : Nat) :
    (∃ r, vwdtMmioWrite w cpu now offset value = .ok r) ↔ WriteOk w cpu offset value := by
  by_cases hstart : StartsTimer w offset value
  · obtain ⟨w₁, reset, htimer, -, hr⟩ := vwdtMmioWrite_of_starts cpu now hstart
    rw [WriteOk, imp_iff_right hstart, ← htimer, ← restart_ok_iff w₁ cpu now, hr]
    cases w₁.restart cpu now with
    | error f => exact iff_of_false nofun nofun
    | ok w₂ => exact iff_of_true ⟨_, rfl⟩ ⟨_, rfl⟩
  · exact iff_of_true (vwdtMmioWrite_of_not_starts cpu now hstart) fun h => absurd h hstart

section Expiry

variable {m m' : Machine} {current : Option (Nat × Nat)} {now : Nat} {acked : Bool} {w' : VwdtDev}

/-- What an expiry that returns did: it asked for a reset, or it raised the interrupt. -/
inductive Expires (m : Machine) (current : Option (Nat × Nat)) (w : VwdtDev) (cpu now : Nat)
    (acked : Bool) (m' : Machine) (w' : VwdtDev) : Prop
  | asks (c v : Nat) (hreset : w.intTrigger ∧ w.resetEnable)
      (htrap : trapFromIrq m c v acked = .ok m') (hw : w' = w)
  | raises (hreset : ¬ (w.intTrigger ∧ w.resetEnable))
      (hsend : sendTimeout m w.vm ((current.map Prod.snd).getD 0) = .ok m')
      (hrestart : { w with intTrigger := true }.restart cpu now = .ok w')
  | off (hreset : ¬ (w.intTrigger ∧ w.resetEnable)) (hoff : w.intEnable = false) (hm : m' = m)
      (hw : w' = w)

theorem expires_of_ok (hr : vwdtTimerExpire m current w cpu now acked = .ok (m', w')) :
    Expires m current w cpu now acked m' w' := by
  simp only [vwdtTimerExpire] at hr
  split_ifs at hr with hreset _ hon
  · cases current with
    | none => cases hr
    | some t =>
      obtain ⟨m₁, htrap, heq⟩ := map_eq_ok hr
      cases heq
      exact .asks t.1 t.2 hreset htrap rfl
  · obtain ⟨m₁, hsend, hr⟩ := bind_eq_ok hr
    obtain ⟨w₁, hrestart, heq⟩ := map_eq_ok hr
    cases heq
    exact .raises hreset hsend hrestart
  · cases hr
    exact .off hreset (Bool.not_eq_true _ ▸ hon) rfl rfl

theorem vwdtTimerExpire_lines (hm : LinesOk m)
    (hr : vwdtTimerExpire m current w cpu now acked = .ok (m', w')) : LinesOk m' := by
  cases expires_of_ok hr with
  | asks c v _ htrap => exact (trapFromIrq_effect hm htrap).lines
  | raises _ hsend => exact (sendTimeout_effect hm hsend).lines
  | off _ _ hsame => exact hsame ▸ hm

end Expiry

variable {s s' : Sys} {e : Event}

/-- The lines stay as they should be. -/
theorem lines_step (hm : LinesOk s.machine) (hs : step s e = some s') : LinesOk s'.machine := by
  obtain ⟨r, hout, hok⟩ := Option.bind_eq_some_iff.mp hs
  cases r with
  | error f => cases hok
  | ok t =>
  cases hok
  cases e with
  | sched cpu task | create i vm =>
    obtain ⟨-, ⟨⟩⟩ := Option.ite_none_right_eq_some.mp hout
    exact hm
  | reset i | deinit i =>
    obtain ⟨w, -, ⟨⟩⟩ := Option.map_eq_some_iff.mp hout
    exact hm
  | vm i vm hvm =>
    cases hout
    exact hm.setVm hvm
  | write cpu i now offset value =>
    obtain ⟨w, -, hout⟩ := Option.bind_eq_some_iff.mp hout
    obtain ⟨-, hout⟩ := Option.ite_none_right_eq_some.mp hout
    obtain ⟨res, -, heq⟩ := map_eq_ok (Option.some.inj hout)
    cases res <;> (cases heq; exact hm)
  | expire cpu i now acked =>
    obtain ⟨w, -, hout⟩ := Option.bind_eq_some_iff.mp hout
    obtain ⟨-, hout⟩ := Option.ite_none_right_eq_some.mp hout
    obtain ⟨res, hr, heq⟩ := map_eq_ok (Option.some.inj hout)
    cases heq
    exact vwdtTimerExpire_lines hm hr

instance (m : Machine) (c v : Nat) : Decidable (TrapSafe m c v) :=
  decidable_of_iff (_ ∧ _ ∧ _)
    ⟨fun h => ⟨h.1, h.2.1, h.2.2⟩, fun h => ⟨h.page, h.before, h.after⟩⟩

instance (m : Machine) (vm : Nat) (current : Option (Nat × Nat)) :
    Decidable (ResetOk m vm current) :=
  inferInstanceAs (Decidable (∃ t ∈ current, (m.vm t.1).vmcsIrq t.2 ≠ none →
    t.1 = vm ∧ TrapSafe m t.1 t.2))

instance (m : Machine) (w : VwdtDev) (current : Option (Nat × Nat)) :
    Decidable (ExpireOk m w current) :=
  inferInstanceAs (Decidable (w.intTrigger = true → w.resetEnable = true →
    (m.vm w.vm).native = false → ResetOk m w.vm current))

instance (w : VwdtDev) (cpu offset value : Nat) : Decidable (WriteOk w cpu offset value) :=
  inferInstanceAs (Decidable (StartsTimer w offset value → SoftTimer.MayMod w.timer.cpu cpu))

instance (s : Sys) : (e : Event) → Decidable (StepOk s e)
  | .write cpu i _ offset value =>
    inferInstanceAs (Decidable (∀ w ∈ s.wdt i, WriteOk w cpu offset value))
  | .expire cpu i _ _ =>
    inferInstanceAs (Decidable (∀ w ∈ s.wdt i, ExpireOk s.machine w (s.current cpu)))
  | .sched _ _ | .create _ _ | .reset _ | .deinit _ | .vm .. => isTrue trivial

/-- The machine of `Hypercall`, with the guest VMs 2 and 4 on cpu 4. -/
def twoGuests : Machine :=
  (board.setVm 2 { board.vm 2 with affinity := fun _ => 4 }).setVm 4
    { board.vm 4 with affinity := fun _ => 4 }

theorem virqOk_onlineVm (vmid : Nat) (native : Bool) : VirqOk (onlineVm vmid native).virq where
  sized := by
    have hcount : bitsToLongs (vmIrqCount (onlineVm vmid native).virq) = 2 := by
      rw [show vmIrqCount (onlineVm vmid native).virq = 96 from rfl]
      decide
    refine ⟨fun _ => hcount.symm, fun _ => hcount.symm, fun r hr => ?_⟩
    cases r with
    | percpu v i => exact Nat.lt_of_lt_of_le (Nat.zero_lt_succ 31) (Nat.le_add_left _ 64)
    | spi i => exact Nat.add_lt_add_right hr vmLocalVirqNr
  vcpu _ _ := Nat.zero_lt_two

theorem linesOk_board : LinesOk board := fun j => virqOk_onlineVm j _

theorem linesOk_twoGuests : LinesOk twoGuests := by
  refine LinesOk.setVm (LinesOk.setVm linesOk_board ?_) ?_
  · exact linesOk_board 2
  · exact linesOk_board 4

/-- VM `vm` on a cpu starts its watchdog 0 with both outputs. -/
def startWatchdog (vm cpu : Nat) : List Event :=
  [.create 0 vm, .sched cpu (some (vm, 0)), .write cpu 0 0 sp805WdtLock wdtUnlock,
    .write cpu 0 0 sp805WdtLoad 1, .write cpu 0 0 sp805WdtCtl 3, .expire cpu 0 1000000000 true]

/-- The second expiry finds the VM itself on the cpu. -/
def ownReset : List Event := startWatchdog 2 4 ++ [.expire 4 0 2000000000 true]

/-- The second expiry finds VM 4 on the cpu. -/
def foreignReset : List Event := startWatchdog 2 4 ++ [.sched 4 (some (4, 0))]

/-- The machine of `Hypercall`, with the vcpus of VM 2 on cpus 4 and 5. -/
def smpGuest : Machine := board.setVm 2 { board.vm 2 with affinity := fun v => 4 + v }

/-- The timer is started by vcpu 0. -/
def startOnFour : List Event :=
  [.create 0 2, .sched 4 (some (2, 0)), .sched 5 (some (2, 1)),
    .write 4 0 0 sp805WdtLock wdtUnlock, .write 4 0 0 sp805WdtCtl 1]

/-- Vcpu 1 clears the interrupt. -/
def clearOnFive : Event := .write 5 0 0 sp805WdtIntclr 0

end Minos.Vwdt
