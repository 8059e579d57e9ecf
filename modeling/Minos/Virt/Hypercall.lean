import Minos.Core.Sched
import Minos.Virt.CpuOn
import Minos.Virt.DebugConsole
import Minos.Virt.VmSuspend
import Minos.Virt.VmSuspendCheck
import Minos.Virt.Vmcs
import Minos.Virt.VmmArea

/-!
# Calls from a guest

`do_svc_handler` (`arch/aarch64/virt/svc_service.c`) and the handlers behind
it: the VM hypercalls and the miscellaneous ones (`virt/hypercall.c`), the
debug console (`virt/debug_console.c`) and PSCI
(`arch/aarch64/virt/smc_service.c`), down to what they do to the VMs of the
machine. The functions they call are those of the other modules: `CpuOn`,
`DebugConsole`, `VcpuIdle`, `Vmcs`, `Vgic` and `Sched`.

A call is taken on its own here, without the steps of others in between. A
wait (`sched`, `wait_event`, the loops on the indices of `struct vmcs`) has
no effect but the `ASSERT`s of the scheduler it may fail. Where another module
has the steps of a function, `trapVcpu_page`, `vcpuIdle_alone`, `vmSuspend_check`
and `vmSuspend_alone` say that they come to the same when nothing interrupts them.
-/

namespace Minos.Hypercall

open Minos.Lib Minos.Vcpu
open Minos.Virq (VmState VirqDesc vmLocalVirqNr vmIrqCount)

/-! ## Data -/

/-- What `virt/vm_daemon.c` does for a VM that goes down. -/
inductive Job
  | reboot
  | shutdown
  deriving DecidableEq, Repr

structure Vm where
  /-- the state of the VM, its interrupts and those of its vcpus -/
  virq : Virq.Vm
  /-- `VM_FLAGS_NATIVE` -/
  native : Bool
  /-- `VM_FLAGS_CAN_RESET` -/
  canReset : Bool
  os : Os
  task : Nat → Task
  /-- the physical cpu of each vcpu -/
  affinity : Nat → Nat
  /-- `vmcs_irq`, unless it is negative -/
  vmcsIrq : Nat → Option Nat
  vmcs : Nat → Option VmTrap.Vmcs
  mm : Vmm.MmStruct

/-- `struct vm_debug_console`, and the header of its ring `rx`, which the
guest can write. -/
structure Console extends DebugConsole.Console where
  irq : BitVec 32
  ringAddr : Nat
  /-- the address of the ring -/
  rx : Nat
  ridx : Nat
  widx : Nat
  size : Nat

/-- The cpu the call runs on: its queues are as every run leaves them, and
the current task is the running task of a vcpu. -/
structure Cpu where
  tasks : Sched.Tasks
  queues : Sched.Pcpu
  runnable : Nat → Prop
  inv : Sched.SchedInv tasks ⟨queues, runnable⟩
  running : queues.state queues.current = .running
  isVcpu : queues.current ≠ tasks.idle ∧ queues.current ≠ tasks.kworker

structure Machine where
  /-- `vms`, by number -/
  vm : Nat → Vm
  /-- `host_vm` -/
  host : Option Nat
  dcons : Nat → Option Console
  /-- the queue of the VM daemon -/
  jobs : List (Nat × Job)
  cpu : Cpu

inductive Fault
  /-- `panic`, which is also where a memory fault at EL2 ends -/
  | panic
  | assertion
  /-- an array is read behind its end -/
  | outOfBounds
  deriving DecidableEq, Repr

theorem map_eq_ok {α β : Type} {x : Except Fault α} {f : α → β} {b : β} (h : x.map f = .ok b) :
    ∃ a, x = .ok a ∧ f a = b := by
  cases x with
  | error _ => cases h
  | ok a => exact ⟨a, rfl, Except.ok.inj h⟩

theorem bind_eq_ok {α β : Type} {x : Except Fault α} {f : α → Except Fault β} {b : β}
    (h : x.bind f = .ok b) : ∃ a, x = .ok a ∧ f a = .ok b := by
  cases x with
  | error _ => cases h
  | ok a => exact ⟨a, rfl, h⟩

/-- The machine after the call, and what is in `x0`. -/
abbrev Reply := Except Fault (Machine × Int)

abbrev Args := Nat → BitVec 64

structure Config where
  /-- `CONFIG_MAX_VM` -/
  maxVm : Nat
  /-- `CONFIG_PLATFORM_AMLOGIC`, which has a handler of its own -/
  amlogic : Bool
  /-- `send_vm_request` gets its memory and a place in the queue -/
  queued : Bool
  /-- the addresses the hypervisor can read -/
  mapped : Nat → Bool
  virq : Virq.VirqConfig
  /-- `ARM_FEATURE_MPIDR_SHIFT` -/
  mpidrShift : Bool
  nrCpusCluster0 : Nat
  /-- what the handlers for the host VM alone do for it -/
  hostCall : Machine → BitVec 32 → Args → Reply

structure Call where
  smc : Bool
  id : BitVec 32
  args : Args

/-! ## The machine -/

def Machine.setVm (m : Machine) (i : Nat) (vm : Vm) : Machine :=
  { m with vm := Function.update m.vm i vm }

def Machine.post (m : Machine) (job : Nat × Job) : Machine := { m with jobs := m.jobs ++ [job] }

def Vm.setState (vm : Vm) (s : VmState) : Vm := { vm with virq := { vm.virq with state := s } }

def Vm.setVmcs (vm : Vm) (v : Nat) (p : VmTrap.Vmcs) : Vm :=
  { vm with vmcs := Function.update vm.vmcs v (some p) }

def Vm.setTask (vm : Vm) (i : Nat) (t : Task) : Vm :=
  { vm with task := Function.update vm.task i t }

/-- `sched`. -/
def Cpu.sched (p : Cpu) : Except Fault Unit :=
  if (Sched.reschedule p.tasks p.queues).isSome then .ok () else .error .assertion

/-- `wait_event`, once the task has to wait. -/
def Cpu.wait (p : Cpu) : Except Fault Unit :=
  if ((Sched.schedStep p.tasks p.queues .wait).bind (Sched.reschedule p.tasks)).isSome then .ok ()
  else .error .assertion

/-! ## Traps to the host VM -/

/-- `wake(&vcpu->vcpu_event)`. -/
def wake (t : Task) : Task := (t.move .wake).getD t

/-- The descriptor of a shared line. -/
def Vm.spi (vm : Vm) (irq : Nat) : VirqDesc := vm.virq.vspiDesc (irq - vmLocalVirqNr)

/-- `kick_vcpu` of the vcpu a shared line goes to. -/
def Vm.kick (vm : Vm) (irq : Nat) : Vm :=
  vm.setTask (vm.spi irq).vcpuId (wake (vm.task (vm.spi irq).vcpuId))

/-- `send_virq_to_vm` with its kick; `none` when it returns an error. A vcpu
that does not exist is dereferenced. -/
def sendVirqToVm (vm : Vm) (cur irq : Nat) : Except Fault (Option Vm) :=
  match Virq.sendVirqToVm vm.virq cur irq with
  | none => .error .panic
  | some (.error _) => .ok none
  | some (.ok virq) => .ok (some ({ vm with virq := virq }.kick irq))

/-- `send_virq_to_vm(get_host_vm(), irq)`. -/
def sendVirqToHost (m : Machine) (cur irq : Nat) : Except Fault (Option Machine) :=
  match m.host with
  | none => .ok none
  | some h => (sendVirqToVm (m.vm h) cur irq).map (Option.map (m.setVm h))

/-- `VMTRAP_TYPE_COMMON`. -/
def vmtrapTypeCommon : Nat := 1
def vmtrapReasonReboot : Nat := 3
def vmtrapReasonVmSuspend : Nat := 5
def vmtrapReasonVmResumed : Nat := 6

/-- `trap_vcpu_nonblock(VMTRAP_TYPE_COMMON, reason, 0, NULL)` of vcpu `v` of
VM `c`. -/
def trapVcpu (m : Machine) (c v reason : Nat) : Except Fault Machine :=
  let vm := m.vm c
  match vm.vmcsIrq v with
  | none => .ok m
  | some irq =>
    match vm.vmcs v with
    | none => .error .panic
    | some p =>
      let posted := p.post ⟨vmtrapTypeCommon, reason, 0, 0⟩
      (sendVirqToHost m v irq).map fun
        | some m' => m'.setVm c (vm.setVmcs v posted)
        | none => m.setVm c (vm.setVmcs v posted.takeBack)

/-! ## PSCI -/

def getVmById (cfg : Config) (vmid : Nat) : Bool := vmid < cfg.maxVm && vmid ≠ 0

/-- What `vcpu_power_on` reads. -/
def cpuOnConfig (cfg : Config) (m : Machine) (c : Nat) : CpuOn.Config where
  vcpuNr := (m.vm c).virq.vcpuNr
  affinity := (m.vm c).affinity
  os := (m.vm c).os
  isHostVm := m.host = some c
  mpidrShift := cfg.mpidrShift
  nrCpusCluster0 := cfg.nrCpusCluster0

/-- The rest of a call of `vcpu_power_on`, with nothing in between. -/
def finishPowerOn (cfg : CpuOn.Config) (v : Nat) : Nat → CpuOn.Sys → CpuOn.Sys
  | 0, x => x
  | n + 1, x =>
    if x.failed then x
    else
      match CpuOn.callStep cfg x v with
      | none => x
      | some x' => finishPowerOn cfg v n x'

/-- `vcpu_power_on`. -/
def vcpuPowerOn (cfg : CpuOn.Config) (task : Nat → Task) (v affinity entry : Nat) : CpuOn.Sys :=
  finishPowerOn cfg v 4 (CpuOn.vcpuPowerOn cfg ⟨task, fun _ => .idle, false, []⟩ v affinity entry)

/-- PSCI `CPU_ON`; an error of `vcpu_power_on` is `PSCI_RET_INVALID_PARAMS`. -/
def psciCpuOn (cfg : Config) (m : Machine) (c v : Nat) (args : Args) : Reply :=
  let x := vcpuPowerOn (cpuOnConfig cfg m c) (m.vm c).task v (args 0).toNat (args 1).toNat
  if x.failed then .error .assertion
  else
    .ok (m.setVm c { m.vm c with task := x.task },
      match x.log with
      | [.started _ _ _ _] => 0
      | _ => -2)

/-- `vcpu_can_idle`. Nothing sets `TIF_NEED_STOP` for a vcpu. -/
def vcpuCanIdle (vm : Vm) (v : Nat) : Bool :=
  [.vmState, .needStop, .pending, .active].all
    (VcpuIdle.vcpuCanIdle v (VcpuIdle.init vm.virq false))

/-- `vcpu_idle`: whether the vcpu has waited. -/
def vcpuIdle (m : Machine) (c v : Nat) : Except Fault Bool :=
  if vcpuCanIdle (m.vm c) v then m.cpu.wait.map fun _ => true else .ok false

/-- `vcpu_enter_poweroff` has nothing to do for the task. -/
def stopped (t : Task) : Prop := t.state = .stop ∨ t.state = .suspend

instance (t : Task) : Decidable (stopped t) := inferInstanceAs (Decidable (_ ∨ _))

/-- `vcpu_enter_poweroff`. -/
def enterPoweroff (current : Bool) (t : Task) : Task :=
  if stopped t then t else if current then t.freeze else wake t.freeze

/-- The loop over `vcpu_enter_poweroff`, run by vcpu `v`. -/
def Vm.freeze (vm : Vm) (v : Nat) : Vm :=
  { vm with
    task := fun i =>
      if i < vm.virq.vcpuNr then enterPoweroff (i = v) (vm.task i) else vm.task i }

/-- What `vm_power_off` and `vm_reset` let a VM do to itself. -/
def mayPowerOff (cfg : Config) (m : Machine) (c : Nat) : Bool :=
  getVmById cfg c && ((m.vm c).native = false || (m.vm c).canReset) &&
    (m.vm c).virq.state = .online

/-- `send_vm_request`. -/
def sendVmRequest (cfg : Config) (m : Machine) (c : Nat) (job : Job) : Machine :=
  if cfg.queued then m.post (c, job) else m

/-- `vm_power_off` by the VM itself. -/
def vmPowerOff (cfg : Config) (m : Machine) (c v : Nat) : Machine :=
  if mayPowerOff cfg m c then
    (if (m.vm c).native then sendVmRequest cfg m c .shutdown else m).setVm c
      (((m.vm c).freeze v).setState .offline)
  else m

/-- `vm_reset` by the VM itself. -/
def vmReset (cfg : Config) (m : Machine) (c v : Nat) : Except Fault Machine :=
  if mayPowerOff cfg m c then
    let vm := (m.vm c).freeze v
    if vm.native then
      .ok (sendVmRequest cfg (m.setVm c (vm.setState .freezing)) c .reboot)
    else trapVcpu (m.setVm c (vm.setState .offline)) c v vmtrapReasonReboot
  else .ok m

/-- The vcpus but `v` are stopped. -/
def othersStopped (vm : Vm) (v : Nat) : Prop :=
  ∀ i < vm.virq.vcpuNr, i ≠ v → (vm.task i).state = .stop

instance (vm : Vm) (v : Nat) : Decidable (othersStopped vm v) :=
  inferInstanceAs (Decidable (∀ i < vm.virq.vcpuNr, _))

/-- Only guest VMs report to the mvm. -/
def reportToMvm (m : Machine) (c v reason : Nat) : Except Fault Machine :=
  if (m.vm c).native then .ok m else trapVcpu m c v reason

/-- The end of `vm_suspend`, from `vcpu_idle` on, which finds the VM not
online. -/
def vmResume (m : Machine) (c v : Nat) : Except Fault Machine :=
  (vcpuIdle m c v).bind fun _ =>
    reportToMvm (m.setVm c ((m.vm c).setState .online)) c v vmtrapReasonVmResumed

/-- `vm_suspend` without the modules of the vcpus. -/
def vmSuspend (cfg : Config) (m : Machine) (c v : Nat) : Except Fault Machine :=
  if getVmById cfg c ∧ v = 0 ∧ othersStopped (m.vm c) v then
    (reportToMvm (m.setVm c ((m.vm c).setState .suspend)) c v vmtrapReasonVmSuspend).bind fun m =>
      vmResume m c v
  else .ok m

inductive Psci
  | version
  | cpuOn
  | cpuOff
  | cpuSuspend
  | migrateInfoType
  | affinityInfo
  | systemOff
  | systemReset
  | systemSuspend
  | features
  deriving DecidableEq, Repr

/-- `PSCI_0_2_FN`. -/
def psciFn (n : Nat) : BitVec 32 := BitVec.ofNat 32 (0x84000000 + n)

/-- `PSCI_0_2_FN64`. -/
def psciFn64 (n : Nat) : BitVec 32 := BitVec.ofNat 32 (0xc4000000 + n)

/-- The cases of `std_smc_handler`. -/
def psci (id : BitVec 32) : Option Psci :=
  if id = psciFn 0 then some .version
  else if id = psciFn64 3 ∨ id = psciFn 3 then some .cpuOn
  else if id = psciFn 2 then some .cpuOff
  else if id = psciFn64 1 then some .cpuSuspend
  else if id = psciFn 6 then some .migrateInfoType
  else if id = psciFn 4 ∨ id = psciFn64 4 then some .affinityInfo
  else if id = psciFn 8 then some .systemOff
  else if id = psciFn 9 then some .systemReset
  else if id = psciFn 14 ∨ id = psciFn64 14 then some .systemSuspend
  else if id = psciFn 10 then some .features
  else none

/-- The functions `PSCI_FEATURES` knows, from `ARM_SMCCC_VERSION_FUNC_ID` on. -/
def psciFeatures : List Nat :=
  [0x80000000, (psciFn64 1).toNat, (psciFn 14).toNat, (psciFn64 14).toNat]

def stdSmcHandler (cfg : Config) (m : Machine) (c v : Nat) (id : BitVec 32) (args : Args) :
    Reply :=
  match psci id with
  | none => .ok (m, 0)
  | some .version => .ok (m, 0x10000)
  | some .cpuOn => psciCpuOn cfg m c v args
  | some .cpuOff => .ok (m.setVm c ((m.vm c).setTask v ((m.vm c).task v).freeze), 0)
  | some .cpuSuspend =>
    -- woken, the vcpu finds `TASK_STATE_PEND_OK`
    (vcpuIdle m c v).map fun waited => (m, if waited then 0 else -3)
  | some .migrateInfoType => .ok (m, 2)
  | some .affinityInfo => .ok (m, 1)
  | some .systemOff => .ok (vmPowerOff cfg m c v, 0)
  | some .systemReset => (vmReset cfg m c v).map fun m => (m, 0)
  | some .systemSuspend => (vmSuspend cfg m c v).map fun m => (m, 0)
  | some .features => .ok (m, if (args 0).toNat ∈ psciFeatures then 0 else -1)

/-! ## Hypercalls -/

/-- `HVC_CALL_NUM`. -/
def hvcCallNum (type n : Nat) : BitVec 32 := BitVec.ofNat 32 (0xc0000000 + type * 2 ^ 24 + n)

def hvcTypeVm0 : Nat := 0x8
def hvcTypeMisc : Nat := 0x9
def hvcTypeDebugConsole : Nat := 0xb

def hvcGetVmid : BitVec 32 := hvcCallNum hvcTypeMisc 0
def hvcSchedOut : BitVec 32 := hvcCallNum hvcTypeMisc 1
def hvcGetVmCap : BitVec 32 := hvcCallNum hvcTypeMisc 2

def hvcDcGetStat : BitVec 32 := hvcCallNum hvcTypeDebugConsole 0
def hvcDcGetRing : BitVec 32 := hvcCallNum hvcTypeDebugConsole 1
def hvcDcGetIrq : BitVec 32 := hvcCallNum hvcTypeDebugConsole 2
def hvcDcWrite : BitVec 32 := hvcCallNum hvcTypeDebugConsole 3
def hvcDcOpen : BitVec 32 := hvcCallNum hvcTypeDebugConsole 4
def hvcDcClose : BitVec 32 := hvcCallNum hvcTypeDebugConsole 5

def vmHvcHandler (cfg : Config) (m : Machine) (c : Nat) (id : BitVec 32) (args : Args) : Reply :=
  if m.host = some c then cfg.hostCall m id args else .error .panic

/-- `get_vm_capability`. `CHECK_VM_CAP` tests its own argument instead of the
flags of the VM: the answer is `VM_CAP_HOST` for every VM. -/
def getVmCapability : Int := 1

def miscHvcHandler (m : Machine) (c : Nat) (id : BitVec 32) : Reply :=
  if id = hvcGetVmid then .ok (m, c)
  else if id = hvcSchedOut then m.cpu.sched.map fun _ => (m, 0)
  else if id = hvcGetVmCap then .ok (m, getVmCapability)
  else .ok (m, -Errno.einval.code)

/-- `NR_DC`. -/
def nrDc : Nat := 8

/-- `DCON_TTY_MAGIC`. -/
def dconTtyMagic : Nat := 0xabcd0000

/-- The characters between the indices of the ring. -/
def Console.count (d : Console) : Nat := sub32 (u32 d.widx) (u32 d.ridx)

/-- The header stays as it is during a `dcon_write`. -/
def Console.reads (d : Console) : DebugConsole.WriteReads := ⟨d.ridx, d.widx, fun _ => d.size⟩

/-- The address of a character in a ring; `buf` follows three words. -/
def Console.charAddr (d : Console) (i : Nat) : Nat := d.rx + 12 + i

/-- `dcon_write`: every character it prints is read. -/
def dconWrite (cfg : Config) (d : Console) : Except Fault Console :=
  let chars := (DebugConsole.dconWrite d.toConsole d.reads d.count).getD []
  if chars.all fun i => cfg.mapped (d.charAddr i) then .ok { d with ridx := d.widx }
  else .error .panic

def Machine.setConsole (m : Machine) (i : Nat) (d : Console) : Machine :=
  { m with dcons := Function.update m.dcons i (some d) }

/-- `HVC_DC_GET_IRQ`. The test for a negative number never holds. -/
def dconGetIrq (cfg : Config) (m : Machine) (c : Nat) (d : Console) : Machine × Int :=
  if d.irq = 0 then
    let r := Virq.allocVmVirq cfg.virq (m.vm c).virq
    let irq : BitVec 32 := match r.1 with
      | some virq => BitVec.ofNat 32 virq
      | none => -1
    ((m.setVm c { m.vm c with virq := r.2 }).setConsole c { d with irq := irq }, irq.toNat)
  else (m, d.irq.toNat)

def dconHvcHandler (cfg : Config) (m : Machine) (c : Nat) (id : BitVec 32) : Reply :=
  if nrDc ≤ c then .error .outOfBounds
  else
    match m.dcons c with
    | none => .ok (m, 0)
    | some d =>
      if id = hvcDcGetStat then .ok (m, (dconTtyMagic ||| c : Nat))
      else if id = hvcDcGetRing then .ok (m, d.ringAddr)
      else if id = hvcDcGetIrq then .ok (dconGetIrq cfg m c d)
      else if id = hvcDcWrite then (dconWrite cfg d).map fun d => (m.setConsole c d, 0)
      else if id = hvcDcOpen then .ok (m.setConsole c { d with dconOpen := true }, 0)
      else if id = hvcDcClose then .ok (m.setConsole c { d with dconOpen := false }, 0)
      else .ok (m, 0)

/-- `sip_smc_handler` of the Amlogic platforms. For other VMs than the host it
returns before it sets `x0`. -/
def sipSmcHandler (cfg : Config) (m : Machine) (c : Nat) (id : BitVec 32) (args : Args) : Reply :=
  if m.host = some c then cfg.hostCall m id args else .ok (m, id.toNat)

/-! ## The dispatcher -/

inductive Handler
  | vm
  | misc
  | debugConsole
  | stdSmc
  | sip
  deriving DecidableEq, Repr

/-- `(svc_id & SVC_STYPE_MASK) >> 24`. -/
def svcType (id : BitVec 32) : Nat := ((id &&& 0x3f000000) >>> 24).toNat

def hvcDescs (type : Nat) : Option Handler :=
  if type = hvcTypeVm0 then some .vm
  else if type = hvcTypeMisc then some .misc
  else if type = hvcTypeDebugConsole then some .debugConsole
  else none

def smcDescs (cfg : Config) (type : Nat) : Option Handler :=
  if type = 0x4 then some .stdSmc
  else if type = 0x2 ∧ cfg.amlogic then some .sip
  else none

def Call.handler (cfg : Config) (call : Call) : Option Handler :=
  if call.smc then smcDescs cfg (svcType call.id) else hvcDescs (svcType call.id)

/-- `do_svc_handler`, called by vcpu `v` of VM `c`. -/
def doSvcHandler (cfg : Config) (m : Machine) (c v : Nat) (call : Call) : Reply :=
  match call.handler cfg with
  | none => .ok (m, -Errno.einval.code)
  | some .vm => vmHvcHandler cfg m c call.id call.args
  | some .misc => miscHvcHandler m c call.id
  | some .debugConsole => dconHvcHandler cfg m c call.id
  | some .stdSmc => stdSmcHandler cfg m c v call.id call.args
  | some .sip => sipSmcHandler cfg m c call.id call.args

/-! ## What is asked of a call -/

/-- The VMs but `c` are as they were. -/
def Spares (m : Machine) (c : Nat) (m' : Machine) : Prop := ∀ j, j ≠ c → m'.vm j = m.vm j

/-- The hypervisor survives, and the VMs but `c` are as they were. -/
def Isolated (m : Machine) (c : Nat) (r : Except Fault Machine) : Prop :=
  ∃ m', r = .ok m' ∧ Spares m c m'

/-! ## When it holds -/

/-- `send_virq_to_vm` does not refuse the line. -/
def Accepted (vm : Vm) (irq : Nat) : Prop :=
  vmLocalVirqNr ≤ irq ∧ irq < vmIrqCount vm.virq ∧ Virq.virqIsEnabled (vm.spi irq) = true ∧
    Virq.virqIsHw (vm.spi irq) = false

instance (vm : Vm) (irq : Nat) : Decidable (Accepted vm irq) :=
  inferInstanceAs (Decidable (_ ∧ _ ∧ _ ∧ _))

/-- `send_virq` does not drop it. -/
def Deliverable (vm : Vm) (irq : Nat) : Prop :=
  vm.virq.state = .online ∨ vm.virq.state = .suspend ∧ Virq.virqCanWakeup (vm.spi irq) = true

instance (vm : Vm) (irq : Nat) : Decidable (Deliverable vm irq) :=
  inferInstanceAs (Decidable (_ ∨ _ ∧ _))

/-- The line is pending and the vcpu it goes to does not wait. -/
def Pending (vm : Vm) (irq : Nat) : Prop :=
  testBit (vm.spi irq).vno (vm.virq.vcpu (vm.spi irq).vcpuId).pendingBitmap = true ∧
    (vm.task (vm.spi irq).vcpuId).state ≠ .waitEvent

/-- A virq to the VM has no effect: it is refused, dropped or pending, and
does not go to a vcpu that does not exist. -/
def Unheard (vm : Vm) (irq : Nat) : Prop :=
  Accepted vm irq →
    (vm.spi irq).vcpuId < vm.virq.vcpuNr ∧ (Deliverable vm irq → Pending vm irq)

/-- The host VM hears nothing of a trap of vcpu `v`. -/
def TrapOk (m : Machine) (c v : Nat) : Prop :=
  ∀ irq, (m.vm c).vmcsIrq v = some irq →
    (m.vm c).vmcs v ≠ none ∧ ∀ h, m.host = some h → Unheard (m.vm h) irq

def PsciOk (cfg : Config) (m : Machine) (c v : Nat) (args : Args) : Psci → Prop
  /- a vcpu that looks offline is in no list -/
  | .cpuOn =>
    let t := CpuOn.affinityToVcpuid (cpuOnConfig cfg m c) (args 0).toNat
    t < (m.vm c).virq.vcpuNr → ((m.vm c).task t).state = .suspend →
      ((m.vm c).task t).place = none
  | .systemReset => mayPowerOff cfg m c = true → (m.vm c).native = false → TrapOk m c v
  | .systemSuspend =>
    getVmById cfg c = true ∧ v = 0 ∧ othersStopped (m.vm c) v → (m.vm c).native = false →
      TrapOk m c v
  | _ => True

/-- The characters between the indices of a ring can be read. -/
def Console.Readable (cfg : Config) (d : Console) : Prop :=
  ∀ k < d.count, cfg.mapped (d.charAddr
    (DebugConsole.vmRingIdx (u32 (u32 d.ridx + k)) (u32 d.size))) = true

instance (cfg : Config) (d : Console) : Decidable (d.Readable cfg) :=
  inferInstanceAs (Decidable (∀ k < d.count, _))

/-- The VM has a place in `dcons`, and what `dcon_write` is to read of the
ring can be read. -/
def ConsoleOk (cfg : Config) (m : Machine) (c : Nat) (id : BitVec 32) : Prop :=
  c < nrDc ∧ ∀ d, m.dcons c = some d → id = hvcDcWrite → d.ttyOpen = true → d.Readable cfg

def CallOk (cfg : Config) (m : Machine) (c v : Nat) (call : Call) : Prop :=
  match call.handler cfg with
  | some .vm => False
  | some .debugConsole => ConsoleOk cfg m c call.id
  | some .stdSmc => ∀ p, psci call.id = some p → PsciOk cfg m c v call.args p
  | _ => True

/-! ## The machine -/

section Machine

variable {m m' : Machine} {c : Nat}

theorem Spares.refl (m : Machine) (c : Nat) : Spares m c m := fun _ _ => rfl

theorem Spares.trans {m'' : Machine} (h : Spares m c m') (h' : Spares m' c m'') :
    Spares m c m'' := fun j hj => (h' j hj).trans (h j hj)

theorem spares_setVm (m : Machine) (c : Nat) (vm : Vm) : Spares m c (m.setVm c vm) :=
  fun _ hj => Function.update_of_ne hj _ _

@[simp] theorem setVm_self (m : Machine) (c : Nat) (vm : Vm) : (m.setVm c vm).vm c = vm :=
  Function.update_self _ _ _

@[simp] theorem isolated_ok : Isolated m c (.ok m') ↔ Spares m c m' := by
  constructor
  · rintro ⟨_, ⟨⟩, hs⟩
    exact hs
  · exact fun hs => ⟨m', rfl, hs⟩

@[simp] theorem not_isolated_error (f : Fault) : ¬Isolated m c (.error f) := by
  rintro ⟨_, ⟨⟩, _⟩

theorem setVmcs_self (vm : Vm) (v : Nat) (p : VmTrap.Vmcs) : (vm.setVmcs v p).vmcs v = some p :=
  Function.update_self _ _ _

theorem setVmcs_of_ne {v w : Nat} (h : w ≠ v) (vm : Vm) (p : VmTrap.Vmcs) :
    (vm.setVmcs v p).vmcs w = vm.vmcs w :=
  Function.update_of_ne h _ _

/-- Isolation from a machine with the same other VMs. -/
theorem Spares.isolated_iff (h : Spares m c m') {r : Except Fault Machine} :
    Isolated m' c r ↔ Isolated m c r := by
  constructor
  · rintro ⟨m'', hr, hs⟩
    exact ⟨m'', hr, h.trans hs⟩
  · rintro ⟨m'', hr, hs⟩
    exact ⟨m'', hr, fun j hj => (hs j hj).trans (h j hj).symm⟩

theorem Cpu.sched_ok (p : Cpu) : p.sched = .ok () := by
  obtain ⟨r, hr, -⟩ := p.inv.pickNextTask fun _ hstop => by
    rw [p.running] at hstop
    cases hstop
  simp [Cpu.sched, Sched.reschedule, hr]

theorem Cpu.wait_ok (p : Cpu) : p.wait = .ok () := by
  have hwait : Sched.schedStep p.tasks p.queues .wait
      = some (p.queues.setState p.queues.current .waitEvent) :=
    if_pos ⟨p.running, p.isVcpu⟩
  have hinv := p.inv.step (e := .wait) (by simp [Sched.ExitOk])
    (show Sched.sysStep p.tasks _ .wait = some _ from by rw [Sched.sysStep, hwait]; rfl)
  obtain ⟨r, hr, -⟩ := hinv.pickNextTask fun _ hstop => by
    simp [Sched.Pcpu.setState] at hstop
  simp [Cpu.wait, hwait, Sched.reschedule, hr]

end Machine

/-! ## Virqs to the host VM -/

section Send

variable {vm vm' : Vm} {cur irq : Nat}

/-- The VM once the virq is pending and its vcpu kicked. -/
def heard (vm : Vm) (cur irq : Nat) : Vm :=
  { vm with
    virq := Virq.sendVirqPending vm.virq cur (vm.spi irq).vcpuId
      (.spi (irq - vmLocalVirqNr)) }.kick irq

theorem sendVirq_of_accepted (h : Accepted vm irq) :
    Virq.sendVirqToVm vm.virq cur irq
      = Virq.sendVirq vm.virq cur (vm.spi irq).vcpuId (some (.spi (irq - vmLocalVirqNr))) := by
  obtain ⟨hlocal, hcount, henabled, hhw⟩ := h
  have hcount : irq < vm.virq.vspiNr + vmLocalVirqNr := hcount
  have hdesc : Virq.getVirqDesc vm.virq 0 irq = some (.spi (irq - vmLocalVirqNr)) := by
    rw [Virq.getVirqDesc, if_neg (Nat.not_lt.mpr hlocal), if_neg (Nat.not_le.mpr hcount)]
  simp only [Virq.sendVirqToVm, if_neg (Nat.not_lt.mpr hlocal), hdesc]
  simp only [Vm.spi] at henabled hhw
  simp [Virq.Vm.desc, Vm.spi, henabled, hhw]

theorem sendVirq_of_not_accepted (h : ¬Accepted vm irq) :
    ∃ e, Virq.sendVirqToVm vm.virq cur irq = some (.error e) := by
  unfold Virq.sendVirqToVm
  split
  · exact ⟨_, rfl⟩
  rename_i hlocal
  unfold Virq.getVirqDesc
  rw [if_neg hlocal]
  by_cases hcount : vm.virq.vspiNr + vmLocalVirqNr ≤ irq
  · exact ⟨_, by rw [if_pos hcount]⟩
  simp only [if_neg hcount]
  split
  · exact ⟨_, rfl⟩
  rename_i henabled
  split
  · exact ⟨_, rfl⟩
  rename_i hhw
  refine absurd ⟨Nat.le_of_not_lt hlocal, Nat.lt_of_not_le hcount, ?_, ?_⟩ h
  · simpa [Virq.Vm.desc, Vm.spi] using henabled
  · simpa [Virq.Vm.desc, Vm.spi] using hhw

theorem sendVirqToVm_eq (vm : Vm) (cur irq : Nat) :
    sendVirqToVm vm cur irq =
      if Accepted vm irq ∧ vm.virq.vcpuNr ≤ (vm.spi irq).vcpuId then .error .panic
      else if Accepted vm irq ∧ Deliverable vm irq then .ok (some (heard vm cur irq))
      else .ok none := by
  by_cases hacc : Accepted vm irq
  swap
  · obtain ⟨e, he⟩ := @sendVirq_of_not_accepted vm cur irq hacc
    rw [sendVirqToVm, he, if_neg (mt And.left hacc), if_neg (mt And.left hacc)]
  simp only [sendVirqToVm, sendVirq_of_accepted hacc, Virq.sendVirq, hacc, true_and]
  by_cases hvcpu : vm.virq.vcpuNr ≤ (vm.spi irq).vcpuId
  · rw [if_pos hvcpu, if_pos hvcpu]
  rw [if_neg hvcpu, if_neg hvcpu]
  have hdesc : vm.virq.desc (.spi (irq - vmLocalVirqNr)) = vm.spi irq := rfl
  rw [hdesc]
  unfold Deliverable
  by_cases hon : vm.virq.state = .online
  · simp [hon, heard]
  by_cases hsus : vm.virq.state = .suspend
  · by_cases hwake : Virq.virqCanWakeup (vm.spi irq) = true
    · simp [hsus, hwake, heard]
    · simp [hsus, hwake]
  · simp [hon, hsus]

/-- What a virq to a VM does. -/
theorem sendVirqToVm_cases (vm : Vm) (cur irq : Nat) :
    (sendVirqToVm vm cur irq = .ok none ∧ Unheard vm irq) ∨
      (sendVirqToVm vm cur irq = .error .panic ∧ ¬Unheard vm irq) ∨
        (sendVirqToVm vm cur irq = .ok (some (heard vm cur irq)) ∧
          (Unheard vm irq ↔ Pending vm irq)) := by
  rw [sendVirqToVm_eq]
  split_ifs with hpanic hhears
  · exact Or.inr (Or.inl ⟨rfl, fun hun => Nat.not_lt.mpr hpanic.2 (hun hpanic.1).1⟩)
  · have hlt := Nat.lt_of_not_le (not_and.mp hpanic hhears.1)
    exact Or.inr (Or.inr ⟨rfl, fun hun => (hun hhears.1).2 hhears.2,
      fun hpend _ => ⟨hlt, fun _ => hpend⟩⟩)
  · exact Or.inl ⟨rfl, fun hacc => ⟨Nat.lt_of_not_le (not_and.mp hpanic hacc),
      fun hdel => absurd ⟨hacc, hdel⟩ hhears⟩⟩

/-- No fewer virqs are pending, no more vcpus wait. -/
structure Rang (vm vm' : Vm) : Prop where
  pending : ∀ w, (vm.virq.vcpu w).pendingVirq ≤ (vm'.virq.vcpu w).pendingVirq
  waiting : ∀ i, (vm'.task i).state = .waitEvent → (vm.task i).state = .waitEvent

theorem Rang.refl (vm : Vm) : Rang vm vm := ⟨fun _ => Int.le_refl _, fun _ => id⟩

theorem wake_of_ne {t : Task} (h : t.state ≠ .waitEvent) : wake t = t := by
  simp [wake, Task.move, h]

theorem wake_state_ne (t : Task) : (wake t).state ≠ .waitEvent := by
  by_cases h : t.state = .waitEvent
  · simp [wake, Task.move, h]
  · rwa [wake_of_ne h]

theorem heard_task (vm : Vm) (cur irq : Nat) : (heard vm cur irq).task
    = Function.update vm.task (vm.spi irq).vcpuId (wake (vm.task (vm.spi irq).vcpuId)) := by
  have hid := (Virq.Delivery.sendVirqPending_frame vm.virq cur (vm.spi irq).vcpuId
    (.spi (irq - vmLocalVirqNr))).vcpuId (.spi (irq - vmLocalVirqNr))
  simp only [Virq.Vm.desc] at hid
  simp only [heard, Vm.kick, Vm.setTask, Vm.spi] at hid ⊢
  rw [hid]

theorem heard_virq (vm : Vm) (cur irq : Nat) : (heard vm cur irq).virq
    = Virq.sendVirqPending vm.virq cur (vm.spi irq).vcpuId (.spi (irq - vmLocalVirqNr)) := rfl

theorem pendingVirq_sendVirqPending (vm : Virq.Vm) (cur v i w : Nat) :
    ((Virq.sendVirqPending vm cur v (.spi i)).vcpu w).pendingVirq
      = if w = v ∧ testBit (vm.vspiDesc i).vno (vm.vcpu v).pendingBitmap = false then
          (vm.vcpu w).pendingVirq + 1
        else (vm.vcpu w).pendingVirq := by
  unfold Virq.sendVirqPending
  simp only
  split
  · rename_i htest
    have htest : testBit (vm.vspiDesc i).vno (vm.vcpu v).pendingBitmap = true := htest
    simp [htest]
  · rename_i htest
    have htest : testBit (vm.vspiDesc i).vno (vm.vcpu v).pendingBitmap = false :=
      Bool.eq_false_iff.mpr htest
    by_cases hw : w = v
    · subst hw
      split <;> simp [Virq.Vm.setDesc, Virq.Vm.setVcpu, htest]
    · split <;> simp [Virq.Vm.setDesc, Virq.Vm.setVcpu, hw]

theorem heard_rang (vm : Vm) (cur irq : Nat) : Rang vm (heard vm cur irq) := by
  refine ⟨fun w => ?_, fun i hi => ?_⟩
  · rw [heard_virq, pendingVirq_sendVirqPending]
    split <;> omega
  · rw [heard_task] at hi
    by_cases heq : i = (vm.spi irq).vcpuId
    · rw [heq, Function.update_self] at hi
      exact absurd hi (wake_state_ne _)
    · rwa [Function.update_of_ne heq] at hi

theorem heard_of_pending (h : Pending vm irq) : heard vm cur irq = vm := by
  obtain ⟨htest, hstate⟩ := h
  have hvirq : Virq.sendVirqPending vm.virq cur (vm.spi irq).vcpuId (.spi (irq - vmLocalVirqNr))
      = vm.virq := if_pos htest
  have hkick : vm.kick irq = vm := by
    rw [Vm.kick, wake_of_ne hstate, Vm.setTask, Function.update_eq_self]
  rw [heard, hvirq]
  exact hkick

/-- Once heard, a virq is not taken back. -/
theorem ne_of_heard (h : ¬Pending vm irq) (hr : Rang (heard vm cur irq) vm') : vm' ≠ vm := by
  rintro rfl
  refine h ⟨?_, fun hwait => ?_⟩
  · by_contra htest
    have hle := hr.pending (vm'.spi irq).vcpuId
    rw [heard_virq, pendingVirq_sendVirqPending, if_pos ⟨rfl, by simpa [Vm.spi] using htest⟩] at hle
    omega
  · have hstate := hr.waiting _ hwait
    rw [heard_task, Function.update_self] at hstate
    exact wake_state_ne _ hstate

end Send

/-! ## Traps -/

variable {own : Vm}

section Trap

variable {cfg : Config} {m m' : Machine} {c v reason : Nat}

/-- What a trap reads of its own VM. -/
structure SameTraps (vm vm' : Vm) (v : Nat) : Prop where
  irq : vm'.vmcsIrq v = vm.vmcsIrq v
  vmcs : vm'.vmcs v = none ↔ vm.vmcs v = none
  native : vm'.native = vm.native

theorem SameTraps.trans {vm vm' vm'' : Vm} (h : SameTraps vm vm' v) (h' : SameTraps vm' vm'' v) :
    SameTraps vm vm'' v :=
  ⟨h'.irq.trans h.irq, h'.vmcs.trans h.vmcs, h'.native.trans h.native⟩

theorem sameTraps_setVmcs {vm : Vm} {p : VmTrap.Vmcs} (h : vm.vmcs v = some p)
    (p' : VmTrap.Vmcs) : SameTraps vm (vm.setVmcs v p') v :=
  ⟨rfl, by simp [Vm.setVmcs, h], rfl⟩

theorem trapOk_congr (hhost : m'.host = m.host) (hs : Spares m c m') (hc : m.host ≠ some c)
    (hown : SameTraps (m.vm c) (m'.vm c) v) : TrapOk m' c v ↔ TrapOk m c v := by
  have hsame : ∀ h, m.host = some h → m'.vm h = m.vm h := by
    rintro h hh
    exact hs h fun heq => hc (heq ▸ hh)
  simp only [TrapOk, hhost, hown.irq, ne_eq, hown.vmcs]
  refine forall_congr' fun irq => imp_congr_right fun _ => and_congr_right fun _ => ?_
  refine forall_congr' fun h => ⟨fun hun hh => ?_, fun hun hh => ?_⟩
  · rw [← hsame h hh]
    exact hun hh
  · rw [hsame h hh]
    exact hun hh

theorem setVm_eq_self (m : Machine) (c : Nat) : m.setVm c (m.vm c) = m := by
  simp [Machine.setVm]

/-- What a trap does: it changes its own VM, and the host VM when that hears
it. -/
theorem trapVcpu_cases (m : Machine) (c v reason : Nat) :
    (∃ own, trapVcpu m c v reason = .ok (m.setVm c own) ∧ SameTraps (m.vm c) own v ∧
        TrapOk m c v) ∨
      (trapVcpu m c v reason = .error .panic ∧ ¬TrapOk m c v) ∨
        ∃ h irq own, m.host = some h ∧ SameTraps (m.vm c) own v ∧
          trapVcpu m c v reason = .ok ((m.setVm h (heard (m.vm h) v irq)).setVm c own) ∧
            (TrapOk m c v ↔ Pending (m.vm h) irq) := by
  unfold trapVcpu
  simp only
  cases hirq : (m.vm c).vmcsIrq v with
  | none =>
    refine Or.inl ⟨m.vm c, by rw [setVm_eq_self], ⟨rfl, Iff.rfl, rfl⟩, fun irq h => ?_⟩
    rw [hirq] at h
    cases h
  | some irq =>
    cases hvmcs : (m.vm c).vmcs v with
    | none =>
      exact Or.inr (Or.inl ⟨rfl, fun h => (h irq hirq).1 hvmcs⟩)
    | some p =>
      have hok : TrapOk m c v ↔ ∀ h, m.host = some h → Unheard (m.vm h) irq := by
        simp [TrapOk, hirq, hvmcs]
      cases hhost : m.host with
      | none =>
        refine Or.inl ⟨_, by simp only [sendVirqToHost, hhost]; rfl, sameTraps_setVmcs hvmcs _, ?_⟩
        rw [hok, hhost]
        simp
      | some h =>
        have hok : TrapOk m c v ↔ Unheard (m.vm h) irq := by
          rw [hok, hhost]
          simp
        simp only [sendVirqToHost, hhost, hok]
        obtain ⟨hsend, hun⟩ | ⟨hsend, hun⟩ | ⟨hsend, hun⟩ := sendVirqToVm_cases (m.vm h) v irq
        · exact Or.inl ⟨_, by rw [hsend]; rfl, sameTraps_setVmcs hvmcs _, hun⟩
        · exact Or.inr (Or.inl ⟨by rw [hsend]; rfl, hun⟩)
        · exact Or.inr (Or.inr ⟨h, irq, _, rfl, sameTraps_setVmcs hvmcs _, by rw [hsend]; rfl, hun⟩)

theorem heard_setVm {h irq : Nat} (hne : h ≠ c) :
    ((m.setVm h (heard (m.vm h) v irq)).setVm c own).vm h = heard (m.vm h) v irq := by
  rw [spares_setVm _ c own h hne, setVm_self]

theorem trapVcpu_isolated_iff (hc : m.host ≠ some c) :
    Isolated m c (trapVcpu m c v reason) ↔ TrapOk m c v := by
  obtain ⟨own, hr, -, hok⟩ | ⟨hr, hno⟩ | ⟨h, irq, own, hh, -, hr, hok⟩ :=
    trapVcpu_cases m c v reason
  · rw [hr, isolated_ok]
    exact ⟨fun _ => hok, fun _ => spares_setVm m c own⟩
  · rw [hr]
    exact ⟨fun h => absurd h (not_isolated_error _), fun h => absurd h hno⟩
  · have hne : h ≠ c := fun heq => hc (heq ▸ hh)
    rw [hr, isolated_ok, hok]
    constructor
    · intro hs
      by_contra hpend
      refine ne_of_heard hpend (Rang.refl _) ((heard_setVm hne).symm.trans (hs h hne))
    · intro hpend
      rw [heard_of_pending hpend, setVm_eq_self]
      exact spares_setVm m c own

theorem trapVcpu_own (hr : trapVcpu m c v reason = .ok m') :
    m'.host = m.host ∧ SameTraps (m.vm c) (m'.vm c) v := by
  obtain ⟨own, hr', hown, -⟩ | ⟨hr', -⟩ | ⟨h, irq, own, -, hown, hr', -⟩ :=
    trapVcpu_cases m c v reason
  · cases hr.symm.trans hr'
    exact ⟨rfl, by rwa [setVm_self]⟩
  · cases hr.symm.trans hr'
  · cases hr.symm.trans hr'
    exact ⟨rfl, by rwa [setVm_self]⟩

theorem trapVcpu_rang (hr : trapVcpu m c v reason = .ok m') {j : Nat} (hj : j ≠ c) :
    Rang (m.vm j) (m'.vm j) := by
  obtain ⟨own, hr', -⟩ | ⟨hr', -⟩ | ⟨h, irq, own, -, -, hr', -⟩ := trapVcpu_cases m c v reason
  · cases hr.symm.trans hr'
    rw [spares_setVm m c own j hj]
    exact Rang.refl _
  · cases hr.symm.trans hr'
  · cases hr.symm.trans hr'
    rw [spares_setVm _ c own j hj]
    by_cases hjh : j = h
    · rw [hjh, setVm_self]
      exact heard_rang _ _ _
    · rw [spares_setVm m h _ j hjh]
      exact Rang.refl _

/-- A trap the host VM has heard cannot be undone by later ones. -/
theorem trapVcpu_heard (hc : m.host ≠ some c) (hno : ¬TrapOk m c v)
    (hr : trapVcpu m c v reason = .ok m') :
    ∃ h, h ≠ c ∧ ∀ vm', Rang (m'.vm h) vm' → vm' ≠ m.vm h := by
  obtain ⟨own, -, -, hok⟩ | ⟨hr', -⟩ | ⟨h, irq, own, hh, -, hr', hok⟩ :=
    trapVcpu_cases m c v reason
  · exact absurd hok hno
  · cases hr.symm.trans hr'
  · cases hr.symm.trans hr'
    have hne : h ≠ c := fun heq => hc (heq ▸ hh)
    refine ⟨h, hne, fun vm' hrang => ?_⟩
    rw [heard_setVm hne] at hrang
    exact ne_of_heard (fun hpend => hno (hok.mpr hpend)) hrang

/-! ## Reset and suspend -/

theorem sameTraps_setState (vm : Vm) (s : VmState) (v : Nat) : SameTraps vm (vm.setState s) v :=
  ⟨rfl, Iff.rfl, rfl⟩

theorem sameTraps_freeze (vm : Vm) (s : VmState) (w v : Nat) :
    SameTraps vm ((vm.freeze w).setState s) v := ⟨rfl, Iff.rfl, rfl⟩

theorem trapVcpu_setVm_isolated_iff (hc : m.host ≠ some c)
    (hown : SameTraps (m.vm c) own v) :
    Isolated m c (trapVcpu (m.setVm c own) c v reason) ↔ TrapOk m c v := by
  have hs := spares_setVm m c own
  rw [← hs.isolated_iff, trapVcpu_isolated_iff (show (m.setVm c own).host ≠ some c from hc)]
  exact trapOk_congr rfl hs hc (by rwa [setVm_self])

theorem spares_sendVmRequest (m : Machine) (c : Nat) (job : Job) :
    (sendVmRequest cfg m c job).vm = m.vm := by
  unfold sendVmRequest
  split <;> rfl

theorem vmPowerOff_spares (cfg : Config) (m : Machine) (c v : Nat) :
    Spares m c (vmPowerOff cfg m c v) := by
  unfold vmPowerOff
  split
  · intro j hj
    rw [spares_setVm _ c _ j hj]
    split
    · rw [spares_sendVmRequest]
    · rfl
  · exact Spares.refl m c

theorem vmReset_isolated_iff (hc : m.host ≠ some c) :
    Isolated m c (vmReset cfg m c v) ↔
      (mayPowerOff cfg m c = true → (m.vm c).native = false → TrapOk m c v) := by
  unfold vmReset
  split
  · rename_i hmay
    simp only [hmay, forall_const]
    split
    · rename_i hnative
      have hnative : (m.vm c).native = true := hnative
      simp only [hnative, Bool.true_eq_false, false_imp_iff, iff_true, isolated_ok]
      intro j hj
      rw [spares_sendVmRequest]
      exact spares_setVm m c _ j hj
    · rename_i hnative
      have hnative : (m.vm c).native = false := Bool.eq_false_iff.mpr hnative
      simp only [hnative, forall_const]
      exact trapVcpu_setVm_isolated_iff hc (sameTraps_freeze _ _ _ _)
  · rename_i hmay
    simp only [hmay, Bool.false_eq_true, false_imp_iff, iff_true, isolated_ok]
    exact Spares.refl m c

theorem vcpuIdle_ok (m : Machine) (c v : Nat) : ∃ waited, vcpuIdle m c v = .ok waited := by
  unfold vcpuIdle
  split
  · exact ⟨true, by rw [m.cpu.wait_ok]; rfl⟩
  · exact ⟨false, rfl⟩

theorem vmResume_eq (m : Machine) (c v : Nat) : vmResume m c v
    = reportToMvm (m.setVm c ((m.vm c).setState .online)) c v vmtrapReasonVmResumed := by
  obtain ⟨waited, hidle⟩ := vcpuIdle_ok m c v
  rw [vmResume, hidle]
  rfl

theorem reportToMvm_of_native (h : own.native = true) :
    reportToMvm (m.setVm c own) c v reason = .ok (m.setVm c own) := by
  rw [reportToMvm, setVm_self, if_pos h]

theorem reportToMvm_of_guest (h : own.native = false) :
    reportToMvm (m.setVm c own) c v reason = trapVcpu (m.setVm c own) c v reason := by
  rw [reportToMvm, setVm_self, if_neg (by simp [h])]

/-- A guest VM suspends with two traps, and the second does not undo the
first. -/
theorem twoTraps_isolated_iff (hc : m.host ≠ some c) (hown : SameTraps (m.vm c) own v)
    (hguest : (m.vm c).native = false) :
    Isolated m c ((trapVcpu (m.setVm c own) c v reason).bind fun m' => vmResume m' c v) ↔
      TrapOk m c v := by
  have hs := spares_setVm m c own
  have hiff : Isolated m c (trapVcpu (m.setVm c own) c v reason) ↔ TrapOk m c v :=
    trapVcpu_setVm_isolated_iff hc hown
  cases hr : trapVcpu (m.setVm c own) c v reason with
  | error f =>
    rw [hr] at hiff
    exact hiff
  | ok m₂ =>
    obtain ⟨hhost₂, hown₂⟩ := trapVcpu_own hr
    rw [setVm_self] at hown₂
    have hc₂ : m₂.host ≠ some c := by rwa [hhost₂]
    have hguest₂ : ((m₂.vm c).setState .online).native = false := by
      rw [← hguest, ← hown.native, ← hown₂.native]
      rfl
    rw [Except.bind, vmResume_eq, reportToMvm_of_guest hguest₂]
    by_cases hok : TrapOk m c v
    · -- the host VM has heard nothing so far
      have hs₂ : Spares m c m₂ := by
        rw [hr, isolated_ok] at hiff
        exact hiff.mpr hok
      rw [← hs₂.isolated_iff, trapVcpu_setVm_isolated_iff hc₂ (sameTraps_setState _ _ _)]
      exact trapOk_congr hhost₂ hs₂ hc (hown.trans hown₂)
    · refine ⟨fun hiso => ?_, fun h => absurd h hok⟩
      obtain ⟨m₄, hr₄, hs₄⟩ := hiso
      have hok₁ : TrapOk (m.setVm c own) c v ↔ TrapOk m c v :=
        trapOk_congr rfl hs hc (by rwa [setVm_self])
      obtain ⟨h, hne, hheard⟩ := trapVcpu_heard (show (m.setVm c own).host ≠ some c from hc)
        (mt hok₁.mp hok) hr
      have hrang := trapVcpu_rang hr₄ hne
      rw [spares_setVm m₂ c _ h hne] at hrang
      exact absurd ((hs₄ h hne).trans (hs h hne).symm) (hheard _ hrang)

theorem vmSuspend_isolated_iff (hc : m.host ≠ some c) :
    Isolated m c (vmSuspend cfg m c v) ↔
      (getVmById cfg c = true ∧ v = 0 ∧ othersStopped (m.vm c) v → (m.vm c).native = false →
        TrapOk m c v) := by
  unfold vmSuspend
  split
  · rename_i hsus
    rw [imp_iff_right hsus]
    cases hnative : (m.vm c).native with
    | true =>
      have hsus : ((m.vm c).setState .suspend).native = true := hnative
      rw [reportToMvm_of_native hsus, Except.bind, vmResume_eq, setVm_self]
      have hon : (((m.vm c).setState .suspend).setState .online).native = true := hnative
      rw [reportToMvm_of_native hon, isolated_ok]
      refine iff_of_true ?_ (by simp)
      exact (spares_setVm m c _).trans (spares_setVm _ c _)
    | false =>
      have hsus : ((m.vm c).setState .suspend).native = false := hnative
      rw [reportToMvm_of_guest hsus, imp_iff_right rfl]
      exact twoTraps_isolated_iff hc (sameTraps_setState _ _ _) hnative
  · rename_i hsus
    rw [isolated_ok]
    exact iff_of_true (Spares.refl m c) fun h => absurd h hsus

/-! ## The steps of the calls

`Vmcs`, `VcpuIdle`, `VmSuspend` and `VmSuspendCheck` cut the functions a call goes through into
steps that others may interrupt. With nothing in between they do what they do here. -/

/-- A trap that need not wait leaves the page as the steps of `__vcpu_trap` do. -/
theorem trapVcpu_page (s : VmTrap.Sys) (hirq : (m.vm c).vmcsIrq v ≠ none)
    (hp : (m.vm c).vmcs v = some s.vmcs) (hidle : s.vmcs.guestIndex = s.vmcs.hostIndex)
    (hreason : reason < VmTrap.vmtrapReasonUnknown) (hr : trapVcpu m c v reason = .ok m') :
    ∃ ok n s', run (VmTrap.vmcsStep ⟨true, false⟩) s
        (.trap ⟨vmtrapTypeCommon, reason, 0, 0⟩ false true :: List.replicate n (.vcpu ok))
          = some s' ∧
      (m'.vm c).vmcs v = some s'.vmcs := by
  obtain ⟨irq, hirq⟩ := Option.ne_none_iff_exists'.mp hirq
  have halone := fun ok => VmTrap.run_trap_alone s (t := ⟨vmtrapTypeCommon, reason, 0, 0⟩)
    Nat.one_lt_two hreason hidle ok
  simp only [trapVcpu, hirq, hp] at hr
  cases hsend : sendVirqToHost m v irq with
  | error f =>
    rw [hsend] at hr
    cases hr
  | ok sent =>
    rw [hsend] at hr
    cases sent with
    | some m₁ =>
      cases hr
      obtain ⟨n, s', hrun, -, hpage⟩ := halone true
      exact ⟨true, n, s', hrun, by rw [setVm_self, setVmcs_self, hpage]; rfl⟩
    | none =>
      cases hr
      obtain ⟨n, s', hrun, -, hpage⟩ := halone false
      exact ⟨false, n, s', hrun, by rw [setVm_self, setVmcs_self, hpage]; rfl⟩

/-- The vcpu comes to wait, by the steps of `vcpu_idle`, exactly when it can idle. -/
theorem vcpuIdle_alone (vm : Vm) (v : Nat) :
    (run (VcpuIdle.idleStep v) (VcpuIdle.init vm.virq false) (List.replicate 12 .vcpu)).map
        VcpuIdle.Sys.pc = some .sched ↔ vcpuCanIdle vm v = true := by
  have hcan : vcpuCanIdle vm v = true ↔ vm.virq.state = .online ∧
      vmIrqCount vm.virq ≤ findFirstBit (vm.virq.vcpu v).pendingBitmap (vmIrqCount vm.virq) ∧
      vmIrqCount vm.virq ≤ findFirstBit (vm.virq.vcpu v).activeBitmap (vmIrqCount vm.virq) := by
    simp [vcpuCanIdle, VcpuIdle.vcpuCanIdle, VcpuIdle.init]
  rw [hcan]
  simp only [List.replicate, run, VcpuIdle.idleStep, VcpuIdle.vcpuIdle, VcpuIdle.vcpuCanIdle,
    VcpuIdle.init, WakeUp.init, WakeUp.initTask]
  -- the first read that does not let the vcpu go on takes it out of `vcpu_idle`
  by_cases hstate : vm.virq.state = .online
  · by_cases hpending : vmIrqCount vm.virq ≤
        findFirstBit (vm.virq.vcpu v).pendingBitmap (vmIrqCount vm.virq)
    · by_cases hactive : vmIrqCount vm.virq ≤
          findFirstBit (vm.virq.vcpu v).activeBitmap (vmIrqCount vm.virq)
      · simp [hstate, hpending, hactive, VcpuIdle.Read.next, WakeUp.wakeStep]
      · simp [hstate, hpending, hactive, VcpuIdle.Read.next]
    · simp [hstate, hpending, VcpuIdle.Read.next]
  · simp [hstate]

/-- The loop over the other vcpus lets vcpu 0, and no other, go on when they are stopped. -/
theorem vmSuspend_check {γ : Type} (mods : List (VmSuspendCheck.Vmodule γ)) (vm : Vm) (v : Nat)
    (context : Nat → Nat → γ) :
    (VmSuspendCheck.vmSuspend mods v ⟨vm.virq.state, (List.range (vm.virq.vcpuNr - 1)).map
        fun i => ⟨(vm.task (i + 1)).state, context i⟩⟩).2 = none ↔
      v = 0 ∧ othersStopped vm v := by
  by_cases hv : v = 0
  · subst hv
    rw [VmSuspendCheck.vmSuspend_ok_iff, othersStopped]
    simp only [List.mem_map, List.mem_range, forall_exists_index, and_imp, true_and]
    constructor
    · intro h i hi hne
      have hi' := h _ (i - 1) (by omega) rfl
      rwa [Nat.sub_add_cancel (Nat.pos_of_ne_zero hne)] at hi'
    · rintro h _ i hi rfl
      exact h (i + 1) (by omega) (Nat.succ_ne_zero i)
  · rw [VmSuspendCheck.vmSuspend, if_pos hv]
    exact iff_of_false (by rintro ⟨⟩) fun h => hv h.1

theorem trapVcpu_virq (hr : trapVcpu m c v reason = .ok m') : (m'.vm c).virq = (m.vm c).virq := by
  simp only [trapVcpu] at hr
  split at hr
  · cases hr
    rfl
  split at hr
  · cases hr
  cases hsend : sendVirqToHost m v ‹Nat› with
  | error f =>
    rw [hsend] at hr
    cases hr
  | ok sent =>
    rw [hsend] at hr
    cases sent <;> (cases hr; rw [setVm_self]; rfl)

theorem reportToMvm_virq (hr : reportToMvm m c v reason = .ok m') :
    (m'.vm c).virq = (m.vm c).virq := by
  unfold reportToMvm at hr
  split at hr
  · cases hr
    rfl
  · exact trapVcpu_virq hr

/-- The steps of `__vm_suspend` leave the VM, with its interrupts, as the call does. -/
theorem vmSuspend_alone (hsus : getVmById cfg c = true ∧ othersStopped (m.vm c) 0)
    (hr : vmSuspend cfg m c 0 = .ok m') :
    ∃ s', run (VmSuspend.step 0) (VmSuspend.init (m.vm c).virq false) VmSuspend.suspendRun
        = some s' ∧ (m'.vm c).virq = s'.idle.vm := by
  have hvirq : (m'.vm c).virq = { (m.vm c).virq with state := .online } := by
    rw [vmSuspend, if_pos ⟨hsus.1, rfl, hsus.2⟩] at hr
    obtain ⟨m₁, hreport, hr⟩ := bind_eq_ok hr
    have h₁ := reportToMvm_virq hreport
    rw [setVm_self] at h₁
    rw [vmResume_eq] at hr
    have h₂ := reportToMvm_virq hr
    rw [setVm_self] at h₂
    rw [h₂, Vm.setState, h₁]
    rfl
  exact ⟨_, rfl, hvirq⟩

end Trap

/-! ## `CPU_ON` -/

section CpuOn

variable {cfg : CpuOn.Config} {task : Nat → Task} {v affinity entry : Nat}

theorem osVcpuPowerOn_state (os : Os) (t : Task) (entry : Nat) :
    (osVcpuPowerOn os t entry).state = t.state := by
  cases os <;> rfl

theorem osVcpuPowerOn_place (os : Os) (t : Task) (entry : Nat) :
    (osVcpuPowerOn os t entry).place = t.place := by
  cases os <;> rfl

/-- Taken on its own, a call fails an `ASSERT` only on the list of its
target. -/
theorem vcpuPowerOn_failed_iff : (vcpuPowerOn cfg task v affinity entry).failed = true ↔
    CpuOn.affinityToVcpuid cfg affinity < cfg.vcpuNr ∧
      (task (CpuOn.affinityToVcpuid cfg affinity)).state = .suspend ∧
        (task (CpuOn.affinityToVcpuid cfg affinity)).place ≠ none := by
  unfold vcpuPowerOn CpuOn.vcpuPowerOn
  simp only
  generalize CpuOn.affinityToVcpuid cfg affinity = t
  split
  · rename_i hn
    simp [finishPowerOn, CpuOn.callStep, CpuOn.Sys.note, Nat.not_lt.mpr hn]
  rename_i hn
  split
  · rename_i hstate
    by_cases hplace : (task t).place = none
    · simp [finishPowerOn, CpuOn.callStep, CpuOn.Sys.setCall, CpuOn.Sys.setTask, CpuOn.Sys.note,
        osVcpuPowerOn_state, osVcpuPowerOn_place, hstate, hplace]
    · simp [finishPowerOn, CpuOn.callStep, CpuOn.Sys.setCall, CpuOn.Sys.setTask,
        CpuOn.Sys.fail, osVcpuPowerOn_state, osVcpuPowerOn_place, hstate, hplace,
        Nat.lt_of_not_le hn]
  · rename_i hstate
    simp [finishPowerOn, CpuOn.callStep, CpuOn.Sys.note, hstate]

end CpuOn

/-! ## The console -/

theorem dconWrite_map_eq (cfg : Config) (d : Console) {α : Type} (f : Console → α) :
    (dconWrite cfg d).map f
      = if d.ttyOpen = true → d.Readable cfg then .ok (f { d with ridx := d.widx })
        else .error .panic := by
  have hchars : (∀ i ∈ (DebugConsole.dconWrite d.toConsole d.reads d.count).getD [],
      cfg.mapped (d.charAddr i) = true) ↔ (d.ttyOpen = true → d.Readable cfg) := by
    unfold DebugConsole.dconWrite
    cases d.ttyOpen with
    | false => simp
    | true =>
      have hloop := DebugConsole.writeLoop_eq d.reads.size (u32_lt d.widx) d.count 0 (u32 d.ridx)
        (u32_lt _) rfl
      rw [if_pos rfl, show d.reads.widx = d.widx from rfl, show d.reads.ridx = d.ridx from rfl,
        hloop]
      simp [Console.Readable, Console.reads]
  simp only [dconWrite, List.all_eq_true, hchars]
  split <;> rfl

section Isolation

variable {cfg : Config} {m m' : Machine} {c v : Nat} {id : BitVec 32} {args : Args}

theorem spares_setConsole (m : Machine) (c i : Nat) (d : Console) :
    Spares m c (m.setConsole i d) := fun _ _ => rfl

theorem spares_dconGetIrq (cfg : Config) (m : Machine) (c : Nat) (d : Console) :
    Spares m c (dconGetIrq cfg m c d).1 := by
  unfold dconGetIrq
  split
  · exact (spares_setVm m c _).trans (spares_setConsole _ c c _)
  · exact Spares.refl m c

theorem dcon_isolated_iff :
    Isolated m c ((dconHvcHandler cfg m c id).map Prod.fst) ↔ ConsoleOk cfg m c id := by
  unfold dconHvcHandler ConsoleOk
  split
  · rename_i hnr
    exact iff_of_false (not_isolated_error _) fun h => absurd h.1 (Nat.not_lt.mpr hnr)
  rename_i hnr
  rw [and_iff_right (Nat.lt_of_not_le hnr)]
  cases hd : m.dcons c with
  | none => exact iff_of_true (isolated_ok.mpr (Spares.refl m c)) (by simp)
  | some d =>
    have hother : ∀ {m'}, Spares m c m' → id ≠ hvcDcWrite →
        (Isolated m c (.ok m') ↔ ∀ e, some d = some e → id = hvcDcWrite → e.ttyOpen = true →
          e.Readable cfg) := by
      intro m' hs hid
      exact iff_of_true (isolated_ok.mpr hs) fun _ _ h => absurd h hid
    simp only
    split
    · rename_i hid
      exact hother (Spares.refl m c) (by rw [hid]; decide)
    split
    · rename_i hid
      exact hother (Spares.refl m c) (by rw [hid]; decide)
    split
    · rename_i hid
      exact hother (spares_dconGetIrq cfg m c d) (by rw [hid]; decide)
    split
    · rename_i hid
      rw [dconWrite_map_eq]
      split
      · rename_i hmapped
        refine iff_of_true (isolated_ok.mpr (spares_setConsole m c c _)) ?_
        rintro e ⟨⟩ -
        exact hmapped
      · rename_i hmapped
        exact iff_of_false (not_isolated_error _) fun h => hmapped (h d rfl hid)
    split
    · rename_i hid
      exact hother (spares_setConsole m c c _) (by rw [hid]; decide)
    split
    · rename_i hid
      exact hother (spares_setConsole m c c _) (by rw [hid]; decide)
    · rename_i hid _ _
      exact hother (Spares.refl m c) hid

theorem misc_isolated (m : Machine) (c : Nat) (id : BitVec 32) :
    Isolated m c ((miscHvcHandler m c id).map Prod.fst) := by
  unfold miscHvcHandler
  split
  · exact isolated_ok.mpr (Spares.refl m c)
  split
  · rw [m.cpu.sched_ok]
    exact isolated_ok.mpr (Spares.refl m c)
  split
  · exact isolated_ok.mpr (Spares.refl m c)
  · exact isolated_ok.mpr (Spares.refl m c)

theorem psciCpuOn_isolated_iff :
    Isolated m c ((psciCpuOn cfg m c v args).map Prod.fst) ↔ PsciOk cfg m c v args .cpuOn := by
  have hfailed := @vcpuPowerOn_failed_iff (cpuOnConfig cfg m c) (m.vm c).task v (args 0).toNat
    (args 1).toNat
  unfold psciCpuOn
  simp only
  split
  · rename_i h
    obtain ⟨hn, hstate, hplace⟩ := hfailed.mp h
    exact iff_of_false (not_isolated_error _) fun hok => hplace (hok hn hstate)
  · rename_i h
    refine iff_of_true (isolated_ok.mpr (spares_setVm m c _)) fun hn hstate => ?_
    by_contra hplace
    exact h (hfailed.mpr ⟨hn, hstate, hplace⟩)

theorem map_fst {r : Except Fault Machine} (x0 : Int) :
    (r.map fun m => (m, x0)).map Prod.fst = r := by
  cases r <;> rfl

theorem stdSmc_isolated_iff (hc : m.host ≠ some c) :
    Isolated m c ((stdSmcHandler cfg m c v id args).map Prod.fst) ↔
      ∀ p, psci id = some p → PsciOk cfg m c v args p := by
  unfold stdSmcHandler
  cases hp : psci id with
  | none => exact iff_of_true (isolated_ok.mpr (Spares.refl m c)) (by simp)
  | some p =>
    have hall : (∀ q, some p = some q → PsciOk cfg m c v args q) ↔ PsciOk cfg m c v args p :=
      ⟨fun h => h p rfl, fun h q hq => Option.some.inj hq ▸ h⟩
    have hquiet : ∀ {m'}, Spares m c m' → (Isolated m c (.ok m') ↔ True) := fun hs =>
      iff_of_true (isolated_ok.mpr hs) trivial
    rw [hall]
    cases p with
    | version | migrateInfoType | affinityInfo | features => exact hquiet (Spares.refl m c)
    | cpuOn => exact psciCpuOn_isolated_iff
    | cpuOff => exact hquiet (spares_setVm m c _)
    | cpuSuspend =>
      obtain ⟨waited, hidle⟩ := vcpuIdle_ok m c v
      simp only [hidle]
      exact hquiet (Spares.refl m c)
    | systemOff => exact hquiet (vmPowerOff_spares cfg m c v)
    | systemReset =>
      simp only [map_fst]
      exact vmReset_isolated_iff hc
    | systemSuspend =>
      simp only [map_fst]
      exact vmSuspend_isolated_iff hc

end Isolation

/-- **Calls from a VM that is not the host VM.** The hypervisor survives the
call, and every other VM is left as it was, exactly when the call is none of
the VM hypercalls; a call of the debug console comes from a VM with a place
in `dcons`, and the ring it writes leads `dcon_write` to no address that
cannot be read; `CPU_ON` meets no suspended vcpu that is still in a list; and
the host VM hears nothing of a reset or suspend that a guest VM reports. -/
theorem svc_isolated_iff (cfg : Config) (m : Machine) {c : Nat} (hc : m.host ≠ some c) (v : Nat)
    (call : Call) :
    Isolated m c ((doSvcHandler cfg m c v call).map Prod.fst) ↔ CallOk cfg m c v call := by
  unfold doSvcHandler CallOk
  cases call.handler cfg with
  | none => exact iff_of_true (isolated_ok.mpr (Spares.refl m c)) trivial
  | some handler =>
    cases handler with
    | vm =>
      refine iff_of_false ?_ id
      simp only [vmHvcHandler, if_neg hc]
      exact not_isolated_error _
    | misc => exact iff_of_true (misc_isolated m c call.id) trivial
    | debugConsole => exact dcon_isolated_iff
    | stdSmc => exact stdSmc_isolated_iff hc
    | sip =>
      simp only [sipSmcHandler, if_neg hc]
      exact iff_of_true (isolated_ok.mpr (Spares.refl m c)) trivial

/-- A vcpu's task gets the cpu. -/
def vcpuScheduled : Option Sched.Sys :=
  run (Sched.sysStep Sched.threeTasks) (Sched.pcpuInit Sched.threeTasks) [.ready 2, .resched]

theorem vcpuScheduled_isSome : vcpuScheduled.isSome = true := by decide +kernel

def vcpuCpu : Cpu where
  tasks := Sched.threeTasks
  queues := (vcpuScheduled.get vcpuScheduled_isSome).pcpu
  runnable := (vcpuScheduled.get vcpuScheduled_isSome).runnable
  inv := by
    have hl : Along (Sched.sysStep Sched.threeTasks) (Sched.ExitOk Sched.threeTasks)
        (Sched.pcpuInit Sched.threeTasks) [.ready 2, .resched] := by decide +kernel
    exact run_invariant (fun _ _ _ h hok hs => h.step hok hs) (Sched.schedInv_init _) hl
      (Option.some_get vcpuScheduled_isSome).symm
  running := by decide +kernel
  isVcpu := by decide +kernel

/-- A shared line is enabled, and goes to vcpu 0. -/
def enabledLine (i : Nat) : VirqDesc :=
  { flags := Virq.flagMask Virq.virqsEnabledBit, vno := i + vmLocalVirqNr }

/-- A VM that is online. Vcpu 0 is running, vcpu 1 off; both have a page and
a line for their traps. -/
def onlineVm (vmid : Nat) (native : Bool) : Vm where
  virq :=
    { vmid := vmid
      state := .online
      vspiNr := 64
      vspiDesc := enabledLine
      vspiMap := [0]
      vcpuNr := 2
      vcpu := fun _ => ⟨4, 0, 0, 0, fun _ => {}, [0, 0], [0, 0], [0]⟩ }
  native := native
  canReset := true
  os := .linux
  task := fun i => if i = 0 then ⟨.running, some .readyList, .on, false, none⟩ else .created
  affinity := fun _ => 0
  vmcsIrq := fun v => some (40 + v)
  vmcs := fun _ => some ⟨0, 0, 0, 0, 0, 0, 0⟩
  mm := ⟨[], [], 0⟩

/-- The host VM 1, the native VM 3 with a console, and guests. The ring of the
console is 2GB below the end of what the hypervisor can read. -/
def board : Machine where
  vm := fun i => onlineVm i (i = 1 || i = 3)
  host := some 1
  dcons := fun i =>
    if i = 3 then some ⟨⟨true, true⟩, 0, 0x1000, 0x80000000, 0xfffffff0, 0xfffffff1, 0⟩ else none
  jobs := []
  cpu := vcpuCpu

def boardConfig : Config where
  maxVm := 64
  amlogic := false
  queued := true
  mapped := fun a => a < 0x100000000
  virq := {}
  mpidrShift := false
  nrCpusCluster0 := 4
  hostCall := fun m _ _ => .ok (m, 0)

/-- `CPU_ON` for vcpu 1. -/
def cpuOnArgs : Args := fun i => if i = 0 then 1 else 0x1000

theorem svc_isolated_iff_cpuOn :
    Isolated board 2 ((doSvcHandler boardConfig board 2 0 ⟨true, psciFn64 3, cpuOnArgs⟩).map
        Prod.fst) ∧
      ¬Isolated board 2 ((doSvcHandler boardConfig board 2 0 ⟨true, psciFn 9, cpuOnArgs⟩).map
        Prod.fst) := by
  have hc : board.host ≠ some 2 := by decide
  constructor
  · refine (svc_isolated_iff boardConfig board hc 0 _).mpr fun p hp => ?_
    obtain rfl : Psci.cpuOn = p := Option.some.inj hp
    exact fun _ _ => rfl
  · rw [svc_isolated_iff boardConfig board hc]
    intro hok
    have htrap := hok .systemReset rfl rfl rfl
    -- the line of vcpu 0 is free
    have hacc : Accepted (board.vm 1) 40 := ⟨by decide, by decide, by decide, by decide⟩
    obtain ⟨hpend, -⟩ := ((htrap 40 rfl).2 1 rfl hacc).2 (Or.inl rfl)
    exact absurd hpend (by decide)

/-- The fault a call ends in. -/
def fault {α : Type} : Except Fault α → Option Fault
  | .ok _ => none
  | .error f => some f

/-- Five calls that go wrong:
* the guest VM 2 makes `HVC_VM_CREATE`;
* VM 9 asks for its console, in an array of eight;
* VM 3 writes one character to its console with `size` 0 in the ring;
* VM 2 calls `CPU_ON` a second time for vcpu 1, which is in the ready list of
  its cpu and not yet picked;
* VM 2 resets itself: a virq is pending in the host VM. -/
theorem svc_not_isolated :
    fault (doSvcHandler boardConfig board 2 0 ⟨false, hvcCallNum hvcTypeVm0 0, fun _ => 0⟩)
      = some .panic ∧
    fault (doSvcHandler boardConfig board 9 0 ⟨false, hvcDcGetStat, fun _ => 0⟩)
      = some .outOfBounds ∧
    fault (doSvcHandler boardConfig board 3 0 ⟨false, hvcDcWrite, fun _ => 0⟩) = some .panic ∧
    ((doSvcHandler boardConfig board 2 0 ⟨true, psciFn64 3, cpuOnArgs⟩).toOption.bind fun r =>
        fault (doSvcHandler boardConfig r.1 2 0 ⟨true, psciFn64 3, cpuOnArgs⟩))
      = some .assertion ∧
    (doSvcHandler boardConfig board 2 0 ⟨true, psciFn 9, fun _ => 0⟩).toOption.map
        (fun r => ((r.1.vm 1).virq.vcpu 0).pendingVirq)
      = some 1 ∧
    ((board.vm 1).virq.vcpu 0).pendingVirq = 0 := by
  decide +kernel

end Minos.Hypercall
