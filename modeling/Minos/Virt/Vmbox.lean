import Minos.Virt.Vgic
import Minos.Virt.VmmArea

/-!
# Vmbox controllers

`virt/vmbox/vmbox.c`: a vmbox joins two VMs, and each of its two ends is a
device that the owner's vmbox controller shows to the guest. The guest
writes `VMBOX_CON_ONLINE` to have its devices attached, which gives each one
the next entry of the controller's `devices[32]`; afterwards it reaches
device `n` at offset `0x100 + 0x40 * n` of the controller's registers.

The controllers of all VMs are one system, since a device changes the state
of its brother. The words of memory from `devices[0]` on are a function of
the index: from 32 on they are what lies behind the structure. `accesses`
records every index the handlers evaluate.
-/

namespace Minos.VmboxCon

open Minos.Lib Minos.Vmm Minos.Virq

/-! ## Data -/

def vmboxMaxCount : Nat := 16

/-- The entries of `vc->devices`. -/
def conDevices : Nat := 32

/-- `sizeof(vc->devices)`: the entries are pointers of eight bytes. -/
def sizeofDevices : Nat := 8 * conDevices

def conDevStat : Nat := 0x00
def conOnline : Nat := 0x04
def conIntStatus : Nat := 0x08
def conIntTypeDevOnline : Nat := 1
def conDevBase : Nat := 0x100
def conDevSize : Nat := 0x40

def devMagic : Nat := 0xabcdef00
def devStatOnline : Nat := 1
def devIpcCount : Nat := 32

/-- The registers of a device. -/
inductive Reg
  | id | vqs | vringNum | vringSize | vringBaseHi | vringBaseLow | memSize
  | deviceId | vendorId | vringIrq | ipcIrq | vringEvent | ipcEvent | vdevOnline
  | ipcType
  | other
  deriving DecidableEq, Repr

def decodeReg : Nat → Reg
  | 0x00 => .id
  | 0x04 => .vqs
  | 0x08 => .vringNum
  | 0x0c => .vringSize
  | 0x10 => .vringBaseHi
  | 0x14 => .vringBaseLow
  | 0x18 => .memSize
  | 0x1c => .deviceId
  | 0x20 => .vendorId
  | 0x24 => .vringIrq
  | 0x28 => .ipcIrq
  | 0x2c => .vringEvent
  | 0x30 => .ipcEvent
  | 0x34 => .vdevOnline
  | 0x38 => .ipcType
  | _ => .other

/-- `BE_IDX` and `FE_IDX`. -/
inductive Side
  | be
  | fe
  deriving DecidableEq, Repr

/-- A `struct vmbox_device *`: one end of the vmbox `vmboxs[box]`. -/
structure DevRef where
  box : Nat
  side : Side
  deriving DecidableEq, Repr

/-- `vdev->bro`. -/
def DevRef.bro (d : DevRef) : DevRef :=
  { d with side := match d.side with
      | .be => .fe
      | .fe => .be }

/-- `struct vmbox`. -/
structure Vmbox where
  owner : Side → Nat
  devid0 : Nat
  devid1 : Nat
  vqs : Nat
  vringNum : Nat
  vringSize : Nat
  shmemSize : Nat

/-- `struct vmbox_device`; `vc` is the VM of the controller. -/
structure VmboxDevice where
  devid : Nat := 0
  state : Nat := 0
  vringVirq : Nat := 0
  ipcVirq : Nat := 0
  ipcType : Nat := 0
  iomem : Nat := 0
  iomemSize : Nat := 0
  vc : Option Nat := none
  deriving DecidableEq, Repr

/-- `struct vmbox_controller`. -/
structure VmboxController where
  devCnt : Nat
  status : Nat
  irqState : Nat
  devState : Nat
  devices : Nat → Option DevRef
  accesses : List Nat

/-- Every vmbox, its devices, and of every VM its controller, its interrupt
lines and its address space. `vmbox_index` is the length of `vmboxs`. -/
structure Sys where
  vmboxs : List Vmbox
  dev : DevRef → VmboxDevice
  con : Nat → VmboxController
  vm : Nat → Vm
  mm : Nat → MmStruct

def Sys.setDev (s : Sys) (d : DevRef) (x : VmboxDevice) : Sys :=
  { s with dev := Function.update s.dev d x }

def Sys.setCon (s : Sys) (v : Nat) (c : VmboxController) : Sys :=
  { s with con := Function.update s.con v c }

def Sys.setVm (s : Sys) (v : Nat) (vm : Vm) : Sys :=
  { s with vm := Function.update s.vm v vm }

def Sys.setMm (s : Sys) (v : Nat) (mm : MmStruct) : Sys :=
  { s with mm := Function.update s.mm v mm }

/-- The machine: the configured numbers of lines, and which allocations of
an area entry get their memory, for every VM. -/
structure Env where
  cfg : VirqConfig
  mem : Nat → Nat → Bool

/-! ## Creation -/

/-- `of_create_vmbox`, past the parsing of the device tree: there are at
most `VMBOX_MAX_COUNT`, between VMs that exist. -/
def ofCreateVmbox (vmExists : Nat → Bool) (vmboxs : List Vmbox) (box : Vmbox) :
    Except Errno (List Vmbox) :=
  if vmboxMaxCount ≤ vmboxs.length then .error .enospc
  else if vmExists (box.owner .be) && vmExists (box.owner .fe) then .ok (vmboxs ++ [box])
  else .error .enoent

/-- The vmboxes of a device tree, those that cannot be created left out. -/
def createVmboxs (vmExists : Nat → Bool) (infos : List Vmbox) : List Vmbox :=
  infos.foldl (fun vmboxs box =>
    match ofCreateVmbox vmExists vmboxs box with
    | .ok vmboxs' => vmboxs'
    | .error _ => vmboxs) []

/-- `zalloc` of a controller; `behind` is the memory behind it. -/
def createController (behind : Nat → Option DevRef) : VmboxController where
  devCnt := 0
  status := 0
  irqState := 0
  devState := 0
  devices := fun i => if i < conDevices then none else behind i
  accesses := []

/-- The system when the VMs start. -/
def createSys (vmboxs : List Vmbox) (behind : Nat → Nat → Option DevRef)
    (vm : Nat → Vm) (mm : Nat → MmStruct) : Sys where
  vmboxs := vmboxs
  dev := fun _ => {}
  con := fun v => createController (behind v)
  vm := vm
  mm := mm

/-! ## Attaching -/

/-- `VM_SHARED | VM_GUEST_SHMEM`. -/
def shmemFlags : Nat := 0xd004

/-- What `alloc_vm_virq` returns, in a `uint32_t`: `-1` is not `0`. -/
def virqWord : Option Nat → Nat
  | some virq => virq
  | none => 2 ^ 32 - 1

/-- `vc->devices[i] = vdev`. -/
def VmboxController.store (c : VmboxController) (i : Nat) (d : DevRef) : VmboxController :=
  { c with devices := Function.update c.devices i (some d), accesses := i :: c.accesses }

/-- The end of `vmbox_device_attach`, with the area in which the guest sees
the shared memory. -/
def attachAt (s : Sys) (v : Nat) (d : DevRef) (iomem iomemSize : Nat) : Sys :=
  let c := s.con v
  let devid := c.devCnt
  let s := s.setDev d { s.dev d with iomem := iomem, iomemSize := iomemSize, devid := devid }
  s.setCon v
    { c.store devid d with
      devCnt := devid + 1
      devState := c.devState ||| 2 ^ (devid % 32)
      irqState := c.irqState ||| 2 ^ conIntTypeDevOnline }

/-- `vmbox_device_attach`. The lines and the area come from the owner of the
device, which is the VM of the controller. -/
def vmboxDeviceAttach (env : Env) (s : Sys) (v : Nat) (box : Vmbox) (d : DevRef) :
    Except Errno Unit × Sys :=
  let r₁ := allocVmVirq env.cfg (s.vm v)
  let r₂ := allocVmVirq env.cfg r₁.2
  let vdev := { s.dev d with
    vc := some v, vringVirq := virqWord r₁.1, ipcVirq := virqWord r₂.1 }
  let s := (s.setVm v r₂.2).setDev d vdev
  if vdev.vringVirq = 0 ∨ vdev.ipcVirq = 0 then (.error .enospc, s)
  else
    match allocFreeVmmArea (env.mem v) (s.mm v) box.shmemSize pageMask shmemFlags with
    | (none, mm) => (.error .enomem, s.setMm v mm)
    | (some va, mm) => (.ok (), attachAt (s.setMm v mm) v d va.start box.shmemSize)

/-- One of the two tests in the loop of `vmbox_device_attach_to_vm`; a
failed attach is only reported. -/
def attachSide (env : Env) (v : Nat) (box : Vmbox) (d : DevRef) (s : Sys) : Sys :=
  if box.owner d.side = v then (vmboxDeviceAttach env s v box d).2 else s

/-- The loop, from `vmboxs[i]` on. -/
def attachLoop (env : Env) (v : Nat) : Nat → List Vmbox → Sys → Sys
  | _, [], s => s
  | i, box :: rest, s =>
    attachLoop env v (i + 1) rest
      (attachSide env v box ⟨i, .fe⟩ (attachSide env v box ⟨i, .be⟩ s))

/-- `vmbox_device_attach_to_vm`. -/
def vmboxDeviceAttachToVm (env : Env) (s : Sys) (v : Nat) : Sys :=
  attachLoop env v 0 s.vmboxs s

/-! ## Register accesses -/

/-- `vmbox_handle_con_read`. -/
def vmboxHandleConRead (s : Sys) (v offset : Nat) : Nat × Sys :=
  let c := s.con v
  if offset = conDevStat then (c.devState, s)
  else if offset = conIntStatus then (c.irqState, s.setCon v { c with irqState := 0 })
  else (0, s)

/-- `vmbox_handle_con_write`. -/
def vmboxHandleConWrite (env : Env) (s : Sys) (v offset : Nat) : Sys :=
  if offset = conOnline then
    vmboxDeviceAttachToVm env (s.setCon v { s.con v with status := 1 }) v
  else s

/-- The device an offset selects. `devid` is an `int` and is compared with
`sizeof` as an `unsigned long`, so a negative one is too large. -/
def selectDevice (s : Sys) (v offset : Nat) : Except Errno DevRef × Sys :=
  let devid := u32 ((offset - conDevBase) / conDevSize)
  if sizeofDevices ≤ devid then (.error .einval, s)
  else
    let c := s.con v
    let s := s.setCon v { c with accesses := devid :: c.accesses }
    match c.devices devid with
    | none => (.error .enoent, s)
    | some d => (.ok d, s)

/-- `__vmbox_handle_dev_read`. -/
def devReadReg (s : Sys) (box : Vmbox) (d : DevRef) (reg : Nat) : Nat × Sys :=
  let vdev := s.dev d
  match decodeReg reg with
  | .ipcType => (vdev.ipcType, s.setDev d { vdev with ipcType := 0 })
  | .deviceId => (if d.side = .be then box.devid0 else u32 (box.devid0 + 1), s)
  | .vqs => (box.vqs, s)
  | .vringNum => (box.vringNum, s)
  | .vringSize => (box.vringSize, s)
  | .vringBaseHi => (vdev.iomem / 2 ^ 32, s)
  | .vringBaseLow => (vdev.iomem % 2 ^ 32, s)
  | .memSize => (vdev.iomemSize, s)
  | .id => (vdev.devid ||| devMagic, s)
  | .vendorId => (box.devid1, s)
  | .vringIrq => (vdev.vringVirq, s)
  | .ipcIrq => (vdev.ipcVirq, s)
  | _ => (0, s)

/-- `vmbox_handle_dev_read`. A word that is no device is a fault. -/
def vmboxHandleDevRead (s : Sys) (v offset : Nat) : Option (Except Errno Nat × Sys) :=
  match selectDevice s v offset with
  | (.error e, s) => some (.error e, s)
  | (.ok d, s) =>
    s.vmboxs[d.box]?.map fun box =>
      let r := devReadReg s box d ((offset - conDevBase) % conDevSize)
      (.ok r.1, r.2)

/-- `send_virq_to_vm(vdev->vm, virq)`, from the vcpu `cur`. -/
def notify (s : Sys) (box : Vmbox) (d : DevRef) (cur virq : Nat) : Option Sys :=
  let v := box.owner d.side
  match sendVirqToVm (s.vm v) cur virq with
  | none => none
  | some (.error _) => some s
  | some (.ok vm) => some (s.setVm v vm)

/-- The registers of `vmbox_handle_dev_write`. -/
def devWriteReg (s : Sys) (box : Vmbox) (d : DevRef) (cur reg value : Nat) : Option Sys :=
  let bro := s.dev d.bro
  match decodeReg reg with
  | .vringEvent =>
    if bro.state = 0 then some s else notify s box d.bro cur bro.vringVirq
  | .ipcEvent =>
    if bro.state = 0 ∨ devIpcCount ≤ value then some s
    else if bro.ipcType.testBit value then some s
    else
      notify (s.setDev d.bro { bro with ipcType := bro.ipcType ||| 2 ^ value })
        box d.bro cur bro.ipcVirq
  | .vdevOnline =>
    let s := s.setDev d { s.dev d with state := devStatOnline }
    if bro.state = devStatOnline then
      notify (s.setDev d.bro { bro with ipcType := bro.ipcType ||| 2 ^ 0 })
        box d.bro cur bro.ipcVirq
    else some s
  | _ => some s

/-- `vmbox_handle_dev_write`. -/
def vmboxHandleDevWrite (s : Sys) (v cur offset value : Nat) :
    Option (Except Errno Unit × Sys) :=
  match selectDevice s v offset with
  | (.error e, s) => some (.error e, s)
  | (.ok d, s) =>
    s.vmboxs[d.box]?.bind fun box =>
      (devWriteReg s box d cur ((offset - conDevBase) % conDevSize) value).map fun s =>
        (.ok (), s)

/-- An access of a guest to its controller. -/
structure Access where
  vmid : Nat
  vcpu : Nat
  write : Bool
  offset : Nat
  value : Nat
  deriving DecidableEq, Repr

/-- `vmbox_con_read` and `vmbox_con_write`. The results only reach a
warning of `vdev_mmio_emulation`. -/
def vmboxStep (env : Env) (s : Sys) (a : Access) : Option Sys :=
  if a.write then
    if a.offset < conDevBase then some (vmboxHandleConWrite env s a.vmid a.offset)
    else (vmboxHandleDevWrite s a.vmid a.vcpu a.offset a.value).map (·.2)
  else
    if a.offset < conDevBase then some (vmboxHandleConRead s a.vmid a.offset).2
    else (vmboxHandleDevRead s a.vmid a.offset).map (·.2)

/-! ## What a controller promises -/

/-- `d` is an end of a vmbox that the VM owns. -/
def Owned (s : Sys) (v : Nat) (d : DevRef) : Prop :=
  ∃ box, s.vmboxs[d.box]? = some box ∧ box.owner d.side = v

/-- Every index was inside the array, which is not over-full; an entry the
guest can select is a device of the VM, which knows its number; and no
device is in two entries. -/
structure ConOk (s : Sys) (v : Nat) : Prop where
  index : ∀ i ∈ (s.con v).accesses, i < conDevices
  count : (s.con v).devCnt ≤ conDevices
  exist : ∀ i < conDevices, ∀ d, (s.con v).devices i = some d →
    i < (s.con v).devCnt ∧ Owned s v d ∧ (s.dev d).devid = i
  once : ∀ i < conDevices, ∀ j < conDevices, ∀ d,
    (s.con v).devices i = some d → (s.con v).devices j = some d → i = j

/-- The offset selects an entry behind the array that the comparison with
`sizeof` lets through: `0x900` to `0x40ff`, in a register space of less than
`2 ^ 38` bytes. -/
def SelectsBehind (offset : Nat) : Prop :=
  conDevBase ≤ offset ∧ 0x800 ≤ (offset - conDevBase) % 2 ^ 38 ∧
    (offset - conDevBase) % 2 ^ 38 < 0x4000

/-- The guest announces its controller only as long as it has no device,
and does not use offsets that select an entry behind the array. -/
def Tame (s : Sys) (a : Access) : Prop :=
  (a.write = true → a.offset = conOnline → (s.con a.vmid).devCnt = 0) ∧
    ¬ SelectsBehind a.offset

instance (s : Sys) (a : Access) : Decidable (Tame s a) :=
  inferInstanceAs (Decidable ((_ → _ → _) ∧ ¬ (_ ∧ _ ∧ _)))

/-! ## Steps that attach nothing -/

/-- `s'` has the controllers of `s`, and its devices have the numbers they
had. -/
structure SameDevices (s s' : Sys) : Prop where
  vmboxs : s'.vmboxs = s.vmboxs
  con : s'.con = s.con
  devid : ∀ d, (s'.dev d).devid = (s.dev d).devid

theorem SameDevices.refl (s : Sys) : SameDevices s s := ⟨rfl, rfl, fun _ => rfl⟩

variable {s s' : Sys}

theorem SameDevices.trans {s'' : Sys} (h : SameDevices s s') (h' : SameDevices s' s'') :
    SameDevices s s'' :=
  ⟨h'.vmboxs.trans h.vmboxs, h'.con.trans h.con, fun d => (h'.devid d).trans (h.devid d)⟩

theorem SameDevices.setDev (s : Sys) (d : DevRef) {x : VmboxDevice}
    (hx : x.devid = (s.dev d).devid) : SameDevices s (s.setDev d x) := by
  refine ⟨rfl, rfl, fun e => ?_⟩
  simp only [Sys.setDev, Function.update_apply]
  split
  · rename_i he
    rw [he]
    exact hx
  · rfl

theorem SameDevices.setVm (s : Sys) (v : Nat) (vm : Vm) : SameDevices s (s.setVm v vm) :=
  ⟨rfl, rfl, fun _ => rfl⟩

theorem SameDevices.setMm (s : Sys) (v : Nat) (mm : MmStruct) :
    SameDevices s (s.setMm v mm) :=
  ⟨rfl, rfl, fun _ => rfl⟩

variable {box : Vmbox} {d : DevRef}

theorem SameDevices.notify {cur virq : Nat}
    (h : notify s box d cur virq = some s') : SameDevices s s' := by
  simp only [VmboxCon.notify] at h
  split at h
  · cases h
  · cases h
    exact .refl _
  · cases h
    exact .setVm _ _ _

theorem SameDevices.devReadReg (s : Sys) (box : Vmbox) (d : DevRef) (reg : Nat) :
    SameDevices s (devReadReg s box d reg).2 := by
  unfold VmboxCon.devReadReg
  cases decodeReg reg with
  | ipcType => exact .setDev _ _ rfl
  | _ => exact .refl _

theorem SameDevices.devWriteReg {cur reg value : Nat}
    (h : devWriteReg s box d cur reg value = some s') : SameDevices s s' := by
  unfold VmboxCon.devWriteReg at h
  cases hreg : decodeReg reg <;> simp only [hreg] at h
  case vringEvent =>
    split at h
    · cases h
      exact .refl _
    · exact .notify h
  case ipcEvent =>
    split at h
    · cases h
      exact .refl _
    split at h
    · cases h
      exact .refl _
    · refine SameDevices.trans (.setDev s d.bro ?_) (.notify h)
      rfl
  case vdevOnline =>
    have hon := SameDevices.setDev s d (x := { s.dev d with state := devStatOnline }) rfl
    split at h
    · refine (hon.trans (.setDev _ d.bro ?_)).trans (.notify h)
      exact (hon.devid d.bro).symm
    · cases h
      exact hon
  all_goals
    cases h
    exact .refl _

variable {v : Nat}

/-- What a controller promises depends on nothing else. -/
theorem ConOk.congr (h : ConOk s v) (hvmboxs : s'.vmboxs = s.vmboxs)
    (hindex : ∀ i ∈ (s'.con v).accesses, i < conDevices)
    (hcnt : (s'.con v).devCnt = (s.con v).devCnt)
    (hdevices : (s'.con v).devices = (s.con v).devices)
    (hdevid : ∀ d, Owned s v d → (s'.dev d).devid = (s.dev d).devid) : ConOk s' v := by
  refine ⟨hindex, hcnt ▸ h.count, fun i hi d hd => ?_, fun i hi j hj d hid hjd => ?_⟩
  · rw [hdevices] at hd
    obtain ⟨hlt, hown, hid⟩ := h.exist i hi d hd
    refine ⟨hcnt ▸ hlt, ?_, (hdevid d hown).trans hid⟩
    unfold Owned
    rw [hvmboxs]
    exact hown
  · rw [hdevices] at hid hjd
    exact h.once i hi j hj d hid hjd

theorem SameDevices.conOk (hsame : SameDevices s s') (h : ConOk s v) :
    ConOk s' v := by
  refine h.congr hsame.vmboxs ?_ ?_ ?_ (fun d _ => hsame.devid d) <;> rw [hsame.con]
  exact h.index

/-! ## Attaching -/

/-- The place of a device in the order in which the loop visits them. -/
def DevRef.turn (d : DevRef) : Nat := 2 * d.box + match d.side with
  | .be => 0
  | .fe => 1

/-- The loop before turn `n`, in a controller that had no device: only
devices of earlier turns are in the array. -/
structure Attaching (s : Sys) (v n : Nat) : Prop where
  ok : ConOk s v
  count : (s.con v).devCnt ≤ n
  before : ∀ i < conDevices, ∀ d, (s.con v).devices i = some d → d.turn < n

theorem Attaching.mono {n m : Nat} (h : Attaching s v n) (hnm : n ≤ m) :
    Attaching s v m :=
  ⟨h.ok, h.count.trans hnm, fun i hi d hd => (h.before i hi d hd).trans_le hnm⟩

theorem SameDevices.attaching {n : Nat} (hsame : SameDevices s s')
    (h : Attaching s v n) : Attaching s' v n := by
  refine ⟨hsame.conOk h.ok, ?_, ?_⟩ <;> rw [hsame.con]
  · exact h.count
  · exact h.before

/-- The device whose turn it is gets the next entry, which is free. -/
theorem Attaching.attachAt (h : Attaching s v d.turn)
    (hd : Owned s v d) (hlt : d.turn < conDevices) (iomem size : Nat) :
    Attaching (attachAt s v d iomem size) v (d.turn + 1) := by
  have hcnt := h.count
  have hne : ∀ i < conDevices, ∀ e, (s.con v).devices i = some e → e ≠ d := by
    rintro i hi e he rfl
    exact Nat.lt_irrefl _ (h.before i hi e he)
  -- an entry of the new array is the new one, or an old one with an old device
  have hentry : ∀ i < conDevices, ∀ e,
      ((VmboxCon.attachAt s v d iomem size).con v).devices i = some e →
      (i = (s.con v).devCnt ∧ e = d) ∨
        (i ≠ (s.con v).devCnt ∧ (s.con v).devices i = some e ∧ e ≠ d) := by
    intro i hi e he
    simp only [VmboxCon.attachAt, Sys.setCon, VmboxController.store, Function.update_self,
      Function.update_apply] at he
    split at he
    · rename_i heq
      cases he
      exact Or.inl ⟨heq, rfl⟩
    · rename_i hi'
      exact Or.inr ⟨hi', he, hne i hi e he⟩
  have hold : ∀ e, e ≠ d →
      ((VmboxCon.attachAt s v d iomem size).dev e) = s.dev e := by
    intro e he
    exact Function.update_of_ne he _ _
  have hcnt' : ((VmboxCon.attachAt s v d iomem size).con v).devCnt = (s.con v).devCnt + 1 := by
    simp [VmboxCon.attachAt, Sys.setCon]
  have hexist : ∀ i < conDevices, ∀ e,
      ((VmboxCon.attachAt s v d iomem size).con v).devices i = some e →
      i < ((VmboxCon.attachAt s v d iomem size).con v).devCnt ∧ Owned s v e ∧
        ((VmboxCon.attachAt s v d iomem size).dev e).devid = i := by
    intro i hi e he
    rw [hcnt']
    rcases hentry i hi e he with ⟨rfl, rfl⟩ | ⟨-, hi', hed⟩
    · refine ⟨Nat.lt_succ_self _, hd, ?_⟩
      simp [VmboxCon.attachAt, Sys.setCon, Sys.setDev]
    · obtain ⟨hlt', hown, hid⟩ := h.ok.exist i hi e hi'
      rw [hold e hed]
      exact ⟨hlt'.trans (Nat.lt_succ_self _), hown, hid⟩
  refine ⟨⟨?_, ?_, hexist, ?_⟩, ?_, ?_⟩
  · intro i hi
    simp only [VmboxCon.attachAt, Sys.setCon, VmboxController.store, Function.update_self,
      List.mem_cons] at hi
    rcases hi with rfl | hi
    · exact hcnt.trans_lt hlt
    · exact h.ok.index i hi
  · rw [hcnt']
    exact hcnt.trans_lt hlt
  · -- a device knows its entry, so it is in one only
    intro i hi j hj e hie hje
    exact (hexist i hi e hie).2.2.symm.trans (hexist j hj e hje).2.2
  · rw [hcnt']
    exact Nat.succ_le_succ hcnt
  · intro i hi e he
    rcases hentry i hi e he with ⟨-, rfl⟩ | ⟨-, hi', -⟩
    · exact Nat.lt_succ_self _
    · exact (h.before i hi e hi').trans (Nat.lt_succ_self _)

/-- The controllers of other VMs do not see it. -/
theorem ConOk.attachAt {w : Nat} (h : ConOk s w)
    (hd : Owned s v d) (hwv : w ≠ v) (iomem size : Nat) :
    ConOk (attachAt s v d iomem size) w := by
  have hcon : (VmboxCon.attachAt s v d iomem size).con w = s.con w :=
    Function.update_of_ne hwv _ _
  refine h.congr rfl ?_ (by rw [hcon]) (by rw [hcon]) fun e he => ?_
  · rw [hcon]
    exact h.index
  · have hed : e ≠ d := by
      rintro rfl
      obtain ⟨box, hbox, hw⟩ := he
      obtain ⟨box', hbox', hv⟩ := hd
      cases hbox.symm.trans hbox'
      exact hwv (hw.symm.trans hv)
    exact congrArg VmboxDevice.devid (Function.update_of_ne hed _ _)

/-- One attach: a failed one changes no number and no controller. -/
theorem vmboxDeviceAttach_cases (env : Env) (s : Sys) (v : Nat) (box : Vmbox) (d : DevRef) :
    ∃ s₁, SameDevices s s₁ ∧
      ((vmboxDeviceAttach env s v box d).2 = s₁ ∨
        ∃ iomem, (vmboxDeviceAttach env s v box d).2
          = attachAt s₁ v d iomem box.shmemSize) := by
  have hlines : ∀ vm x, x.devid = (s.dev d).devid →
      SameDevices s ((s.setVm v vm).setDev d x) :=
    fun vm x hx => (SameDevices.setVm s v vm).trans (.setDev _ d hx)
  simp only [vmboxDeviceAttach]
  split
  · refine ⟨_, hlines _ _ ?_, Or.inl rfl⟩
    rfl
  split
  · refine ⟨_, (hlines _ _ ?_).trans (.setMm _ v _), Or.inl rfl⟩
    rfl
  · refine ⟨_, (hlines _ _ ?_).trans (.setMm _ v _), Or.inr ⟨_, rfl⟩⟩
    rfl

theorem vmboxDeviceAttach_vmboxs (env : Env) (s : Sys) (v : Nat) (box : Vmbox) (d : DevRef) :
    (vmboxDeviceAttach env s v box d).2.vmboxs = s.vmboxs := by
  obtain ⟨s₁, hsame, h | ⟨iomem, h⟩⟩ := vmboxDeviceAttach_cases env s v box d <;> rw [h]
  · exact hsame.vmboxs
  · exact hsame.vmboxs

/-- One turn of the loop. -/
theorem attachSide_spec (env : Env)
    (hbox : s.vmboxs[d.box]? = some box) (hlt : d.turn < conDevices) :
    (attachSide env v box d s).vmboxs = s.vmboxs ∧
      (Attaching s v d.turn → Attaching (attachSide env v box d s) v (d.turn + 1)) ∧
      ∀ w, w ≠ v → ConOk s w → ConOk (attachSide env v box d s) w := by
  unfold attachSide
  split
  · rename_i howner
    refine ⟨vmboxDeviceAttach_vmboxs env s v box d, ?_⟩
    obtain ⟨s₁, hsame, h⟩ := vmboxDeviceAttach_cases env s v box d
    have howned : Owned s₁ v d := ⟨box, by rw [hsame.vmboxs]; exact hbox, howner⟩
    rcases h with h | ⟨iomem, h⟩ <;> rw [h]
    · exact ⟨fun ha => (hsame.attaching ha).mono (Nat.le_succ _), fun w _ hw => hsame.conOk hw⟩
    · exact ⟨fun ha => (hsame.attaching ha).attachAt howned hlt _ _,
        fun w hwv hw => (hsame.conOk hw).attachAt howned hwv _ _⟩
  · exact ⟨rfl, fun ha => ha.mono (Nat.le_succ _), fun w _ hw => hw⟩

/-- The whole loop, by induction on the vmboxes it has still to visit. -/
theorem attachLoop_spec (env : Env) (v : Nat) (rest : List Vmbox) :
    ∀ (i : Nat) (s : Sys), (∀ k box, rest[k]? = some box → s.vmboxs[i + k]? = some box) →
      i + rest.length ≤ vmboxMaxCount →
      (attachLoop env v i rest s).vmboxs = s.vmboxs ∧
      (Attaching s v (2 * i) →
        Attaching (attachLoop env v i rest s) v (2 * (i + rest.length))) ∧
      ∀ w, w ≠ v → ConOk s w → ConOk (attachLoop env v i rest s) w := by
  induction rest with
  | nil =>
    intro i s _ _
    exact ⟨rfl, id, fun w _ hw => hw⟩
  | cons box rest ih =>
    intro i s hget hlen
    have hmax : 2 * vmboxMaxCount = conDevices := rfl
    rw [List.length_cons] at hlen
    have hbox : s.vmboxs[i]? = some box := hget 0 box rfl
    obtain ⟨hv₁, ha₁, hw₁⟩ := attachSide_spec env (v := v) (d := ⟨i, .be⟩) hbox
      (by simp only [DevRef.turn]; omega)
    obtain ⟨hv₂, ha₂, hw₂⟩ := attachSide_spec env (v := v) (d := ⟨i, .fe⟩)
      (s := attachSide env v box ⟨i, .be⟩ s) (by rw [hv₁]; exact hbox)
      (by simp only [DevRef.turn]; omega)
    have hrest : ∀ k box', rest[k]? = some box' →
        (attachSide env v box ⟨i, .fe⟩ (attachSide env v box ⟨i, .be⟩ s)).vmboxs[i + 1 + k]?
          = some box' := by
      intro k box' hk
      rw [hv₂, hv₁, Nat.add_right_comm]
      exact hget (k + 1) box' hk
    obtain ⟨hv₃, ha₃, hw₃⟩ := ih (i + 1) _ hrest (by omega)
    have hturns : i + 1 + rest.length = i + (box :: rest).length := by
      rw [List.length_cons]
      omega
    rw [hturns] at ha₃
    exact ⟨hv₃.trans (hv₂.trans hv₁), fun ha => ha₃ (ha₂ (ha₁ ha)),
      fun w hwv hw => hw₃ w hwv (hw₂ w hwv (hw₁ w hwv hw))⟩

/-! ## Runs -/

/-- What holds between two accesses. -/
structure VmboxInv (s : Sys) : Prop where
  boxes : s.vmboxs.length ≤ vmboxMaxCount
  con : ∀ v, ConOk s v

theorem createVmboxs_length (vmExists : Nat → Bool) (infos : List Vmbox) :
    (createVmboxs vmExists infos).length ≤ vmboxMaxCount := by
  unfold createVmboxs
  generalize hstart : ([] : List Vmbox) = start
  have hlen : start.length ≤ vmboxMaxCount := by simp [← hstart]
  clear hstart
  induction infos generalizing start with
  | nil => exact hlen
  | cons box infos ih =>
    refine ih _ ?_
    simp only [ofCreateVmbox]
    split_ifs with hfull hvms
    · exact hlen
    · rw [List.length_append]
      exact Nat.lt_of_not_le hfull
    · exact hlen

theorem VmboxInv.create {vmboxs : List Vmbox} (h : vmboxs.length ≤ vmboxMaxCount)
    (behind : Nat → Nat → Option DevRef) (vm : Nat → Vm) (mm : Nat → MmStruct) :
    VmboxInv (createSys vmboxs behind vm mm) := by
  have hempty : ∀ v, ∀ i < conDevices,
      ((createSys vmboxs behind vm mm).con v).devices i = none :=
    fun v i hi => if_pos hi
  refine ⟨h, fun v => ⟨fun i hi => (by cases hi), Nat.zero_le _, fun i hi d hd => ?_,
    fun i hi j hj d hd => ?_⟩⟩ <;>
  · rw [hempty v i hi] at hd
    cases hd

/-- A controller changes, but neither its array nor its count. -/
theorem VmboxInv.setCon (h : VmboxInv s) (v : Nat) {c : VmboxController}
    (hindex : ∀ i ∈ c.accesses, i < conDevices) (hcnt : c.devCnt = (s.con v).devCnt)
    (hdevices : c.devices = (s.con v).devices) : VmboxInv (s.setCon v c) := by
  refine ⟨h.boxes, fun w => ?_⟩
  by_cases hw : w = v
  · subst hw
    have hcon : (s.setCon w c).con w = c := Function.update_self _ _ _
    refine (h.con w).congr rfl ?_ ?_ ?_ fun _ _ => rfl <;> rw [hcon]
    · exact hindex
    · exact hcnt
    · exact hdevices
  · have hcon : (s.setCon v c).con w = s.con w := Function.update_of_ne hw _ _
    refine (h.con w).congr rfl ?_ ?_ ?_ fun _ _ => rfl <;> rw [hcon]
    exact (h.con w).index

/-- Selecting a device records its index, and nothing else. -/
theorem selectDevice_spec (h : VmboxInv s) {offset : Nat}
    (hbase : conDevBase ≤ offset) (htame : ¬ SelectsBehind offset) :
    VmboxInv (selectDevice s v offset).2 := by
  simp only [selectDevice]
  split
  · exact h
  rename_i hsize
  have hindex : u32 ((offset - conDevBase) / conDevSize) < conDevices := by
    by_contra hge
    refine htame ⟨hbase, ?_⟩
    simp only [u32, conDevSize, conDevices, sizeofDevices] at hsize hge ⊢
    omega
  have hinv : VmboxInv (s.setCon v { s.con v with
      accesses := u32 ((offset - conDevBase) / conDevSize) :: (s.con v).accesses }) := by
    refine h.setCon v ?_ rfl rfl
    exact List.forall_mem_cons.mpr ⟨hindex, (h.con v).index⟩
  split <;> exact hinv

theorem SameDevices.inv (hsame : SameDevices s s') (h : VmboxInv s) :
    VmboxInv s' :=
  ⟨hsame.vmboxs ▸ h.boxes, fun v => hsame.conOk (h.con v)⟩

theorem VmboxInv.conRead (h : VmboxInv s) (v offset : Nat) :
    VmboxInv (vmboxHandleConRead s v offset).2 := by
  simp only [vmboxHandleConRead]
  split_ifs
  · exact h
  · exact h.setCon v (h.con v).index rfl rfl
  · exact h

/-- The first announcement of a controller attaches at most its 32 devices. -/
theorem VmboxInv.conWrite (env : Env) (h : VmboxInv s) {offset : Nat}
    (hfirst : offset = conOnline → (s.con v).devCnt = 0) :
    VmboxInv (vmboxHandleConWrite env s v offset) := by
  unfold vmboxHandleConWrite
  split
  · rename_i honline
    have hzero := hfirst honline
    -- `vc->status = 1` concerns nobody
    have hstatus : VmboxInv (s.setCon v { s.con v with status := 1 }) :=
      h.setCon v (h.con v).index rfl rfl
    generalize hs₁ : s.setCon v { s.con v with status := 1 } = s₁ at hstatus ⊢
    have hcnt : (s₁.con v).devCnt = 0 := by
      rw [← hs₁]
      simpa [Sys.setCon] using hzero
    have hstart : Attaching s₁ v (2 * 0) := by
      refine ⟨hstatus.con v, Nat.le_of_eq hcnt, fun i hi d hd => ?_⟩
      have hlt := ((hstatus.con v).exist i hi d hd).1
      rw [hcnt] at hlt
      exact absurd hlt (Nat.not_lt_zero i)
    have hlen : 0 + s₁.vmboxs.length ≤ vmboxMaxCount := by
      rw [Nat.zero_add]
      exact hstatus.boxes
    obtain ⟨hv, ha, hw⟩ := attachLoop_spec env v s₁.vmboxs 0 s₁
      (fun k box hk => by rw [Nat.zero_add]; exact hk) hlen
    refine ⟨?_, fun w => ?_⟩
    · unfold vmboxDeviceAttachToVm
      rw [hv]
      exact hstatus.boxes
    · by_cases hwv : w = v
      · subst hwv
        exact (ha hstart).ok
      · exact hw w hwv (hstatus.con w)
  · exact h

theorem VmboxInv.step {env : Env} {a : Access} (h : VmboxInv s)
    (htame : Tame s a) (hs : vmboxStep env s a = some s') : VmboxInv s' := by
  obtain ⟨honline, hoffset⟩ := htame
  unfold vmboxStep at hs
  split at hs
  · rename_i hwrite
    split at hs
    · cases hs
      exact h.conWrite env (honline hwrite)
    · rename_i hbase
      have hsel := selectDevice_spec h (v := a.vmid) (Nat.le_of_not_lt hbase) hoffset
      unfold vmboxHandleDevWrite at hs
      obtain ⟨r, hr, rfl⟩ := Option.map_eq_some_iff.mp hs
      split at hr
      · rename_i hd
        cases hr
        rw [hd] at hsel
        exact hsel
      · rename_i hd
        rw [hd] at hsel
        obtain ⟨box, -, hr⟩ := Option.bind_eq_some_iff.mp hr
        obtain ⟨s₁, hs₁, rfl⟩ := Option.map_eq_some_iff.mp hr
        exact (SameDevices.devWriteReg hs₁).inv hsel
  · split at hs
    · cases hs
      exact h.conRead _ _
    · rename_i hbase
      have hsel := selectDevice_spec h (v := a.vmid) (Nat.le_of_not_lt hbase) hoffset
      unfold vmboxHandleDevRead at hs
      obtain ⟨r, hr, rfl⟩ := Option.map_eq_some_iff.mp hs
      split at hr
      · rename_i hd
        cases hr
        rw [hd] at hsel
        exact hsel
      · rename_i d s₁ hd
        rw [hd] at hsel
        obtain ⟨box, -, rfl⟩ := Option.map_eq_some_iff.mp hr
        dsimp only
        exact (SameDevices.devReadReg s₁ box d _).inv hsel

/-- **The devices of a vmbox controller.** From the creation of any vmboxes
and for any accesses of the guests: as long as a guest announces its
controller only while it has no device, and uses no offset that selects an
entry behind the array, every index is below 32, no controller has more than
32 devices, a selected device exists, and no device is attached twice. -/
theorem vmbox_controller_ok (env : Env) (vmExists : Nat → Bool) (infos : List Vmbox)
    (behind : Nat → Nat → Option DevRef) (vm : Nat → Vm) (mm : Nat → MmStruct)
    (l : List Access)
    (hl : Along (vmboxStep env) Tame
      (createSys (createVmboxs vmExists infos) behind vm mm) l) :
    ∀ pre, pre <+: l → ∀ t,
      run (vmboxStep env) (createSys (createVmboxs vmExists infos) behind vm mm) pre = some t →
      ∀ v, ConOk t v := by
  intro pre hpre t ht
  have hinit := VmboxInv.create (createVmboxs_length vmExists infos) behind vm mm
  have hstep : ∀ s a s', VmboxInv s → Tame s a → vmboxStep env s a = some s' → VmboxInv s' :=
    fun s a s' h htame hs => h.step htame hs
  have hinv : VmboxInv t := run_invariant hstep hinit (along_of_pre hpre hl) ht
  exact hinv.con

/-! ## Two guests with one vmbox -/

/-- A vmbox of one page between VM 1 and VM 2. -/
def onePage : Vmbox where
  owner := fun side => match side with
    | .be => 1
    | .fe => 2
  devid0 := 0
  devid1 := 0
  vqs := 1
  vringNum := 4
  vringSize := 64
  shmemSize := 4096

/-- Plain guests; nothing lies behind the controllers. -/
def twoGuests : Sys :=
  createSys (createVmboxs (fun v => v == 1 || v == 2) [onePage]) (fun _ _ => none)
    (fun _ => virqCreateVm {} guestVm) (fun _ => vmmAreaInit (fun _ => true) true)

def plainEnv : Env := ⟨{}, fun _ _ => true⟩

def conWrite (v offset : Nat) : Access := ⟨v, 0, true, offset, 0⟩
def conRead (v offset : Nat) : Access := ⟨v, 0, false, offset, 0⟩

/-- Both guests announce their controller, find their device and switch it
on. -/
theorem vmbox_controller_ok_guests :
    (run (vmboxStep plainEnv) twoGuests [conWrite 1 conOnline, conWrite 2 conOnline,
      conRead 1 0x100, conWrite 1 0x134, conWrite 2 0x134]).isSome = true ∧
    ∀ pre, pre <+: [conWrite 1 conOnline, conWrite 2 conOnline,
      conRead 1 0x100, conWrite 1 0x134, conWrite 2 0x134] →
      ∀ t, run (vmboxStep plainEnv) twoGuests pre = some t → ∀ v, ConOk t v :=
  ⟨by decide +kernel, vmbox_controller_ok plainEnv (fun v => v == 1 || v == 2) [onePage]
    (fun _ _ => none) _ _ _ (by decide +kernel)⟩

/-- A guest that announces its controller twice has its device in two
entries, and a read at `0x900` evaluates `devices[32]`. -/
theorem vmbox_attached_twice :
    ∃ t, run (vmboxStep plainEnv) twoGuests
        [conWrite 1 conOnline, conWrite 1 conOnline, conRead 1 0x900] = some t ∧
      (t.con 1).devices 0 = some ⟨0, .be⟩ ∧ (t.con 1).devices 1 = some ⟨0, .be⟩ ∧
      32 ∈ (t.con 1).accesses ∧ ¬ ConOk t 1 := by
  exact exists_found (P := fun t => (t.con 1).devices 0 = some ⟨0, .be⟩ ∧
      (t.con 1).devices 1 = some ⟨0, .be⟩ ∧ 32 ∈ (t.con 1).accesses)
    (fun t _ ⟨h0, h1, h32⟩ =>
      ⟨h0, h1, h32, fun hok => absurd (hok.index 32 h32) (Nat.lt_irrefl 32)⟩) (by decide +kernel)

end Minos.VmboxCon
