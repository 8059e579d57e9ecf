import Minos.Driver.DeviceTree
import Minos.Lib.Run
import Minos.Virt.GuestMapping

/-!
# Device pass-through

`create_vm_resource_of` walks the device tree of a VM and gives it the I/O memory of every
platform device in it: `create_pdev_iomem_of` reserves each range of `reg` in the address
space of the VM and maps it one to one. The tree of a guest VM stands in the guest's memory
(`linux_create_guest_vm_resource`).

Neither the result of the reservation nor that of the map is looked at, and nothing but the
platform's filter for the host VM looks at the addresses. So what the VM gets is what the tree
says. `passthrough_isolated` is what is left of the isolation of the VM: along every walk
whose ranges name no memory of anyone else and can be reserved, no foreign memory becomes
reachable.
-/

namespace Minos.Passthrough

open Minos.Lib Minos.Of Minos.Vmm

def vmMapPt : Stage2.Entry := 0x02000000
def vmGuest : Stage2.Entry := 0x4000

/-- `VM_GUEST_IO | VM_RW`. -/
def iomemFlags : Stage2.Entry :=
  Stage2.vmIo ||| Stage2.vmDevmap ||| Stage2.vmPfnmap ||| vmMapPt ||| vmGuest ||| Stage2.vmRwMask

theorem flags_not_normal : iomemFlags.toNat &&& vmNormal = 0 := by decide

/-- Whose a byte of physical memory is. -/
inductive Owner
  | hypervisor
  | blockPool
  | vm (vmid : Nat)
  deriving DecidableEq, Repr

/-- The address space of a VM: its areas and its stage-2 tables. -/
structure Space where
  areas : MmStruct
  tables : Stage2.Tables

/-- A VM and what the rest of the system decides for it. -/
structure Vm where
  vmid : Nat
  host : Bool
  /-- `VM_FLAGS_NO_OF_RESOURCE` -/
  noOfResource : Bool
  /-- There is an interrupt controller before the tree is walked. -/
  hasVirqChip : Bool
  /-- A driver for the interrupt controller of the node is there and makes one. -/
  virqChip : Node → Bool
  /-- The driver of a virtual device. -/
  vdevInit : Node → Space → Option Space
  /-- `platform_iomem_valid` -/
  iomemValid : Nat → Bool
  /-- Allocations of area entries and of pages for tables. -/
  mem : Nat → Bool
  src : Stage2.PageSource
  owner : Nat → Option Owner

/-! ## Creating the resources -/

/-- What the walk over the tree does to the address space. -/
inductive Call
  | iomem (addr size : Nat)
  | vdev (n : Node)

/-- The ranges `create_pdev_iomem_of` reserves and maps. -/
def createPdevIomemOf (vm : Vm) (n : Node) : List Call :=
  if n.cls = .virqchip then []
  else
    (List.range (ofNAddrCount n)).filterMap fun i =>
      (ofTranslateAddressIndex n i).bind fun (addr, size) =>
        if size = 0 then none
        else if vm.host ∧ ¬ vm.iomemValid addr then none
        else some (.iomem addr size)

/-- `__create_vm_resource_of`. Interrupts and the IOMMU group of a device leave the address
space alone. -/
def createNodeResource (vm : Vm) (n : Node) : List Call :=
  match n.cls with
  | .irqchip | .virqchip | .pciBus | .pdev => createPdevIomemOf vm n
  | .timer | .vdev => if n.props.compatible then [.vdev n] else []
  | _ => []

/-- `create_vm_irqchip_of` over the nodes: the first one a driver takes changes its class. -/
def createVmIrqchipOf (vm : Vm) : List Node → Option (List Node)
  | [] => none
  | n :: ns =>
    if n.cls = .irqchip ∧ vm.virqChip n then some ({ n with cls := .virqchip } :: ns)
    else (createVmIrqchipOf vm ns).map (n :: ·)

/-- `create_vm_resource_of`: what it returns (`none` for 0), and what the walk does. `data` is
what `of_parse_device_tree` makes of the tree, unless it finds no memory. -/
def createVmResourceOf (vm : Vm) (data : Option DeviceNode) : Option Errno × List Call :=
  if vm.noOfResource then (some .einval, [])
  else
    match data with
    | none => (some .einval, [])
    | some root =>
      let nodes := ofParseDeviceTree root
      if vm.hasVirqChip then (none, nodes.flatMap (createNodeResource vm))
      else
        match createVmIrqchipOf vm nodes with
        | none => (some .enoent, [])
        | some nodes => (none, nodes.flatMap (createNodeResource vm))

/-- `linux_create_guest_vm_resource`: the tree is read from the memory of the guest, behind the
host mapping `hostMap` of it. -/
def linuxCreateGuestVmResource (vm : Vm) (σ : Space) (setupData : Nat)
    (hostMap : Nat → Option Errno) (treeAt : Nat → Option DeviceNode) :
    Option Errno × List Call :=
  match Stage2.stage2IpaToPa σ.tables setupData with
  | none => (some .efault, [])
  | some addr =>
    match hostMap addr with
    | some err => (some err, [])
    | none => createVmResourceOf vm (treeAt addr)

/-! ## The effect on the address space -/

/-- The reservation of a range of a device. -/
def reserve (vm : Vm) (σ : Space) (addr size : Nat) : Option VmmArea × MmStruct :=
  splitVmmArea vm.mem σ.areas addr size iomemFlags.toNat

/-- One call: neither the result of the reservation nor that of the map is used. -/
def step (vm : Vm) (σ : Space) : Call → Option Space
  | .iomem addr size =>
    (createGuestMapping vm.src σ.tables addr addr size iomemFlags).map fun r =>
      ⟨(reserve vm σ addr size).2, r.2⟩
  | .vdev n => vm.vdevInit n σ

/-! ## Isolation -/

/-- Memory of the hypervisor, of the block pool or of another VM. -/
def Foreign (vm : Vm) (x : Nat) : Prop := ∃ o ∈ vm.owner x, o ≠ .vm vm.vmid

/-- A call makes no foreign memory reachable, and maps nothing it could not reserve. A map whose
addresses pass the assertions stays in its tables. -/
def Isolated (vm : Vm) (σ : Space) : Call → Prop
  | .iomem addr size =>
    (pageAlign addr < Stage2.vmmVirtMax → pageEnd addr size ≤ Stage2.vmmVirtMax →
      (step vm σ (.iomem addr size)).isSome) ∧
    ∀ σ', step vm σ (.iomem addr size) = some σ' →
      (∀ x, Foreign vm x → Reaches σ'.tables x → Reaches σ.tables x) ∧
      ((reserve vm σ addr size).1 = none →
        ∀ ipa, Stage2.translate σ'.tables ipa = Stage2.translate σ.tables ipa)
  | .vdev _ => True

/-- A free area holds the range, and there is memory for the entries of what is left of it. -/
def Reservable (mem : Nat → Bool) (mm : MmStruct) (addr size : Nat) : Prop :=
  ∃ va, (mm.free.find? fun va => va.start ≤ addr ∧ addr + size ≤ va.stop) = some va ∧
    (va.start < addr → mem mm.nalloc) ∧
    (addr + size < va.stop → mem (mm.nalloc + if va.start < addr then 1 else 0))

/-- The end of the range does not wrap. If its pages are addresses of a VM at all, the range can
be reserved, and what it has of foreign memory the VM reaches already. -/
def RangeOk (vm : Vm) (σ : Space) : Call → Prop
  | .iomem addr size =>
    addr + size + 4095 < 2 ^ 64 ∧
    (pageEnd addr size ≤ Stage2.vmmVirtMax → Reservable vm.mem σ.areas addr size ∧
      ∀ x, pageAlign addr ≤ x → x < pageEnd addr size → Foreign vm x → Reaches σ.tables x)
  | .vdev _ => True

/-! ## Reservations -/

section Reserve

variable {mem : Nat → Bool} {mm : MmStruct} {addr size : Nat}

/-- `split_vmm_area` finds room for a range exactly if it is reservable. -/
theorem splitVmmArea_isSome {flags : Nat} (hflags : flags &&& vmNormal = 0)
    (hwrap : addr + size < 2 ^ 64) :
    (splitVmmArea mem mm addr size flags).1.isSome ↔ Reservable mem mm addr size := by
  unfold splitVmmArea Reservable
  simp only [hflags, ne_eq, not_true_eq_false, false_and, if_false, u64_of_lt hwrap]
  cases hfind : mm.free.find? fun va => va.start ≤ addr ∧ addr + size ≤ va.stop with
  | none => simp
  | some va => simp [splitArea_isSome]

end Reserve

/-! ## Walks over a tree -/

section Walk

variable {vm : Vm} {σ σ' : Space} {c : Call} {addr size : Nat}

/-- A virtual device's driver may do anything to the areas and tables that leaves the tables
well formed. -/
def VdevSafe (vm : Vm) : Prop :=
  ∀ n σ σ', Stage2.TablesOk vm.src σ.tables → vm.vdevInit n σ = some σ' →
    Stage2.TablesOk vm.src σ'.tables

theorem step_iomem (h : step vm σ (.iomem addr size) = some σ') :
    ∃ r, createGuestMapping vm.src σ.tables addr addr size iomemFlags = some r ∧
      σ'.tables = r.2 := by
  obtain ⟨r, hr, rfl⟩ := Option.map_eq_some_iff.mp h
  exact ⟨r, hr, rfl⟩

theorem tablesOk_step (hvdev : VdevSafe vm) (hok : Stage2.TablesOk vm.src σ.tables)
    (h : step vm σ c = some σ') : Stage2.TablesOk vm.src σ'.tables := by
  cases c with
  | iomem addr size =>
    obtain ⟨r, hr, htables⟩ := step_iomem h
    rw [htables]
    exact (Stage2.archGuestMap_inv Stage2.kept_true hok.sound hr).1.tablesOk
  | vdev n => exact hvdev n σ σ' hok h

/-- A range that meets its condition is mapped in isolation. -/
theorem isolated_of_rangeOk (hok : Stage2.TablesOk vm.src σ.tables) (h : RangeOk vm σ c) :
    Isolated vm σ c := by
  cases c with
  | vdev n => trivial
  | iomem addr size =>
    obtain ⟨hwrap, hrange⟩ := h
    have hle := pageAlign_le_pageEnd hwrap
    rcases Nat.eq_or_lt_of_le hle with heq | hlt
    · -- an empty range is refused
      have hstep : step vm σ (.iomem addr size) = some ⟨(reserve vm σ addr size).2, σ.tables⟩ := by
        rw [step, createGuestMapping_eq hwrap, Stage2.archGuestMap, if_pos heq.symm]
        rfl
      refine ⟨fun _ _ => by rw [hstep]; rfl, fun σ' h => ?_⟩
      rw [hstep] at h
      cases h
      exact ⟨fun _ _ hreach => hreach, fun _ _ => rfl⟩
    · refine ⟨fun hstart hstop => ?_, fun σ' h => ?_⟩
      · rw [step, Option.isSome_map, createGuestMapping_eq hwrap]
        exact Stage2.archGuestMap_isSome hlt hstop (pageAlign_mod _) (pageEnd_mod hwrap)
          (pageAlign_mod _) hstart
      · obtain ⟨r, hr, htables⟩ := step_iomem h
        rw [createGuestMapping_eq hwrap] at hr
        obtain ⟨hres, hforeign⟩ := hrange (Stage2.archGuestMap_piece hlt hr).1.stop_le
        constructor
        · intro x hx hreach
          rw [htables] at hreach
          rcases archGuestMap_reaches hok hr hle hreach with h | ⟨h1, h2⟩
          · exact h
          · exact hforeign x h1 (by omega) hx
        · intro hnone
          have hsome := (splitVmmArea_isSome flags_not_normal (by omega)).mpr hres
          rw [show splitVmmArea _ _ _ _ _ = reserve vm σ addr size from rfl, hnone] at hsome
          cases hsome

theorem iomem_reached (hok : Stage2.TablesOk vm.src σ.tables) (hwrap : addr + size + 4095 < 2 ^ 64)
    {s' : Stage2.Tables}
    (h : createGuestMapping vm.src σ.tables addr addr size iomemFlags = some (none, s')) {x : Nat}
    (h1 : pageAlign addr ≤ x) (h2 : x < pageEnd addr size) : Reaches s' x := by
  rw [createGuestMapping_eq hwrap] at h
  have hlt : pageAlign addr < pageEnd addr size := by omega
  have hmax := (Stage2.archGuestMap_piece hlt h).1.stop_le
  obtain ⟨l, hwalk, hpa, -⟩ := (Stage2.archGuestMap_maps hok hlt h).inside x h1 h2
  refine ⟨x, l, Stage2.translate_eq_some.mpr ⟨hwalk, ?_⟩, by omega⟩
  simp only [Stage2.vmmVirtMax, Stage2.physicalMax] at hmax ⊢
  omega

theorem isolated_of_along (hvdev : VdevSafe vm) (hok : Stage2.TablesOk vm.src σ.tables)
    {calls : List Call} (h : Along (step vm) (RangeOk vm) σ calls) :
    Along (step vm) (Isolated vm) σ calls :=
  along_of_invariant (I := fun σ => Stage2.TablesOk vm.src σ.tables)
    (fun _ _ _ hok _ h => tablesOk_step hvdev hok h)
    (fun _ _ hok h => isolated_of_rangeOk hok h) hok h

/-- **Pass-through isolation.** In every walk over a device tree whose ranges all meet
`RangeOk`, no range makes foreign memory reachable or is mapped without its reservation. -/
theorem passthrough_isolated (vm : Vm) (data : Option DeviceNode) (σ : Space)
    (hvdev : VdevSafe vm) (hok : Stage2.TablesOk vm.src σ.tables)
    (h : Along (step vm) (RangeOk vm) σ (createVmResourceOf vm data).2) :
    Along (step vm) (Isolated vm) σ (createVmResourceOf vm data).2 :=
  isolated_of_along hvdev hok h

theorem guest_calls (vm : Vm) (σ : Space) (setupData : Nat) (hostMap : Nat → Option Errno)
    (treeAt : Nat → Option DeviceNode) :
    (linuxCreateGuestVmResource vm σ setupData hostMap treeAt).2 = [] ∨
      ∃ data, linuxCreateGuestVmResource vm σ setupData hostMap treeAt =
        createVmResourceOf vm data := by
  unfold linuxCreateGuestVmResource
  split
  · exact Or.inl rfl
  · split
    · exact Or.inl rfl
    · exact Or.inr ⟨_, rfl⟩

end Walk

/-! ## Two devices on a bus -/

def plainNode : Props :=
  { deviceType := none, interruptController := false, timer := false, simpleBus := false
    virtualDevice := false, compatible := false, addressCells := none, sizeCells := none
    reg := none, ranges := none }

/-- An interrupt controller, and a device whose page is `addr`. -/
def deviceAt (addr : Nat) : DeviceNode :=
  .mk { plainNode with addressCells := some 2, sizeCells := some 2 }
    [.mk { plainNode with interruptController := true, compatible := true
                          reg := some (cells [0, 0x8000000, 0, 0x10000]) } [],
     .mk { plainNode with compatible := true, reg := some (cells [0, addr, 0, 0x1000]) } []]

/-- A guest VM of a machine whose second gigabyte is the hypervisor's. -/
def guestVm : Vm where
  vmid := 2
  host := false
  noOfResource := false
  hasVirqChip := false
  virqChip _ := true
  vdevInit _ σ := some σ
  iomemValid _ := true
  mem _ := true
  src := Stage2.pagePool
  owner x := if 0x40000000 ≤ x ∧ x < 0x80000000 then some .hypervisor else none

theorem vdevSafe_guestVm : VdevSafe guestVm := by
  intro n σ σ' hok h
  cases h
  exact hok

def newSpace : Space := ⟨vmmAreaInit (fun _ => true) true, Stage2.noTables⟩

/-- The addresses of the device are in use, for one that is emulated. -/
def heldSpace : Space :=
  ⟨(splitVmmArea (fun _ => true) newSpace.areas 0x9000000 0x10000 0).2, Stage2.noTables⟩

theorem tablesOk_noTables : Stage2.TablesOk guestVm.src Stage2.noTables :=
  (Stage2.Built.init _).tablesOk

theorem calls_deviceAt_mmio :
    (createVmResourceOf guestVm (some (deviceAt 0x9000000))).2 = [.iomem 0x9000000 0x1000] := rfl

theorem calls_deviceAt_ram :
    (createVmResourceOf guestVm (some (deviceAt 0x40000000))).2 = [.iomem 0x40000000 0x1000] := rfl

/-- A device outside the memory of anyone. -/
theorem passthrough_isolated_mmio :
    Along (step guestVm) (RangeOk guestVm) newSpace
        (createVmResourceOf guestVm (some (deviceAt 0x9000000))).2 ∧
      Along (step guestVm) (Isolated guestVm) newSpace
        (createVmResourceOf guestVm (some (deviceAt 0x9000000))).2 := by
  have h : Along (step guestVm) (RangeOk guestVm) newSpace
      (createVmResourceOf guestVm (some (deviceAt 0x9000000))).2 := by
    rw [calls_deviceAt_mmio]
    refine ⟨⟨by decide, fun _ => ⟨⟨_, rfl, by decide, by decide⟩, ?_⟩⟩, fun _ _ => trivial⟩
    -- its page is below the hypervisor's memory
    intro x _ hx ⟨o, ho, _⟩
    have hend : pageEnd 0x9000000 0x1000 = 0x9001000 := by decide
    have : guestVm.owner x = none := if_neg (by omega)
    rw [this] at ho
    cases ho
  exact ⟨h, passthrough_isolated _ _ _ vdevSafe_guestVm tablesOk_noTables h⟩

theorem not_reaches_noTables (x : Nat) : ¬ Reaches Stage2.noTables x := by
  rintro ⟨ipa, l, hl, -⟩
  rw [Stage2.translate_eq_some, Stage2.walk_of_pud_zero rfl] at hl
  cases hl.1

/-- A device tree that names a page of the hypervisor gives it to the VM, and one whose range
is in use has it mapped all the same. -/
theorem passthrough_exposes :
    VdevSafe guestVm ∧ Stage2.TablesOk guestVm.src Stage2.noTables ∧
      (∃ σ', run (step guestVm) newSpace
          (createVmResourceOf guestVm (some (deviceAt 0x40000000))).2 = some σ' ∧
        Foreign guestVm 0x40000000 ∧
        ¬ Reaches newSpace.tables 0x40000000 ∧ Reaches σ'.tables 0x40000000) ∧
      ∃ σ', run (step guestVm) heldSpace
          (createVmResourceOf guestVm (some (deviceAt 0x9000000))).2 = some σ' ∧
        (reserve guestVm heldSpace 0x9000000 0x1000).1 = none ∧
        Stage2.translate heldSpace.tables 0x9000000 = none ∧
        (Stage2.translate σ'.tables 0x9000000).map Stage2.Leaf.pa = some 0x9000000 := by
  refine ⟨vdevSafe_guestVm, tablesOk_noTables, ?_, ?_⟩
  · have hrun : (run (step guestVm) newSpace [.iomem 0x40000000 0x1000]).map
        (fun σ => (Stage2.translate σ.tables 0x40000000).map Stage2.Leaf.pa) =
        some (some 0x40000000) := by
      decide +kernel
    obtain ⟨σ', hσ', hpa⟩ := Option.map_eq_some_iff.mp hrun
    obtain ⟨l, hl, hpa⟩ := Option.map_eq_some_iff.mp hpa
    exact ⟨σ', calls_deviceAt_ram ▸ hσ', ⟨.hypervisor, rfl, by decide⟩, not_reaches_noTables _,
      ⟨_, l, hl, hpa⟩⟩
  · have hrun : (run (step guestVm) heldSpace [.iomem 0x9000000 0x1000]).map
        (fun σ => (Stage2.translate σ.tables 0x9000000).map Stage2.Leaf.pa) =
        some (some 0x9000000) := by
      decide +kernel
    obtain ⟨σ', hσ', hpa⟩ := Option.map_eq_some_iff.mp hrun
    exact ⟨σ', calls_deviceAt_mmio ▸ hσ', by decide, by decide, hpa⟩

end Minos.Passthrough
