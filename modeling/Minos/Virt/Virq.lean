import Minos.Core.Errno
import Minos.Core.FindBit
import Minos.Lib.Run
import Minos.Lib.Word
import Mathlib.Logic.Function.Basic

/-!
# Virtual interrupt lines

The descriptors of `virt/virq.c` and the functions that hand out lines. A VM
has `VM_LOCAL_VIRQ_NR` private lines per vcpu (SGIs and PPIs) and an array
`vspi_desc` of shared lines with the bitmap `vspi_map` of those taken.
Three bounds meet here: the length `vspi_nr` of the array, the largest
number `get_virq_desc` accepts, and `vm_max_virq_line`, which
`request_hw_virq` checks and which counts the private lines too.
-/

namespace Minos.Virq

open Minos.Lib

/-! ## Data -/

def vmSgiVirqNr : Nat := 16
def vmPpiVirqNr : Nat := 16
def vmLocalVirqNr : Nat := vmSgiVirqNr + vmPpiVirqNr

/-- `HVM_SPI_VIRQ_NR` and `GVM_SPI_VIRQ_NR`, with the values a platform
that configures neither gets. -/
structure VirqConfig where
  hvmSpiVirqNr : Nat := 384
  gvmSpiVirqNr : Nat := 64

inductive VirqState
  | inactive
  | pending
  | active
  | activeAndPending
  deriving DecidableEq, Repr

def virqInvalidId : Nat := 0xff
def virqAffinityVmAny : Nat := 0xff
def virqAffinityVcpuAny : Nat := 0xff

def virqsNeedExportBit : Nat := 0
def virqsEnabledBit : Nat := 1
def virqsHwBit : Nat := 3
def virqsCanWakeupBit : Nat := 4
def virqsRequestedBit : Nat := 6
def virqsFiqBit : Nat := 7

/-- `1 << bit` in a descriptor's flags. -/
def flagMask (bit : Nat) : BitVec 32 := BitVec.twoPow 32 bit

/-- `struct virq_desc`. -/
structure VirqDesc where
  flags : BitVec 32 := 0
  vno : Nat := 0
  hno : Nat := 0
  id : Nat := 0
  state : VirqState := .inactive
  pr : Nat := 0
  src : Nat := 0
  type : Nat := 0
  vcpuId : Nat := 0
  vmid : Nat := 0

def VirqDesc.setFlag (d : VirqDesc) (bit : Nat) : VirqDesc :=
  { d with flags := d.flags ||| flagMask bit }

def VirqDesc.clearFlag (d : VirqDesc) (bit : Nat) : VirqDesc :=
  { d with flags := d.flags &&& ~~~ flagMask bit }

def virqIsRequested (d : VirqDesc) : Bool := d.flags.getLsbD virqsRequestedBit
def virqIsEnabled (d : VirqDesc) : Bool := d.flags.getLsbD virqsEnabledBit
def virqIsHw (d : VirqDesc) : Bool := d.flags.getLsbD virqsHwBit
def virqCanWakeup (d : VirqDesc) : Bool := d.flags.getLsbD virqsCanWakeupBit

/-- `struct virq_struct`, one per vcpu. -/
structure VirqStruct where
  nrLrs : Nat
  lastFailVirq : Nat
  pendingVirq : Int
  activeVirq : Nat
  localDesc : Nat → VirqDesc
  pendingBitmap : Bitmap
  activeBitmap : Bitmap
  lrsBitmap : Bitmap

inductive VmState
  | offline
  | freezing
  | online
  | suspend
  deriving DecidableEq, Repr

/-- The part of `struct vm` the interrupt code uses. -/
structure Vm where
  vmid : Nat
  state : VmState
  vspiNr : Nat
  vspiDesc : Nat → VirqDesc
  vspiMap : Bitmap
  vcpuNr : Nat
  vcpu : Nat → VirqStruct

/-- `vm_max_virq_line`: `MAX_HVM_VIRQ` for the host VM, else
`MAX_GVM_VIRQ`. -/
def vmMaxVirqLine (cfg : VirqConfig) (vm : Vm) : Nat :=
  (if vm.vmid = 0 then cfg.hvmSpiVirqNr else cfg.gvmSpiVirqNr) + vmLocalVirqNr

/-- `vm_irq_count`. -/
def vmIrqCount (vm : Vm) : Nat := vm.vspiNr + vmLocalVirqNr

/-- A pointer to a descriptor: in a vcpu's `local_desc`, or in the VM's
`vspi_desc`. -/
inductive DescRef
  | percpu (v virq : Nat)
  | spi (i : Nat)
  deriving DecidableEq, Repr

def Vm.desc (vm : Vm) : DescRef → VirqDesc
  | .percpu v virq => (vm.vcpu v).localDesc virq
  | .spi i => vm.vspiDesc i

def Vm.setVcpu (vm : Vm) (v : Nat) (vs : VirqStruct) : Vm :=
  { vm with vcpu := Function.update vm.vcpu v vs }

def VirqStruct.setLocal (vs : VirqStruct) (virq : Nat) (d : VirqDesc) : VirqStruct :=
  { vs with localDesc := Function.update vs.localDesc virq d }

def Vm.setDesc (vm : Vm) (r : DescRef) (d : VirqDesc) : Vm :=
  match r with
  | .percpu v virq => vm.setVcpu v ((vm.vcpu v).setLocal virq d)
  | .spi i => { vm with vspiDesc := Function.update vm.vspiDesc i d }

/-- `get_virq_desc`. -/
def getVirqDesc (vm : Vm) (v virq : Nat) : Option DescRef :=
  if virq < vmLocalVirqNr then some (.percpu v virq)
  else if vm.vspiNr + vmLocalVirqNr ≤ virq then none
  else some (.spi (virq - vmLocalVirqNr))

/-! ## Handing out lines -/

/-- `update_virq_cap`, without the unmasking of the hardware line. -/
def updateVirqCap (d : VirqDesc) (flags : BitVec 64) : VirqDesc :=
  let d := { d with flags := d.flags ||| flags.setWidth 32 }
  if flags.getLsbD virqsFiqBit then d.setFlag virqsFiqBit else d

/-- `__request_virq` on the descriptor `r` of vcpu `v`. -/
def requestVirqDesc (vm : Vm) (v : Nat) (r : DescRef) (virq hwirq : Nat)
    (flags : BitVec 64) : Except Errno Vm :=
  let desc := vm.desc r
  if virqIsRequested desc then .error .ebusy
  else
    let desc := { desc.setFlag virqsRequestedBit with
      vno := virq % 2 ^ 16, hno := hwirq % 2 ^ 16, vcpuId := v % 2 ^ 8,
      pr := 0xa0, vmid := vm.vmid % 2 ^ 8, id := virqInvalidId,
      state := .inactive }
    let vm :=
      if vmLocalVirqNr ≤ virq then
        { vm with vspiMap := setBit (virq - vmLocalVirqNr) vm.vspiMap }
      else vm
    let desc :=
      if hwirq ≠ 0 then desc.setFlag virqsHwBit else desc.clearFlag virqsHwBit
    .ok (vm.setDesc r (updateVirqCap desc flags))

/-- `request_virq_affinity`. -/
def requestVirqAffinity (vm : Vm) (virq hwirq affinity : Nat)
    (flags : BitVec 64) : Except Errno Vm :=
  if vm.vcpuNr ≤ affinity then .error .einval
  else
    match getVirqDesc vm affinity virq with
    | none => .error .enoent
    | some r => requestVirqDesc vm affinity r virq hwirq flags

/-- `request_hw_virq`. -/
def requestHwVirq (cfg : VirqConfig) (vm : Vm) (virq hwirq : Nat)
    (flags : BitVec 64) : Except Errno Vm :=
  if vmMaxVirqLine cfg vm ≤ virq then .error .einval
  else requestVirqAffinity vm virq hwirq 0 flags

/-- `request_virq`. -/
def requestVirq (cfg : VirqConfig) (vm : Vm) (virq : Nat) (flags : BitVec 64) :
    Except Errno Vm :=
  requestHwVirq cfg vm virq 0 flags

/-- The VM after a call that leaves it alone when it fails. -/
def afterRequest (vm : Vm) : Except Errno Vm → Vm
  | .ok vm' => vm'
  | .error _ => vm

/-- `alloc_vm_virq`: the number returned (`none` for `-1`). What
`request_virq` returns is not looked at. -/
def allocVmVirq (cfg : VirqConfig) (vm : Vm) : Option Nat × Vm :=
  let count := vm.vspiNr
  let virq := findNextZeroBitLoop vm.vspiMap count 0
  if virq < count then
    (some (virq + vmLocalVirqNr),
      afterRequest vm (requestVirq cfg vm (virq + vmLocalVirqNr)
        (BitVec.twoPow 64 virqsNeedExportBit)))
  else (none, vm)

/-- `release_vm_virq`: the offset is compared with `vspi_nr` as a
`uint32_t`, so a negative one is too large. -/
def releaseVmVirq (vm : Vm) (virq : Int) : Vm :=
  let off := virq - vmLocalVirqNr
  if off < 0 ∨ vm.vspiNr ≤ off then vm
  else
    { vm with
      vspiDesc := Function.update vm.vspiDesc off.toNat {}
      vspiMap := clearBit off.toNat vm.vspiMap }

/-- `virq_create_vm`, given the memory: everything it sets up is zero. -/
def virqCreateVm (cfg : VirqConfig) (vm : Vm) : Vm :=
  let vspiNr := vmMaxVirqLine cfg vm
  let status : Bitmap := List.replicate (bitsToLongs (vspiNr + vmLocalVirqNr)) 0
  { vm with
    vspiNr := vspiNr
    vspiDesc := fun _ => {}
    vspiMap := List.replicate (bitsToLongs vspiNr) 0
    vcpu := fun i => { vm.vcpu i with
      pendingBitmap := status, activeBitmap := status } }

/-! ## What a request does -/

theorem requested_updateVirqCap {d : VirqDesc} (flags : BitVec 64)
    (h : virqIsRequested d = true) : virqIsRequested (updateVirqCap d flags) = true := by
  unfold virqIsRequested at h ⊢
  unfold updateVirqCap
  split <;> simp [VirqDesc.setFlag, h]

theorem requested_setFlag (d : VirqDesc) :
    virqIsRequested (d.setFlag virqsRequestedBit) = true := by
  simp [virqIsRequested, VirqDesc.setFlag, flagMask, virqsRequestedBit]

theorem requested_hwFlag {d : VirqDesc} (hw : Prop) [Decidable hw]
    (h : virqIsRequested d = true) :
    virqIsRequested (if hw then d.setFlag virqsHwBit else d.clearFlag virqsHwBit)
      = true := by
  unfold virqIsRequested at h ⊢
  split
  · simp [VirqDesc.setFlag, h]
  · rw [VirqDesc.clearFlag, BitVec.getLsbD_and, h]
    simp [flagMask, virqsHwBit, virqsRequestedBit]

/-- What a granted request for `virq` changes of the shared lines. -/
structure Requested (vm vm' : Vm) (virq : Nat) : Prop where
  vmid : vm'.vmid = vm.vmid
  vspiNr : vm'.vspiNr = vm.vspiNr
  percpu : virq < vmLocalVirqNr →
    vm'.vspiMap = vm.vspiMap ∧ vm'.vspiDesc = vm.vspiDesc
  spi : vmLocalVirqNr ≤ virq →
    virq - vmLocalVirqNr < vm.vspiNr ∧
      vm'.vspiMap = setBit (virq - vmLocalVirqNr) vm.vspiMap ∧
      ∃ d, virqIsRequested d = true ∧
        vm'.vspiDesc = Function.update vm.vspiDesc (virq - vmLocalVirqNr) d

variable {cfg : VirqConfig} {vm vm' : Vm}

theorem requestHwVirq_ok {virq hwirq : Nat}
    {flags : BitVec 64} (h : requestHwVirq cfg vm virq hwirq flags = .ok vm') :
    virq < vmMaxVirqLine cfg vm ∧ 0 < vm.vcpuNr ∧ Requested vm vm' virq := by
  unfold requestHwVirq at h
  split at h
  · cases h
  rename_i hmax
  unfold requestVirqAffinity at h
  split at h
  · cases h
  rename_i hvcpu
  refine ⟨by omega, by omega, ?_⟩
  unfold getVirqDesc at h
  split_ifs at h with hlocal hnr
  · -- a private line of vcpu 0
    simp only [requestVirqDesc] at h
    split at h
    · cases h
    · rw [if_neg (by omega)] at h
      cases h
      exact ⟨rfl, rfl, fun _ => ⟨rfl, rfl⟩, fun hge => by omega⟩
  · simp only [requestVirqDesc] at h
    split at h
    · cases h
    · rw [if_pos (by omega)] at h
      cases h
      refine ⟨rfl, rfl, fun hlt => by omega, fun _ => ⟨by omega, rfl, _, ?_, rfl⟩⟩
      exact requested_updateVirqCap _ (requested_hwFlag _ (requested_setFlag _))

theorem requestHwVirq_granted {i : Nat}
    (hwirq : Nat) (flags : BitVec 64) (hmax : i + vmLocalVirqNr < vmMaxVirqLine cfg vm)
    (hnr : i < vm.vspiNr) (hvcpu : 0 < vm.vcpuNr)
    (hfree : virqIsRequested (vm.vspiDesc i) = false) :
    ∃ vm', requestHwVirq cfg vm (i + vmLocalVirqNr) hwirq flags = .ok vm' := by
  have href : getVirqDesc vm 0 (i + vmLocalVirqNr) = some (.spi i) := by
    unfold getVirqDesc
    rw [if_neg (by omega), if_neg (by omega), Nat.add_sub_cancel]
  unfold requestHwVirq requestVirqAffinity
  rw [if_neg (by omega), if_neg (by omega), href]
  simp only [requestVirqDesc, Vm.desc, hfree]
  exact ⟨_, rfl⟩

/-! ## Histories of calls -/

/-- A VM and the numbers that `alloc_vm_virq` returned and
`release_vm_virq` has not been given since. -/
structure AllocState where
  vm : Vm
  live : List Nat

inductive VirqCall
  | alloc
  | request (virq : Nat) (flags : BitVec 64)
  | requestHw (virq hwirq : Nat) (flags : BitVec 64)
  | release (virq : Int)
  deriving DecidableEq, Repr

def virqStep (cfg : VirqConfig) (s : AllocState) : VirqCall → Option AllocState
  | .alloc =>
    let r := allocVmVirq cfg s.vm
    some ⟨r.2, r.1.toList ++ s.live⟩
  | .request virq flags =>
    some { s with vm := afterRequest s.vm (requestVirq cfg s.vm virq flags) }
  | .requestHw virq hwirq flags =>
    some { s with
      vm := afterRequest s.vm (requestHwVirq cfg s.vm virq hwirq flags) }
  | .release virq =>
    some ⟨releaseVmVirq s.vm virq, s.live.filter fun n => (n : Int) ≠ virq⟩

/-- What the caller of `alloc_vm_virq` may rely on: the number is one of the
VM's shared lines, it was free, and now it is marked in the bitmap and in
its descriptor. -/
def AllocGood (cfg : VirqConfig) (s : AllocState) (c : VirqCall) : Prop :=
  c = .alloc → ∀ virq, (allocVmVirq cfg s.vm).1 = some virq →
    (vmLocalVirqNr ≤ virq ∧ virq < vmMaxVirqLine cfg s.vm) ∧
    (testBit (virq - vmLocalVirqNr) s.vm.vspiMap = false ∧ virq ∉ s.live) ∧
    testBit (virq - vmLocalVirqNr) (allocVmVirq cfg s.vm).2.vspiMap = true ∧
    virqIsRequested ((allocVmVirq cfg s.vm).2.vspiDesc (virq - vmLocalVirqNr)) = true

/-- `alloc_vm_virq` is called on a VM with a vcpu, and while a line below
`vm_max_virq_line` is free, if any line is. -/
def LineFree (cfg : VirqConfig) (s : AllocState) (c : VirqCall) : Prop :=
  c = .alloc → (∃ i, i < s.vm.vspiNr ∧ testBit i s.vm.vspiMap = false) →
    0 < s.vm.vcpuNr ∧ ∃ i, i + vmLocalVirqNr < vmMaxVirqLine cfg s.vm ∧
      testBit i s.vm.vspiMap = false

/-- The bitmap, the descriptors and the live allocations agree. -/
structure AllocInv (cfg : VirqConfig) (s : AllocState) : Prop where
  nr : s.vm.vspiNr = vmMaxVirqLine cfg s.vm
  len : s.vm.vspiMap.length = bitsToLongs s.vm.vspiNr
  sync : ∀ i, i < s.vm.vspiNr →
    testBit i s.vm.vspiMap = virqIsRequested (s.vm.vspiDesc i)
  live : ∀ virq ∈ s.live, ∃ i, virq = i + vmLocalVirqNr ∧
    i < s.vm.vspiNr ∧ testBit i s.vm.vspiMap = true
  nodup : s.live.Nodup

theorem AllocInv.create (cfg : VirqConfig) (vm : Vm) :
    AllocInv cfg ⟨virqCreateVm cfg vm, []⟩ where
  nr := rfl
  len := by simp [virqCreateVm]
  sync i _ := by simp [virqCreateVm, virqIsRequested]
  live virq h := absurd h (by simp)
  nodup := List.nodup_nil

variable {s : AllocState}

theorem AllocInv.bound (h : AllocInv cfg s)
    {i : Nat} (hi : i < s.vm.vspiNr) : i < 64 * s.vm.vspiMap.length := by
  rw [h.len, bitsToLongs]
  omega

/-- A granted request keeps the agreement; the line it granted is marked and
no other line changes. -/
theorem AllocInv.requested {virq : Nat} (h : AllocInv cfg s) (hr : Requested s.vm vm' virq) :
    AllocInv cfg { s with vm := vm' } := by
  have hmax : vmMaxVirqLine cfg vm' = vmMaxVirqLine cfg s.vm := by
    rw [vmMaxVirqLine, vmMaxVirqLine, hr.vmid]
  by_cases hvirq : virq < vmLocalVirqNr
  · obtain ⟨hmap, hdesc⟩ := hr.percpu hvirq
    refine ⟨?_, ?_, ?_, ?_, h.nodup⟩
    · rw [hr.vspiNr, hmax, h.nr]
    · rw [hmap, hr.vspiNr, h.len]
    · rw [hmap, hdesc, hr.vspiNr]
      exact h.sync
    · rw [hmap, hr.vspiNr]
      exact h.live
  · obtain ⟨hlt, hmap, d, hd, hdesc⟩ := hr.spi (by omega)
    refine ⟨?_, ?_, ?_, ?_, h.nodup⟩
    · rw [hr.vspiNr, hmax, h.nr]
    · rw [hmap, length_setBit, hr.vspiNr, h.len]
    · intro i hi
      rw [hr.vspiNr] at hi
      rw [hmap, hdesc, testBit_setBit (h.bound hlt), Function.update_apply, h.sync i hi]
      by_cases heq : i = virq - vmLocalVirqNr
      · simp [heq, hd]
      · simp [heq, Ne.symm heq]
    · intro n hn
      obtain ⟨i, rfl, hi, hset⟩ := h.live n hn
      refine ⟨i, rfl, by rw [hr.vspiNr]; exact hi, ?_⟩
      rw [hmap, testBit_setBit (h.bound hlt), hset, Bool.true_or]

theorem AllocInv.afterRequest (h : AllocInv cfg s)
    (virq hwirq : Nat) (flags : BitVec 64) :
    AllocInv cfg { s with
      vm := afterRequest s.vm (requestHwVirq cfg s.vm virq hwirq flags) } := by
  cases hreq : requestHwVirq cfg s.vm virq hwirq flags with
  | error e => exact h
  | ok vm' => exact h.requested (requestHwVirq_ok hreq).2.2

theorem AllocInv.release (h : AllocInv cfg s)
    (virq : Int) :
    AllocInv cfg ⟨releaseVmVirq s.vm virq, s.live.filter fun n => (n : Int) ≠ virq⟩ := by
  have hnodup := h.nodup.filter fun n : Nat => (n : Int) ≠ virq
  unfold releaseVmVirq
  simp only
  split
  · exact ⟨h.nr, h.len, h.sync, fun n hn => h.live n (List.mem_filter.mp hn).1, hnodup⟩
  · rename_i hoff
    push Not at hoff
    refine ⟨h.nr, (length_clearBit _ _).trans h.len, fun i hi => ?_, fun n hn => ?_, hnodup⟩
    · generalize (virq - vmLocalVirqNr).toNat = off
      simp only [testBit_clearBit, Function.update_apply, h.sync i hi]
      by_cases heq : i = off
      · simp [heq, virqIsRequested]
      · simp [heq, Ne.symm heq]
    · -- a live number that is not the one released keeps its bit
      obtain ⟨hmem, hne⟩ := List.mem_filter.mp hn
      obtain ⟨i, rfl, hi, hset⟩ := h.live n hmem
      refine ⟨i, rfl, hi, ?_⟩
      have hne' : (virq - vmLocalVirqNr).toNat ≠ i := by
        simp only [decide_eq_true_eq] at hne
        omega
      rw [testBit_clearBit, hset]
      simpa using hne'

/-! ## Allocation -/

/-- With no shared line free, `alloc_vm_virq` fails and changes nothing. -/
theorem allocVmVirq_full (h : ¬ ∃ i, i < vm.vspiNr ∧ testBit i vm.vspiMap = false) :
    allocVmVirq cfg vm = (none, vm) := by
  have hall : ∀ i, i < vm.vspiNr → testBit i vm.vspiMap = true := by
    intro i hi
    by_contra hne
    exact h ⟨i, hi, by simpa using hne⟩
  simp only [allocVmVirq, findNextZeroBitLoop_full 0 hall, Nat.lt_irrefl, if_false]

theorem allocVmVirq_free (cfg : VirqConfig)
    (h : ∃ i, i < vm.vspiNr ∧ testBit i vm.vspiMap = false) :
    ∃ r, r < vm.vspiNr ∧ testBit r vm.vspiMap = false ∧
      (∀ j, j < r → testBit j vm.vspiMap = true) ∧
      allocVmVirq cfg vm = (some (r + vmLocalVirqNr),
        Virq.afterRequest vm (requestHwVirq cfg vm (r + vmLocalVirqNr) 0
          (BitVec.twoPow 64 virqsNeedExportBit))) := by
  obtain ⟨hlt, hhit, horder⟩ := findNextZeroBitLoop_spec 0 h
  refine ⟨_, hlt, by simpa using hhit, ?_, ?_⟩
  · rcases horder with ⟨-, hmiss⟩ | ⟨hneg, -⟩
    · intro j hj
      simpa using hmiss j (Nat.zero_le _) hj
    · omega
  · unfold allocVmVirq
    exact if_pos hlt

/-- A granted allocation, in one lemma: what `AllocGood` asks for, and the
invariant with the new number live. -/
theorem alloc_granted {r : Nat}
    (h : AllocInv cfg s) (hfree : testBit r s.vm.vspiMap = false)
    (hr : Requested s.vm vm' (r + vmLocalVirqNr)) :
    r + vmLocalVirqNr ∉ s.live ∧
      testBit r vm'.vspiMap = true ∧
      virqIsRequested (vm'.vspiDesc r) = true ∧
      AllocInv cfg ⟨vm', (r + vmLocalVirqNr) :: s.live⟩ := by
  obtain ⟨hlt, hmap, d, hd, hdesc⟩ := hr.spi (Nat.le_add_left _ _)
  rw [Nat.add_sub_cancel] at hlt hmap hdesc
  have hnew : r + vmLocalVirqNr ∉ s.live := by
    intro hmem
    obtain ⟨i, hi, -, hset⟩ := h.live _ hmem
    obtain rfl : r = i := by omega
    rw [hfree] at hset
    cases hset
  have hset : testBit r vm'.vspiMap = true := by
    rw [hmap, testBit_setBit (h.bound hlt)]
    simp
  refine ⟨hnew, hset, by rw [hdesc, Function.update_self]; exact hd, ?_⟩
  obtain ⟨hnr, hlen, hsync, hlive, hnodup⟩ := h.requested hr
  refine ⟨hnr, hlen, hsync, ?_, List.nodup_cons.mpr ⟨hnew, hnodup⟩⟩
  intro n hn
  rcases List.mem_cons.mp hn with rfl | hn
  · exact ⟨r, rfl, by rw [hr.vspiNr]; exact hlt, hset⟩
  · exact hlive n hn

/-- One allocation is good exactly when a line that can be granted is free,
if any line is. -/
theorem allocGood_iff (h : AllocInv cfg s)
    (c : VirqCall) : AllocGood cfg s c ↔ LineFree cfg s c := by
  unfold AllocGood LineFree
  refine imp_congr_right fun _ => ?_
  by_cases hany : ∃ i, i < s.vm.vspiNr ∧ testBit i s.vm.vspiMap = false
  · obtain ⟨r, hr, hfree, hlow, halloc⟩ := allocVmVirq_free cfg hany
    rw [halloc]
    constructor
    · intro hgood _
      obtain ⟨⟨-, hmax⟩, -, hset, -⟩ := hgood _ rfl
      rw [Nat.add_sub_cancel] at hset
      refine ⟨?_, r, hmax, hfree⟩
      -- a refused request would have left the bit clear
      cases hreq : requestHwVirq cfg s.vm (r + vmLocalVirqNr) 0
          (BitVec.twoPow 64 virqsNeedExportBit) with
      | ok vm' => exact (requestHwVirq_ok hreq).2.1
      | error e =>
        rw [hreq, Virq.afterRequest, hfree] at hset
        cases hset
    · intro hline virq hvirq
      obtain ⟨hvcpu, i, hi, hclear⟩ := hline hany
      cases hvirq
      -- the line asked for is not above the free one
      have hle : r ≤ i := by
        by_contra hlt
        rw [hlow i (by omega)] at hclear
        cases hclear
      obtain ⟨vm', hreq⟩ := requestHwVirq_granted 0
        (BitVec.twoPow 64 virqsNeedExportBit)
        (show r + vmLocalVirqNr < vmMaxVirqLine cfg s.vm by omega) hr
        hvcpu (by rw [← h.sync r hr]; exact hfree)
      obtain ⟨hnew, hset, hdesc, -⟩ := alloc_granted h hfree (requestHwVirq_ok hreq).2.2
      rw [hreq, Nat.add_sub_cancel]
      exact ⟨⟨Nat.le_add_left _ _, by omega⟩, ⟨hfree, hnew⟩, hset, hdesc⟩
  · rw [allocVmVirq_full hany]
    exact ⟨fun _ hex => absurd hex hany, fun _ virq hvirq => by cases hvirq⟩

/-- The invariant is kept by every call that finds a line it can grant. -/
theorem AllocInv.step {s' : AllocState} {c : VirqCall}
    (h : AllocInv cfg s) (hc : LineFree cfg s c) (hs : virqStep cfg s c = some s') :
    AllocInv cfg s' := by
  cases c with
  | request virq flags =>
    cases hs
    exact h.afterRequest virq 0 flags
  | requestHw virq hwirq flags =>
    cases hs
    exact h.afterRequest virq hwirq flags
  | release virq =>
    cases hs
    exact h.release virq
  | alloc =>
    cases hs
    by_cases hany : ∃ i, i < s.vm.vspiNr ∧ testBit i s.vm.vspiMap = false
    · obtain ⟨r, hr, hfree, -, halloc⟩ := allocVmVirq_free cfg hany
      obtain ⟨-, -, hset, -⟩ := (allocGood_iff h _).mpr hc rfl _ (by rw [halloc])
      rw [halloc] at hset ⊢
      cases hreq : requestHwVirq cfg s.vm (r + vmLocalVirqNr) 0
          (BitVec.twoPow 64 virqsNeedExportBit) with
      | ok vm' => exact (alloc_granted h hfree (requestHwVirq_ok hreq).2.2).2.2.2
      | error e =>
        rw [hreq, Virq.afterRequest, Nat.add_sub_cancel, hfree] at hset
        cases hset
    · rw [allocVmVirq_full hany]
      exact h

/-- **Dynamic virq allocation**: for every configuration, every VM it is
applied to and every history of calls, all allocations are good and no two
live ones share a number exactly when each `alloc_vm_virq` comes while a
line below `vm_max_virq_line` is free, or none at all. -/
theorem virq_alloc_good_iff (cfg : VirqConfig) (vm : Vm) (l : List VirqCall) :
    (Along (virqStep cfg) (AllocGood cfg) ⟨virqCreateVm cfg vm, []⟩ l ∧
      ∀ pre, pre <+: l → ∀ t,
        run (virqStep cfg) ⟨virqCreateVm cfg vm, []⟩ pre = some t → t.live.Nodup) ↔
    Along (virqStep cfg) (LineFree cfg) ⟨virqCreateVm cfg vm, []⟩ l := by
  have hinit := AllocInv.create cfg vm
  have hstep : ∀ s c s', AllocInv cfg s → LineFree cfg s c →
      virqStep cfg s c = some s' → AllocInv cfg s' :=
    fun s c s' h hc hs => h.step hc hs
  rw [along_congr hstep (fun s c h => allocGood_iff h c) hinit]
  constructor
  · exact And.left
  · intro hl
    refine ⟨hl, fun pre hpre t ht => ?_⟩
    exact (run_invariant hstep hinit (along_of_pre hpre hl) ht).nodup

/-- A guest VM with one vcpu, before `virq_create_vm`. -/
def guestVm : Vm where
  vmid := 1
  state := .offline
  vspiNr := 0
  vspiDesc := fun _ => {}
  vspiMap := []
  vcpuNr := 1
  vcpu := fun _ => ⟨4, 0, 0, 0, fun _ => {}, [], [], []⟩

/-- On a guest VM of the default configuration the 65th and the 66th
allocation both return line 96, which is never marked. -/
theorem virq_alloc_shared_line :
    ∃ t, run (virqStep {}) ⟨virqCreateVm {} guestVm, []⟩ (List.replicate 66 .alloc)
        = some t ∧
      t.live.take 2 = [96, 96] ∧ ¬ t.live.Nodup ∧
      testBit 64 t.vm.vspiMap = false ∧ virqIsRequested (t.vm.vspiDesc 64) = false := by
  decide +kernel

end Minos.Virq
