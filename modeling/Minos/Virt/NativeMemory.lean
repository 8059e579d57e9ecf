import Minos.Core.MemRegion
import Minos.Driver.DeviceTree
import Minos.Virt.VmmArea

/-!
# The memory of native VMs

Boot fills the list of memory regions from the host's device tree (`of_parse_memory_info`):
the banks of memory, then one `split_memory_region` each for the kernel, the memory in front of
its entry, the reserved memory, the ramdisk and the ranges in the `memory` property of every
VM. `vm_memory_init` later registers with a native VM the regions that have its vmid, whatever
their type.

`vm_memory_owned_iff` says for which trees a VM gets exactly the memory its node lists, and
nothing of the hypervisor's or of another VM's.
-/

namespace Minos.NativeMemory

open Minos.Lib Minos.Of Minos.MemRegion

/-! ## The host's device tree -/

/-- Where the image stands, where its entry is and how much memory it has. -/
structure Image where
  start : Nat
  entry : Nat
  ram : Nat
  start_le : start ≤ entry
  entry_lt : entry < start + ram
  fits : start + ram < 2 ^ 64

/-- The node `memory`, with the cell counts of its ancestors. -/
structure MemoryNode where
  reg : Option Property
  addressCells : Nat
  sizeCells : Nat

/-- An entry of the memory reservation block: a range of physical memory. -/
structure MemRsv where
  address : Nat
  size : Nat
  fits : address + size < 2 ^ 64

/-- A node below `/vms` whose `device_type` is `virtual_machine`. -/
structure VmNode where
  /-- It is a child of `/vms`: `__fdt_parse_vm_mem` does not look deeper. -/
  direct : Bool
  vmid : Option Property
  memory : Option Property

structure HostTree where
  image : Image
  memory : Option MemoryNode
  memRsv : List MemRsv
  ramdiskStart : Option Property
  ramdiskEnd : Option Property
  vms : List VmNode
  /-- What `alloc_new_vmid` gives to the VM of a node without a vmid; 0 is reserved. -/
  newVmid : Nat → Nat
  newVmid_ne : ∀ i, newVmid i ≠ 0

/-- The 64-bit word at the cells `2 * i` and `2 * i + 1`. -/
def word (p : Property) (i : Nat) : Nat := ofReadNumber (fun k => p.cell (2 * i + k)) 2

/-- `__of_get_u32_array` of one element: 0 if there is none. -/
def VmNode.readVmid (v : VmNode) : Nat :=
  match v.vmid with
  | none => 0
  | some p => if p.len = 0 ∨ p.len % 4 ≠ 0 then 0 else (p.cell 0).toNat

/-- The vmid a VM runs under (`create_vm`). -/
def HostTree.vmidOf (t : HostTree) (i : Nat) (v : VmNode) : Nat :=
  if v.readVmid ≠ 0 then v.readVmid else t.newVmid i

/-! ## Parsing -/

/-- The banks `__fdt_parse_memory_info` adds. -/
def MemoryNode.banks (m : MemoryNode) : List Region :=
  match m.reg with
  | none => []
  | some reg =>
    let one := m.addressCells + m.sizeCells
    if reg.len < 8 then []
    else if 2 < m.sizeCells ∨ m.sizeCells = 0 then []
    else if 2 < m.addressCells ∨ m.addressCells = 0 then []
    else
      (List.range (reg.len / 4 / one)).map fun i =>
        ⟨.normal, 0, ofReadNumber (fun k => reg.cell (i * one + k)) m.addressCells,
          ofReadNumber (fun k => reg.cell (i * one + m.addressCells + k)) m.sizeCells⟩

/-- `__fdt_parse_kernel_mem`, and the head of `__fdt_parse_memreserve`. -/
def Image.splits (img : Image) : List Split :=
  ⟨img.start, img.ram, .kernel, 0⟩ ::
    if img.entry ≠ img.start then [⟨img.start, img.entry - img.start, .rsv, 1⟩] else []

def MemRsv.split (m : MemRsv) : Split := ⟨m.address, m.size, .rsv, 0⟩

/-- `__fdt_parse_ramdisk_mem`. -/
def HostTree.ramdiskSplit (t : HostTree) : List Split :=
  match t.ramdiskStart, t.ramdiskEnd with
  | some s, some e =>
    if s.len = 0 ∨ e.len = 0 then []
    else if word s 0 % 4096 ≠ 0 then []
    else [⟨word s 0, Vmm.pageBalign (sub64 (word e 0) (word s 0)), .ramdisk, 0⟩]
  | _, _ => []

/-- How many words `__of_get_u64_array` reads of a property, at most twenty. -/
def wordsRead (p : Property) : Nat := if p.len % 8 ≠ 0 then 0 else min 20 (p.len / 8)

/-- The splits `__fdt_parse_vm_mem` makes for a VM: an odd number of words is an error. -/
def VmNode.splits (v : VmNode) : List Split :=
  match v.memory with
  | none => []
  | some p =>
    if ¬ v.direct then []
    else if wordsRead p % 2 ≠ 0 then []
    else
      (List.range (wordsRead p / 2)).map fun i =>
        ⟨word p (2 * i), word p (2 * i + 1), .vm, v.readVmid⟩

/-- The regions when the memory of the VMs is parsed. Without a node `memory` nothing is. -/
def HostTree.beforeVms (t : HostTree) : Option (List Region) :=
  match t.memory with
  | none => some []
  | some m =>
    (run addMemoryRegion [] m.banks).bind fun l =>
      run splitMemoryRegion l (t.image.splits ++ t.memRsv.map MemRsv.split ++ t.ramdiskSplit)

def HostTree.vmSplits (t : HostTree) : List Split :=
  if t.memory.isSome then t.vms.flatMap VmNode.splits else []

/-- `of_parse_memory_info`: the regions, unless it panics. -/
def ofParseMemoryInfo (t : HostTree) : Option (List Region) :=
  t.beforeVms.bind fun l => run splitMemoryRegion l t.vmSplits

/-! ## What a VM gets -/

/-- `VM_NATIVE_NORMAL` -/
def vmNativeNormal : Nat := 0x704302

/-- The regions `vm_memory_init` registers. -/
def vmRegions (l : List Region) (vmid : Nat) : List Region := l.filter (·.vmid = vmid)

/-- The loop of `vm_memory_init`. -/
def registerRegions (mem : Nat → Bool) : Vmm.MmStruct → List Region → Option Vmm.MmStruct
  | mm, [] => some mm
  | mm, r :: rest =>
    match Vmm.splitVmmArea mem mm r.base r.size vmNativeNormal with
    | (none, _) => none
    | (some _, mm) => registerRegions mem mm rest

/-- `check_vm_address` -/
def checkVmAddress (mm : Vmm.MmStruct) (addr : Nat) : Prop :=
  ∃ va ∈ mm.used, va.start ≤ addr ∧ addr < va.stop

instance (mm : Vmm.MmStruct) (addr : Nat) : Decidable (checkVmAddress mm addr) :=
  inferInstanceAs (Decidable (∃ va ∈ mm.used, _))

/-- `vm_memory_init` of a native VM: `none` for an error, after which the VM is not created. -/
def vmMemoryInit (mem : Nat → Bool) (mm : Vmm.MmStruct) (l : List Region)
    (vmid load entry setup : Nat) : Option Vmm.MmStruct :=
  (registerRegions mem mm (vmRegions l vmid)).filter fun mm =>
    checkVmAddress mm load ∧ checkVmAddress mm entry ∧ checkVmAddress mm setup

theorem registerRegions_areas {mem : Nat → Bool} {mm mm' : Vmm.MmStruct} {l : List Region}
    (h : registerRegions mem mm l = some mm') :
    mm'.used.map Vmm.VmmArea.span =
      mm.used.map Vmm.VmmArea.span ++ l.map fun r => (r.base, r.stop) := by
  induction l generalizing mm with
  | nil =>
    cases h
    simp
  | cons r rest ih =>
    rw [registerRegions] at h
    split at h
    · cases h
    · rename_i va mm₁ heq
      have hva : (Vmm.splitVmmArea mem mm r.base r.size vmNativeNormal).1 = some va := by rw [heq]
      obtain ⟨hused, hspan, -⟩ := Vmm.splitVmmArea_used hva
      rw [heq] at hused
      rw [ih h, hused, List.map_append, List.map_singleton, hspan, List.append_assoc]
      rfl

theorem vmMemoryInit_areas {mem : Nat → Bool} {mm mm' : Vmm.MmStruct} {l : List Region}
    {vmid load entry setup : Nat} (hnew : mm.used = [])
    (h : vmMemoryInit mem mm l vmid load entry setup = some mm') (x : Nat) :
    (∃ va ∈ mm'.used, va.start ≤ x ∧ x < va.stop) ↔ Mapped l vmid x := by
  have hspans := registerRegions_areas (Option.filter_eq_some_iff.mp h).1
  rw [hnew, List.map_nil, List.nil_append] at hspans
  calc (∃ va ∈ mm'.used, va.start ≤ x ∧ x < va.stop)
      ↔ ∃ s ∈ mm'.used.map Vmm.VmmArea.span, s.1 ≤ x ∧ x < s.2 := by
        simp [Vmm.VmmArea.span]
    _ ↔ Mapped l vmid x := by
        rw [hspans]
        simp [Mapped, vmRegions, Region.Holds, and_assoc]

/-! ## Ownership -/

/-- The ranges the `memory` property of a node lists. -/
def VmNode.ranges (v : VmNode) : List (Nat × Nat) :=
  match v.memory with
  | none => []
  | some p => (List.range (p.len / 16)).map fun i => (word p (2 * i), word p (2 * i + 1))

def VmNode.Lists (v : VmNode) (x : Nat) : Prop := ∃ r ∈ v.ranges, r.1 ≤ x ∧ x < r.1 + r.2

/-- Memory of the kernel, reserved memory and the ramdisk. -/
def HostTree.Reserved (t : HostTree) (x : Nat) : Prop :=
  ∃ o ∈ t.image.splits ++ t.memRsv.map MemRsv.split ++ t.ramdiskSplit, o.Covers x

/-- `v` is the node of the VM number `i`. -/
def HostTree.IsVm (t : HostTree) (i : Nat) (v : VmNode) : Prop := t.vms[i]? = some v

/-- Every VM gets the memory its node lists, none of it reserved or another VM's. -/
structure Owned (t : HostTree) (l : List Region) : Prop where
  exact : ∀ i v, t.IsVm i v → ∀ x, Mapped l (t.vmidOf i v) x ↔ v.Lists x
  unreserved : ∀ i v, t.IsVm i v → ∀ x, Mapped l (t.vmidOf i v) x → ¬ t.Reserved x
  apart : ∀ i v j w, t.IsVm i v → t.IsVm j w → i ≠ j →
    ∀ x, Mapped l (t.vmidOf i v) x → ¬ Mapped l (t.vmidOf j w) x

/-- What the tree and the regions before those of the VMs must be like.
* The ranges listed do not wrap; they hold nothing reserved, and no two VMs list the same.
* A VM that lists memory has a vmid, and no other VM runs under it.
* No region has the vmid of a VM yet.
* All that is listed is in a range that is parsed and, when its turn comes, cut out of a region
  that is larger than the range or has its vmid already. -/
structure OwnedWhen (t : HostTree) (pre : List Region) : Prop where
  fits : ∀ i v, t.IsVm i v → ∀ r ∈ v.ranges, r.2 ≠ 0 → r.1 + r.2 < 2 ^ 64
  unreserved : ∀ i v, t.IsVm i v → ∀ x, v.Lists x → ¬ t.Reserved x
  apart : ∀ i v j w, t.IsVm i v → t.IsVm j w → i ≠ j → ∀ x, v.Lists x → ¬ w.Lists x
  vmid : ∀ i v, t.IsVm i v → v.readVmid = 0 → ∀ x, ¬ v.Lists x
  shared : ∀ i v j w, t.IsVm i v → t.IsVm j w → i ≠ j → t.vmidOf i v = t.vmidOf j w →
    ∀ x, ¬ v.Lists x
  fresh : ∀ i v, t.IsVm i v → ∀ r ∈ pre, r.vmid ≠ t.vmidOf i v
  taken : ∀ i v, t.IsVm i v → ∀ x, v.Lists x → ∃ p o q l, t.vmSplits = p ++ o :: q ∧
    o ∈ v.splits ∧ o.Covers x ∧ run splitMemoryRegion pre p = some l ∧ o.Takes l

section Proof

variable {t : HostTree} {pre l : List Region} {v w : VmNode} {o : Split} {i j x : Nat}

theorem ofReadNumber_lt (cell : Nat → BitVec 32) (size : Nat) :
    ofReadNumber cell size < 2 ^ 64 := by
  cases size with
  | zero => exact Nat.two_pow_pos 64
  | succ size =>
    have := (cell size).isLt
    unfold ofReadNumber u64
    omega

/-- A split of a VM is for a range its node lists. -/
theorem mem_splits (ho : o ∈ v.splits) :
    o.vmid = v.readVmid ∧ (o.base, o.size) ∈ v.ranges ∧ o.base < 2 ^ 64 := by
  unfold VmNode.splits at ho
  unfold VmNode.ranges
  cases hm : v.memory with
  | none =>
    rw [hm] at ho
    cases ho
  | some p =>
    rw [hm] at ho
    simp only at ho ⊢
    split at ho
    · cases ho
    split at ho
    · cases ho
    obtain ⟨i, hi, rfl⟩ := List.mem_map.mp ho
    refine ⟨rfl, List.mem_map.mpr ⟨i, ?_, rfl⟩, ofReadNumber_lt _ _⟩
    unfold wordsRead at hi
    rw [List.mem_range] at hi ⊢
    split at hi <;> omega

theorem lists_of_covers (ho : o ∈ v.splits) (hx : o.Covers x) : v.Lists x :=
  ⟨_, (mem_splits ho).2.1, hx⟩

theorem mem_vmSplits (ho : o ∈ t.vmSplits) : ∃ i v, t.IsVm i v ∧ o ∈ v.splits := by
  unfold HostTree.vmSplits at ho
  split at ho
  · obtain ⟨v, hv, ho⟩ := List.mem_flatMap.mp ho
    obtain ⟨i, hi⟩ := List.mem_iff_getElem?.mp hv
    exact ⟨i, v, hi, ho⟩
  · cases ho

theorem vmidOf_ne (t : HostTree) (i : Nat) (v : VmNode) : t.vmidOf i v ≠ 0 := by
  unfold HostTree.vmidOf
  split
  · assumption
  · exact t.newVmid_ne i

theorem vmidOf_eq (h : v.readVmid ≠ 0) : t.vmidOf i v = v.readVmid := if_pos h

theorem fits_vmSplits
    (hfits : ∀ i v, t.IsVm i v → ∀ r ∈ v.ranges, r.2 ≠ 0 → r.1 + r.2 < 2 ^ 64)
    (ho : o ∈ t.vmSplits) : o.Fits := by
  obtain ⟨i, v, hv, ho⟩ := mem_vmSplits ho
  obtain ⟨-, hr, hbase⟩ := mem_splits ho
  by_cases hsize : o.size = 0
  · rw [Split.Fits, hsize]
    exact hbase
  · exact hfits i v hv _ hr hsize

/-- Under the condition each VM has what it lists. -/
theorem OwnedWhen.exact (h : OwnedWhen t pre) (hrun : run splitMemoryRegion pre t.vmSplits = some l)
    (hv : t.IsVm i v) : Mapped l (t.vmidOf i v) x ↔ v.Lists x := by
  have hfit : ∀ o ∈ t.vmSplits, o.Fits := fun o ho => fits_vmSplits h.fits ho
  constructor
  · intro hx
    rcases mapped_run_cases hfit hrun hx with ⟨r, hr, hk, -⟩ | ⟨p, o, q, σ, heq, -, hk, hx, -⟩
    · exact absurd hk (h.fresh i v hv r hr)
    · -- a split of another VM that runs under the vmid is for nothing it lists
      obtain ⟨j, w, hw, ho⟩ := mem_vmSplits (o := o) (by rw [heq]; simp)
      have hlists := lists_of_covers ho hx
      have hread : w.readVmid = t.vmidOf i v := (mem_splits ho).1.symm.trans hk
      have hvmid : t.vmidOf j w = t.vmidOf i v :=
        (vmidOf_eq (hread ▸ vmidOf_ne t i v)).trans hread
      by_cases hij : i = j
      · subst hij
        cases hv.symm.trans hw
        exact hlists
      · exact absurd hlists (h.shared j w i v hw hv (Ne.symm hij) hvmid x)
  · intro hx
    obtain ⟨p, o, q, σ, heq, ho, hcov, hσ, htakes⟩ := h.taken i v hv x hx
    have hread : v.readVmid ≠ 0 := fun h0 => h.vmid i v hv h0 x hx
    have hk : o.vmid = t.vmidOf i v := (mem_splits ho).1.trans (vmidOf_eq hread).symm
    rw [heq] at hfit
    rw [heq, run_append hσ] at hrun
    obtain ⟨σ', hσ', hrun⟩ := run_cons_eq_some hrun
    have hgain := mapped_gain (hfit o (by simp)) hσ' htakes hcov
    rw [hk] at hgain
    refine mapped_run_keep (fun o' ho' => hfit o' (by simp [ho'])) (fun o' ho' hcov' => ?_)
      hrun hgain
    -- nobody else lists it
    obtain ⟨j, w, hw, ho''⟩ := mem_vmSplits (t := t) (o := o') (by rw [heq]; simp [ho'])
    by_cases hij : i = j
    · subst hij
      cases hv.symm.trans hw
      exact (mem_splits ho'').1.trans (vmidOf_eq hread).symm
    · exact absurd (lists_of_covers ho'' hcov') (h.apart i v j w hv hw hij x hx)

theorem OwnedWhen.owned (h : OwnedWhen t pre)
    (hrun : run splitMemoryRegion pre t.vmSplits = some l) : Owned t l where
  exact _ _ hv _ := h.exact hrun hv
  unreserved i v hv x hx := h.unreserved i v hv x ((h.exact hrun hv).mp hx)
  apart i v j w hv hw hij x hx hx' :=
    h.apart i v j w hv hw hij x ((h.exact hrun hv).mp hx) ((h.exact hrun hw).mp hx')

/-- The memory in front of the entry, which gets the vmid 1. -/
def Image.Head (img : Image) (x : Nat) : Prop := img.start ≤ x ∧ x < img.entry

theorem reserved_of_head (hx : t.image.Head x) : t.Reserved x := by
  refine ⟨⟨t.image.start, t.image.ram, .kernel, 0⟩, by simp [Image.splits], hx.1, ?_⟩
  have := t.image.entry_lt
  have := hx.2
  show x < t.image.start + t.image.ram
  omega

theorem vmid_banks {m : MemoryNode} (h : run addMemoryRegion [] m.banks = some l) :
    ∀ r ∈ l, r.vmid = 0 := by
  refine run_invariant (P := fun _ r => r.vmid = 0) (I := fun l => ∀ r ∈ l, r.vmid = 0) ?_
    (by simp) (along_of_forall ?_ _) h
  · intro l new l' hl hnew h
    unfold addMemoryRegion at h
    split at h
    · cases h
      exact hl
    split at h
    · cases h
      exact hl
    split at h
    · cases h
      simpa [or_imp, forall_and] using ⟨hl, hnew⟩
    · cases h
  · intro r hr
    unfold MemoryNode.banks at hr
    split at hr
    · cases hr
    · simp only at hr
      iterate 3
        split at hr
        · cases hr
      obtain ⟨i, -, rfl⟩ := List.mem_map.mp hr
      rfl

/-- The splits of the kernel and of the reserved memory. -/
theorem mem_reserved_splits (ho : o ∈ t.image.splits ++ t.memRsv.map MemRsv.split) :
    o.Fits ∧ (o.vmid = 0 ∨ o.vmid = 1) ∧ (o.vmid = 1 → ∀ x, o.Covers x → t.image.Head x) := by
  rw [List.mem_append] at ho
  rcases ho with ho | ho
  · have hle := t.image.start_le
    have hlt := t.image.entry_lt
    have hfits := t.image.fits
    unfold Image.splits at ho
    rcases List.mem_cons.mp ho with rfl | ho
    · exact ⟨hfits, Or.inl rfl, fun h => by cases h⟩
    · split at ho
      · rw [List.mem_singleton] at ho
        subst ho
        refine ⟨?_, Or.inr rfl, fun _ x hx => ⟨hx.1, ?_⟩⟩
        · show t.image.start + (t.image.entry - t.image.start) < 2 ^ 64
          omega
        · have := hx.2
          simp only at this
          omega
      · cases ho
  · obtain ⟨m, -, rfl⟩ := List.mem_map.mp ho
    exact ⟨m.fits, Or.inl rfl, fun h => by cases h⟩

theorem ramdiskSplit_cases (t : HostTree) :
    t.ramdiskSplit = [] ∨ ∃ o, t.ramdiskSplit = [o] ∧ o.vmid = 0 ∧ o.size < 2 ^ 64 := by
  unfold HostTree.ramdiskSplit
  split
  · split
    · exact Or.inl rfl
    split
    · exact Or.inl rfl
    · exact Or.inr ⟨_, rfl, rfl, Nat.lt_of_le_of_lt (Nat.sub_le ..) (u64_lt _)⟩
  · exact Or.inl rfl

/-- Before the memory of the VMs is parsed a region has the vmid 0 or 1, and if one has the
vmid 1 some of the head has it. -/
theorem beforeVms_vmids (h : t.beforeVms = some pre) :
    (∀ r ∈ pre, r.vmid = 0 ∨ r.vmid = 1) ∧
      ((∃ r ∈ pre, r.vmid = 1) → ∃ x, t.image.Head x ∧ Mapped pre 1 x) := by
  unfold HostTree.beforeVms at h
  split at h
  · cases h
    simp
  obtain ⟨l₀, hbanks, h⟩ := Option.bind_eq_some_iff.mp h
  obtain ⟨l₁, hsplits, h⟩ := run_append_eq_some h
  have hvmid := vmid_banks hbanks
  have hinv : (∀ r ∈ l₁, r.vmid = 0 ∨ r.vmid = 1) ∧ Within t.image.Head 1 l₁ := by
    refine run_invariant
      (P := fun _ o => o.Fits ∧ (o.vmid = 0 ∨ o.vmid = 1) ∧
        (o.vmid = 1 → ∀ x, o.Covers x → t.image.Head x))
      (I := fun l => (∀ r ∈ l, r.vmid = 0 ∨ r.vmid = 1) ∧ Within t.image.Head 1 l)
      ?_ ?_ (along_of_forall (fun o ho => mem_reserved_splits ho) _) hsplits
    · rintro l o l' ⟨hl, hw⟩ ⟨hfit, hv, hS⟩ h
      refine ⟨fun r' hr' => ?_, within_split hfit h hS hw⟩
      rcases vmid_split h hr' with heq | ⟨r, hr, heq⟩
      · rw [heq]
        exact hv
      · rw [← heq]
        exact hl r hr
    · refine ⟨fun r hr => Or.inl (hvmid r hr), fun r hr h1 => ?_⟩
      rw [hvmid r hr] at h1
      cases h1
  obtain ⟨hl₁, hw⟩ := hinv
  rcases ramdiskSplit_cases t with hnil | ⟨o, hone, hv, hsize⟩
  · rw [hnil] at h
    cases h
    exact ⟨hl₁, hw.mapped⟩
  · rw [hone] at h
    obtain ⟨l₂, hl₂, h⟩ := run_cons_eq_some h
    cases h
    have hold : ∀ r' ∈ pre, r'.vmid = 0 ∨ ∃ r ∈ l₁, r.vmid = r'.vmid :=
      fun r' hr' => hv ▸ vmid_split hl₂ hr'
    refine ⟨fun r' hr' => ?_, fun hex => ?_⟩
    · rcases hold r' hr' with heq | ⟨r, hr, heq⟩
      · exact Or.inl heq
      · exact heq ▸ hl₁ r hr
    · by_cases hfit : o.Fits
      · exact (within_split hfit hl₂ (fun h => by rw [hv] at h; cases h) hw).mapped hex
      · -- an end below the start: nothing is lost
        obtain ⟨r', hr', h1⟩ := hex
        rcases hold r' hr' with h0 | ⟨r, hr, heq⟩
        · rw [h1] at h0
          cases h0
        · obtain ⟨x, hx, hmapped⟩ := hw.mapped ⟨r, hr, heq.trans h1⟩
          exact ⟨x, hx, mapped_keep_wrap hfit hsize hl₂ hmapped⟩

theorem mapped_lt {k : Nat} (h : Mapped l k x) : x + 1 < 2 ^ 64 := by
  obtain ⟨r, -, -, hx⟩ := h
  have := r.stop_lt
  have := hx.2
  omega

theorem Owned.fits (h : Owned t l) (hv : t.IsVm i v) {r : Nat × Nat} (hr : r ∈ v.ranges)
    (hsize : r.2 ≠ 0) : r.1 + r.2 < 2 ^ 64 := by
  have hlists : v.Lists (r.1 + r.2 - 1) := ⟨r, hr, by omega, by omega⟩
  have := mapped_lt ((h.exact i v hv _).mpr hlists)
  omega

theorem Owned.shared (h : Owned t l) (hv : t.IsVm i v) (hw : t.IsVm j w) (hij : i ≠ j)
    (hk : t.vmidOf i v = t.vmidOf j w) : ¬ v.Lists x := by
  intro hx
  have hmapped := (h.exact i v hv x).mpr hx
  exact h.apart i v j w hv hw hij x hmapped (hk ▸ hmapped)

/-- No region has the vmid of a VM before its memory is parsed: some of the head would stay
with it. -/
theorem Owned.fresh (h : Owned t l) (hpre : t.beforeVms = some pre)
    (hrun : run splitMemoryRegion pre t.vmSplits = some l) (hv : t.IsVm i v) {r : Region}
    (hr : r ∈ pre) : r.vmid ≠ t.vmidOf i v := by
  intro hk
  obtain ⟨hvmids, hhead⟩ := beforeVms_vmids hpre
  have h1 : r.vmid = 1 := by
    rcases hvmids r hr with h0 | h1
    · exact absurd (hk ▸ h0) (vmidOf_ne t i v)
    · exact h1
  obtain ⟨x, hx, hmapped⟩ := hhead ⟨r, hr, h1⟩
  have hkeep : Mapped l 1 x := by
    refine mapped_run_keep (fun o ho => fits_vmSplits (fun i v hv r hr => h.fits hv hr) ho) ?_
      hrun hmapped
    intro o ho hcov
    obtain ⟨j, w, hw, ho⟩ := mem_vmSplits ho
    have hlists := (h.exact j w hw x).mpr (lists_of_covers ho hcov)
    exact absurd (reserved_of_head hx) (h.unreserved j w hw x hlists)
  rw [← h1, hk] at hkeep
  exact h.unreserved i v hv x hkeep (reserved_of_head hx)

/-- What a VM lists comes to it with a split of its own. -/
theorem Owned.taken (h : Owned t l) (hpre : t.beforeVms = some pre)
    (hrun : run splitMemoryRegion pre t.vmSplits = some l) (hv : t.IsVm i v) (hx : v.Lists x) :
    v.readVmid ≠ 0 ∧ ∃ p o q σ, t.vmSplits = p ++ o :: q ∧ o ∈ v.splits ∧ o.Covers x ∧
      run splitMemoryRegion pre p = some σ ∧ o.Takes σ := by
  have hfit : ∀ o ∈ t.vmSplits, o.Fits :=
    fun o ho => fits_vmSplits (fun i v hv r hr => h.fits hv hr) ho
  rcases mapped_run_cases hfit hrun ((h.exact i v hv x).mpr hx) with
    ⟨r, hr, hk, -⟩ | ⟨p, o, q, σ, heq, hσ, hk, hcov, htakes⟩
  · exact absurd hk (h.fresh hpre hrun hv hr)
  · obtain ⟨j, w, hw, ho⟩ := mem_vmSplits (t := t) (o := o) (by rw [heq]; simp)
    have hread : w.readVmid = t.vmidOf i v := (mem_splits ho).1.symm.trans hk
    have hne : w.readVmid ≠ 0 := hread ▸ vmidOf_ne t i v
    by_cases hij : i = j
    · subst hij
      cases hv.symm.trans hw
      exact ⟨hne, p, o, q, σ, heq, ho, hcov, hσ, htakes⟩
    · exact absurd hx (h.shared hv hw hij (hread.symm.trans (vmidOf_eq hne).symm))

theorem Owned.ownedWhen (h : Owned t l) (hpre : t.beforeVms = some pre)
    (hrun : run splitMemoryRegion pre t.vmSplits = some l) : OwnedWhen t pre where
  fits _ _ hv _ hr := h.fits hv hr
  unreserved i v hv x hx := h.unreserved i v hv x ((h.exact i v hv x).mpr hx)
  apart i v j w hv hw hij x hx hx' :=
    h.apart i v j w hv hw hij x ((h.exact i v hv x).mpr hx) ((h.exact j w hw x).mpr hx')
  vmid _ _ hv h0 _ hx := (h.taken hpre hrun hv hx).1 h0
  shared _ _ _ _ hv hw hij hk _ := h.shared hv hw hij hk
  fresh _ _ hv _ hr := h.fresh hpre hrun hv hr
  taken _ _ hv _ hx := (h.taken hpre hrun hv hx).2

end Proof

/-- **Native VM memory.** Of a tree that can be parsed, every VM gets exactly the memory its node
lists, and none that is reserved or another VM's, if and only if the tree meets `OwnedWhen`. -/
theorem vm_memory_owned_iff (t : HostTree) {pre l : List Region} (hpre : t.beforeVms = some pre)
    (h : ofParseMemoryInfo t = some l) : Owned t l ↔ OwnedWhen t pre := by
  rw [ofParseMemoryInfo, hpre, Option.bind_some] at h
  exact ⟨fun hown => hown.ownedWhen hpre h, fun hwhen => hwhen.owned h⟩

/-! ## Boards -/

/-- An image at 1GB with 64MB, whose entry is `head` bytes behind its start. -/
def imageAt (head : Nat) (h : head < 0x4000000) : Image :=
  ⟨0x40000000, 0x40000000 + head, 0x4000000, by omega, by omega, by omega⟩

def rsvMemory : MemRsv := ⟨0x48000000, 0x1000000, by decide⟩

/-- Two banks of 1GB and 2GB, some reserved memory, and one VM. -/
def board (head : Nat) (h : head < 0x4000000) (base size : Nat) : HostTree where
  image := imageAt head h
  memory := some ⟨some (cells [0, 0x40000000, 0, 0x40000000, 0, 0x80000000, 0, 0x80000000]), 2, 2⟩
  memRsv := [rsvMemory]
  ramdiskStart := none
  ramdiskEnd := none
  vms := [⟨true, some (cells [1]), some (cells [0, base, 0, size])⟩]
  newVmid _ := 1
  newVmid_ne _ := by decide

/-- The regions before the VM's: what is left of the banks, the kernel, the reserved memory. -/
def boardRegions : List Region :=
  [⟨.normal, 0, 0x44000000, 0x4000000⟩, ⟨.normal, 0, 0x80000000, 0x80000000⟩,
   ⟨.kernel, 0, 0x40000000, 0x4000000⟩, ⟨.normal, 0, 0x49000000, 0x37000000⟩,
   ⟨.rsv, 0, 0x48000000, 0x1000000⟩]

/-- A VM in the middle of the first bank. -/
def middleVm : HostTree := board 0 (by decide) 0x50000000 0x10000000

theorem isVm_middleVm {i : Nat} {v : VmNode} (h : middleVm.IsVm i v) :
    i = 0 ∧ v.ranges = [(0x50000000, 0x10000000)] ∧ v.readVmid = 1 ∧
      v.splits = [⟨0x50000000, 0x10000000, .vm, 1⟩] := by
  cases i with
  | zero =>
    cases h
    exact ⟨rfl, by decide +kernel, by decide +kernel, by decide +kernel⟩
  | succ i => cases h

theorem ownedWhen_middleVm : OwnedWhen middleVm boardRegions := by
  have hlists : ∀ {i v x}, middleVm.IsVm i v → v.Lists x → 0x50000000 ≤ x ∧ x < 0x60000000 := by
    intro i v x hv ⟨r, hr, hx⟩
    rw [(isVm_middleVm hv).2.1, List.mem_singleton] at hr
    subst hr
    exact hx
  have hreserved : middleVm.image.splits ++ middleVm.memRsv.map MemRsv.split ++
      middleVm.ramdiskSplit = [⟨0x40000000, 0x4000000, .kernel, 0⟩,
        ⟨0x48000000, 0x1000000, .rsv, 0⟩] := by
    decide +kernel
  have hone : ∀ {i j v w}, middleVm.IsVm i v → middleVm.IsVm j w → i = j :=
    fun hv hw => (isVm_middleVm hv).1.trans (isVm_middleVm hw).1.symm
  constructor
  case fits =>
    intro i v hv r hr _
    rw [(isVm_middleVm hv).2.1, List.mem_singleton] at hr
    subst hr
    decide
  case unreserved =>
    rintro i v hv x hx ⟨o, ho, hcov⟩
    have := hlists hv hx
    rw [hreserved] at ho
    unfold Split.Covers at hcov
    simp only [List.mem_cons, List.not_mem_nil, or_false] at ho
    rcases ho with rfl | rfl <;> simp only at hcov <;> omega
  case apart => exact fun i v j w hv hw hij => absurd (hone hv hw) hij
  case shared => exact fun i v j w hv hw hij => absurd (hone hv hw) hij
  case vmid =>
    intro i v hv h0
    rw [(isVm_middleVm hv).2.2.1] at h0
    cases h0
  case fresh =>
    intro i v hv r hr
    have hread := (isVm_middleVm hv).2.2.1
    rw [vmidOf_eq (by rw [hread]; decide), hread]
    revert r
    decide
  case taken =>
    intro i v hv x hx
    refine ⟨[], ⟨0x50000000, 0x10000000, .vm, 1⟩, [], boardRegions, by decide +kernel, ?_,
      hlists hv hx, rfl, ⟨.normal, 0, 0x49000000, 0x37000000⟩, by decide +kernel, by decide +kernel⟩
    rw [(isVm_middleVm hv).2.2.2]
    exact List.mem_singleton_self _

/-- The VM gets its 256MB. -/
theorem vm_memory_owned_middle :
    ∃ l, ofParseMemoryInfo middleVm = some l ∧ Owned middleVm l := by
  have hsome : (ofParseMemoryInfo middleVm).isSome := by decide +kernel
  obtain ⟨l, hl⟩ := Option.isSome_iff_exists.mp hsome
  exact ⟨l, hl, (vm_memory_owned_iff middleVm (by decide +kernel) hl).mpr ownedWhen_middleVm⟩

/-- A VM whose memory is the whole second bank. -/
def wholeBank : HostTree := board 0 (by decide) 0x80000000 0x80000000

/-- The VM of `middleVm` below an image whose entry is not at its start. -/
def headVm : HostTree := board 0xc000 (by decide) 0x50000000 0x10000000

/-- A VM whose node lists the first 2MB of the kernel. -/
def kernelVm : HostTree := board 0 (by decide) 0x40000000 0x200000

theorem exposed_of_run {t : HostTree} {v : VmNode} {x : Nat} (hv : t.IsVm 0 v)
    (hres : t.Reserved x) (hrun : (ofParseMemoryInfo t).map
      (fun l => decide (Mapped l (t.vmidOf 0 v) x)) = some true) :
    ∃ l, ofParseMemoryInfo t = some l ∧ Mapped l (t.vmidOf 0 v) x ∧ ¬ Owned t l := by
  obtain ⟨l, hl, hx⟩ := Option.map_eq_some_iff.mp hrun
  have hx := of_decide_eq_true hx
  exact ⟨l, hl, hx, fun h => h.unreserved 0 v hv x hx hres⟩

/-- A VM whose memory is a whole bank gets nothing; the VM 1 gets the memory in front of the
kernel's entry; a VM that lists memory of the kernel gets it. -/
theorem vm_memory_not_owned :
    (∃ l, ofParseMemoryInfo wholeBank = some l ∧ ¬ Mapped l 1 0x80000000 ∧ ¬ Owned wholeBank l) ∧
    (∃ l, ofParseMemoryInfo headVm = some l ∧ Mapped l 1 0x40000000 ∧ ¬ Owned headVm l) ∧
    ∃ l, ofParseMemoryInfo kernelVm = some l ∧ Mapped l 1 0x40000000 ∧ ¬ Owned kernelVm l := by
  refine ⟨?_, ?_, ?_⟩
  · refine exists_found_more (fun l _ hx h => hx ?_) (by decide +kernel)
    exact (h.exact 0 _ rfl 0x80000000).mpr
      ⟨(0x80000000, 0x80000000), by decide +kernel, by decide, by decide⟩
  · exact exposed_of_run (t := headVm) rfl
      ⟨⟨0x40000000, 0x4000000, .kernel, 0⟩, by decide +kernel, by decide⟩ (by decide +kernel)
  · exact exposed_of_run (t := kernelVm) rfl
      ⟨⟨0x40000000, 0x4000000, .kernel, 0⟩, by decide +kernel, by decide⟩ (by decide +kernel)

end Minos.NativeMemory
