import Minos.Virt.Shmem
import Minos.Virt.Vmbox

/-!
# The shared memory of a vmbox

The hypervisor's `virt/vmbox/vmbox.c` computes how much memory the virtqueues of
a vmbox take and allocates it; the driver's `vmbox/vmbox_virtq.c` computes from
the same three numbers where each ring and each buffer lies. The first 0x100
bytes are the state words of the two sides, then come the rings of all queues,
then their buffers.

An `int` of the driver is kept as its 32-bit word. Places are offsets into the
shared memory, as pointers of 64 bits.
-/

namespace Minos.VmboxLayout

open Minos.Lib Minos.Vmm Minos.VmboxCon

/-! ## Ring sizes

The hypervisor and the driver each have their own copy of these functions, with
the same alignment of 8. -/

/-- An `int` that takes `n` and is then rounded down to the alignment. -/
def roundedInt (n : Nat) : Nat := u32 n / 8 * 8

/-- `vmbox_virtq_vring_desc_size`. -/
def vringDescSize (qsz : Nat) : Nat := roundedInt (16 * qsz + 7)

/-- `vmbox_virtq_vring_avail_size`. -/
def vringAvailSize (qsz : Nat) : Nat := roundedInt (2 * u32 (3 + qsz) + 7)

/-- `vmbox_virtq_vring_used_size`. -/
def vringUsedSize (qsz : Nat) : Nat := roundedInt (2 * 2 + 8 * u32 (qsz + 1) + 7)

/-- `vmbox_virtq_vring_size`. -/
def virtqVringSize (qsz : Nat) : Nat :=
  u32 (vringDescSize qsz + vringAvailSize qsz + vringUsedSize qsz)

/-! ## The hypervisor -/

/-- `VMBOX_IPC_ALL_ENTRY_SIZE`. -/
def ipcAllEntrySize : Nat := 0x100

/-- `struct vmbox_info`. -/
structure VmboxInfo where
  owner : Side → Nat
  id0 : Nat
  id1 : Nat
  vqs : Nat
  vringNum : Nat
  vringSize : Nat
  shmemSize : Nat

/-- `get_vmbox_iomem_header_size`. -/
def getVmboxIomemHeaderSize (vinfo : VmboxInfo) : Nat :=
  ipcAllEntrySize + u32 (virtqVringSize vinfo.vringNum * vinfo.vqs)

/-- `get_vmbox_iomem_buf_size`. -/
def getVmboxIomemBufSize (vinfo : VmboxInfo) : Nat :=
  u32 (u32 (vinfo.vringNum * vinfo.vringSize) * vinfo.vqs)

/-- `get_vmbox_iomem_size`. -/
def getVmboxIomemSize (vinfo : VmboxInfo) : Nat :=
  u64 (getVmboxIomemHeaderSize vinfo + getVmboxIomemBufSize vinfo)

/-- `create_vmbox`: the shared memory and the vmbox. `none` is a panic. -/
def createVmbox (tagging : Bool) (vmExists : Nat → Bool) (zallocOk : Bool) (sh : Shmem.Sys)
    (env : Shmem.Env) (vinfo : VmboxInfo) : Option (Except Errno (Shmem.Sys × Nat × Vmbox)) :=
  if ¬ (vmExists (vinfo.owner .be) ∧ vmExists (vinfo.owner .fe)) then some (.error .enoent)
  else if zallocOk then
    let iomemSize :=
      if vinfo.shmemSize = 0 then pageBalign (getVmboxIomemSize vinfo)
      else pageBalign vinfo.shmemSize
    match Shmem.allocShmem tagging sh (pageBalign iomemSize / 4096) env with
    | some (sh', some shmem) =>
      some (.ok (sh', shmem,
        { owner := vinfo.owner
          devid0 := vinfo.id0
          devid1 := vinfo.id1
          vqs := vinfo.vqs
          vringNum := vinfo.vringNum
          vringSize := vinfo.vringSize
          shmemSize := iomemSize }))
    | _ => none
  else some (.error .enomem)

/-! ## The driver -/

/-- An `int` converted to `size_t`. -/
def sext (w : Nat) : Nat := if w < 2 ^ 31 then w else w + (2 ^ 64 - 2 ^ 32)

/-- `struct vmbox_device` of the driver. -/
structure Device where
  nrVqs : Nat
  vringNum : Nat
  vringSize : Nat
  deriving DecidableEq, Repr

/-- `vmbox_get_device_info`, from the registers of the device. -/
def vmboxGetDeviceInfo (s : VmboxCon.Sys) (box : Vmbox) (d : DevRef) : Device where
  nrVqs := (devReadReg s box d 0x04).1
  vringNum := (devReadReg s box d 0x08).1
  vringSize := (devReadReg s box d 0x0c).1

/-- `vmbox_vq_vring_base`. -/
def vmboxVqVringBase (vdev : Device) (index : Nat) : Nat :=
  u64 (ipcAllEntrySize + sext index * virtqVringSize vdev.vringNum)

/-- `vmbox_vq_buf_base`. -/
def vmboxVqBufBase (vdev : Device) (index : Nat) : Nat :=
  u64 (ipcAllEntrySize + virtqVringSize vdev.vringNum * sext vdev.nrVqs +
    sext (u32 (u32 (vdev.vringSize * vdev.vringNum) * index)))

/-- `struct vmbox_virtqueue`. -/
structure Virtqueue where
  num : Nat
  vringSize : Nat
  vringBuf : Nat
  desc : Nat
  avail : Nat
  used : Nat
  deriving DecidableEq, Repr

/-- `vmbox_virtq_init`. -/
def vmboxVirtqInit (vdev : Device) (index : Nat) : Virtqueue :=
  let vringBase := vmboxVqVringBase vdev index
  { num := vdev.vringNum
    vringSize := vdev.vringSize
    vringBuf := vmboxVqBufBase vdev index
    desc := vringBase
    avail := u64 (vringBase + vringDescSize vdev.vringNum)
    used := u64 (vringBase + vringDescSize vdev.vringNum + vringAvailSize vdev.vringNum) }

/-- Where `vmbox_virtq_get_vring_buf` finds buffer `id`. -/
def Virtqueue.bufAddr (vq : Virtqueue) (id : Nat) : Nat :=
  u64 (vq.vringBuf + sext (u32 (vq.vringSize * id)))

/-- The queues that `vmbox_device_init` sets up: as many as `nr_vqs`, which is
an `int`. -/
def queues (vdev : Device) : List Virtqueue :=
  (List.range (if vdev.nrVqs < 2 ^ 31 then vdev.nrVqs else 0)).map (vmboxVirtqInit vdev)

/-! ## Statements -/

/-- The descriptors; the available ring, which ends with the `used_event`; the
used ring, which ends with the `avail_event`. -/
def Virtqueue.rings (vq : Virtqueue) : List (Nat × Nat) :=
  [(vq.desc, vq.desc + 16 * vq.num), (vq.avail, vq.avail + (2 * 2 + 2 * vq.num + 2)),
    (vq.used, vq.used + (2 * 2 + 8 * vq.num + 2))]

def Virtqueue.bufs (vq : Virtqueue) : List (Nat × Nat) :=
  (List.range vq.num).map fun id => (vq.bufAddr id, vq.bufAddr id + vq.vringSize)

/-- Everything the driver places in the shared memory. -/
def places (vdev : Device) : List (Nat × Nat) :=
  (queues vdev).flatMap Virtqueue.rings ++ (queues vdev).flatMap Virtqueue.bufs

structure LayoutOk (vdev : Device) (size : Nat) : Prop where
  disjoint : (places vdev).Pairwise Apart
  inside : ∀ p ∈ places vdev, ipcAllEntrySize ≤ p.1 ∧ p.2 ≤ size

/-- The bytes of the rings of one queue, each rounded up to the alignment. -/
def ringBytes (n : Nat) : Nat :=
  (16 * n + 7) / 8 * 8 + (2 * (3 + n) + 7) / 8 * 8 + (4 + 8 * (n + 1) + 7) / 8 * 8

/-- The driver sets no queue up, or both products fit in 32 bits. -/
def NoWrap (vinfo : VmboxInfo) : Prop :=
  vinfo.vqs = 0 ∨ 2 ^ 31 ≤ vinfo.vqs ∨
    ringBytes vinfo.vringNum * vinfo.vqs < 2 ^ 32 ∧
      vinfo.vringNum * vinfo.vringSize * vinfo.vqs < 2 ^ 32

instance (vinfo : VmboxInfo) : Decidable (NoWrap vinfo) :=
  inferInstanceAs (Decidable (_ ∨ _ ∨ _))

/-! ## Sizes that do not wrap -/

variable {n : Nat}

theorem roundedInt_of_lt (h : n < 2 ^ 32) : roundedInt n = n / 8 * 8 := by
  rw [roundedInt, u32_of_lt h]

theorem vringDescSize_eq (h : ringBytes n < 2 ^ 32) : vringDescSize n = (16 * n + 7) / 8 * 8 := by
  refine roundedInt_of_lt ?_
  unfold ringBytes at h
  omega

theorem vringAvailSize_eq (h : ringBytes n < 2 ^ 32) :
    vringAvailSize n = (2 * (3 + n) + 7) / 8 * 8 := by
  unfold ringBytes at h
  rw [vringAvailSize, u32_of_lt (by omega)]
  refine roundedInt_of_lt ?_
  omega

theorem vringUsedSize_eq (h : ringBytes n < 2 ^ 32) :
    vringUsedSize n = (4 + 8 * (n + 1) + 7) / 8 * 8 := by
  unfold ringBytes at h
  rw [vringUsedSize, u32_of_lt (by omega)]
  refine roundedInt_of_lt ?_
  omega

theorem virtqVringSize_eq (h : ringBytes n < 2 ^ 32) : virtqVringSize n = ringBytes n := by
  rw [virtqVringSize, vringDescSize_eq h, vringAvailSize_eq h, vringUsedSize_eq h]
  exact u32_of_lt h

/-! ## Placement -/

theorem sext_of_lt {w : Nat} (h : w < 2 ^ 31) : sext w = w := if_pos h

/-- There are queues, and what they take fits in the 2MB that can be shared. -/
structure Small (vdev : Device) : Prop where
  pos : 0 < vdev.nrVqs
  vqs : vdev.nrVqs < 2 ^ 31
  rings : vdev.nrVqs * ringBytes vdev.vringNum ≤ 2 ^ 21
  bufs : vdev.nrVqs * (vdev.vringNum * vdev.vringSize) ≤ 2 ^ 21

namespace Small

variable {vdev : Device} {i j : Nat}

theorem ringBytes_lt (h : Small vdev) : ringBytes vdev.vringNum < 2 ^ 32 := by
  have hle := Nat.le_mul_of_pos_left (ringBytes vdev.vringNum) h.pos
  have hrings := h.rings
  omega

theorem rings_le (h : Small vdev) (hi : i ≤ vdev.nrVqs) :
    i * ringBytes vdev.vringNum ≤ 2 ^ 21 :=
  Nat.le_trans (Nat.mul_le_mul_right _ hi) h.rings

theorem bufs_le (h : Small vdev) (hi : i ≤ vdev.nrVqs) :
    i * (vdev.vringNum * vdev.vringSize) ≤ 2 ^ 21 :=
  Nat.le_trans (Nat.mul_le_mul_right _ hi) h.bufs

theorem vringBase_eq (h : Small vdev) (hi : i < vdev.nrVqs) :
    vmboxVqVringBase vdev i = ipcAllEntrySize + i * ringBytes vdev.vringNum := by
  have hle := h.rings_le (Nat.le_of_lt hi)
  rw [vmboxVqVringBase, sext_of_lt (Nat.lt_trans hi h.vqs), virtqVringSize_eq h.ringBytes_lt]
  refine u64_of_lt ?_
  unfold ipcAllEntrySize
  omega

theorem bufBase_eq (h : Small vdev) (hi : i < vdev.nrVqs) :
    vmboxVqBufBase vdev i = ipcAllEntrySize + vdev.nrVqs * ringBytes vdev.vringNum +
      i * (vdev.vringNum * vdev.vringSize) := by
  have hall := h.rings
  have hone : vdev.vringSize * vdev.vringNum < 2 ^ 31 := by
    have hle := h.bufs_le h.pos
    rw [Nat.succ_mul, Nat.zero_mul, Nat.zero_add] at hle
    rw [Nat.mul_comm]
    exact Nat.lt_of_le_of_lt hle (by decide)
  have hmine : vdev.vringSize * vdev.vringNum * i < 2 ^ 31 := by
    have hle := h.bufs_le (Nat.le_of_lt hi)
    rw [Nat.mul_comm, Nat.mul_comm vdev.vringSize]
    exact Nat.lt_of_le_of_lt hle (by decide)
  rw [vmboxVqBufBase, virtqVringSize_eq h.ringBytes_lt, sext_of_lt h.vqs,
    u32_of_lt (Nat.lt_trans hone (by decide)), u32_of_lt (Nat.lt_trans hmine (by decide)),
    sext_of_lt hmine, Nat.mul_comm (ringBytes _), Nat.mul_comm vdev.vringSize, Nat.mul_comm _ i]
  rw [Nat.mul_comm vdev.vringSize, Nat.mul_comm _ i] at hmine
  refine u64_of_lt ?_
  unfold ipcAllEntrySize
  omega

theorem bufAddr_eq (h : Small vdev) (hi : i < vdev.nrVqs) (hj : j < vdev.vringNum) :
    (vmboxVirtqInit vdev i).bufAddr j =
      ipcAllEntrySize + vdev.nrVqs * ringBytes vdev.vringNum +
        i * (vdev.vringNum * vdev.vringSize) + j * vdev.vringSize := by
  have hrings := h.rings
  have hmine := h.bufs_le (Nat.le_of_lt hi)
  have hj' : j * vdev.vringSize ≤ 2 ^ 21 := by
    have hle := h.bufs_le h.pos
    rw [Nat.succ_mul, Nat.zero_mul, Nat.zero_add] at hle
    exact Nat.le_trans (Nat.mul_le_mul_right _ (Nat.le_of_lt hj)) hle
  have hlt : vdev.vringSize * j < 2 ^ 31 := by
    rw [Nat.mul_comm]
    exact Nat.lt_of_le_of_lt hj' (by decide)
  have hbase : (vmboxVirtqInit vdev i).vringBuf = vmboxVqBufBase vdev i := rfl
  have hsize : (vmboxVirtqInit vdev i).vringSize = vdev.vringSize := rfl
  rw [Virtqueue.bufAddr, hbase, hsize, h.bufBase_eq hi, u32_of_lt (Nat.lt_trans hlt (by decide)),
    sext_of_lt hlt, Nat.mul_comm vdev.vringSize j]
  refine u64_of_lt ?_
  unfold ipcAllEntrySize
  omega

/-- The rings of a queue are in order in a slot of `ringBytes`. -/
theorem rings_slot (h : Small vdev) (hi : i < vdev.nrVqs) :
    (vmboxVirtqInit vdev i).rings.Pairwise Apart ∧
      ∀ a ∈ (vmboxVirtqInit vdev i).rings,
        ipcAllEntrySize + i * ringBytes vdev.vringNum ≤ a.1 ∧
          a.2 ≤ ipcAllEntrySize + (i + 1) * ringBytes vdev.vringNum := by
  have hle := h.rings_le (Nat.le_of_lt hi)
  have hlt := h.ringBytes_lt
  have hslot := Nat.add_one_mul i (ringBytes vdev.vringNum)
  have hbytes := ringBytes.eq_1 vdev.vringNum
  unfold vmboxVirtqInit Virtqueue.rings
  simp only [h.vringBase_eq hi, vringDescSize_eq hlt, vringAvailSize_eq hlt]
  generalize ringBytes vdev.vringNum = bytes at *
  unfold ipcAllEntrySize
  rw [u64_of_lt (by omega), u64_of_lt (by omega)]
  simp only [List.pairwise_cons, List.mem_cons, List.not_mem_nil, or_false, forall_eq_or_imp,
    forall_eq, false_imp_iff, implies_true, List.Pairwise.nil, and_true, Apart]
  refine ⟨⟨⟨Or.inl ?_, Or.inl ?_⟩, Or.inl ?_⟩, ?_⟩ <;> omega

/-- The buffers of a queue are in order in a slot of their own. -/
theorem bufs_slot (h : Small vdev) (hi : i < vdev.nrVqs) :
    (vmboxVirtqInit vdev i).bufs.Pairwise Apart ∧
      ∀ a ∈ (vmboxVirtqInit vdev i).bufs,
        ipcAllEntrySize + vdev.nrVqs * ringBytes vdev.vringNum +
            i * (vdev.vringNum * vdev.vringSize) ≤ a.1 ∧
          a.2 ≤ ipcAllEntrySize + vdev.nrVqs * ringBytes vdev.vringNum +
            (i + 1) * (vdev.vringNum * vdev.vringSize) := by
  have hbufs : (vmboxVirtqInit vdev i).bufs = (List.range vdev.vringNum).flatMap fun j =>
      [((vmboxVirtqInit vdev i).bufAddr j,
        (vmboxVirtqInit vdev i).bufAddr j + vdev.vringSize)] := List.map_eq_flatMap
  have hin : ∀ j, j < vdev.vringNum → ∀ a ∈ [((vmboxVirtqInit vdev i).bufAddr j,
        (vmboxVirtqInit vdev i).bufAddr j + vdev.vringSize)],
      ipcAllEntrySize + vdev.nrVqs * ringBytes vdev.vringNum +
          i * (vdev.vringNum * vdev.vringSize) + j * vdev.vringSize ≤ a.1 ∧
        a.2 ≤ ipcAllEntrySize + vdev.nrVqs * ringBytes vdev.vringNum +
          i * (vdev.vringNum * vdev.vringSize) + (j + 1) * vdev.vringSize := by
    intro j hj a ha
    rw [List.mem_singleton.mp ha, h.bufAddr_eq hi hj, Nat.add_one_mul]
    exact ⟨Nat.le_refl _, Nat.le_of_eq (Nat.add_assoc _ _ _)⟩
  rw [hbufs, Nat.add_one_mul, ← Nat.add_assoc]
  exact ⟨apart_slots (fun _ _ => List.pairwise_singleton _ _) hin, inside_slots hin⟩

/-- Rings and buffers, one queue after the other, end where the memory does. -/
theorem layoutOk (h : Small vdev) {size : Nat}
    (hsize : ipcAllEntrySize + vdev.nrVqs * ringBytes vdev.vringNum +
      vdev.nrVqs * (vdev.vringNum * vdev.vringSize) ≤ size) : LayoutOk vdev size := by
  have hq : queues vdev = (List.range vdev.nrVqs).map (vmboxVirtqInit vdev) := by
    rw [queues, if_pos h.vqs]
  have hplaces : places vdev =
      ((List.range vdev.nrVqs).flatMap fun i => (vmboxVirtqInit vdev i).rings) ++
        (List.range vdev.nrVqs).flatMap fun i => (vmboxVirtqInit vdev i).bufs := by
    rw [places, hq, List.flatMap_map, List.flatMap_map]
  have hrings := inside_slots fun i hi => (h.rings_slot (i := i) hi).2
  have hbufs := inside_slots fun i hi => (h.bufs_slot (i := i) hi).2
  constructor
  · rw [hplaces]
    refine List.pairwise_append.mpr ⟨?_, ?_, ?_⟩
    · exact apart_slots (fun i hi => (h.rings_slot hi).1) fun i hi => (h.rings_slot hi).2
    · exact apart_slots (fun i hi => (h.bufs_slot hi).1) fun i hi => (h.bufs_slot hi).2
    · intro a ha b hb
      exact Or.inl (Nat.le_trans (hrings a ha).2 (hbufs b hb).1)
  · intro p hp
    rw [hplaces] at hp
    rcases List.mem_append.mp hp with hring | hbuf
    · have hin := hrings p hring
      omega
    · have hin := hbufs p hbuf
      omega

end Small

/-! ## Necessity -/

theorem ringBytes_le (n : Nat) : ringBytes n ≤ 26 * n + 39 := by
  unfold ringBytes
  omega

/-- Places that are disjoint are as many bytes as there are in the memory. -/
theorem LayoutOk.sum_le {vdev : Device} {size : Nat} (h : LayoutOk vdev size)
    (hvqs : vdev.nrVqs < 2 ^ 31) :
    vdev.nrVqs * (26 * vdev.vringNum + 12) +
      vdev.nrVqs * (vdev.vringNum * vdev.vringSize) ≤ size := by
  have hsum := sum_length_le (fun p hp => (h.inside p hp).2) h.disjoint
  have hlen : (queues vdev).length = vdev.nrVqs := by
    rw [queues, if_pos hvqs, List.length_map, List.length_range]
  have hnum : ∀ vq ∈ queues vdev, vq.num = vdev.vringNum ∧ vq.vringSize = vdev.vringSize := by
    intro vq hvq
    obtain ⟨i, -, rfl⟩ := List.mem_map.mp hvq
    exact ⟨rfl, rfl⟩
  have hrings : ∀ vq ∈ queues vdev,
      (vq.rings.map fun a => a.2 - a.1).sum = 26 * vdev.vringNum + 12 := by
    intro vq hvq
    rw [← (hnum vq hvq).1]
    simp only [Virtqueue.rings, List.map_cons, List.map_nil, List.sum_cons, List.sum_nil,
      Nat.add_sub_cancel_left]
    omega
  have hbufs : ∀ vq ∈ queues vdev,
      (vq.bufs.map fun a => a.2 - a.1).sum = vdev.vringNum * vdev.vringSize := by
    intro vq hvq
    rw [← (hnum vq hvq).1, ← (hnum vq hvq).2]
    simp [Virtqueue.bufs, List.map_map, Function.comp_def]
  rw [places, List.map_append, List.sum_append, sum_length_flatMap hrings,
    sum_length_flatMap hbufs, hlen] at hsum
  exact hsum

/-! ## Creation -/

variable {vinfo : VmboxInfo}

/-- What `create_vmbox` has allocated. -/
theorem createVmbox_spec {tagging : Bool} {vmExists : Nat → Bool} {zallocOk : Bool}
    {sh sh' : Shmem.Sys} {env : Shmem.Env} {shmem : Nat} {box : Vmbox}
    (hfix : vinfo.shmemSize = 0)
    (h : createVmbox tagging vmExists zallocOk sh env vinfo = some (.ok (sh', shmem, box))) :
    (box.vqs = vinfo.vqs ∧ box.vringNum = vinfo.vringNum ∧ box.vringSize = vinfo.vringSize) ∧
      getVmboxIomemHeaderSize vinfo + getVmboxIomemBufSize vinfo ≤ box.shmemSize ∧
      box.shmemSize ≤ 2 ^ 21 := by
  have hheader : getVmboxIomemHeaderSize vinfo < 2 ^ 33 := by
    have hlt := u32_lt (virtqVringSize vinfo.vringNum * vinfo.vqs)
    unfold getVmboxIomemHeaderSize ipcAllEntrySize
    omega
  have hbuf : getVmboxIomemBufSize vinfo < 2 ^ 32 := u32_lt _
  have hsize : getVmboxIomemSize vinfo =
      getVmboxIomemHeaderSize vinfo + getVmboxIomemBufSize vinfo := u64_of_lt (by omega)
  rw [← hsize]
  have hpage : pageSize = 4096 := rfl
  have hround : pageBalign (getVmboxIomemSize vinfo) =
      (getVmboxIomemSize vinfo + 4095) / 4096 * 4096 := pageBalign_eq (by omega)
  rw [createVmbox, if_pos hfix] at h
  split at h
  · cases h
  split at h
  swap
  · cases h
  simp only at h
  split at h
  swap
  · cases h
  rename_i halloc
  cases h
  refine ⟨⟨rfl, rfl, rfl⟩, ?_, ?_⟩
  · simp only
    omega
  · have hpages := Shmem.pages_le_of_alloc halloc
    simp only
    rw [pageBalign_eq (by omega)] at hpages
    unfold Shmem.pagesInBlock at hpages
    omega

/-- Without a queue there is nothing to place. -/
theorem layoutOk_of_queues {vdev : Device} (h : queues vdev = []) (size : Nat) :
    LayoutOk vdev size := by
  have hplaces : places vdev = [] := by rw [places, h, List.flatMap_nil, List.flatMap_nil]; rfl
  refine ⟨?_, ?_⟩
  · rw [hplaces]
    exact List.Pairwise.nil
  · simp [hplaces]

theorem headerSize_eq (hpos : 0 < vinfo.vqs)
    (h : ringBytes vinfo.vringNum * vinfo.vqs < 2 ^ 32) :
    getVmboxIomemHeaderSize vinfo
      = ipcAllEntrySize + vinfo.vqs * ringBytes vinfo.vringNum := by
  have hlt : ringBytes vinfo.vringNum < 2 ^ 32 :=
    Nat.lt_of_le_of_lt (Nat.le_mul_of_pos_right _ hpos) h
  rw [getVmboxIomemHeaderSize, virtqVringSize_eq hlt, u32_of_lt h, Nat.mul_comm]

theorem bufSize_eq (hpos : 0 < vinfo.vqs)
    (h : vinfo.vringNum * vinfo.vringSize * vinfo.vqs < 2 ^ 32) :
    getVmboxIomemBufSize vinfo = vinfo.vqs * (vinfo.vringNum * vinfo.vringSize) := by
  have hlt : vinfo.vringNum * vinfo.vringSize < 2 ^ 32 :=
    Nat.lt_of_le_of_lt (Nat.le_mul_of_pos_right _ hpos) h
  rw [getVmboxIomemBufSize, u32_of_lt hlt, u32_of_lt h, Nat.mul_comm]

/-- **The layout of a vmbox**: the rings and buffers that the driver computes are
disjoint and in the memory that was allocated exactly when the hypervisor's two
products do not wrap. -/
theorem vmbox_layout_iff {tagging : Bool} {vmExists : Nat → Bool} {zallocOk : Bool}
    {sh sh' : Shmem.Sys} {env : Shmem.Env} {vinfo : VmboxInfo} {shmem : Nat} {box : Vmbox}
    (hfix : vinfo.shmemSize = 0)
    (h : createVmbox tagging vmExists zallocOk sh env vinfo = some (.ok (sh', shmem, box)))
    (s : VmboxCon.Sys) (d : DevRef) :
    LayoutOk (vmboxGetDeviceInfo s box d) box.shmemSize ↔ NoWrap vinfo := by
  obtain ⟨⟨hq, hn, hs⟩, hfit, hmax⟩ := createVmbox_spec hfix h
  have hdev : vmboxGetDeviceInfo s box d = ⟨vinfo.vqs, vinfo.vringNum, vinfo.vringSize⟩ := by
    rw [← hq, ← hn, ← hs]
    rfl
  rw [hdev, NoWrap]
  by_cases hnone : vinfo.vqs = 0 ∨ 2 ^ 31 ≤ vinfo.vqs
  · have hempty : queues ⟨vinfo.vqs, vinfo.vringNum, vinfo.vringSize⟩ = [] := by
      have hcount : (if vinfo.vqs < 2 ^ 31 then vinfo.vqs else 0) = 0 := by split <;> omega
      simp only [queues, hcount, List.range_zero, List.map_nil]
    exact iff_of_true (layoutOk_of_queues hempty _) (or_assoc.mp (Or.inl hnone))
  rw [← or_assoc, or_iff_right hnone]
  obtain ⟨hpos, hlt⟩ := not_or.mp hnone
  have hpos := Nat.pos_of_ne_zero hpos
  have hlt := Nat.lt_of_not_le hlt
  constructor
  · intro hl
    have hsum := hl.sum_le hlt
    simp only at hsum
    have hrings : vinfo.vqs * ringBytes vinfo.vringNum ≤
        vinfo.vqs * (26 * vinfo.vringNum + 12) + vinfo.vqs * 27 := by
      rw [← Nat.mul_add]
      exact Nat.mul_le_mul_left _ (ringBytes_le _)
    have hmany : vinfo.vqs * 12 ≤ vinfo.vqs * (26 * vinfo.vringNum + 12) :=
      Nat.mul_le_mul_left _ (Nat.le_add_left _ _)
    rw [Nat.mul_comm (ringBytes _), Nat.mul_comm (_ * _) vinfo.vqs]
    exact ⟨by omega, by omega⟩
  · rintro ⟨hrings, hbufs⟩
    rw [headerSize_eq hpos hrings, bufSize_eq hpos hbufs] at hfit
    exact Small.layoutOk ⟨hpos, hlt, by simp only; omega, by simp only; omega⟩ hfit

/-- A pool of one block, from which a vmbox takes its memory. -/
def onePool : Shmem.Sys := Shmem.init (poolInit [(0x40000000, 0x40200000)])

def console : VmboxInfo := ⟨fun _ => 0, 0, 0, 2, 64, 1024, 0⟩

/-- Two queues of 64 buffers of 1KiB. -/
theorem vmbox_layout_two :
    ∃ sh' shmem box, createVmbox false (fun _ => true) true onePool .ready console
        = some (.ok (sh', shmem, box)) ∧ box.shmemSize = 0x21000 ∧
      LayoutOk (vmboxGetDeviceInfo twoGuests box ⟨0, .be⟩) box.shmemSize := by
  have hsize : ((createVmbox false (fun _ => true) true onePool .ready console).bind
      fun r => r.toOption).map (fun x => x.2.2.shmemSize) = some 0x21000 := by decide +kernel
  obtain ⟨⟨sh', shmem, box⟩, hok, hbox⟩ := Option.map_eq_some_iff.mp hsize
  obtain ⟨r, hr, hr'⟩ := Option.bind_eq_some_iff.mp hok
  cases r with
  | error err => cases hr'
  | ok x =>
    cases hr'
    exact ⟨sh', shmem, box, hr, hbox,
      (vmbox_layout_iff rfl hr twoGuests ⟨0, .be⟩).mpr (by decide)⟩

/-- 4096 buffers of 1MiB: the product wraps to 0, the memory is as large as the
rings, and no buffer is inside. -/
theorem vmbox_layout_wrapped :
    ∃ sh' shmem box, createVmbox false (fun _ => true) true onePool .ready
        ⟨fun _ => 0, 0, 0, 1, 4096, 0x100000, 0⟩ = some (.ok (sh', shmem, box)) ∧
      ¬ LayoutOk (vmboxGetDeviceInfo twoGuests box ⟨0, .be⟩) box.shmemSize := by
  refine ⟨_, _, _, rfl, ?_⟩
  intro h
  have hmem : ((vmboxVirtqInit ⟨1, 4096, 0x100000⟩ 0).bufAddr 0,
      (vmboxVirtqInit ⟨1, 4096, 0x100000⟩ 0).bufAddr 0 + 0x100000) ∈
        places ⟨1, 4096, 0x100000⟩ := by
    refine List.mem_append_right _ (List.mem_flatMap.mpr ?_)
    refine ⟨vmboxVirtqInit ⟨1, 4096, 0x100000⟩ 0, ?_, ?_⟩
    · exact List.mem_map_of_mem (by decide)
    · exact List.mem_map_of_mem (f := fun id => _) (List.mem_range.mpr (by decide))
  have hin := (h.inside _ hmem).2
  revert hin
  decide +kernel

end Minos.VmboxLayout
