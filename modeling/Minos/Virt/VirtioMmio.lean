import Minos.Lib.Run
import Minos.Lib.Word
import Mathlib.Logic.Function.Basic

/-!
# Virtio register page

The write handler of `virt/virtio_mmio.c`. A virtio-mmio device has one
4KB page of registers in memory shared with its back end in the host VM;
the guest reads the page directly, and its writes trap to
`virtio_mmio_write`, which stores to the page through the hypervisor's own
mapping of it. The address of the store for a `GUEST_FEATURES` write is
computed from the selector an earlier write left in the page, and a
write to `STATUS` stores the difference to what the register holds.
-/

namespace Minos.Virtio

open Minos.Lib

/-! ## The register map (`generic/virtio_mmio.h`) -/

def mmioHostFeatures : Nat := 0x010
def mmioHostFeaturesSel : Nat := 0x014
def mmioGuestFeatures : Nat := 0x020
def mmioGuestFeaturesSel : Nat := 0x024
def mmioGuestPageSize : Nat := 0x028
def mmioQueueSel : Nat := 0x030
def mmioQueueNum : Nat := 0x038
def mmioQueueAlign : Nat := 0x03c
def mmioQueuePfn : Nat := 0x040
def mmioQueueReady : Nat := 0x044
def mmioQueueNotify : Nat := 0x050
def mmioInterruptStatus : Nat := 0x060
def mmioInterruptAck : Nat := 0x064
def mmioStatus : Nat := 0x070
def mmioQueueDescLow : Nat := 0x080
def mmioQueueDescHigh : Nat := 0x084
def mmioQueueAvailLow : Nat := 0x090
def mmioQueueAvailHigh : Nat := 0x094
def mmioQueueUsedLow : Nat := 0x0a0
def mmioQueueUsedHigh : Nat := 0x0a4
def mmioHostFeature0 : Nat := 0x308
def mmioDriverFeature0 : Nat := 0x318

/-- `VIRTIO_DEVICE_IOMEM_SIZE`. -/
def deviceIomemSize : Nat := 0x1000

/-- The words `VIRTIO_MMIO_DRIVER_FEATURE0` to `3`. -/
def driverFeatureWords : List Nat := [0x318, 0x31c, 0x320, 0x324]

/-! ## The handler -/

/-- `struct virtio_device`: where the guest sees the page, and memory as
seen from `dev->iomem`, by byte offset. Offsets from `deviceIomemSize` on
are not the device's. -/
structure VirtioDevice where
  vaStart : Nat
  iomem : Nat → Nat

/-- A store `iowrite32(value, iomem + off)`. -/
structure Store where
  off : Nat
  value : Nat
  deriving DecidableEq, Repr

/-- What is sent to the back end: `trap_mmio_write(address, &value)`, or
its non-blocking form. -/
structure Trap where
  nonblock : Bool
  address : Nat
  value : Nat
  deriving DecidableEq, Repr

/-- Registers a write to which is stored as it is. `QUEUE_NUM` warns when
the value exceeds `QUEUE_NUM_MAX` and stores it all the same. -/
def plainRegisters : List Nat :=
  [mmioGuestFeaturesSel, mmioGuestPageSize, mmioQueueNum, mmioQueueAlign,
    mmioQueuePfn, mmioQueueDescLow, mmioQueueAvailLow, mmioQueueUsedLow,
    mmioQueueDescHigh, mmioQueueUsedHigh, mmioQueueAvailHigh]

/-- What a write to `QUEUE_SEL` clears. -/
def queueRegisters : List Nat :=
  [mmioQueueReady, mmioQueueNum, mmioQueueDescLow, mmioQueueDescHigh,
    mmioQueueAvailLow, mmioQueueAvailHigh, mmioQueueUsedLow, mmioQueueUsedHigh]

/-- `virtio_mmio_write`: the stores it makes, in order, and what it traps
to the back end. `value` is the low word of `*write_value`. -/
def virtioMmioWrite (dev : VirtioDevice) (offset value : Nat) :
    List Store × Option Trap :=
  let address := u64 (dev.vaStart + offset)
  if offset = mmioHostFeatures then ([], none)
  else if offset = mmioHostFeaturesSel then
    if 3 < value then ([], none)
    else ([⟨mmioHostFeatures, dev.iomem (mmioHostFeature0 + value * 4)⟩], none)
  else if offset = mmioGuestFeatures then
    -- `tmp` is a `uint32_t`
    let tmp := u32 (dev.iomem mmioGuestFeaturesSel * 4 + mmioDriverFeature0)
    ([⟨tmp, value⟩], none)
  else if offset = mmioQueueSel then
    (⟨mmioQueueSel, value⟩ :: queueRegisters.map fun r => ⟨r, 0⟩, none)
  else if offset ∈ plainRegisters then ([⟨offset, value⟩], none)
  else if offset = mmioQueueNotify then ([], some ⟨true, address, value⟩)
  else if offset = mmioStatus then
    let value := u32 (value + (2 ^ 32 - dev.iomem mmioStatus % 2 ^ 32))
    ([⟨mmioStatus, value⟩], some ⟨false, address, value⟩)
  else if offset = mmioQueueReady then
    ([], some ⟨false, address, dev.iomem mmioQueueSel⟩)
  else if offset = mmioInterruptAck then
    ([⟨mmioInterruptAck, 0⟩, ⟨mmioInterruptStatus, 0⟩], none)
  else ([], some ⟨false, address, value⟩)

/-- Memory after a store. -/
def VirtioDevice.store (dev : VirtioDevice) (st : Store) : VirtioDevice :=
  { dev with iomem := Function.update dev.iomem st.off st.value }

/-- A guest write to the device, or a store by the back end, which shares
the page. -/
inductive Access
  | guest (offset value : Nat)
  | backend (off value : Nat)
  deriving DecidableEq, Repr

/-- The stores the hypervisor performs for an access. -/
def hypervisorStores (dev : VirtioDevice) : Access → List Store
  | .guest offset value => (virtioMmioWrite dev offset (u32 value)).1
  | .backend _ _ => []

def virtioStep (dev : VirtioDevice) (a : Access) : Option VirtioDevice :=
  match a with
  | .guest _ _ => some ((hypervisorStores dev a).foldl VirtioDevice.store dev)
  | .backend off value =>
    if off % 4 = 0 ∧ off < deviceIomemSize then some (dev.store ⟨off, value⟩)
    else none

/-! ## Confinement -/

/-- Every store lands in the device's page, and one made for a
`GUEST_FEATURES` write in a `DRIVER_FEATURE` word. -/
def Confined (dev : VirtioDevice) (a : Access) : Prop :=
  (∀ st ∈ hypervisorStores dev a, st.off + 4 ≤ deviceIomemSize) ∧
    ∀ value, a = .guest mmioGuestFeatures value →
      ∀ st ∈ hypervisorStores dev a, st.off ∈ driverFeatureWords

/-- The selector after an access, followed through the accesses alone. -/
def selAfter (sel : Nat) : Access → Nat
  | .guest offset value =>
    if offset = mmioGuestFeaturesSel then u32 value else sel
  | .backend off value => if off = mmioGuestFeaturesSel then value else sel

/-- Every `GUEST_FEATURES` write of the sequence comes while the selector
written last names one of the four words. -/
def SelOk : Nat → List Access → Prop
  | _, [] => True
  | sel, a :: l =>
    (∀ value, a = .guest mmioGuestFeatures value → sel % 2 ^ 30 < 4) ∧
      SelOk (selAfter sel a) l

@[simp] theorem store_iomem (dev : VirtioDevice) (st : Store) (off : Nat) :
    (dev.store st).iomem off = if off = st.off then st.value else dev.iomem off := by
  simp [VirtioDevice.store, Function.update_apply]

theorem featureWord_iff (sel : Nat) :
    u32 (sel * 4 + mmioDriverFeature0) ∈ driverFeatureWords ↔
      sel % 2 ^ 30 < 4 := by
  simp only [u32, mmioDriverFeature0, driverFeatureWords, List.mem_cons,
    List.not_mem_nil, or_false]
  omega

/-- The registers that handlers store to under another register's
offset, `GUEST_FEATURES` apart. -/
def fixedRegisters : List Nat :=
  mmioHostFeatures :: mmioQueueSel :: mmioStatus :: mmioInterruptAck ::
    mmioInterruptStatus :: queueRegisters

theorem stores_guestFeatures (dev : VirtioDevice) (value : Nat) :
    (virtioMmioWrite dev mmioGuestFeatures value).1
      = [⟨u32 (dev.iomem mmioGuestFeaturesSel * 4 + mmioDriverFeature0),
          value⟩] := by
  unfold virtioMmioWrite
  rw [if_neg (by decide), if_neg (by decide), if_pos rfl]

/-- Every handler but that of `GUEST_FEATURES` stores to fixed registers. -/
theorem store_fixed {dev : VirtioDevice} {offset value : Nat}
    (h : offset ≠ mmioGuestFeatures) {st : Store}
    (hst : st ∈ (virtioMmioWrite dev offset value).1) :
    st.off ∈ fixedRegisters ∨ st.off = offset ∧ offset ∈ plainRegisters := by
  unfold virtioMmioWrite at hst
  simp only [if_neg h] at hst
  split_ifs at hst with h1 h2 h3 h4 h5 h6 h7 h8 h9
  · simp at hst
  · simp at hst
  · rw [List.mem_singleton.mp hst]
    simp [fixedRegisters]
  · -- `QUEUE_SEL` and the registers it clears
    rcases List.mem_cons.mp hst with rfl | hst
    · simp [fixedRegisters]
    · obtain ⟨r, hr, rfl⟩ := List.mem_map.mp hst
      simp [fixedRegisters, hr]
  · rw [List.mem_singleton.mp hst]
    exact Or.inr ⟨rfl, h5⟩
  · simp at hst
  · rw [List.mem_singleton.mp hst]
    simp [fixedRegisters]
  · simp at hst
  · simp only [List.mem_cons, List.not_mem_nil, or_false] at hst
    rcases hst with rfl | rfl <;> simp [fixedRegisters]
  · simp at hst

/-- One access is confined exactly when a `GUEST_FEATURES` write finds a
selector that names one of the four words. -/
theorem confined_iff (dev : VirtioDevice) (a : Access) :
    Confined dev a ↔ ∀ value, a = .guest mmioGuestFeatures value →
      dev.iomem mmioGuestFeaturesSel % 2 ^ 30 < 4 := by
  have hin : ∀ off ∈ driverFeatureWords ++ fixedRegisters ++ plainRegisters,
      off + 4 ≤ deviceIomemSize := by decide
  constructor
  · rintro ⟨-, hword⟩ value rfl
    rw [← featureWord_iff]
    refine hword value rfl ⟨_, u32 value⟩ ?_
    rw [hypervisorStores, stores_guestFeatures]
    exact List.mem_singleton.mpr rfl
  · intro h
    cases a with
    | backend off value => exact ⟨by simp [hypervisorStores], by simp⟩
    | guest offset value =>
      by_cases hoff : offset = mmioGuestFeatures
      · subst hoff
        have hall : ∀ st ∈ hypervisorStores dev (.guest mmioGuestFeatures value),
            st.off ∈ driverFeatureWords := by
          intro st hst
          rw [hypervisorStores, stores_guestFeatures] at hst
          rw [List.mem_singleton.mp hst]
          exact (featureWord_iff _).mpr (h value rfl)
        exact ⟨fun st hst => hin _ (by simp [hall st hst]), fun _ _ => hall⟩
      · refine ⟨fun st hst => ?_, fun v hv => ?_⟩
        · rcases store_fixed hoff hst with hf | ⟨heq, hp⟩
          · exact hin _ (by simp [hf])
          · exact hin _ (by simp [heq, hp])
        · cases hv
          exact absurd rfl hoff

theorem iomem_foldl_of_ne {stores : List Store} {off : Nat}
    (h : ∀ st ∈ stores, st.off ≠ off) (dev : VirtioDevice) :
    (stores.foldl VirtioDevice.store dev).iomem off = dev.iomem off := by
  induction stores generalizing dev with
  | nil => rfl
  | cons st stores ih =>
    rw [List.foldl_cons, ih (fun x hx => h x (List.mem_cons_of_mem _ hx)),
      store_iomem, if_neg (h st List.mem_cons_self).symm]

/-- After a confined access the selector in the page is the one the
accesses say. -/
theorem sel_step {dev dev' : VirtioDevice} {a : Access} (hc : Confined dev a)
    (h : virtioStep dev a = some dev') :
    dev'.iomem mmioGuestFeaturesSel
      = selAfter (dev.iomem mmioGuestFeaturesSel) a := by
  cases a with
  | backend off value =>
    simp only [virtioStep] at h
    split at h
    · cases h
      rw [store_iomem, selAfter]
      simp only [eq_comm]
    · cases h
  | guest offset value =>
    cases h
    by_cases hsel : offset = mmioGuestFeaturesSel
    · subst hsel
      rw [selAfter, if_pos rfl]
      rfl
    · rw [selAfter, if_neg hsel]
      refine iomem_foldl_of_ne (fun st hst heq => ?_) dev
      have hno : ∀ off ∈ driverFeatureWords ++ fixedRegisters,
          off ≠ mmioGuestFeaturesSel := by decide
      by_cases hoff : offset = mmioGuestFeatures
      · subst hoff
        exact hno _ (by simp [hc.2 value rfl st hst]) heq
      · rcases store_fixed hoff hst with hf | ⟨hself, -⟩
        · exact hno _ (by simp [hf]) heq
        · exact hsel (hself.symm.trans heq)

/-- **Register confinement**: for every content of the page and every
sequence of accesses, all stores are confined exactly when each
`GUEST_FEATURES` write comes while the selector written last is one of
`0` to `3`, up to its two top bits. -/
theorem virtio_confined_iff (dev : VirtioDevice) (l : List Access)
    (hl : ∀ off value, Access.backend off value ∈ l →
      off % 4 = 0 ∧ off < deviceIomemSize) :
    Along virtioStep Confined dev l ↔
      SelOk (dev.iomem mmioGuestFeaturesSel) l := by
  induction l generalizing dev with
  | nil => exact Iff.rfl
  | cons a l ih =>
    have hl' : ∀ off value, Access.backend off value ∈ l →
        off % 4 = 0 ∧ off < deviceIomemSize :=
      fun off value h => hl off value (List.mem_cons_of_mem _ h)
    have hen : ∃ dev', virtioStep dev a = some dev' := by
      cases a with
      | guest offset value => exact ⟨_, rfl⟩
      | backend off value =>
        exact ⟨_, by rw [virtioStep, if_pos (hl off value List.mem_cons_self)]⟩
    obtain ⟨dev', hdev'⟩ := hen
    rw [along_cons, SelOk, ← confined_iff]
    refine and_congr_right fun hc => ?_
    rw [← sel_step hc hdev', ← ih dev' hl']
    constructor
    · intro h
      exact h dev' hdev'
    · intro h dev'' hdev''
      rw [hdev'] at hdev''
      cases hdev''
      exact h

/-- A driver that sets the four feature words one after the other. -/
theorem virtio_confined_driver :
    Along virtioStep Confined ⟨0x0a000000, fun _ => 0⟩
      [.guest mmioGuestFeaturesSel 0, .guest mmioGuestFeatures 0x30000000,
        .guest mmioGuestFeaturesSel 1, .guest mmioGuestFeatures 1] :=
  (virtio_confined_iff _ _ (by simp)).mpr
    ⟨fun _ _ => by decide, fun _ _ => by decide, fun _ _ => by decide,
      fun _ _ => by decide, trivial⟩

/-- A selector of `1024` sends the next `GUEST_FEATURES` write out of the
page. -/
theorem virtio_store_outside :
    ¬ Along virtioStep Confined ⟨0x0a000000, fun _ => 0⟩
        [.guest mmioGuestFeaturesSel 1024, .guest mmioGuestFeatures 0x41414141] ∧
      ∃ dev, virtioStep ⟨0x0a000000, fun _ => 0⟩
          (.guest mmioGuestFeaturesSel 1024) = some dev ∧
        hypervisorStores dev (.guest mmioGuestFeatures 0x41414141)
          = [⟨0x1318, 0x41414141⟩] := by
  have hstores : hypervisorStores
      (VirtioDevice.store ⟨0x0a000000, fun _ => 0⟩ ⟨mmioGuestFeaturesSel, 1024⟩)
      (.guest mmioGuestFeatures 0x41414141) = [⟨0x1318, 0x41414141⟩] := by
    rw [hypervisorStores, stores_guestFeatures, store_iomem, if_pos rfl]
    decide
  have hstep : virtioStep ⟨0x0a000000, fun _ => 0⟩
      (.guest mmioGuestFeaturesSel 1024) = some (VirtioDevice.store
        ⟨0x0a000000, fun _ => 0⟩ ⟨mmioGuestFeaturesSel, 1024⟩) := rfl
  refine ⟨fun h => ?_, _, hstep, hstores⟩
  have hpage := (h.2 _ hstep).1.1 ⟨0x1318, 0x41414141⟩ (by rw [hstores]; simp)
  exact absurd hpage (by decide)

/-! ## The status register -/

/-- What a guest write of `value` to `STATUS` should do: the register
reads back as `value`, and the back end is told of the bits the write
set, those of `value` that the register did not hold. -/
def StatusRight (dev : VirtioDevice) (value : Nat) : Prop :=
  (∀ dev', virtioStep dev (.guest mmioStatus value) = some dev' →
      dev'.iomem mmioStatus = u32 value) ∧
    (virtioMmioWrite dev mmioStatus (u32 value)).2.map Trap.value
      = some (u32 value ^^^ (u32 value &&& dev.iomem mmioStatus))

/-- A write of `value` to `STATUS`. -/
def statusStep (dev : VirtioDevice) (value : Nat) : Option VirtioDevice :=
  virtioStep dev (.guest mmioStatus value)

/-- What the handler stores and forwards: the difference between the value
written and the register. -/
def statusDelta (dev : VirtioDevice) (value : Nat) : Nat :=
  u32 (u32 value + (2 ^ 32 - dev.iomem mmioStatus % 2 ^ 32))

theorem virtioMmioWrite_status (dev : VirtioDevice) (value : Nat) :
    virtioMmioWrite dev mmioStatus (u32 value)
      = ([⟨mmioStatus, statusDelta dev value⟩],
          some ⟨false, u64 (dev.vaStart + mmioStatus), statusDelta dev value⟩) := by
  unfold virtioMmioWrite
  rw [if_neg (by decide), if_neg (by decide), if_neg (by decide),
    if_neg (by decide), if_neg (by decide), if_neg (by decide), if_pos rfl]
  rfl

theorem statusStep_eq (dev : VirtioDevice) (value : Nat) :
    statusStep dev value
      = some (dev.store ⟨mmioStatus, statusDelta dev value⟩) := by
  simp only [statusStep, virtioStep, hypervisorStores, virtioMmioWrite_status]
  rfl

/-- A write does what it should exactly when it finds the register clear. -/
theorem statusRight_iff (dev : VirtioDevice) (value : Nat)
    (hreg : dev.iomem mmioStatus < 2 ^ 32) :
    StatusRight dev value ↔ dev.iomem mmioStatus = 0 := by
  have hstep := statusStep_eq dev value
  rw [statusStep] at hstep
  have hread : (∀ dev', virtioStep dev (.guest mmioStatus value) = some dev' →
      dev'.iomem mmioStatus = u32 value) ↔ statusDelta dev value = u32 value := by
    simp [hstep]
  rw [StatusRight, hread, virtioMmioWrite_status]
  constructor
  · rintro ⟨h, -⟩
    simp only [statusDelta, u32] at h
    omega
  · intro h
    have hdelta : statusDelta dev value = u32 value := by
      simp only [statusDelta, u32, h]
      omega
    exact ⟨hdelta, by simp [hdelta, h]⟩

theorem statusDelta_lt (dev : VirtioDevice) (value : Nat) :
    statusDelta dev value < 2 ^ 32 :=
  Nat.mod_lt _ (by decide)

/-- Along a sequence of writes to `STATUS` every one of them reads back as
written and forwards the bits it set, exactly when the register starts
clear and only the last write sets anything. -/
theorem virtio_status_right_iff (dev : VirtioDevice) (l : List Nat)
    (hreg : dev.iomem mmioStatus < 2 ^ 32) :
    Along statusStep StatusRight dev l ↔
      l = [] ∨ dev.iomem mmioStatus = 0 ∧ ∀ value ∈ l.dropLast, u32 value = 0 := by
  induction l generalizing dev with
  | nil => exact ⟨fun _ => Or.inl rfl, fun _ => trivial⟩
  | cons value l ih =>
    rw [along_cons, statusRight_iff dev value hreg, statusStep_eq]
    have hnext := ih (dev.store ⟨mmioStatus, statusDelta dev value⟩)
      (by simpa using statusDelta_lt dev value)
    simp only [Option.some.injEq, forall_eq', hnext, store_iomem, if_true,
      List.cons_ne_nil, false_or]
    refine and_congr_right fun hzero => ?_
    have hdelta : statusDelta dev value = u32 value := by
      simp only [statusDelta, u32, hzero]
      omega
    cases l with
    | nil => simp
    | cons next l => simp [hdelta]

/-- A driver that resets the device twice and then acknowledges it. -/
theorem virtio_status_right_reset :
    Along statusStep StatusRight ⟨0x0a000000, fun _ => 0⟩ [0, 0, 1] :=
  (virtio_status_right_iff _ _ (by decide)).mpr (Or.inr ⟨rfl, by decide⟩)

/-- After `ACKNOWLEDGE` and `ACKNOWLEDGE | DRIVER` the register reads
`DRIVER` alone, and a reset then leaves `0xfffffffe` in it. -/
theorem virtio_status_reset_not_clear :
    (run statusStep ⟨0x0a000000, fun _ => 0⟩ [1, 3]).map
        (fun dev => dev.iomem mmioStatus) = some 2 ∧
      (run statusStep ⟨0x0a000000, fun _ => 0⟩ [1, 3, 0]).map
        (fun dev => dev.iomem mmioStatus) = some 0xfffffffe ∧
      ¬ Along statusStep StatusRight ⟨0x0a000000, fun _ => 0⟩ [1, 3, 0] := by
  refine ⟨by decide, by decide, fun h => ?_⟩
  have hread := (h.2 _ (statusStep_eq _ _)).1.1 _ (statusStep_eq _ _)
  exact absurd hread (by decide)

end Minos.Virtio
