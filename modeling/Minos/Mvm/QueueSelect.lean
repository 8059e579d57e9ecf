import Minos.Virt.VirtioMmio
import Minos.Mvm.Virtio

/-!
# Selecting and starting queues

A guest sets up a virtio queue with writes to `QUEUE_SEL`, `QUEUE_NUM` and `QUEUE_READY`, and
notifies the device with writes to `QUEUE_NOTIFY`. The hypervisor (`virt/virtio_mmio.c`)
keeps the first two in the page of registers it shares with `mvm`, and traps the others to
it; for `QUEUE_READY` it passes on what was selected. `virtio_queue_event` and
`virtio_buffer_event` of `devices/virtio/virtio.c` in `mvm` take the number of the queue from
the trap and the size of the queue from the page.
-/

namespace Minos.QueueSelect

open Minos.Lib
open Minos.Virtio (VirtioDevice mmioQueueSel mmioQueueNum mmioQueueReady mmioQueueNotify)
open Minos.Mvm (Vm VirtQueue QueueRegs)

/-! ## The back end -/

def mmioQueueNumMax : Nat := 0x034

/-- `struct virtio_device` of `mvm`. -/
structure Device where
  nrVq : Nat
  callback : Nat → Bool

/-- What a handler returns, the number of the queue it used, and the queues after it. -/
structure Handled where
  result : Except Errno Unit
  used : Option Nat
  vqs : Nat → VirtQueue

/-- `virtio_queue_event`. -/
def virtioQueueEvent (dev : Device) (vqs : Nat → VirtQueue) (arg : Nat) : Handled :=
  if dev.nrVq < arg then ⟨.error .einval, none, vqs⟩
  else
    { result :=
        if !dev.callback arg then .error .enoent
        else if !(vqs arg).ready then .error .eperm
        else .ok ()
      used := some arg
      vqs := vqs }

/-- The registers `virtio_buffer_event` reads from the page. -/
def queueRegs (page : VirtioDevice) : QueueRegs where
  num := BitVec.ofNat 32 (page.iomem mmioQueueNum)
  descHigh := BitVec.ofNat 32 (page.iomem Virtio.mmioQueueDescHigh)
  descLow := BitVec.ofNat 32 (page.iomem Virtio.mmioQueueDescLow)
  availHigh := BitVec.ofNat 32 (page.iomem Virtio.mmioQueueAvailHigh)
  availLow := BitVec.ofNat 32 (page.iomem Virtio.mmioQueueAvailLow)
  usedHigh := BitVec.ofNat 32 (page.iomem Virtio.mmioQueueUsedHigh)
  usedLow := BitVec.ofNat 32 (page.iomem Virtio.mmioQueueUsedLow)

/-- `virtio_buffer_event`. -/
def virtioBufferEvent (dev : Device) (vm : Vm) (page : VirtioDevice) (vqs : Nat → VirtQueue)
    (arg : Nat) : Handled :=
  if dev.nrVq ≤ arg then ⟨.error .einval, none, vqs⟩
  else
    { result := .ok ()
      used := some arg
      vqs := Function.update vqs arg (Mvm.virtioBufferEvent vm (queueRegs page)) }

/-- `virtio_mmio_write` of `mvm`. What a write to `STATUS` does has nothing to do with the
queues. -/
def virtioMmioWrite (dev : Device) (vm : Vm) (page : VirtioDevice) (vqs : Nat → VirtQueue)
    (addr value : Nat) : Handled :=
  let arg := u32 value
  let offset := sub64 addr page.vaStart
  if offset = mmioQueueReady then virtioBufferEvent dev vm page vqs arg
  else if offset = mmioQueueNotify then virtioQueueEvent dev vqs arg
  else ⟨.ok (), none, vqs⟩

/-! ## Runs -/

/-- The writes of the guest, with their values. -/
inductive Write
  | queueSel (value : Nat)
  | queueNum (value : Nat)
  | queueReady (value : Nat)
  | queueNotify (value : Nat)
  deriving DecidableEq, Repr

def Write.offset : Write → Nat
  | .queueSel _ => mmioQueueSel
  | .queueNum _ => mmioQueueNum
  | .queueReady _ => mmioQueueReady
  | .queueNotify _ => mmioQueueNotify

def Write.value : Write → Nat
  | .queueSel value | .queueNum value | .queueReady value | .queueNotify value => value

/-- The page of registers, and the queues of `mvm`. -/
structure Sys where
  page : VirtioDevice
  vqs : Nat → VirtQueue

/-- No queue is ready. -/
def fresh (page : VirtioDevice) : Sys := ⟨page, fun _ => ⟨0, 0, 0, 0, 0, 0, false⟩⟩

/-- The page after the stores of the hypervisor. -/
def pageAfter (s : Sys) (w : Write) : VirtioDevice :=
  (Virtio.virtioMmioWrite s.page w.offset (u32 w.value)).1.foldl VirtioDevice.store s.page

/-- What `mvm` does when the write is trapped to it. -/
def handled (dev : Device) (vm : Vm) (s : Sys) (w : Write) : Option Handled :=
  (Virtio.virtioMmioWrite s.page w.offset (u32 w.value)).2.map fun trap =>
    virtioMmioWrite dev vm (pageAfter s w) s.vqs trap.address trap.value

def step (dev : Device) (vm : Vm) (s : Sys) (w : Write) : Option Sys :=
  some ⟨pageAfter s w, ((handled dev vm s w).map Handled.vqs).getD s.vqs⟩

/-! ## What is promised -/

/-- The advertised maximum of the size of a queue. -/
def maxSize (page : VirtioDevice) : Nat := u32 (page.iomem mmioQueueNumMax)

/-- Every queue that is ready has a size between 1 and the maximum. -/
def Sized (s : Sys) : Prop :=
  ∀ i, (s.vqs i).ready = true → 1 ≤ (s.vqs i).num ∧ (s.vqs i).num ≤ maxSize s.page

/-- The back end uses queues of the device only, and those that are ready have a right
size. -/
def StepRight (dev : Device) (vm : Vm) (s : Sys) (w : Write) : Prop :=
  (∀ h ∈ handled dev vm s w, ∀ i ∈ h.used, i < dev.nrVq) ∧
    ∀ s', step dev vm s w = some s' → Sized s'

/-- The writes of a guest, when `sel` is selected and `num` was written as its size: no
notification is for the queue behind the last one, and what is made ready was given a size
in range since it was selected. -/
def WritesOk (nrVq max : Nat) : (sel num : Nat) → List Write → Prop
  | _, _, [] => True
  | _, _, .queueSel value :: l => WritesOk nrVq max (u32 value) 0 l
  | sel, _, .queueNum value :: l => WritesOk nrVq max sel (u32 value) l
  | sel, num, .queueReady _ :: l =>
    (sel < nrVq → 1 ≤ num ∧ num ≤ max) ∧ WritesOk nrVq max sel num l
  | sel, num, .queueNotify value :: l => u32 value ≠ nrVq ∧ WritesOk nrVq max sel num l

/-! ## One write -/

variable {dev : Device} {vm : Vm} {s s' : Sys} {sel num max : Nat}

theorem offset_of_address (va : Nat) {off : Nat} (h : off < 2 ^ 64) :
    sub64 (u64 (va + off)) va = off := by
  unfold sub64 u64
  omega

/-- What the page and the queues are, in terms of what the guest wrote. -/
structure Inv (sel num max : Nat) (s : Sys) : Prop where
  sel_eq : u32 (s.page.iomem mmioQueueSel) = sel
  num_eq : u32 (s.page.iomem mmioQueueNum) = num
  max_eq : maxSize s.page = max
  sized : Sized s

theorem u32_u32 (n : Nat) : u32 (u32 n) = u32 n := Nat.mod_mod n _

/-- Selecting a queue clears its registers. -/
theorem Inv.queueSel (h : Inv sel num max s) (dev : Device) (vm : Vm) (value : Nat) :
    StepRight dev vm s (.queueSel value) ∧
      ∀ s', step dev vm s (.queueSel value) = some s' → Inv (u32 value) 0 max s' := by
  have hnext : ∀ s', step dev vm s (.queueSel value) = some s' → Inv (u32 value) 0 max s' := by
    intro s' hs
    cases hs
    exact ⟨u32_u32 value, rfl, h.max_eq, h.sized⟩
  exact ⟨⟨fun _ hh => (nomatch hh), fun s' hs => (hnext s' hs).sized⟩, hnext⟩

/-- Any size is stored. -/
theorem Inv.queueNum (h : Inv sel num max s) (dev : Device) (vm : Vm) (value : Nat) :
    StepRight dev vm s (.queueNum value) ∧
      ∀ s', step dev vm s (.queueNum value) = some s' → Inv sel (u32 value) max s' := by
  have hnext : ∀ s', step dev vm s (.queueNum value) = some s' → Inv sel (u32 value) max s' := by
    intro s' hs
    cases hs
    exact ⟨h.sel_eq, u32_u32 value, h.max_eq, h.sized⟩
  exact ⟨⟨fun _ hh => (nomatch hh), fun s' hs => (hnext s' hs).sized⟩, hnext⟩

theorem handled_queueReady (h : Inv sel num max s) (value : Nat) :
    handled dev vm s (.queueReady value) = some (virtioBufferEvent dev vm s.page s.vqs sel) := by
  rw [← h.sel_eq]
  show some (virtioMmioWrite dev vm s.page s.vqs (u64 (s.page.vaStart + mmioQueueReady))
    (s.page.iomem mmioQueueSel)) = _
  rw [virtioMmioWrite, offset_of_address _ (by decide), if_pos rfl]

theorem handled_queueNotify (s : Sys) (value : Nat) :
    handled dev vm s (.queueNotify value) =
      some (virtioQueueEvent dev s.vqs (u32 value)) := by
  show some (virtioMmioWrite dev vm s.page s.vqs (u64 (s.page.vaStart + mmioQueueNotify))
    (u32 value)) = _
  rw [virtioMmioWrite, offset_of_address _ (by decide), if_neg (by decide), if_pos rfl, u32_u32]

/-- A queue that exists is made ready with the size in the page. -/
theorem Inv.queueReady (h : Inv sel num max s) (dev : Device) (vm : Vm) (value : Nat) :
    (StepRight dev vm s (.queueReady value) ↔ (sel < dev.nrVq → 1 ≤ num ∧ num ≤ max)) ∧
      ∀ s', step dev vm s (.queueReady value) = some s' → Sized s' → Inv sel num max s' := by
  have hstep : step dev vm s (.queueReady value) =
      some ⟨s.page, (virtioBufferEvent dev vm s.page s.vqs sel).vqs⟩ := by
    rw [step, handled_queueReady h]
    rfl
  refine ⟨?_, fun s' hs hsized => ?_⟩
  · rw [StepRight, hstep, handled_queueReady h]
    simp only [Option.mem_some_iff, forall_eq', Option.some.injEq]
    unfold virtioBufferEvent
    split
    · rename_i hrefused
      exact iff_of_true ⟨by simp, h.sized⟩ fun hlt => absurd hlt (Nat.not_lt.mpr hrefused)
    · rename_i hused
      rw [Nat.not_le] at hused
      have hnum : (Mvm.virtioBufferEvent vm (queueRegs s.page)).num = num :=
        (BitVec.toNat_ofNat _ 32).trans h.num_eq
      simp only [Option.mem_some_iff, forall_eq', hused, true_and, true_imp_iff]
      constructor
      · intro hsized
        have hsel := hsized sel
        dsimp only at hsel
        rw [Function.update_self, hnum, h.max_eq] at hsel
        exact hsel rfl
      · intro hrange i
        dsimp only
        by_cases hi : i = sel
        · subst hi
          rw [Function.update_self, hnum, h.max_eq]
          exact fun _ => hrange
        · rw [Function.update_of_ne hi]
          exact h.sized i
  · rw [hstep] at hs
    cases hs
    exact ⟨h.sel_eq, h.num_eq, h.max_eq, hsized⟩

/-- A notification is refused when its number is above that of the queues. -/
theorem Inv.queueNotify (h : Inv sel num max s) (dev : Device) (vm : Vm) (value : Nat) :
    (StepRight dev vm s (.queueNotify value) ↔ u32 value ≠ dev.nrVq) ∧
      ∀ s', step dev vm s (.queueNotify value) = some s' → Inv sel num max s' := by
  have hvqs : (virtioQueueEvent dev s.vqs (u32 value)).vqs = s.vqs := by
    unfold virtioQueueEvent
    split <;> rfl
  have hstep : step dev vm s (.queueNotify value) = some s := by
    rw [step, handled_queueNotify]
    show some (Sys.mk s.page (virtioQueueEvent dev s.vqs (u32 value)).vqs) = some s
    rw [hvqs]
  have hnext : ∀ s', step dev vm s (.queueNotify value) = some s' → Inv sel num max s' := by
    intro s' hs
    rw [hstep] at hs
    cases hs
    exact h
  refine ⟨?_, hnext⟩
  rw [StepRight, and_iff_left fun s' hs => (hnext s' hs).sized, handled_queueNotify]
  unfold virtioQueueEvent
  split
  · rename_i hrefused
    exact iff_of_true (by simp) (by omega)
  · rename_i hused
    simp only [Option.mem_some_iff, forall_eq']
    omega

/-! ## Sequences of writes -/

theorem Inv.along_iff (h : Inv sel num max s) (dev : Device) (vm : Vm) (l : List Write) :
    Along (step dev vm) (StepRight dev vm) s l ↔ WritesOk dev.nrVq max sel num l := by
  induction l generalizing sel num s with
  | nil => exact Iff.rfl
  | cons w l ih =>
    rw [along_cons]
    cases w with
    | queueSel value =>
      obtain ⟨hright, hnext⟩ := h.queueSel dev vm value
      rw [and_iff_right hright]
      exact ⟨fun hl => (ih (hnext _ rfl)).mp (hl _ rfl), fun hl s' hs => (ih (hnext s' hs)).mpr hl⟩
    | queueNum value =>
      obtain ⟨hright, hnext⟩ := h.queueNum dev vm value
      rw [and_iff_right hright]
      exact ⟨fun hl => (ih (hnext _ rfl)).mp (hl _ rfl), fun hl s' hs => (ih (hnext s' hs)).mpr hl⟩
    | queueReady value =>
      obtain ⟨hright, hnext⟩ := h.queueReady dev vm value
      rw [WritesOk, ← hright]
      refine and_congr_right fun hok => ?_
      exact ⟨fun hl => (ih (hnext _ rfl (hok.2 _ rfl))).mp (hl _ rfl),
        fun hl s' hs => (ih (hnext s' hs (hok.2 s' hs))).mpr hl⟩
    | queueNotify value =>
      obtain ⟨hright, hnext⟩ := h.queueNotify dev vm value
      rw [WritesOk, ← hright]
      refine and_congr_right fun _ => ?_
      exact ⟨fun hl => (ih (hnext _ rfl)).mp (hl _ rfl), fun hl s' hs => (ih (hnext s' hs)).mpr hl⟩

/-- **Queue selection.** Over the writes of a guest, `mvm` uses queues of the device only and
makes queues ready only with a size in range exactly if no notification is for the number of
queues and every queue made ready was given a size in range. Neither program checks that. -/
theorem queue_selection_right_iff (dev : Device) (vm : Vm) (page : VirtioDevice)
    (l : List Write) :
    Along (step dev vm) (StepRight dev vm) (fresh page) l ↔
      WritesOk dev.nrVq (maxSize page) (u32 (page.iomem mmioQueueSel))
        (u32 (page.iomem mmioQueueNum)) l :=
  Inv.along_iff ⟨rfl, rfl, rfl, fun _ h => absurd h Bool.false_ne_true⟩ dev vm l

/-- A page that advertises queues of at most 256. -/
def smallPage : VirtioDevice := ⟨0, fun off => if off = mmioQueueNumMax then 256 else 0⟩

/-- In a device of two queues, a notification for queue 2 makes `mvm` use what lies behind the
array of its queues, and queue 0 is made ready without a size, and with 65536. -/
theorem queue_selection_not_right :
    ¬ Along (step ⟨2, fun _ => true⟩ Mvm.smallVm) (StepRight ⟨2, fun _ => true⟩ Mvm.smallVm)
        (fresh smallPage) [.queueNotify 2] ∧
      ¬ Along (step ⟨2, fun _ => true⟩ Mvm.smallVm) (StepRight ⟨2, fun _ => true⟩ Mvm.smallVm)
        (fresh smallPage) [.queueSel 0, .queueReady 1] ∧
      ¬ Along (step ⟨2, fun _ => true⟩ Mvm.smallVm) (StepRight ⟨2, fun _ => true⟩ Mvm.smallVm)
        (fresh smallPage) [.queueSel 0, .queueNum 65536, .queueReady 1] := by
  refine ⟨?_, ?_, ?_⟩
  · rintro ⟨⟨hused, -⟩, -⟩
    have hlt := hused _ rfl 2 rfl
    exact absurd hlt (by decide)
  · rintro ⟨-, hrest⟩
    obtain ⟨⟨-, hsized⟩, -⟩ := hrest _ rfl
    have hrange := hsized _ rfl 0 rfl
    exact absurd hrange.1 (by decide)
  · rintro ⟨-, hrest⟩
    obtain ⟨-, hrest⟩ := hrest _ rfl
    obtain ⟨⟨-, hsized⟩, -⟩ := hrest _ rfl
    have hrange := hsized _ rfl 0 rfl
    exact absurd hrange.2 (by decide)

end Minos.QueueSelect
