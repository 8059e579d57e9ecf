import Minos.Lib.Count
import Minos.Virt.Virq

/-!
# List registers of the virtual GIC

Injection of virtual interrupts and the hooks on guest entry and exit
(`virt/virq.c`, `virt/virq_chips/vgic.c`). What is in a vcpu's list
registers is recorded four times: in `active_bitmap`, in `lrs_bitmap`, in the
`id` of each descriptor and in the counters of `struct virq_struct`.

The descriptors of shared lines belong to the VM, those of private lines to
a vcpu, so the state of the model is the whole VM. The content of the
hardware's list registers at an exit is a label of the step: the guest and
the hardware may leave anything there.

No lock covers the pending bitmap and its counter, so a send and a reset each
take two steps, and the state has the sends and resets that are between them.
-/

namespace Minos.Virq

open Minos.Lib

/-! ## Injection -/

/-- `__send_virq`, from the vcpu `cur`. -/
def sendVirqPending (vm : Vm) (cur v : Nat) (r : DescRef) : Vm :=
  let vs := vm.vcpu v
  let vno := (vm.desc r).vno
  if testBit vno vs.pendingBitmap then vm
  else
    let vm := vm.setVcpu v { vs with
      pendingBitmap := setBit vno vs.pendingBitmap
      pendingVirq := vs.pendingVirq + 1 }
    if vno < vmSgiVirqNr then vm.setDesc r { vm.desc r with src := cur % 2 ^ 8 }
    else vm

/-- `__send_virq` with the bit clear, up to its `test_and_set_bit`. -/
def markPending (vm : Vm) (v : Nat) (r : DescRef) : Vm :=
  let vs := vm.vcpu v
  vm.setVcpu v { vs with pendingBitmap := setBit (vm.desc r).vno vs.pendingBitmap }

/-- The rest of it. -/
def countPending (vm : Vm) (cur v : Nat) (r : DescRef) : Vm :=
  let vs := vm.vcpu v
  let vm := vm.setVcpu v { vs with pendingVirq := vs.pendingVirq + 1 }
  if (vm.desc r).vno < vmSgiVirqNr then vm.setDesc r { vm.desc r with src := cur % 2 ^ 8 }
  else vm

/-- `send_virq`. The vcpu is dereferenced before it is compared with
`NULL`: no vcpu is a fault. -/
def sendVirq (vm : Vm) (cur v : Nat) (r : Option DescRef) : Option (Except Errno Vm) :=
  if vm.vcpuNr ≤ v then none
  else
    match r with
    | none => some (.error .einval)
    | some r =>
      if vm.state ≠ .online ∧ vm.state ≠ .suspend then some (.error .eperm)
      else if vm.state = .suspend ∧ virqCanWakeup (vm.desc r) = false then
        some (.error .eagain)
      else some (.ok (sendVirqPending vm cur v r))

/-- `send_virq_to_vcpu`. -/
def sendVirqToVcpu (vm : Vm) (cur v virq : Nat) : Option (Except Errno Vm) :=
  sendVirq vm cur v (getVirqDesc vm v virq)

/-- `send_virq_to_vm`: shared lines only, to the vcpu of the descriptor. -/
def sendVirqToVm (vm : Vm) (cur virq : Nat) : Option (Except Errno Vm) :=
  if virq < vmLocalVirqNr then some (.error .einval)
  else
    match getVirqDesc vm 0 virq with
    | none => some (.error .enoent)
    | some r =>
      if virqIsEnabled (vm.desc r) = false then some (.error .eagain)
      else if virqIsHw (vm.desc r) then some (.error .eperm)
      else sendVirq vm cur (vm.desc r).vcpuId (some r)

/-- `guest_irq_handler`, the handler of a hardware line bound to `r`, on the
cpu that runs the vcpu `cur`. A descriptor of another VM's number is that
VM's. -/
def guestIrqHandler (vm : Vm) (cur : Nat) (r : DescRef) : Option (Except Errno Vm) :=
  let desc := vm.desc r
  if virqIsHw desc = false then some (.error .einval)
  else if desc.vmid = virqAffinityVmAny ∧ desc.vcpuId = virqAffinityVcpuAny then
    sendVirq vm cur cur (some r)
  else if desc.vmid = vm.vmid then sendVirq vm cur desc.vcpuId (some r)
  else some (.error .einval)

/-- `virq_enable`, which guests reach through `GICD_ISENABLER`. The mask of a
hardware line is not part of the model. -/
def virqEnable (vm : Vm) (v virq : Nat) : Vm :=
  match getVirqDesc vm v virq with
  | none => vm
  | some r => vm.setDesc r ((vm.desc r).setFlag virqsEnabledBit)

/-- `virq_disable`. -/
def virqDisable (vm : Vm) (v virq : Nat) : Vm :=
  match getVirqDesc vm v virq with
  | none => vm
  | some r => vm.setDesc r ((vm.desc r).clearFlag virqsEnabledBit)

/-- `clear_pending_virq`, which guests reach through `GICR_ICPENDR0`. -/
def clearPendingVirq (vm : Vm) (v irq : Nat) : Vm :=
  match getVirqDesc vm v irq with
  | none => vm
  | some r =>
    if (vm.desc r).state ≠ .active then vm
    else
      let vs := vm.vcpu v
      let vm := vm.setVcpu v { vs with activeBitmap := clearBit irq vs.activeBitmap }
      vm.setDesc r { vm.desc r with state := .inactive }

/-! ## Guest entry and exit -/

/-- The body of the entry loop once the list register `id` is found: the
line moves from pending to active. -/
def injectVirq (vm : Vm) (v : Nat) (r : DescRef) (bit id : Nat) : Vm :=
  let vs := vm.vcpu v
  let desc := vm.desc r
  (vm.setVcpu v { vs with
    lrsBitmap := setBit id vs.lrsBitmap
    activeBitmap := setBit bit vs.activeBitmap
    activeVirq := u32 (vs.activeVirq + 1)
    pendingVirq := vs.pendingVirq - 1
    pendingBitmap := clearBit bit vs.pendingBitmap }).setDesc r
      { desc with id := id % 2 ^ 8, state := .pending }

/-- `FIQ_HAS_INJECT` and the count of injected lines. -/
def injectFlags (flags : BitVec 32) (d : VirqDesc) : BitVec 32 :=
  (if d.flags.getLsbD virqsFiqBit then flags ||| BitVec.twoPow 32 31 else flags) + 1

/-- `for_each_set_bit_from(bit, vs->pending_bitmap, size)`. Every turn of the
loop is at a larger bit, so `size` turns are enough. -/
def enterScan (v size : Nat) : Nat → Vm × BitVec 32 → Nat → Vm × BitVec 32
  | 0, s, _ => s
  | fuel + 1, (vm, flags), bit =>
    if size ≤ bit then (vm, flags)
    else
      let vs := vm.vcpu v
      match getVirqDesc vm v bit with
      | none =>
        let pending := clearBit bit vs.pendingBitmap
        enterScan v size fuel (vm.setVcpu v { vs with pendingBitmap := pending }, flags)
          (findNextBit pending size (bit + 1))
      | some r =>
        if testBit bit vs.activeBitmap then
          enterScan v size fuel (vm, flags) (findNextBit vs.pendingBitmap size (bit + 1))
        else
          let id := findFirstZeroBit vs.lrsBitmap vs.nrLrs
          if vs.nrLrs ≤ id then (vm.setVcpu v { vs with lastFailVirq := bit }, flags)
          else
            let flags := injectFlags flags (vm.desc r)
            let vm := injectVirq vm v r bit id
            enterScan v size fuel (vm, flags)
              (findNextBit (vm.vcpu v).pendingBitmap size (bit + 1))

/-- `vgic_irq_enter_to_guest`: from the line that found no list register
last time, then, unless that happened again, the lines below it. -/
def vgicIrqEnterToGuest (vm : Vm) (v : Nat) : Vm × BitVec 32 :=
  let vs := vm.vcpu v
  let old := vs.lastFailVirq
  let size := vmIrqCount vm - old
  let vm := vm.setVcpu v { vs with lastFailVirq := 0 }
  let s := enterScan v size size (vm, 0) (findNextBit vs.pendingBitmap size old)
  if old ≠ 0 ∧ (s.1.vcpu v).lastFailVirq = 0 then
    enterScan v old old s (findNextBit (s.1.vcpu v).pendingBitmap old 0)
  else s

/-- `virqchip_get_virq_state`: the state field of the list register. -/
def virqchipGetVirqState (vs : VirqStruct) (lr : Nat → VirqState) (id : Nat) :
    VirqState :=
  if vs.nrLrs ≤ id then .inactive else lr id

/-- The body of the exit loop. -/
def retireVirq (vm : Vm) (v : Nat) (lr : Nat → VirqState) (r : DescRef) (bit : Nat) :
    Vm :=
  let vs := vm.vcpu v
  let desc := vm.desc r
  let state := virqchipGetVirqState vs lr desc.id
  if state = .inactive then
    (vm.setVcpu v { vs with
      lrsBitmap := clearBit desc.id vs.lrsBitmap
      activeVirq := u32 (vs.activeVirq + (2 ^ 32 - 1))
      activeBitmap := clearBit bit vs.activeBitmap }).setDesc r
        { desc with id := virqInvalidId, state := .inactive }
  else vm.setDesc r { desc with state := state }

/-- `for_each_set_bit(bit, vs->active_bitmap, size)`. -/
def exitScan (v : Nat) (lr : Nat → VirqState) (size : Nat) : Nat → Vm → Nat → Vm
  | 0, vm, _ => vm
  | fuel + 1, vm, bit =>
    if size ≤ bit then vm
    else
      let vm :=
        match getVirqDesc vm v bit with
        | none =>
          let vs := vm.vcpu v
          vm.setVcpu v { vs with activeBitmap := clearBit bit vs.activeBitmap }
        | some r => retireVirq vm v lr r bit
      exitScan v lr size fuel vm
        (findNextBit (vm.vcpu v).activeBitmap size (bit + 1))

/-- `vgic_irq_exit_from_guest`. -/
def vgicIrqExitFromGuest (vm : Vm) (v : Nat) (lr : Nat → VirqState) : Vm :=
  let size := vmIrqCount vm
  exitScan v lr size size vm (findFirstBit (vm.vcpu v).activeBitmap size)

/-! ## Reset -/

/-- A private descriptor after `vcpu_virq_struct_init`. -/
def localDescInit (i : Nat) : VirqDesc :=
  { ({} : VirqDesc).setFlag virqsEnabledBit with
    vcpuId := virqAffinityVcpuAny, vmid := virqAffinityVmAny, vno := i,
    id := virqInvalidId }

/-- `vcpu_virq_struct_init`. -/
def vcpuVirqStructInit (vs : VirqStruct) : VirqStruct :=
  { vs with activeVirq := 0, pendingVirq := 0, localDesc := localDescInit }

/-- `memset(p, 0, BITMAP_SIZE(nr))`. -/
def bitmapZero (p : Bitmap) (nr : Nat) : Bitmap :=
  List.replicate (bitsToLongs nr) 0 ++ p.drop (bitsToLongs nr)

/-- `vcpu_virq_struct_reset`: the two status bitmaps are cleared for
`vspi_nr` lines, although they have `VM_LOCAL_VIRQ_NR` more, and
`last_fail_virq` keeps its value. -/
def vcpuVirqStructReset (vm : Vm) (v : Nat) : Vm :=
  let vs := vm.vcpu v
  vm.setVcpu v (vcpuVirqStructInit { vs with
    pendingBitmap := bitmapZero vs.pendingBitmap vm.vspiNr
    activeBitmap := bitmapZero vs.activeBitmap vm.vspiNr
    lrsBitmap := bitmapZero vs.lrsBitmap vs.nrLrs })

/-- The reset up to the `memset` of the pending bitmap. -/
def resetPending (vm : Vm) (v : Nat) : Vm :=
  let vs := vm.vcpu v
  vm.setVcpu v { vs with pendingBitmap := bitmapZero vs.pendingBitmap vm.vspiNr }

/-- The rest of it: no other cpu looks at the active bitmap or the list registers. -/
def resetRest (vm : Vm) (v : Nat) : Vm :=
  let vs := vm.vcpu v
  vm.setVcpu v (vcpuVirqStructInit { vs with
    activeBitmap := bitmapZero vs.activeBitmap vm.vspiNr
    lrsBitmap := bitmapZero vs.lrsBitmap vs.nrLrs })

theorem vcpuVirqStructReset_eq (vm : Vm) (v : Nat) :
    vcpuVirqStructReset vm v = resetRest (resetPending vm v) v := by
  simp [vcpuVirqStructReset, resetRest, resetPending, Vm.setVcpu]

/-! ## Interleavings -/

/-- A call of `__send_virq` that has set its bit and not counted it yet. -/
structure Send where
  cur : Nat
  v : Nat
  r : DescRef

/-- The VM, the sends under way, and the vcpus with a reset under way. -/
structure VgicSys where
  vm : Vm
  sends : List Send
  resetting : Nat → Bool

inductive VgicEvent
  | sendToVcpu (cur v virq : Nat)
  | sendToVm (cur virq : Nat)
  | hwIrq (cur : Nat) (r : DescRef)
  /-- a send goes on -/
  | count (i : Nat)
  | enter (v : Nat)
  | exit (v : Nat) (lr : Nat → VirqState)
  | clearPending (v irq : Nat)
  | reset (v : Nat)
  /-- the reset goes on -/
  | resetRest (v : Nat)
  | vmState (st : VmState)

/-- `r` points into one of the VM's descriptor arrays. -/
def Vm.HasDesc (vm : Vm) : DescRef → Prop
  | .percpu v virq => v < vm.vcpuNr ∧ virq < vmLocalVirqNr
  | .spi i => i < vm.vspiNr

instance (vm : Vm) (r : DescRef) : Decidable (vm.HasDesc r) := by
  cases r <;> (unfold Vm.HasDesc; infer_instance)

/-- A call that fails with an error changes nothing. -/
def afterSend (vm : Vm) (r : Option (Except Errno Vm)) : Option Vm :=
  r.map (afterRequest vm)

/-- A send to `v`, of which `res` says what its checks come to: if they pass, the bit is
set, and the send is under way unless the bit was set before. -/
def VgicSys.send (s : VgicSys) (cur v : Nat) (r : Option DescRef)
    (res : Option (Except Errno Vm)) : Option VgicSys :=
  match res, r with
  | none, _ => none
  | some (.ok _), some r =>
    if testBit (s.vm.desc r).vno (s.vm.vcpu v).pendingBitmap then some s
    else some { s with vm := markPending s.vm v r, sends := ⟨cur, v, r⟩ :: s.sends }
  | _, _ => some s

/-- The vcpu to which `guest_irq_handler` sends. -/
def hwTarget (vm : Vm) (cur : Nat) (r : DescRef) : Nat :=
  if (vm.desc r).vmid = virqAffinityVmAny ∧ (vm.desc r).vcpuId = virqAffinityVcpuAny then cur
  else (vm.desc r).vcpuId

/-- A call of the vcpu `v` itself, which is not running while it is reset. -/
def VgicSys.own (s : VgicSys) (v : Nat) (vm : Vm) : Option VgicSys :=
  if v < s.vm.vcpuNr ∧ s.resetting v = false then some { s with vm := vm } else none

def vgicStep (s : VgicSys) : VgicEvent → Option VgicSys
  | .sendToVcpu cur v virq =>
    s.send cur v (getVirqDesc s.vm v virq) (sendVirqToVcpu s.vm cur v virq)
  | .sendToVm cur virq =>
    s.send cur (s.vm.vspiDesc (virq - vmLocalVirqNr)).vcpuId (getVirqDesc s.vm 0 virq)
      (sendVirqToVm s.vm cur virq)
  | .hwIrq cur r =>
    if s.vm.HasDesc r then
      s.send cur (hwTarget s.vm cur r) (some r) (guestIrqHandler s.vm cur r)
    else none
  | .count i =>
    s.sends[i]?.map fun x =>
      { s with vm := countPending s.vm x.cur x.v x.r, sends := s.sends.eraseIdx i }
  | .enter v => s.own v (vgicIrqEnterToGuest s.vm v).1
  | .exit v lr => s.own v (vgicIrqExitFromGuest s.vm v lr)
  | .clearPending v irq => s.own v (clearPendingVirq s.vm v irq)
  | .reset v =>
    if v < s.vm.vcpuNr ∧ s.resetting v = false then
      some { s with vm := resetPending s.vm v, resetting := Function.update s.resetting v true }
    else none
  | .resetRest v =>
    if v < s.vm.vcpuNr ∧ s.resetting v = true then
      some { s with vm := resetRest s.vm v, resetting := Function.update s.resetting v false }
    else none
  | .vmState st => some { s with vm := { s.vm with state := st } }

/-- The number of sends to `v` under way. -/
def VgicSys.owed (s : VgicSys) (v : Nat) : Nat := s.sends.countP (·.v = v)

/-! ## Set bits -/

/-- The number of set bits. -/
def bitCount (p : Bitmap) : Nat :=
  Nat.count (fun j => testBit j p = true) (64 * p.length)

variable {nr : Nat} {p : Bitmap}

theorem bitCount_setBit (hlt : nr < 64 * p.length)
    (hclear : testBit nr p = false) : bitCount (setBit nr p) = bitCount p + 1 := by
  unfold bitCount
  rw [length_setBit]
  refine count_insert hlt (by simp [hclear]) ?_ fun j hj => ?_
  · simp [testBit_setBit hlt]
  · simp [testBit_setBit hlt, Ne.symm hj]

theorem bitCount_clearBit (hset : testBit nr p = true) :
    bitCount p = bitCount (clearBit nr p) + 1 := by
  unfold bitCount
  rw [length_clearBit]
  refine count_insert (lt_of_testBit hset) (by simp [testBit_clearBit]) hset fun j hj => ?_
  simp [testBit_clearBit, Ne.symm hj]

theorem bitCount_eq_zero (h : ∀ j, testBit j p = false) : bitCount p = 0 := by
  refine Nat.eq_zero_of_not_pos fun hpos => ?_
  obtain ⟨j, -, hj⟩ := count_pos.mp hpos
  rw [h j] at hj
  cases hj

theorem bitCount_le (p : Bitmap) : bitCount p ≤ 64 * p.length := Nat.count_le _

theorem testBit_bitmapZero (p : Bitmap) (nr j : Nat) :
    testBit j (bitmapZero p nr)
      = if j < 64 * bitsToLongs nr then false else testBit j p := by
  unfold testBit bitmapZero
  rw [List.getD_eq_getElem?_getD, List.getElem?_append, List.length_replicate]
  by_cases hj : j < 64 * bitsToLongs nr
  · rw [if_pos (by omega), if_pos hj, List.getElem?_replicate, if_pos (by omega)]
    simp
  · rw [if_neg (by omega), if_neg hj, List.getElem?_drop, List.getD_eq_getElem?_getD]
    rw [show bitsToLongs nr + (j / 64 - bitsToLongs nr) = j / 64 by omega]

theorem length_bitmapZero (h : bitsToLongs nr ≤ p.length) :
    (bitmapZero p nr).length = p.length := by
  simp [bitmapZero, h]

/-! ## The invariant of one vcpu -/

/-- The records of one vcpu agree, for descriptors whose `id` is `ids`:
`lrs_bitmap` is the image of the active lines, no two of them share a list
register, and the counters count, but for what the sends under way owe. -/
structure Booked (vs : VirqStruct) (ids : Nat → Nat) (owed : Int) : Prop where
  image : ∀ id, testBit id vs.lrsBitmap = true ↔
    ∃ b, testBit b vs.activeBitmap = true ∧ ids b = id
  apart : ∀ b c, testBit b vs.activeBitmap = true → testBit c vs.activeBitmap = true →
    ids b = ids c → b = c
  pending : vs.pendingVirq + owed = bitCount vs.pendingBitmap
  active : vs.activeVirq = bitCount vs.activeBitmap

/-- `Booked` with what carries it through the steps: the sizes, and that
only lines in `own` are pending or active. -/
structure VcpuInv (nr : Nat) (vs : VirqStruct) (ids : Nat → Nat) (own : Nat → Prop)
    (owed : Int) : Prop where
  nrLrs : vs.nrLrs ≤ 128
  pendLen : vs.pendingBitmap.length = bitsToLongs (nr + vmLocalVirqNr)
  actLen : vs.activeBitmap.length = bitsToLongs (nr + vmLocalVirqNr)
  lrsLen : vs.lrsBitmap.length = 2
  vno : ∀ i, i < vmLocalVirqNr → (vs.localDesc i).vno = i
  pendOwn : ∀ b, testBit b vs.pendingBitmap = true → own b
  actOwn : ∀ b, testBit b vs.activeBitmap = true → own b
  idLt : ∀ b, testBit b vs.activeBitmap = true → ids b < vs.nrLrs
  booked : Booked vs ids owed

variable {d : VirqDesc} {i : Nat}
variable {b : Nat}

section Vcpu

variable {nr : Nat} {vs : VirqStruct} {ids ids' : Nat → Nat} {own own' : Nat → Prop}
  {owed : Int}

/-- Only the ids of active lines matter. -/
theorem VcpuInv.congr (h : VcpuInv nr vs ids own owed)
    (hids : ∀ b, testBit b vs.activeBitmap = true → ids' b = ids b)
    (hown : ∀ b, own b → own' b) : VcpuInv nr vs ids' own' owed := by
  refine { h with
    pendOwn := fun b hb => hown b (h.pendOwn b hb)
    actOwn := fun b hb => hown b (h.actOwn b hb)
    idLt := fun b hb => (hids b hb).symm ▸ h.idLt b hb
    booked := { h.booked with image := fun id => ?_, apart := fun b c hb hc heq => ?_ } }
  · rw [h.booked.image id]
    refine exists_congr fun b => and_congr_right fun hb => ?_
    rw [hids b hb]
  · rw [hids b hb, hids c hc] at heq
    exact h.booked.apart b c hb hc heq

theorem VcpuInv.setLocal (h : VcpuInv nr vs ids own owed)
    (hd : d.vno = (vs.localDesc i).vno) : VcpuInv nr (vs.setLocal i d) ids own owed :=
  { h with
    vno := by
      intro j hj
      simp only [VirqStruct.setLocal, Function.update_apply]
      split
      · rename_i heq
        subst heq
        rw [hd, h.vno j hj]
      · exact h.vno j hj
    booked := { h.booked with } }

theorem VcpuInv.setLastFail (h : VcpuInv nr vs ids own owed) (bit : Nat) :
    VcpuInv nr { vs with lastFailVirq := bit } ids own owed :=
  { h with booked := { h.booked with } }

/-- A line becomes pending, and is owed. -/
theorem VcpuInv.setPending (h : VcpuInv nr vs ids own owed) (hb : own b)
    (hlt : b < nr + vmLocalVirqNr) (hclear : testBit b vs.pendingBitmap = false) :
    VcpuInv nr { vs with pendingBitmap := setBit b vs.pendingBitmap } ids own (owed + 1) := by
  have hlt' : b < 64 * vs.pendingBitmap.length := by
    rw [h.pendLen, bitsToLongs]
    omega
  refine { h with
    pendLen := (length_setBit _ _).trans h.pendLen
    pendOwn := fun c hc => ?_
    booked := { h.booked with pending := ?_ } }
  · rw [testBit_setBit hlt', Bool.or_eq_true, decide_eq_true_eq] at hc
    rcases hc with hc | rfl
    · exact h.pendOwn c hc
    · exact hb
  · have hpending := h.booked.pending
    rw [bitCount_setBit hlt' hclear]
    push_cast
    omega

/-- A line that is owed is counted. -/
theorem VcpuInv.count (h : VcpuInv nr vs ids own owed) :
    VcpuInv nr { vs with pendingVirq := vs.pendingVirq + 1 } ids own (owed - 1) := by
  refine { h with booked := { h.booked with pending := ?_ } }
  have hpending := h.booked.pending
  dsimp only
  omega

/-- A pending line `b` that is not active moves into the free list register
`id`. -/
theorem VcpuInv.inject (h : VcpuInv nr vs ids own owed) (hnr : nr ≤ 2 ^ 16) {id : Nat}
    (hpend : testBit b vs.pendingBitmap = true)
    (hact : testBit b vs.activeBitmap = false) (hid : id < vs.nrLrs)
    (hfree : testBit id vs.lrsBitmap = false) :
    VcpuInv nr { vs with
      lrsBitmap := setBit id vs.lrsBitmap
      activeBitmap := setBit b vs.activeBitmap
      activeVirq := u32 (vs.activeVirq + 1)
      pendingVirq := vs.pendingVirq - 1
      pendingBitmap := clearBit b vs.pendingBitmap } (Function.update ids b id) own owed := by
  have hbLt : b < 64 * vs.activeBitmap.length := by
    have := lt_of_testBit hpend
    rwa [h.actLen, ← h.pendLen]
  have hidLt : id < 64 * vs.lrsBitmap.length := by
    have := h.nrLrs
    rw [h.lrsLen]
    omega
  have hact' : ∀ c, testBit c (setBit b vs.activeBitmap) = true ↔
      testBit c vs.activeBitmap = true ∨ c = b := by
    intro c
    rw [testBit_setBit hbLt, Bool.or_eq_true, decide_eq_true_eq, eq_comm (a := b)]
  have hold : ∀ c, testBit c vs.activeBitmap = true →
      c ≠ b ∧ Function.update ids b id c = ids c := by
    intro c hc
    have hne : c ≠ b := by
      rintro rfl
      rw [hact] at hc
      cases hc
    exact ⟨hne, Function.update_of_ne hne _ _⟩
  -- no active line has the register that is free
  have hfresh : ∀ c, testBit c vs.activeBitmap = true → ids c ≠ id := by
    intro c hc heq
    rw [(h.booked.image id).mpr ⟨c, hc, heq⟩] at hfree
    cases hfree
  refine ⟨h.nrLrs, (length_clearBit _ _).trans h.pendLen,
    (length_setBit _ _).trans h.actLen, (length_setBit _ _).trans h.lrsLen, h.vno,
    fun c hc => ?_, fun c hc => ?_, fun c hc => ?_,
    ⟨fun i => ?_, fun c d hc hd heq => ?_, ?_, ?_⟩⟩
  · rw [testBit_clearBit, Bool.and_eq_true] at hc
    exact h.pendOwn c hc.1
  · rcases (hact' c).mp hc with hc | rfl
    · exact h.actOwn c hc
    · exact h.pendOwn c hpend
  · rcases (hact' c).mp hc with hc | rfl
    · rw [(hold c hc).2]
      exact h.idLt c hc
    · rw [Function.update_self]
      exact hid
  · simp only [testBit_setBit hidLt, Bool.or_eq_true, decide_eq_true_eq, h.booked.image i]
    constructor
    · rintro (⟨c, hc, rfl⟩ | rfl)
      · exact ⟨c, (hact' c).mpr (Or.inl hc), (hold c hc).2⟩
      · exact ⟨b, (hact' b).mpr (Or.inr rfl), Function.update_self _ _ _⟩
    · rintro ⟨c, hc, rfl⟩
      rcases (hact' c).mp hc with hc | rfl
      · exact Or.inl ⟨c, hc, (hold c hc).2.symm⟩
      · exact Or.inr (by rw [Function.update_self])
  · rcases (hact' c).mp hc with hc' | rfl <;> rcases (hact' d).mp hd with hd' | rfl
    · rw [(hold c hc').2, (hold d hd').2] at heq
      exact h.booked.apart c d hc' hd' heq
    · rw [(hold c hc').2, Function.update_self] at heq
      exact absurd heq (hfresh c hc')
    · rw [(hold d hd').2, Function.update_self] at heq
      exact absurd heq.symm (hfresh d hd')
    · rfl
  · have hone := bitCount_clearBit hpend
    have hpending := h.booked.pending
    dsimp only
    omega
  · have hle := bitCount_le vs.activeBitmap
    rw [h.actLen, bitsToLongs, vmLocalVirqNr, vmSgiVirqNr, vmPpiVirqNr] at hle
    simp only [bitCount_setBit hbLt hact, h.booked.active]
    exact u32_of_lt (by omega)

/-- An active line leaves its list register. -/
theorem VcpuInv.retire (h : VcpuInv nr vs ids own owed) (hnr : nr ≤ 2 ^ 16)
    (x : Nat) (hact : testBit b vs.activeBitmap = true) :
    VcpuInv nr { vs with
      lrsBitmap := clearBit (ids b) vs.lrsBitmap
      activeVirq := u32 (vs.activeVirq + (2 ^ 32 - 1))
      activeBitmap := clearBit b vs.activeBitmap } (Function.update ids b x) own owed := by
  have hact' : ∀ c, testBit c (clearBit b vs.activeBitmap) = true ↔
      testBit c vs.activeBitmap = true ∧ c ≠ b := by
    intro c
    rw [testBit_clearBit, Bool.and_eq_true, decide_eq_true_eq, ne_comm]
  have hold : ∀ c, c ≠ b → Function.update ids b x c = ids c :=
    fun c hc => Function.update_of_ne hc _ _
  refine ⟨h.nrLrs, h.pendLen, (length_clearBit _ _).trans h.actLen,
    (length_clearBit _ _).trans h.lrsLen, h.vno, h.pendOwn, fun c hc => ?_, fun c hc => ?_,
    ⟨fun i => ?_, fun c d hc hd heq => ?_, h.booked.pending, ?_⟩⟩
  · exact h.actOwn c ((hact' c).mp hc).1
  · obtain ⟨hc, hne⟩ := (hact' c).mp hc
    rw [hold c hne]
    exact h.idLt c hc
  · rw [testBit_clearBit, Bool.and_eq_true, decide_eq_true_eq, h.booked.image i]
    constructor
    · rintro ⟨⟨c, hc, rfl⟩, hne⟩
      have hcb : c ≠ b := fun heq => hne (by rw [heq])
      exact ⟨c, (hact' c).mpr ⟨hc, hcb⟩, hold c hcb⟩
    · rintro ⟨c, hc, rfl⟩
      obtain ⟨hc, hne⟩ := (hact' c).mp hc
      rw [hold c hne]
      exact ⟨⟨c, hc, rfl⟩, fun heq => hne (h.booked.apart b c hact hc heq).symm⟩
  · obtain ⟨hc, hcb⟩ := (hact' c).mp hc
    obtain ⟨hd, hdb⟩ := (hact' d).mp hd
    rw [hold c hcb, hold d hdb] at heq
    exact h.booked.apart c d hc hd heq
  · have hle := bitCount_le vs.activeBitmap
    have hcount := bitCount_clearBit hact
    rw [h.actLen, bitsToLongs, vmLocalVirqNr, vmSgiVirqNr, vmPpiVirqNr] at hle
    simp only [h.booked.active, u32]
    omega

/-- All lines that are pending or active are below `vspi_nr`, which the `memset`s cover. -/
theorem testBit_bitmapZero_own (hown : ∀ b, own b → b < nr)
    (hp : ∀ b, testBit b p = true → own b) (j : Nat) : testBit j (bitmapZero p nr) = false := by
  have hnr : nr ≤ 64 * bitsToLongs nr := by
    rw [bitsToLongs]
    omega
  rw [testBit_bitmapZero]
  split
  · rfl
  · by_contra hne
    have := hown j (hp j (by simpa using hne))
    omega

theorem length_bitmapZero_own (hp : p.length = bitsToLongs (nr + vmLocalVirqNr)) :
    (bitmapZero p nr).length = bitsToLongs (nr + vmLocalVirqNr) := by
  refine (length_bitmapZero ?_).trans hp
  rw [hp]
  unfold bitsToLongs
  omega

/-- Nothing is pending, and the counter owes what it counts. -/
theorem VcpuInv.resetPending (h : VcpuInv nr vs ids own owed) (hown : ∀ b, own b → b < nr) :
    VcpuInv nr { vs with pendingBitmap := bitmapZero vs.pendingBitmap nr } ids own
      (-vs.pendingVirq) := by
  have hzero := testBit_bitmapZero_own hown h.pendOwn
  refine { h with
    pendLen := length_bitmapZero_own h.pendLen
    pendOwn := fun b hb => absurd hb (by simp [hzero b])
    booked := { h.booked with pending := ?_ } }
  simp only [bitCount_eq_zero hzero]
  omega

/-- Nothing is active, and what is pending by now is owed. -/
theorem VcpuInv.resetRest (h : VcpuInv nr vs ids own owed) (hown : ∀ b, own b → b < nr) :
    VcpuInv nr (vcpuVirqStructInit { vs with
      activeBitmap := bitmapZero vs.activeBitmap nr
      lrsBitmap := bitmapZero vs.lrsBitmap vs.nrLrs }) ids' own (bitCount vs.pendingBitmap) := by
  have hact := testBit_bitmapZero_own hown h.actOwn
  have hnone : ∀ {b : Nat} {p : Prop}, testBit b (bitmapZero vs.activeBitmap nr) = true → p :=
    fun hb => absurd hb (by simp [hact])
  have hlrs : ∀ j, testBit j (bitmapZero vs.lrsBitmap vs.nrLrs) = false := by
    intro j
    rw [testBit_bitmapZero]
    split
    · rfl
    · rename_i hge
      by_contra hne
      obtain ⟨b, hb, rfl⟩ := (h.booked.image j).mp (by simpa using hne)
      have := h.idLt b hb
      unfold bitsToLongs at hge
      omega
  have hlrsLen : bitsToLongs vs.nrLrs ≤ vs.lrsBitmap.length := by
    have := h.nrLrs
    rw [h.lrsLen, bitsToLongs]
    omega
  refine ⟨h.nrLrs, h.pendLen, length_bitmapZero_own h.actLen,
    (length_bitmapZero hlrsLen).trans h.lrsLen, fun i _ => rfl, h.pendOwn, fun b hb => ?_,
    fun b hb => ?_, ⟨fun id => ?_, fun b c hb _ _ => ?_, ?_, ?_⟩⟩
  · exact hnone hb
  · exact hnone hb
  · simp [vcpuVirqStructInit, hlrs, hact]
  · exact hnone hb
  · simp [vcpuVirqStructInit]
  · simp [vcpuVirqStructInit, bitCount_eq_zero hact]

end Vcpu

/-! ## The invariant of a VM -/

/-- The `id` that vcpu `v` sees in the descriptor of line `b`. -/
def Vm.idAt (vm : Vm) (v b : Nat) : Nat :=
  if b < vmLocalVirqNr then ((vm.vcpu v).localDesc b).id
  else (vm.vspiDesc (b - vmLocalVirqNr)).id

/-- The lines of vcpu `v`: its private ones, and the shared ones below
`vspi_nr` whose descriptor names it. -/
def Vm.Owns (vm : Vm) (v b : Nat) : Prop :=
  b < vmLocalVirqNr ∨
    b < vm.vspiNr ∧ (vm.vspiDesc (b - vmLocalVirqNr)).vcpuId = v

/-- A shared descriptor as requests leave it: its number is its own, or one
of a private line when it was never requested. -/
def SpiDescOk (vm : Vm) (i : Nat) : Prop :=
  ((vm.vspiDesc i).vno < vmLocalVirqNr ∨
    (vm.vspiDesc i).vno = i + vmLocalVirqNr ∧ i + vmLocalVirqNr < vm.vspiNr) ∧
  (vm.vspiDesc i).vcpuId ≠ virqAffinityVcpuAny

/-- With what the counters of the vcpus owe. -/
structure VgicInv (vm : Vm) (owed : Nat → Int) : Prop where
  nrLe : vm.vspiNr ≤ 2 ^ 16
  nrGe : vmLocalVirqNr ≤ vm.vspiNr
  spi : ∀ i, i < vm.vspiNr → SpiDescOk vm i
  vcpus : ∀ v, v < vm.vcpuNr →
    VcpuInv vm.vspiNr (vm.vcpu v) (vm.idAt v) (vm.Owns v) (owed v)

variable {r : DescRef} {owed owed' : Nat → Int}

section Updates

variable {vm : Vm} {v : Nat} {vs' : VirqStruct}

@[simp] theorem setVcpu_self (vm : Vm) (v : Nat) (vs' : VirqStruct) :
    (vm.setVcpu v vs').vcpu v = vs' := by
  simp [Vm.setVcpu]

theorem setVcpu_of_ne {w : Nat} (h : w ≠ v) : (vm.setVcpu v vs').vcpu w = vm.vcpu w := by
  simp [Vm.setVcpu, h]

theorem setVcpu_eq_self (vm : Vm) (v : Nat) : vm.setVcpu v (vm.vcpu v) = vm := by
  simp [Vm.setVcpu]

/-- What the new records of vcpu `v` have as the old ones had it. -/
theorem setVcpu_same {α : Type} (f : VirqStruct → α) (hf : f vs' = f (vm.vcpu v)) (w : Nat) :
    f ((vm.setVcpu v vs').vcpu w) = f (vm.vcpu w) := by
  by_cases hw : w = v
  · rw [hw, setVcpu_self, hf]
  · rw [setVcpu_of_ne hw]

theorem desc_setVcpu (hlocal : vs'.localDesc = (vm.vcpu v).localDesc) (r : DescRef) :
    (vm.setVcpu v vs').desc r = vm.desc r := by
  cases r with
  | spi i => rfl
  | percpu w i => exact congrFun (setVcpu_same VirqStruct.localDesc hlocal w) i

theorem setDesc_vcpu (vm : Vm) (r : DescRef) (d : VirqDesc) (w : Nat) :
    ∃ f, (vm.setDesc r d).vcpu w = { vm.vcpu w with localDesc := f } := by
  cases r with
  | spi i => exact ⟨_, rfl⟩
  | percpu v i =>
    by_cases hw : w = v
    · subst hw
      exact ⟨_, setVcpu_self _ _ _⟩
    · exact ⟨_, setVcpu_of_ne hw⟩

theorem desc_setDesc (vm : Vm) (r : DescRef) (d : VirqDesc) (q : DescRef) :
    (vm.setDesc r d).desc q = if q = r then d else vm.desc q := by
  cases r with
  | spi i =>
    cases q with
    | percpu w j => simp [Vm.desc, Vm.setDesc]
    | spi j => simp [Vm.desc, Vm.setDesc, Function.update_apply]
  | percpu v i =>
    cases q with
    | spi j => simp [Vm.desc, Vm.setDesc, Vm.setVcpu]
    | percpu w j =>
      by_cases hw : w = v
      · subst hw
        simp [Vm.desc, Vm.setDesc, VirqStruct.setLocal, Function.update_apply]
      · simp [Vm.desc, Vm.setDesc, setVcpu_of_ne hw, hw]

@[simp] theorem setDesc_vcpuNr (vm : Vm) (r : DescRef) (d : VirqDesc) :
    (vm.setDesc r d).vcpuNr = vm.vcpuNr := by
  cases r <;> rfl

@[simp] theorem setDesc_vspiNr (vm : Vm) (r : DescRef) (d : VirqDesc) :
    (vm.setDesc r d).vspiNr = vm.vspiNr := by
  cases r <;> rfl

/-- The descriptor of line `b` for vcpu `v`. -/
def lineDesc (v b : Nat) : DescRef :=
  if b < vmLocalVirqNr then .percpu v b else .spi (b - vmLocalVirqNr)

theorem lineDesc_eq_iff {u c : Nat} :
    lineDesc u c = lineDesc v b ↔ c = b ∧ (b < vmLocalVirqNr → u = v) := by
  unfold lineDesc
  split_ifs <;> simp <;> omega

theorem lineDesc_of_get (hr : getVirqDesc vm v b = some r) : r = lineDesc v b := by
  unfold getVirqDesc at hr
  unfold lineDesc
  split_ifs at hr ⊢ <;> exact (Option.some.inj hr).symm

theorem idAt_eq (vm : Vm) (v b : Nat) : vm.idAt v b = (vm.desc (lineDesc v b)).id := by
  unfold Vm.idAt lineDesc
  split <;> rfl

theorem idAt_setVcpu (hlocal : vs'.localDesc = (vm.vcpu v).localDesc) (w : Nat) :
    (vm.setVcpu v vs').idAt w = vm.idAt w := by
  funext b
  rw [idAt_eq, idAt_eq, desc_setVcpu hlocal]

/-- Replacing the records of vcpu `v` leaves those of the others alone. -/
theorem VgicInv.setVcpu (h : VgicInv vm owed) (howed : ∀ w, w ≠ v → owed' w = owed w)
    (hvs : v < vm.vcpuNr →
      VcpuInv vm.vspiNr vs' ((vm.setVcpu v vs').idAt v) (vm.Owns v) (owed' v)) :
    VgicInv (vm.setVcpu v vs') owed' := by
  refine ⟨h.nrLe, h.nrGe, h.spi, fun w hw => ?_⟩
  by_cases hwv : w = v
  · subst hwv
    rw [setVcpu_self]
    exact hvs hw
  · have hids : (vm.setVcpu v vs').idAt w = vm.idAt w := by
      funext b
      simp only [Vm.idAt, setVcpu_of_ne hwv]
      rfl
    rw [setVcpu_of_ne hwv, hids, howed w hwv]
    exact h.vcpus w hw

theorem VgicInv.setStatus (h : VgicInv vm owed) (howed : ∀ w, w ≠ v → owed' w = owed w)
    (hlocal : vs'.localDesc = (vm.vcpu v).localDesc)
    (hvs : v < vm.vcpuNr → VcpuInv vm.vspiNr vs' (vm.idAt v) (vm.Owns v) (owed' v)) :
    VgicInv (vm.setVcpu v vs') owed' :=
  h.setVcpu howed fun hv => by rw [idAt_setVcpu hlocal]; exact hvs hv

/-! A descriptor keeps its number and its vcpu. -/

section SetDesc

variable (hvno : d.vno = (vm.desc r).vno) (hvcpu : d.vcpuId = (vm.desc r).vcpuId)

include hvno

theorem VcpuInv.setDesc {nr u : Nat} {ids : Nat → Nat} {own : Nat → Prop} {k : Int}
    (h : VcpuInv nr (vm.vcpu u) ids own k) : VcpuInv nr ((vm.setDesc r d).vcpu u) ids own k := by
  cases r with
  | spi i => exact h
  | percpu w i =>
    rw [Vm.setDesc]
    by_cases hu : u = w
    · subst hu
      rw [setVcpu_self]
      exact h.setLocal hvno
    · rwa [setVcpu_of_ne hu]

include hvcpu

theorem spi_setDesc (j : Nat) : ((vm.setDesc r d).vspiDesc j).vno = (vm.vspiDesc j).vno ∧
    ((vm.setDesc r d).vspiDesc j).vcpuId = (vm.vspiDesc j).vcpuId := by
  have hj : (vm.setDesc r d).vspiDesc j = if .spi j = r then d else vm.vspiDesc j :=
    desc_setDesc vm r d (.spi j)
  rw [hj]
  split
  · rename_i heq
    rw [hvno, hvcpu, ← heq]
    exact ⟨rfl, rfl⟩
  · exact ⟨rfl, rfl⟩

theorem owns_setDesc {u c : Nat} (h : vm.Owns u c) : (vm.setDesc r d).Owns u c := by
  unfold Vm.Owns
  rwa [(spi_setDesc hvno hvcpu _).2, setDesc_vspiNr]

theorem VgicInv.of_setDesc (hle : vm.vspiNr ≤ 2 ^ 16) (hge : vmLocalVirqNr ≤ vm.vspiNr)
    (hspi : ∀ i < vm.vspiNr, SpiDescOk vm i)
    (hvcpus : ∀ u < vm.vcpuNr, VcpuInv vm.vspiNr (vm.vcpu u) ((vm.setDesc r d).idAt u)
      (vm.Owns u) (owed u)) : VgicInv (vm.setDesc r d) owed := by
  have hnr := setDesc_vspiNr vm r d
  refine ⟨hnr ▸ hle, hnr ▸ hge, fun j hj => ?_, fun u hu => ?_⟩
  · rw [hnr] at hj
    unfold SpiDescOk
    rw [(spi_setDesc hvno hvcpu j).1, (spi_setDesc hvno hvcpu j).2, hnr]
    exact hspi j hj
  · rw [setDesc_vcpuNr] at hu
    rw [hnr]
    exact ((hvcpus u hu).setDesc hvno).congr (fun _ _ => rfl) fun _ => owns_setDesc hvno hvcpu

end SetDesc

theorem idAt_setDesc (vm : Vm) (r : DescRef) (d : VirqDesc) (u c : Nat) :
    (vm.setDesc r d).idAt u c = if lineDesc u c = r then d.id else vm.idAt u c := by
  rw [idAt_eq, idAt_eq, desc_setDesc]
  split <;> rfl

/-- A change of a descriptor that keeps its number, vcpu and list register
is not seen by the records. -/
theorem VgicInv.setDesc (h : VgicInv vm owed)
    (hvno : d.vno = (vm.desc r).vno) (hvcpu : d.vcpuId = (vm.desc r).vcpuId)
    (hid : d.id = (vm.desc r).id) : VgicInv (vm.setDesc r d) owed := by
  refine VgicInv.of_setDesc hvno hvcpu h.nrLe h.nrGe h.spi fun u hu =>
    (h.vcpus u hu).congr (fun c _ => ?_) fun _ => id
  rw [idAt_setDesc]
  split
  · rename_i heq
    rw [hid, ← heq, idAt_eq]
  · rfl

/-- A step on a line `b` that vcpu `v` owns: its records and the
descriptor's `id` change together. -/
theorem VgicInv.book (h : VgicInv vm owed)
    (hr : getVirqDesc vm v b = some r) (hown : vm.Owns v b)
    (hlocal : vs'.localDesc = (vm.vcpu v).localDesc)
    (hvno : d.vno = (vm.desc r).vno) (hvcpu : d.vcpuId = (vm.desc r).vcpuId)
    (hvs : VcpuInv vm.vspiNr vs' (Function.update (vm.idAt v) b d.id) (vm.Owns v) (owed v)) :
    VgicInv ((vm.setVcpu v vs').setDesc r d) owed := by
  obtain rfl := lineDesc_of_get hr
  have hdesc := desc_setVcpu hlocal (lineDesc v b)
  refine VgicInv.of_setDesc (by rw [hdesc, hvno]) (by rw [hdesc, hvcpu]) h.nrLe h.nrGe h.spi
    fun u hu => ?_
  by_cases huv : u = v
  · subst huv
    rw [setVcpu_self]
    refine hvs.congr (fun c _ => ?_) fun _ => id
    rw [idAt_setDesc, idAt_setVcpu hlocal, Function.update_apply]
    simp [lineDesc_eq_iff]
  · -- the line is not active on another vcpu, which does not own it
    rw [setVcpu_of_ne huv]
    refine (h.vcpus u hu).congr (fun c hc => ?_) fun _ => id
    rw [idAt_setDesc, idAt_setVcpu hlocal, if_neg]
    rw [lineDesc_eq_iff]
    rintro ⟨rfl, hsame⟩
    rcases (h.vcpus u hu).actOwn c hc with hlt | ⟨-, hu'⟩
    · exact huv (hsame hlt)
    rcases hown with hlt | ⟨-, hv'⟩
    · exact huv (hsame hlt)
    · exact huv (hu'.symm.trans hv')

end Updates

/-! ## One step -/

variable {cur : Nat} {vm' : Vm}
variable {size : Nat}

section Steps

variable {vm : Vm} {v : Nat}

@[simp] theorem setVcpu_vcpuNr (vm : Vm) (v : Nat) (vs : VirqStruct) :
    (vm.setVcpu v vs).vcpuNr = vm.vcpuNr := rfl

theorem id_getVirqDesc (hr : getVirqDesc vm v b = some r) :
    (vm.desc r).id = vm.idAt v b := by
  rw [idAt_eq, lineDesc_of_get hr]

theorem hasDesc_of_owns (hb : vm.Owns v b) :
    ∃ r, getVirqDesc vm v b = some r := by
  unfold getVirqDesc
  split_ifs with hlt hge
  · exact ⟨_, rfl⟩
  · rcases hb with hb | ⟨hb, -⟩
    · exact absurd hb hlt
    · omega
  · exact ⟨_, rfl⟩

theorem VgicInv.lt_of_owns (h : VgicInv vm owed) (hb : vm.Owns v b) :
    b < vm.vspiNr := by
  have := h.nrGe
  rcases hb with hb | ⟨hb, -⟩
  · omega
  · exact hb

theorem VgicInv.mark (h : VgicInv vm owed) (hown : vm.Owns v (vm.desc r).vno)
    (hclear : testBit (vm.desc r).vno (vm.vcpu v).pendingBitmap = false) :
    VgicInv (markPending vm v r) (Function.update owed v (owed v + 1)) := by
  have hlt := h.lt_of_owns hown
  refine h.setStatus (fun w hw => Function.update_of_ne hw _ _) rfl fun hv => ?_
  rw [Function.update_self]
  exact (h.vcpus v hv).setPending hown (by omega) hclear

theorem VgicInv.count (h : VgicInv vm owed) (cur v : Nat) (r : DescRef) :
    VgicInv (countPending vm cur v r) (Function.update owed v (owed v - 1)) := by
  have hcount : VgicInv (vm.setVcpu v { vm.vcpu v with
      pendingVirq := (vm.vcpu v).pendingVirq + 1 }) (Function.update owed v (owed v - 1)) := by
    refine h.setStatus (fun w hw => Function.update_of_ne hw _ _) rfl fun hv => ?_
    rw [Function.update_self]
    exact (h.vcpus v hv).count
  unfold countPending
  dsimp only
  split
  · exact hcount.setDesc rfl rfl rfl
  · exact hcount

theorem sendVirqPending_eq (vm : Vm) (cur v : Nat) (r : DescRef) :
    sendVirqPending vm cur v r =
      if testBit (vm.desc r).vno (vm.vcpu v).pendingBitmap then vm
      else countPending (markPending vm v r) cur v r := by
  have hvno : (vm.setVcpu v { vm.vcpu v with
      pendingBitmap := setBit (vm.desc r).vno (vm.vcpu v).pendingBitmap
      pendingVirq := (vm.vcpu v).pendingVirq + 1 }).desc r = vm.desc r := by
    refine desc_setVcpu ?_ r
    rfl
  simp only [sendVirqPending, countPending, markPending, Vm.setVcpu, Function.update_self,
    Function.update_idem] at hvno ⊢
  rw [hvno]

/-- Both halves of a send. -/
theorem VgicInv.send (h : VgicInv vm owed) (cur : Nat) (hown : vm.Owns v (vm.desc r).vno) :
    VgicInv (sendVirqPending vm cur v r) owed := by
  rw [sendVirqPending_eq]
  split
  · exact h
  · rename_i hclear
    have hsent := (h.mark hown (by simpa using hclear)).count cur v r
    rwa [Function.update_self, Function.update_idem, add_sub_cancel_right,
      Function.update_eq_self] at hsent

theorem lt_of_sendVirq {o : Option DescRef} {res : Except Errno Vm}
    (h : sendVirq vm cur v o = some res) : v < vm.vcpuNr := by
  unfold sendVirq at h
  split at h
  · cases h
  · omega

theorem VgicInv.owns_spi (h : VgicInv vm owed) (hi : i < vm.vspiNr)
    (hv : vmLocalVirqNr ≤ (vm.vspiDesc i).vno → (vm.vspiDesc i).vcpuId = v) :
    vm.Owns v (vm.vspiDesc i).vno := by
  rcases (h.spi i hi).1 with hlt | ⟨heq, hlt⟩
  · exact Or.inl hlt
  · rw [heq] at hv ⊢
    refine Or.inr ⟨hlt, ?_⟩
    rw [Nat.add_sub_cancel]
    exact hv (Nat.le_add_left _ _)

theorem VgicInv.vno_percpu (h : VgicInv vm owed) {w : Nat} (hw : w < vm.vcpuNr)
    (hi : i < vmLocalVirqNr) : vm.Owns v ((vm.vcpu w).localDesc i).vno := by
  rw [(h.vcpus w hw).vno i hi]
  exact Or.inl hi

/-- The vcpu owns the line that a send to it marks. -/
theorem VgicInv.owns_vcpu (h : VgicInv vm owed) {virq : Nat}
    (hok : vmLocalVirqNr ≤ virq → vmLocalVirqNr ≤ (vm.vspiDesc (virq - vmLocalVirqNr)).vno →
      (vm.vspiDesc (virq - vmLocalVirqNr)).vcpuId = v) (hv : v < vm.vcpuNr)
    (hr : getVirqDesc vm v virq = some r) : vm.Owns v (vm.desc r).vno := by
  unfold getVirqDesc at hr
  split_ifs at hr with hlt hge
  · cases hr
    exact h.vno_percpu hv hlt
  · cases hr
    exact h.owns_spi (by omega) (hok (by omega))

theorem VgicInv.owns_vm (h : VgicInv vm owed) {virq : Nat} (hlt : ¬ virq < vmLocalVirqNr)
    (hr : getVirqDesc vm 0 virq = some r) :
    vm.Owns (vm.vspiDesc (virq - vmLocalVirqNr)).vcpuId (vm.desc r).vno := by
  unfold getVirqDesc at hr
  rw [if_neg hlt] at hr
  split_ifs at hr with hge
  cases hr
  exact h.owns_spi (by omega) fun _ => rfl

theorem VgicInv.owns_hw (h : VgicInv vm owed) (hr : vm.HasDesc r) (cur : Nat) :
    vm.Owns (hwTarget vm cur r) (vm.desc r).vno := by
  cases r with
  | percpu w i => exact h.vno_percpu hr.1 hr.2
  | spi i =>
    have hany := (h.spi i hr).2
    rw [hwTarget, if_neg fun hboth => hany hboth.2]
    exact h.owns_spi hr fun _ => rfl

/-! ### Entry -/

theorem VgicInv.inject (h : VgicInv vm owed) (hv : v < vm.vcpuNr) (id : Nat)
    (hr : getVirqDesc vm v b = some r)
    (hpend : testBit b (vm.vcpu v).pendingBitmap = true)
    (hact : testBit b (vm.vcpu v).activeBitmap = false)
    (hid : id < (vm.vcpu v).nrLrs)
    (hfree : testBit id (vm.vcpu v).lrsBitmap = false) :
    VgicInv (injectVirq vm v r b id) owed := by
  have hvs := h.vcpus v hv
  have hsmall : id % 2 ^ 8 = id := Nat.mod_eq_of_lt (by have := hvs.nrLrs; omega)
  have hnew := hvs.inject h.nrLe hpend hact hid hfree
  unfold injectVirq
  refine h.book hr (hvs.pendOwn b hpend) rfl rfl rfl ?_
  simp only [hsmall]
  exact hnew

theorem injectVirq_vcpuNr (vm : Vm) (v : Nat) (r : DescRef) (b id : Nat) :
    (injectVirq vm v r b id).vcpuNr = vm.vcpuNr := by
  simp [injectVirq]

theorem le_findNextBit_add {bit fuel : Nat} (h : size ≤ bit + (fuel + 1))
    (p : Bitmap) : size ≤ findNextBit p size (bit + 1) + fuel := by
  have hge := (findNextBit_spec p size (bit + 1)).ge
  omega

/-- One turn per remaining line is enough for the entry loop. -/
theorem enterScan_fuel (fuel : Nat) :
    ∀ (s : Vm × BitVec 32) (bit : Nat), size ≤ bit + fuel →
      enterScan v size (fuel + 1) s bit = enterScan v size fuel s bit := by
  induction fuel with
  | zero =>
    rintro ⟨vm, flags⟩ bit h
    rw [enterScan, enterScan, if_pos (by omega)]
  | succ fuel ih =>
    rintro ⟨vm, flags⟩ bit h
    have hnext : ∀ s p, enterScan v size (fuel + 1) s (findNextBit p size (bit + 1))
        = enterScan v size fuel s (findNextBit p size (bit + 1)) :=
      fun s p => ih s _ (le_findNextBit_add h p)
    rw [enterScan]
    simp only [hnext]
    rfl

/-- The entry loop keeps the invariant, started at a pending line. -/
theorem enterScan_inv (size fuel : Nat) :
    ∀ {vm : Vm} (flags : BitVec 32) (bit : Nat), VgicInv vm owed → v < vm.vcpuNr →
      (bit < size → testBit bit (vm.vcpu v).pendingBitmap = true) →
      VgicInv (enterScan v size fuel (vm, flags) bit).1 owed ∧
        (enterScan v size fuel (vm, flags) bit).1.vcpuNr = vm.vcpuNr := by
  induction fuel with
  | zero =>
    intro vm flags bit h _ _
    exact ⟨h, rfl⟩
  | succ fuel ih =>
    intro vm flags bit h hv hbit
    rw [enterScan]
    split
    · exact ⟨h, rfl⟩
    rename_i hlt
    have hpend := hbit (by omega)
    obtain ⟨r, hr⟩ := hasDesc_of_owns ((h.vcpus v hv).pendOwn bit hpend)
    simp only [hr]
    split
    · exact ih _ _ h hv fun hn => (findNextBit_spec _ _ _).hit hn
    rename_i hact
    have hfirst := findFirstZeroBit_spec (vm.vcpu v).lrsBitmap (vm.vcpu v).nrLrs
    split
    · exact ⟨h.setStatus (fun _ _ => rfl) rfl fun hv => (h.vcpus v hv).setLastFail bit, rfl⟩
    · rename_i hid
      have hinj := h.inject hv (findFirstZeroBit (vm.vcpu v).lrsBitmap (vm.vcpu v).nrLrs)
        hr hpend (by simpa using hact) (by omega) (by simpa using hfirst.hit (by omega))
      have hnr := injectVirq_vcpuNr vm v r bit
        (findFirstZeroBit (vm.vcpu v).lrsBitmap (vm.vcpu v).nrLrs)
      obtain ⟨hinv, hnr'⟩ := ih _ _ hinj (by rw [hnr]; exact hv)
        fun hn => (findNextBit_spec _ _ _).hit hn
      exact ⟨hinv, hnr'.trans hnr⟩

theorem VgicInv.enter (h : VgicInv vm owed) (hv : v < vm.vcpuNr) :
    VgicInv (vgicIrqEnterToGuest vm v).1 owed := by
  unfold vgicIrqEnterToGuest
  simp only
  have h0 : VgicInv (vm.setVcpu v { vm.vcpu v with lastFailVirq := 0 }) owed :=
    h.setStatus (fun _ _ => rfl) rfl fun hv => (h.vcpus v hv).setLastFail 0
  have h1 := enterScan_inv (vmIrqCount vm - (vm.vcpu v).lastFailVirq)
    (vmIrqCount vm - (vm.vcpu v).lastFailVirq) 0
    (findNextBit (vm.vcpu v).pendingBitmap
      (vmIrqCount vm - (vm.vcpu v).lastFailVirq) (vm.vcpu v).lastFailVirq) h0 hv (by
        intro hn
        rw [setVcpu_self]
        exact (findNextBit_spec _ _ _).hit hn)
  split
  · refine (enterScan_inv _ _ _ _ h1.1 ?_ fun hn => (findNextBit_spec _ _ _).hit hn).1
    rw [h1.2]
    exact hv
  · exact h1.1

/-! ### Exit -/

theorem VgicInv.retire (h : VgicInv vm owed) (hv : v < vm.vcpuNr) (lr : Nat → VirqState)
    (hr : getVirqDesc vm v b = some r)
    (hact : testBit b (vm.vcpu v).activeBitmap = true) :
    VgicInv (retireVirq vm v lr r b) owed := by
  have hvs := h.vcpus v hv
  have hnew := hvs.retire h.nrLe virqInvalidId hact
  rw [← id_getVirqDesc hr] at hnew
  unfold retireVirq
  simp only
  split
  · exact h.book hr (hvs.actOwn b hact) rfl rfl rfl hnew
  · exact h.setDesc rfl rfl rfl

theorem retireVirq_vcpuNr (vm : Vm) (v : Nat) (lr : Nat → VirqState) (r : DescRef)
    (b : Nat) : (retireVirq vm v lr r b).vcpuNr = vm.vcpuNr := by
  unfold retireVirq
  simp only
  split <;> simp

theorem exitScan_fuel {lr : Nat → VirqState} (fuel : Nat) :
    ∀ (vm : Vm) (bit : Nat), size ≤ bit + fuel →
      exitScan v lr size (fuel + 1) vm bit = exitScan v lr size fuel vm bit := by
  induction fuel with
  | zero =>
    intro vm bit h
    rw [exitScan, exitScan, if_pos (by omega)]
  | succ fuel ih =>
    intro vm bit h
    have hnext : ∀ vm p, exitScan v lr size (fuel + 1) vm (findNextBit p size (bit + 1))
        = exitScan v lr size fuel vm (findNextBit p size (bit + 1)) :=
      fun vm p => ih vm _ (le_findNextBit_add h p)
    rw [exitScan]
    simp only [hnext]
    rfl

theorem exitScan_inv {lr : Nat → VirqState} (fuel : Nat) :
    ∀ {vm : Vm} {bit : Nat}, VgicInv vm owed → v < vm.vcpuNr →
      (bit < size → testBit bit (vm.vcpu v).activeBitmap = true) →
      VgicInv (exitScan v lr size fuel vm bit) owed := by
  induction fuel with
  | zero => exact fun h _ _ => h
  | succ fuel ih =>
    intro vm bit h hv hbit
    rw [exitScan]
    split
    · exact h
    rename_i hlt
    have hact := hbit (by omega)
    obtain ⟨r, hr⟩ := hasDesc_of_owns ((h.vcpus v hv).actOwn bit hact)
    simp only [hr]
    exact ih (h.retire hv lr hr hact) (by rw [retireVirq_vcpuNr]; exact hv)
      fun hn => (findNextBit_spec _ _ _).hit hn

theorem VgicInv.exit (h : VgicInv vm owed) (hv : v < vm.vcpuNr) (lr : Nat → VirqState) :
    VgicInv (vgicIrqExitFromGuest vm v lr) owed :=
  exitScan_inv _ h hv fun hn => (findFirstBit_spec _ _).hit hn

/-! ### Clearing and reset -/

theorem VgicInv.clearPending (h : VgicInv vm owed) {irq : Nat}
    (hok : ∀ r, getVirqDesc vm v irq = some r → (vm.desc r).state = .active →
      testBit irq (vm.vcpu v).activeBitmap = false) :
    VgicInv (clearPendingVirq vm v irq) owed := by
  unfold clearPendingVirq
  cases hr : getVirqDesc vm v irq with
  | none => exact h
  | some r =>
    simp only
    split
    · exact h
    · rename_i hstate
      have hclear := hok r hr (by simpa using hstate)
      simp only [clearBit_eq_self hclear]
      have hsame : vm.setVcpu v { vm.vcpu v with
          activeBitmap := (vm.vcpu v).activeBitmap } = vm := setVcpu_eq_self vm v
      rw [hsame]
      exact h.setDesc rfl rfl rfl

/-- Clearing a line recorded as active drops it from `active_bitmap` alone:
`active_virq` still counts it. -/
theorem not_booked_clearPending (h : VgicInv vm owed) (hv : v < vm.vcpuNr) {irq : Nat}
    (hr : getVirqDesc vm v irq = some r)
    (hstate : (vm.desc r).state = .active)
    (hact : testBit irq (vm.vcpu v).activeBitmap = true) (ids : Nat → Nat) (k : Int) :
    ¬ Booked ((clearPendingVirq vm v irq).vcpu v) ids k := by
  intro hbooked
  unfold clearPendingVirq at hbooked
  rw [hr] at hbooked
  simp only [hstate, ne_eq, not_true, if_false] at hbooked
  have hcount := hbooked.active
  obtain ⟨f, hf⟩ := setDesc_vcpu (vm.setVcpu v { vm.vcpu v with
    activeBitmap := clearBit irq (vm.vcpu v).activeBitmap }) r _ v
  rw [hf, setVcpu_self] at hcount
  have hbefore := (h.vcpus v hv).booked.active
  have hone := bitCount_clearBit hact
  simp only at hcount
  omega

theorem VgicInv.resetPending (h : VgicInv vm owed) (v : Nat) :
    VgicInv (Virq.resetPending vm v)
      (Function.update owed v (-(vm.vcpu v).pendingVirq)) := by
  refine h.setStatus (fun w hw => Function.update_of_ne hw _ _) rfl fun hv => ?_
  rw [Function.update_self]
  exact (h.vcpus v hv).resetPending fun _ hb => h.lt_of_owns hb

theorem VgicInv.resetRest (h : VgicInv vm owed) (v : Nat) :
    VgicInv (Virq.resetRest vm v)
      (Function.update owed v (bitCount (vm.vcpu v).pendingBitmap)) := by
  refine h.setVcpu (fun w hw => Function.update_of_ne hw _ _) fun hv => ?_
  rw [Function.update_self]
  exact (h.vcpus v hv).resetRest fun _ hb => h.lt_of_owns hb

end Steps

/-! ## Runs -/

section Runs

variable {s s' : VgicSys} {e : VgicEvent} {v : Nat}

/-- The records of every vcpu that is not being reset agree. -/
def VgicGood (s : VgicSys) : Prop := ∀ v, v < s.vm.vcpuNr → s.resetting v = false →
  Booked (s.vm.vcpu v) (s.vm.idAt v) (s.owed v)

/-- A shared line is sent with `send_virq_to_vcpu` only to the vcpu its
descriptor names. -/
def SendOk (s : VgicSys) (e : VgicEvent) : Prop :=
  ∀ cur v virq, e = .sendToVcpu cur v virq → vmLocalVirqNr ≤ virq →
    vmLocalVirqNr ≤ (s.vm.vspiDesc (virq - vmLocalVirqNr)).vno →
    (s.vm.vspiDesc (virq - vmLocalVirqNr)).vcpuId = v

/-- The guest does not clear a line that is recorded as active, with the state
`VIRQ_STATE_ACTIVE`; and when a reset gets to the counters of a vcpu, as many lines are
pending as there are sends to it that still have to count theirs. -/
def BookOk (s : VgicSys) : VgicEvent → Prop
  | .clearPending v irq => v < s.vm.vcpuNr → s.resetting v = false →
    ∀ r, getVirqDesc s.vm v irq = some r → (s.vm.desc r).state = .active →
      testBit irq (s.vm.vcpu v).activeBitmap = false
  | .resetRest v => v < s.vm.vcpuNr → s.resetting v = true →
    bitCount (s.vm.vcpu v).pendingBitmap = s.owed v
  | _ => True

/-- What the counters owe is what the sends under way will add, except for a vcpu that is
being reset. -/
structure SysInv (s : VgicSys) (owed : Nat → Int) : Prop where
  inv : VgicInv s.vm owed
  owed : ∀ v, s.resetting v = false → owed v = s.owed v

theorem SysInv.good (h : SysInv s owed) : VgicGood s := by
  intro v hv hno
  rw [← h.owed v hno]
  exact (h.inv.vcpus v hv).booked

theorem SysInv.send {cur : Nat} {o : Option DescRef} {res : Option (Except Errno Vm)}
    (h : SysInv s owed) (hown : ∀ r vm', o = some r → res = some (.ok vm') →
      s.vm.Owns v (s.vm.desc r).vno) (hs : s.send cur v o res = some s') :
    ∃ owed', SysInv s' owed' := by
  unfold VgicSys.send at hs
  split at hs
  · cases hs
  · rename_i vm' r
    split_ifs at hs with hset
    · cases hs
      exact ⟨owed, h⟩
    · cases hs
      refine ⟨_, h.inv.mark (hown r vm' rfl rfl) (by simpa using hset), fun w hno => ?_⟩
      have hw := h.owed w hno
      rw [VgicSys.owed] at hw ⊢
      rw [Function.update_apply, List.countP_cons]
      by_cases hwv : w = v
      · subst hwv
        simp [hw]
      · simp [hw, hwv, Ne.symm hwv]
  · cases hs
    exact ⟨owed, h⟩

theorem SysInv.count {i : Nat} {x : Send} (h : SysInv s owed) (hi : s.sends[i]? = some x) :
    ∃ owed', SysInv
      ⟨countPending s.vm x.cur x.v x.r, s.sends.eraseIdx i, s.resetting⟩ owed' := by
  refine ⟨_, h.inv.count x.cur x.v x.r, fun w hno => ?_⟩
  obtain ⟨hlt, rfl⟩ := List.getElem?_eq_some_iff.mp hi
  have hcount := (List.getElem_cons_eraseIdx_perm hlt).countP_eq fun y : Send => y.v = w
  have hw := h.owed w hno
  rw [VgicSys.owed, ← hcount, List.countP_cons] at hw
  rw [VgicSys.owed, Function.update_apply]
  by_cases hwv : w = s.sends[i].v
  · subst hwv
    simp [hw]
  · simp [hw, hwv, Ne.symm hwv]

/-- An event that keeps to the conditions keeps the invariant. -/
theorem SysInv.step (h : SysInv s owed) (hsend : SendOk s e) (hok : BookOk s e)
    (hs : vgicStep s e = some s') : ∃ owed', SysInv s' owed' := by
  cases e with
  | sendToVcpu cur v virq =>
    refine h.send (fun r vm' hr hres => ?_) hs
    exact h.inv.owns_vcpu (hsend cur v virq rfl) (lt_of_sendVirq hres) hr
  | sendToVm cur virq =>
    refine h.send (fun r vm' hr hres => h.inv.owns_vm (fun hlt => ?_) hr) hs
    rw [sendVirqToVm, if_pos hlt] at hres
    cases hres
  | hwIrq cur r =>
    obtain ⟨hr, hs⟩ := Option.ite_none_right_eq_some.mp hs
    refine h.send (fun d vm' hd _ => ?_) hs
    cases hd
    exact h.inv.owns_hw hr cur
  | count i =>
    obtain ⟨x, hi, rfl⟩ := Option.map_eq_some_iff.mp hs
    exact h.count hi
  | vmState st =>
    cases hs
    exact ⟨owed, ⟨h.inv.nrLe, h.inv.nrGe, h.inv.spi, h.inv.vcpus⟩, h.owed⟩
  | enter v =>
    obtain ⟨⟨hv, -⟩, ⟨⟩⟩ := Option.ite_none_right_eq_some.mp hs
    exact ⟨owed, h.inv.enter hv, h.owed⟩
  | exit v lr =>
    obtain ⟨⟨hv, -⟩, ⟨⟩⟩ := Option.ite_none_right_eq_some.mp hs
    exact ⟨owed, h.inv.exit hv lr, h.owed⟩
  | clearPending v irq =>
    obtain ⟨⟨hv, hno⟩, ⟨⟩⟩ := Option.ite_none_right_eq_some.mp hs
    exact ⟨owed, h.inv.clearPending (hok hv hno), h.owed⟩
  | reset v =>
    obtain ⟨⟨hv, -⟩, ⟨⟩⟩ := Option.ite_none_right_eq_some.mp hs
    refine ⟨_, h.inv.resetPending v, fun w hno => ?_⟩
    have hwv : w ≠ v := by
      rintro rfl
      simp at hno
    rw [Function.update_of_ne hwv]
    exact h.owed w ((Function.update_of_ne hwv _ _).symm.trans hno)
  | resetRest v =>
    obtain ⟨⟨hv, hres⟩, ⟨⟩⟩ := Option.ite_none_right_eq_some.mp hs
    refine ⟨_, h.inv.resetRest v, fun w hno => ?_⟩
    by_cases hwv : w = v
    · subst hwv
      rw [Function.update_self, hok hv hres]
      rfl
    · rw [Function.update_of_ne hwv]
      exact h.owed w ((Function.update_of_ne hwv _ _).symm.trans hno)

theorem clearPendingVirq_vcpuNr (vm : Vm) (v irq : Nat) :
    (clearPendingVirq vm v irq).vcpuNr = vm.vcpuNr := by
  unfold clearPendingVirq
  split
  · rfl
  · dsimp only
    split
    · rfl
    · simp

/-- Where the invariant holds, the records agree after an event exactly when it keeps to the
conditions. -/
theorem SysInv.good_step_iff (h : SysInv s owed) (hsend : SendOk s e) :
    (∀ s', vgicStep s e = some s' → VgicGood s') ↔ BookOk s e := by
  constructor
  · intro hgood
    cases e with
    | clearPending v irq =>
      intro hv hno r hr hstate
      by_contra hact
      refine not_booked_clearPending h.inv hv hr hstate (by simpa using hact) _ _
        (hgood _ (if_pos ⟨hv, hno⟩) v ?_ hno)
      rw [clearPendingVirq_vcpuNr]
      exact hv
    | resetRest v =>
      intro hv hres
      have hpending := (hgood _ (if_pos ⟨hv, hres⟩) v hv (Function.update_self _ _ _)).pending
      simp only [resetRest, setVcpu_self, vcpuVirqStructInit, Int.zero_add] at hpending
      exact (Int.ofNat_inj.mp hpending).symm
    | sendToVcpu | sendToVm | hwIrq | count | vmState | enter | exit | reset => trivial
  · intro hok s' hs
    obtain ⟨owed', hs'⟩ := h.step hsend hok hs
    exact hs'.good

end Runs

/-- A VM as it is brought up: descriptors as requests leave them, nothing
pending, nothing in a list register. -/
structure Booted (vm : Vm) : Prop where
  nrLe : vm.vspiNr ≤ 2 ^ 16
  nrGe : vmLocalVirqNr ≤ vm.vspiNr
  spi : ∀ i, i < vm.vspiNr → SpiDescOk vm i
  nrLrs : ∀ v, (vm.vcpu v).nrLrs ≤ 128
  vno : ∀ v i, i < vmLocalVirqNr → ((vm.vcpu v).localDesc i).vno = i
  pending : ∀ v, (vm.vcpu v).pendingBitmap
      = List.replicate (bitsToLongs (vm.vspiNr + vmLocalVirqNr)) 0 ∧
    (vm.vcpu v).pendingVirq = 0
  active : ∀ v, (vm.vcpu v).activeBitmap
      = List.replicate (bitsToLongs (vm.vspiNr + vmLocalVirqNr)) 0 ∧
    (vm.vcpu v).activeVirq = 0
  lrs : ∀ v, (vm.vcpu v).lrsBitmap = List.replicate 2 0

variable {vm : Vm}

theorem Booted.inv (h : Booted vm) : VgicInv vm fun _ => 0 := by
  refine ⟨h.nrLe, h.nrGe, h.spi, fun v _ => ?_⟩
  obtain ⟨hpend, hpendNr⟩ := h.pending v
  obtain ⟨hact, hactNr⟩ := h.active v
  have hzero : ∀ n j, testBit j (List.replicate n 0) = false := testBit_replicate_zero
  refine ⟨h.nrLrs v, by simp [hpend], by simp [hact], by simp [h.lrs v], h.vno v, ?_, ?_, ?_,
    ⟨?_, ?_, ?_, ?_⟩⟩
  · simp [hpend]
  · simp [hact]
  · simp [hact]
  · intro id
    rw [h.lrs v, hact, hzero]
    simp
  · simp [hact]
  · rw [hpend, hpendNr, bitCount_eq_zero (hzero _)]
    rfl
  · rw [hact, hactNr, bitCount_eq_zero (hzero _)]

theorem spiDescOk_zero : ((({} : VirqDesc).vno < vmLocalVirqNr) ∧
    ({} : VirqDesc).vcpuId ≠ virqAffinityVcpuAny) := by decide

/-- What `__request_virq` and `release_vm_virq` write to a descriptor leaves
a VM `Booted`. -/
theorem Booted.setDesc (h : Booted vm) (r : DescRef) (map : Bitmap)
    (hpercpu : ∀ v i, r = .percpu v i → d.vno = i)
    (hspi : ∀ i, r = .spi i → (d.vno < vmLocalVirqNr ∨
      d.vno = i + vmLocalVirqNr ∧ i + vmLocalVirqNr < vm.vspiNr) ∧
      d.vcpuId ≠ virqAffinityVcpuAny) :
    Booted ({ vm with vspiMap := map }.setDesc r d) := by
  have hdesc := desc_setDesc { vm with vspiMap := map } r d
  have hvcpu := setDesc_vcpu { vm with vspiMap := map } r d
  have hnr : ({ vm with vspiMap := map }.setDesc r d).vspiNr = vm.vspiNr := setDesc_vspiNr _ r d
  refine ⟨by rw [hnr]; exact h.nrLe, by rw [hnr]; exact h.nrGe, fun j hj => ?_, fun w => ?_,
    fun w i hi => ?_, fun w => ?_, fun w => ?_, fun w => ?_⟩
  · rw [hnr] at hj
    have hj' : ({ vm with vspiMap := map }.setDesc r d).vspiDesc j = _ := hdesc (.spi j)
    unfold SpiDescOk
    rw [hj', hnr]
    split
    · rename_i heq
      exact hspi j heq.symm
    · exact h.spi j hj
  · obtain ⟨f, hf⟩ := hvcpu w
    rw [hf]
    exact h.nrLrs w
  · have hi' : (({ vm with vspiMap := map }.setDesc r d).vcpu w).localDesc i = _ :=
      hdesc (.percpu w i)
    rw [hi']
    split
    · rename_i heq
      exact hpercpu w i heq.symm
    · exact h.vno w i hi
  all_goals
    obtain ⟨f, hf⟩ := hvcpu w
    rw [hf]
  · rw [hnr]
    exact h.pending w
  · rw [hnr]
    exact h.active w
  · exact h.lrs w

theorem updateVirqCap_vno (d : VirqDesc) (flags : BitVec 64) :
    (updateVirqCap d flags).vno = d.vno ∧ (updateVirqCap d flags).vcpuId = d.vcpuId := by
  unfold updateVirqCap
  simp only
  split <;> exact ⟨rfl, rfl⟩

theorem Booted.request {cfg : VirqConfig} (h : Booted vm)
    (hline : vm.vspiNr = vmMaxVirqLine cfg vm) (virq hwirq : Nat) (flags : BitVec 64) :
    Booted (afterRequest vm (requestHwVirq cfg vm virq hwirq flags)) := by
  have hle := h.nrLe
  have hhw : ∀ (d : VirqDesc), (if hwirq ≠ 0 then d.setFlag virqsHwBit
      else d.clearFlag virqsHwBit).vno = d.vno ∧ (if hwirq ≠ 0 then d.setFlag virqsHwBit
      else d.clearFlag virqsHwBit).vcpuId = d.vcpuId := by
    intro d
    split <;> exact ⟨rfl, rfl⟩
  unfold requestHwVirq
  split
  · exact h
  rename_i hvirq
  have hmod : virq % 2 ^ 16 = virq := Nat.mod_eq_of_lt (by omega)
  unfold requestVirqAffinity
  split
  · exact h
  unfold getVirqDesc
  by_cases hlocal : virq < vmLocalVirqNr
  · rw [if_pos hlocal]
    simp only [requestVirqDesc, if_neg (Nat.not_le.mpr hlocal)]
    split
    · exact h
    · refine h.setDesc (.percpu 0 virq) vm.vspiMap (fun v i heq => ?_) (by simp)
      cases heq
      rw [(updateVirqCap_vno _ _).1, (hhw _).1]
      exact hmod
  · rw [if_neg hlocal, if_neg (by omega)]
    simp only [requestVirqDesc, if_pos (Nat.not_lt.mp hlocal)]
    split
    · exact h
    · refine h.setDesc (.spi (virq - vmLocalVirqNr)) _ (by simp) (fun i heq => ?_)
      cases heq
      rw [(updateVirqCap_vno _ _).1, (updateVirqCap_vno _ _).2, (hhw _).1, (hhw _).2]
      refine ⟨Or.inr ⟨?_, by omega⟩, show (0 : Nat) ≠ 0xff by decide⟩
      simp only [hmod]
      omega

/-- Any history of requests, allocations and releases brings a VM up to a
state the bookkeeping starts from. -/
theorem booted_of_requests {cfg : VirqConfig} {l : List VirqCall}
    {t : AllocState} (hnr : vmMaxVirqLine cfg vm ≤ 2 ^ 16)
    (hvcpu : ∀ v, (vm.vcpu v).nrLrs ≤ 128 ∧ (vm.vcpu v).localDesc = localDescInit ∧
      (vm.vcpu v).pendingVirq = 0 ∧ (vm.vcpu v).activeVirq = 0 ∧
      (vm.vcpu v).lrsBitmap = List.replicate 2 0)
    (ht : run (virqStep cfg) ⟨virqCreateVm cfg vm, []⟩ l = some t) : Booted t.vm := by
  have hline : ∀ {vm vm' : Vm} {virq : Nat}, Requested vm vm' virq →
      vm.vspiNr = vmMaxVirqLine cfg vm → vm'.vspiNr = vmMaxVirqLine cfg vm' := by
    intro vm vm' virq hr hvm
    rw [hr.vspiNr, hvm, vmMaxVirqLine, vmMaxVirqLine, hr.vmid]
  have hrequest : ∀ (vm : Vm) virq hwirq flags,
      Booted vm ∧ vm.vspiNr = vmMaxVirqLine cfg vm →
      Booted (afterRequest vm (requestHwVirq cfg vm virq hwirq flags)) ∧
        (afterRequest vm (requestHwVirq cfg vm virq hwirq flags)).vspiNr
          = vmMaxVirqLine cfg (afterRequest vm (requestHwVirq cfg vm virq hwirq flags)) := by
    rintro vm virq hwirq flags ⟨hb, hvm⟩
    refine ⟨hb.request hvm virq hwirq flags, ?_⟩
    cases hreq : requestHwVirq cfg vm virq hwirq flags with
    | ok vm' => exact hline (requestHwVirq_ok hreq).2.2 hvm
    | error e => exact hvm
  have hinit : Booted (virqCreateVm cfg vm) ∧
      (virqCreateVm cfg vm).vspiNr = vmMaxVirqLine cfg (virqCreateVm cfg vm) := by
    refine ⟨⟨hnr, Nat.le_add_left _ _, fun i _ => ⟨Or.inl spiDescOk_zero.1, spiDescOk_zero.2⟩,
      fun v => (hvcpu v).1, fun v i _ => ?_, fun v => ⟨rfl, (hvcpu v).2.2.1⟩,
      fun v => ⟨rfl, (hvcpu v).2.2.2.1⟩, fun v => (hvcpu v).2.2.2.2⟩, rfl⟩
    simp only [virqCreateVm, (hvcpu v).2.1, localDescInit]
  refine (run_invariant (P := fun _ _ => True)
    (I := fun s => Booted s.vm ∧ s.vm.vspiNr = vmMaxVirqLine cfg s.vm)
    ?_ hinit (along_true _ l) ht).1
  rintro s c s' hs - hstep
  cases c with
  | request virq flags =>
    cases hstep
    exact hrequest s.vm virq 0 flags hs
  | requestHw virq hwirq flags =>
    cases hstep
    exact hrequest s.vm virq hwirq flags hs
  | alloc =>
    cases hstep
    unfold allocVmVirq
    simp only
    split
    · exact hrequest s.vm _ 0 _ hs
    · exact hs
  | release virq =>
    cases hstep
    unfold releaseVmVirq
    simp only
    split
    · exact hs
    · exact ⟨hs.1.setDesc (.spi (virq - vmLocalVirqNr).toNat) (d := {}) (clearBit _ _)
        (by simp) (fun i _ => ⟨Or.inl spiDescOk_zero.1, spiDescOk_zero.2⟩), hs.2⟩

/-- Nothing is under way. -/
def VgicSys.start (vm : Vm) : VgicSys := ⟨vm, [], fun _ => false⟩

theorem Booted.sysInv (h : Booted vm) : SysInv (.start vm) fun _ => 0 := ⟨h.inv, fun _ _ => rfl⟩

/-- **List-register bookkeeping**: from every VM as it is brought up and over
every interleaving of injections, guest entries and exits, clears by the
guest and resets, the records of all vcpus agree in every state reached
exactly when no clear hits a line that is in a list register with state
`VIRQ_STATE_ACTIVE`, and no reset of a vcpu comes between the bit and the
counter of a send to it, or the other way round. -/
theorem vgic_booked_iff (vm : Vm) (h : Booted vm) (l : List VgicEvent)
    (hsend : Along vgicStep SendOk (.start vm) l) :
    (∀ pre, pre <+: l → ∀ t, run vgicStep (.start vm) pre = some t → VgicGood t) ↔
      Along vgicStep BookOk (.start vm) l := by
  have hcongr : Along vgicStep
      (fun s e => SendOk s e ∧ ∀ s', vgicStep s e = some s' → VgicGood s') (.start vm) l ↔
      Along vgicStep (fun s e => SendOk s e ∧ BookOk s e) (.start vm) l := along_congr
    (I := fun s => ∃ owed, SysInv s owed)
    (fun s e s' hs hq hstep => hs.elim fun _ hs => hs.step hq.1 hq.2 hstep)
    (fun s e hs => and_congr_right fun hsend => hs.elim fun _ hs => hs.good_step_iff hsend)
    ⟨_, h.sysInv⟩ l
  rw [along_and, along_and] at hcongr
  rw [forall_prefix_iff_along]
  constructor
  · rintro ⟨-, hgood⟩
    exact (hcongr.mp ⟨hsend, hgood⟩).2
  · intro hok
    exact ⟨h.sysInv.good, (hcongr.mpr ⟨hsend, hok⟩).2⟩

/-- A guest VM with one vcpu and four list registers. -/
def bootedVm : Vm :=
  virqCreateVm {} { guestVm with
    vcpu := fun _ => vcpuVirqStructInit ⟨4, 0, 0, 0, fun _ => {}, [], [], [0, 0]⟩ }

theorem booted_bootedVm : Booted bootedVm :=
  booted_of_requests (l := []) (t := ⟨bootedVm, []⟩) (by decide)
    (fun _ => ⟨show 4 ≤ 128 by decide, rfl, rfl, rfl, rfl⟩) rfl

/-- An SGI is taken by the guest, before it is counted, and handled: entry, exit while it
is active, entry, exit when it is done. -/
def sgiHandled : List VgicEvent :=
  [.vmState .online, .sendToVcpu 0 0 5, .enter 0, .count 0, .exit 0 (fun _ => .active), .enter 0,
    .exit 0 (fun _ => .inactive)]

theorem vgic_booked_sgi :
    (run vgicStep (.start bootedVm) sgiHandled).isSome ∧ ∀ pre, pre <+: sgiHandled →
      ∀ t, run vgicStep (.start bootedVm) pre = some t → VgicGood t := by
  refine ⟨by decide +kernel, (vgic_booked_iff bootedVm booted_bootedVm sgiHandled ?_).mpr ?_⟩
  · simp [sgiHandled, Along, SendOk, vmLocalVirqNr, vmSgiVirqNr, vmPpiVirqNr]
  · simp [sgiHandled, Along, BookOk]

/-- The guest handles the SGI and writes `GICR_ICPENDR0` from its handler: the list register
stays taken and `active_virq` stays one, with nothing active. And the vcpu is reset between
the bit and the counter of a send: `pending_virq` stays one, with nothing pending. -/
theorem vgic_leaked_register :
    (∃ t, run vgicStep (.start bootedVm) [.vmState .online, .sendToVcpu 0 0 5, .count 0, .enter 0,
        .exit 0 (fun _ => .active), .clearPending 0 5] = some t ∧
      ¬ VgicGood t ∧ (t.vm.vcpu 0).activeVirq = 1 ∧ (t.vm.vcpu 0).lrsBitmap = [1, 0] ∧
      (t.vm.vcpu 0).activeBitmap = [0, 0]) ∧
    ∃ t, run vgicStep (.start bootedVm) [.vmState .online, .sendToVcpu 0 0 5, .reset 0,
        .resetRest 0, .count 0] = some t ∧
      ¬ VgicGood t ∧ t.sends.length = 0 ∧ (t.vm.vcpu 0).pendingVirq = 1 ∧
      (t.vm.vcpu 0).pendingBitmap = [0, 0] := by
  constructor
  · refine exists_found_and (P := fun t => t.vm.vcpuNr = 1 ∧ t.resetting 0 = false)
      (fun t _ ⟨hnr, hno⟩ ⟨hactive, _, hbits⟩ hgood => ?_) (by decide +kernel)
    have hcount := (hgood 0 (by rw [hnr]; decide) hno).active
    rw [hactive, hbits] at hcount
    exact absurd hcount (by decide +kernel)
  · refine exists_found_and (P := fun t => t.vm.vcpuNr = 1 ∧ t.resetting 0 = false)
      (fun t _ ⟨hnr, hno⟩ ⟨hsends, hvirq, hbits⟩ hgood => ?_) (by decide +kernel)
    have hcount := (hgood 0 (by rw [hnr]; decide) hno).pending
    rw [VgicSys.owed, List.length_eq_zero_iff.mp hsends, hvirq, hbits] at hcount
    exact absurd hcount (by decide +kernel)

end Minos.Virq
