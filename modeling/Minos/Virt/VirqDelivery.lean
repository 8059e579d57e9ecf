import Minos.Virt.VgicEntry

/-!
# Delivery of virtual interrupts

`send_virq` runs on any cpu and takes no lock that the guest entry takes: all
that passes between the two is the bitmap `pending_bitmap`, whose bits are
set and cleared one at a time by atomic operations. Here the entry of
`virt/virq_chips/vgic.c` is cut at each of these operations, so that the
sends of other cpus fall between them. A guest exit writes nothing that a
send reads and reads nothing that a send writes, and stays one step.

An interrupt is handed over in three steps: the list register is written,
the bit of `active_bitmap` is set, the bit of `pending_bitmap` is cleared.
-/

namespace Minos.Virq.Delivery

open Minos.Lib

/-! ## The steps of a guest entry -/

/-- Where a vcpu is: outside of the guest, in it, or in
`vgic_irq_enter_to_guest` with the locals `size`, `bit` and `old`. -/
inductive Stage
  | host
  | guest
  /-- At the head of the loop. -/
  | scan (size bit old : Nat)
  /-- The list register is written. -/
  | filled (size bit old : Nat)
  /-- The line is in `active_bitmap` and still in `pending_bitmap`. -/
  | marked (size bit old : Nat)
  deriving DecidableEq, Repr

/-- Up to the first turn of the loop. -/
def enterStart (vm : Vm) (v : Nat) : Vm × Stage :=
  let vs := vm.vcpu v
  let old := vs.lastFailVirq
  let size := vmIrqCount vm - old
  (vm.setVcpu v { vs with lastFailVirq := 0 },
    .scan size (findNextBit vs.pendingBitmap size old) old)

/-- The next turn of `for_each_set_bit_from`. -/
def enterNext (vm : Vm) (v size bit old : Nat) : Stage :=
  .scan size (findNextBit (vm.vcpu v).pendingBitmap size (bit + 1)) old

/-- After the loop: the lines below `old`, or the guest. -/
def enterEnd (vm : Vm) (v old : Nat) : Stage :=
  if old ≠ 0 ∧ (vm.vcpu v).lastFailVirq = 0 then
    .scan old (findNextBit (vm.vcpu v).pendingBitmap old 0) 0
  else .guest

/-- Up to `virq->state = VIRQ_STATE_PENDING`. -/
def fillLr (vm : Vm) (v : Nat) (r : DescRef) (id : Nat) : Vm :=
  (vm.setVcpu v { vm.vcpu v with
    lrsBitmap := setBit id (vm.vcpu v).lrsBitmap }).setDesc r
      { vm.desc r with id := id % 2 ^ 8, state := .pending }

/-- `set_bit(bit, vs->active_bitmap)`, and the count. -/
def markActive (vm : Vm) (v bit : Nat) : Vm :=
  vm.setVcpu v { vm.vcpu v with
    activeBitmap := setBit bit (vm.vcpu v).activeBitmap
    activeVirq := u32 ((vm.vcpu v).activeVirq + 1) }

/-- `clear_bit(bit, vs->pending_bitmap)`, and the count. -/
def clearPending (vm : Vm) (v bit : Nat) : Vm :=
  vm.setVcpu v { vm.vcpu v with
    pendingVirq := (vm.vcpu v).pendingVirq - 1
    pendingBitmap := clearBit bit (vm.vcpu v).pendingBitmap }

/-- One step of `vgic_irq_enter_to_guest`. -/
def enterStep (vm : Vm) (v : Nat) : Stage → Option (Vm × Stage)
  | .host => none
  | .guest => none
  | .scan size bit old =>
    if size ≤ bit then some (vm, enterEnd vm v old)
    else
      let vs := vm.vcpu v
      match getVirqDesc vm v bit with
      | none =>
        let vm := vm.setVcpu v { vs with pendingBitmap := clearBit bit vs.pendingBitmap }
        some (vm, enterNext vm v size bit old)
      | some r =>
        if testBit bit vs.activeBitmap then some (vm, enterNext vm v size bit old)
        else
          let id := findFirstZeroBit vs.lrsBitmap vs.nrLrs
          if vs.nrLrs ≤ id then
            let vm := vm.setVcpu v { vs with lastFailVirq := bit }
            some (vm, enterEnd vm v old)
          else some (fillLr vm v r id, .filled size bit old)
  | .filled size bit old => some (markActive vm v bit, .marked size bit old)
  | .marked size bit old =>
    let vm := clearPending vm v bit
    some (vm, enterNext vm v size bit old)

/-! ## Interleavings -/

/-- The callers of `send_virq`. -/
inductive SendCall
  | toVcpu (cur v virq : Nat)
  | toVm (cur virq : Nat)
  | hwIrq (cur : Nat) (r : DescRef)

def SendCall.result (vm : Vm) : SendCall → Option (Except Errno Vm)
  | .toVcpu cur v virq => sendVirqToVcpu vm cur v virq
  | .toVm cur virq => sendVirqToVm vm cur virq
  | .hwIrq cur r => if vm.HasDesc r then guestIrqHandler vm cur r else none

/-- The vcpu and the descriptor the call hands to `send_virq`. -/
def SendCall.target (vm : Vm) : SendCall → Option (Nat × DescRef)
  | .toVcpu _ v virq => (getVirqDesc vm v virq).map fun r => (v, r)
  | .toVm _ virq => (getVirqDesc vm 0 virq).map fun r => ((vm.desc r).vcpuId, r)
  | .hwIrq cur r =>
    if (vm.desc r).vmid = virqAffinityVmAny ∧ (vm.desc r).vcpuId = virqAffinityVcpuAny then
      some (cur, r)
    else some ((vm.desc r).vcpuId, r)

/-- The vcpu and the line of a call that returns `0`. -/
def SendCall.sent (vm : Vm) (c : SendCall) : Option (Nat × Nat) :=
  match c.result vm, c.target vm with
  | some (.ok _), some (v, r) => some (v, (vm.desc r).vno)
  | _, _ => none

structure System where
  vm : Vm
  stage : Nat → Stage

inductive Event
  | send (c : SendCall)
  | enter (v : Nat)
  /-- The next step of the entry of `v`. -/
  | step (v : Nat)
  | exit (v : Nat) (lr : Nat → VirqState)

def System.put (x : System) (v : Nat) (s : Vm × Stage) : System :=
  ⟨s.1, Function.update x.stage v s.2⟩

def sysStep (x : System) : Event → Option System
  | .send c => (afterSend x.vm (c.result x.vm)).map fun vm => { x with vm := vm }
  | .enter v =>
    if v < x.vm.vcpuNr ∧ x.stage v = .host then some (x.put v (enterStart x.vm v)) else none
  | .step v =>
    if v < x.vm.vcpuNr then (enterStep x.vm v (x.stage v)).map (x.put v) else none
  | .exit v lr =>
    if v < x.vm.vcpuNr ∧ x.stage v = .guest then
      some (x.put v (vgicIrqExitFromGuest x.vm v lr, .host))
    else none

/-- Every vcpu outside of the guest. -/
def booted (vm : Vm) : System := ⟨vm, fun _ => .host⟩

/-! ## What is asked of a line -/

/-- How far the entry of a vcpu is with one line. -/
inductive HandOver
  | none
  | filled
  | marked
  deriving DecidableEq, Repr

def Stage.handOver : Stage → Nat → HandOver
  | .filled _ bit _, b => if bit = b then .filled else .none
  | .marked _ bit _, b => if bit = b then .marked else .none
  | _, _ => .none

def Pending (x : System) (v b : Nat) : Prop :=
  testBit b (x.vm.vcpu v).pendingBitmap = true

def Active (x : System) (v b : Nat) : Prop :=
  testBit b (x.vm.vcpu v).activeBitmap = true

/-- The exit loop reads the state of line `b` as inactive. -/
def ReadsInactive (vm : Vm) (v : Nat) (lr : Nat → VirqState) (b : Nat) : Prop :=
  ∃ r, getVirqDesc vm v b = some r ∧
    virqchipGetVirqState (vm.vcpu v) lr (vm.desc r).id = .inactive

/-- The step that completes the injection of `b` on `v`. -/
def Injected (v b : Nat) (x : System) (e : Event) : Prop :=
  e = .step v ∧ (x.stage v).handOver b = .marked

/-- A guest exit of `v` that observes `b` inactive. -/
def Observed (v b : Nat) (x : System) (e : Event) : Prop :=
  ∃ lr, e = .exit v lr ∧ ReadsInactive x.vm v lr b

/-- The line is written to a list register, not being active. -/
def WrittenAnew (v b : Nat) (x : System) (e : Event) (x' : System) : Prop :=
  e = .step v ∧ ¬ Active x v b ∧ (x'.stage v).handOver b = .filled

/-- The line stays pending until it is injected, and from then on active
until an exit observes it inactive. -/
def NotLost (v b : Nat) : System → List Event → Prop :=
  Until sysStep (Pending · v b) fun x e x' l => Injected v b x e ∧
    Until sysStep (Active · v b) (fun x e _ _ => Observed v b x e) x' l

/-- The line stays pending until a list register is written for it once
more. -/
def InjectedAgain (v b : Nat) : System → List Event → Prop :=
  Until sysStep (Pending · v b) fun x e x' _ => WrittenAnew v b x e x'

/-! ## Bits and numbers through the updates -/

variable {vs : VirqStruct}
variable {r : DescRef}
variable {b : Nat}

section Updates

variable {vm vm' : Vm} {v w : Nat}

@[simp] theorem setDesc_pendingBitmap (vm : Vm) (r : DescRef) (d : VirqDesc) (w : Nat) :
    ((vm.setDesc r d).vcpu w).pendingBitmap = (vm.vcpu w).pendingBitmap := by
  obtain ⟨f, hf⟩ := setDesc_vcpu vm r d w
  rw [hf]

@[simp] theorem setDesc_activeBitmap (vm : Vm) (r : DescRef) (d : VirqDesc) (w : Nat) :
    ((vm.setDesc r d).vcpu w).activeBitmap = (vm.vcpu w).activeBitmap := by
  obtain ⟨f, hf⟩ := setDesc_vcpu vm r d w
  rw [hf]

@[simp] theorem setDesc_nrLrs (vm : Vm) (r : DescRef) (d : VirqDesc) (w : Nat) :
    ((vm.setDesc r d).vcpu w).nrLrs = (vm.vcpu w).nrLrs := by
  obtain ⟨f, hf⟩ := setDesc_vcpu vm r d w
  rw [hf]

/-- What every step leaves alone: the number of lines and vcpus, the lengths
of the status bitmaps and the number in each descriptor. -/
structure Keeps (vm vm' : Vm) : Prop where
  vspiNr : vm'.vspiNr = vm.vspiNr
  vcpuNr : vm'.vcpuNr = vm.vcpuNr
  vno : ∀ r, (vm'.desc r).vno = (vm.desc r).vno
  pendLen : ∀ w, (vm'.vcpu w).pendingBitmap.length = (vm.vcpu w).pendingBitmap.length
  actLen : ∀ w, (vm'.vcpu w).activeBitmap.length = (vm.vcpu w).activeBitmap.length

theorem Keeps.refl (vm : Vm) : Keeps vm vm :=
  ⟨rfl, rfl, fun _ => rfl, fun _ => rfl, fun _ => rfl⟩

theorem Keeps.trans {vm'' : Vm} (h : Keeps vm vm') (h' : Keeps vm' vm'') : Keeps vm vm'' where
  vspiNr := h'.vspiNr.trans h.vspiNr
  vcpuNr := h'.vcpuNr.trans h.vcpuNr
  vno r := (h'.vno r).trans (h.vno r)
  pendLen w := (h'.pendLen w).trans (h.pendLen w)
  actLen w := (h'.actLen w).trans (h.actLen w)

theorem Keeps.setVcpu (hlocal : vs.localDesc = (vm.vcpu v).localDesc)
    (hpend : vs.pendingBitmap.length = (vm.vcpu v).pendingBitmap.length)
    (hact : vs.activeBitmap.length = (vm.vcpu v).activeBitmap.length) :
    Keeps vm (vm.setVcpu v vs) :=
  ⟨rfl, rfl, fun r => by rw [desc_setVcpu hlocal], setVcpu_same (·.pendingBitmap.length) hpend,
    setVcpu_same (·.activeBitmap.length) hact⟩

theorem Keeps.setDesc {d : VirqDesc} (hvno : d.vno = (vm.desc r).vno) :
    Keeps vm (vm.setDesc r d) := by
  refine ⟨setDesc_vspiNr _ _ _, setDesc_vcpuNr _ _ _, fun q => ?_, fun w => by simp,
    fun w => by simp⟩
  rw [desc_setDesc]
  split
  · rename_i heq
    rw [heq, hvno]
  · rfl

/-- Every number in a descriptor is a line of the bitmaps. -/
structure Sized (vm : Vm) : Prop where
  pendLen : ∀ w, (vm.vcpu w).pendingBitmap.length = bitsToLongs (vmIrqCount vm)
  actLen : ∀ w, (vm.vcpu w).activeBitmap.length = bitsToLongs (vmIrqCount vm)
  vno : ∀ r, vm.HasDesc r → (vm.desc r).vno < vmIrqCount vm

theorem Sized.keeps (h : Sized vm) (hk : Keeps vm vm') : Sized vm' := by
  have hcount : vmIrqCount vm' = vmIrqCount vm := by simp only [vmIrqCount, hk.vspiNr]
  refine ⟨fun w => ?_, fun w => ?_, fun r hr => ?_⟩
  · rw [hk.pendLen, hcount, h.pendLen]
  · rw [hk.actLen, hcount, h.actLen]
  · rw [hk.vno, hcount]
    refine h.vno r ?_
    cases r <;> simpa only [Vm.HasDesc, hk.vspiNr, hk.vcpuNr] using hr

theorem Sized.pend_lt (h : Sized vm) (hb : b < vmIrqCount vm) (w : Nat) :
    b < 64 * (vm.vcpu w).pendingBitmap.length := by
  rw [h.pendLen, bitsToLongs]
  omega

theorem Sized.act_lt (h : Sized vm) (hb : b < vmIrqCount vm) (w : Nat) :
    b < 64 * (vm.vcpu w).activeBitmap.length := by
  rw [h.actLen, bitsToLongs]
  omega

theorem sized_of_booted (h : Booted vm) : Sized vm := by
  have hge := h.nrGe
  refine ⟨fun w => ?_, fun w => ?_, fun r hr => ?_⟩
  · rw [(h.pending w).1, List.length_replicate, vmIrqCount]
  · rw [(h.active w).1, List.length_replicate, vmIrqCount]
  · unfold vmIrqCount
    cases r with
    | percpu v i =>
      rw [Vm.desc, h.vno v i hr.2]
      have := hr.2
      omega
    | spi i =>
      rw [Vm.desc]
      rcases (h.spi i hr).1 with hlt | ⟨heq, hlt⟩
      · omega
      · omega

theorem getVirqDesc_congr (h : vm'.vspiNr = vm.vspiNr) (v b : Nat) :
    getVirqDesc vm' v b = getVirqDesc vm v b := by
  unfold getVirqDesc
  rw [h]

theorem getVirqDesc_of_lt (hb : b < vmIrqCount vm) :
    ∃ r, getVirqDesc vm v b = some r := by
  unfold getVirqDesc
  unfold vmIrqCount at hb
  split_ifs
  · exact ⟨_, rfl⟩
  · omega
  · exact ⟨_, rfl⟩

theorem getVirqDesc_inj {c : Nat} (hb : getVirqDesc vm v b = some r)
    (hc : getVirqDesc vm v c = some r) : b = c :=
  (lineDesc_eq_iff.mp ((lineDesc_of_get hb).symm.trans (lineDesc_of_get hc))).1

theorem hasDesc_of_getVirqDesc (hv : v < vm.vcpuNr)
    (hr : getVirqDesc vm v b = some r) : vm.HasDesc r := by
  unfold getVirqDesc at hr
  split_ifs at hr with hlt hge
  · cases hr
    exact ⟨hv, hlt⟩
  · cases hr
    show b - vmLocalVirqNr < vm.vspiNr
    omega

end Updates

/-! ## One step -/

variable {c : SendCall}
variable {lr : Nat → VirqState}
variable {bit : Nat}
variable {size : Nat}
variable {s s' : Stage}

section Steps

variable {vm vm' : Vm} {v : Nat}

/-! ### Sends -/

/-- What `__send_virq` leaves alone: all but the pending lines of the vcpu, and the source of an
SGI. -/
structure SendFrame (vm vm' : Vm) : Prop extends Keeps vm vm' where
  state : vm'.state = vm.state
  desc : ∀ q, ∃ src, vm'.desc q = { vm.desc q with src := src }
  active : ∀ w, (vm'.vcpu w).activeBitmap = (vm.vcpu w).activeBitmap

theorem SendFrame.flags (h : SendFrame vm vm') (q : DescRef) :
    (vm'.desc q).flags = (vm.desc q).flags := by
  obtain ⟨src, hq⟩ := h.desc q
  rw [hq]

theorem SendFrame.vcpuId (h : SendFrame vm vm') (q : DescRef) :
    (vm'.desc q).vcpuId = (vm.desc q).vcpuId := by
  obtain ⟨src, hq⟩ := h.desc q
  rw [hq]

theorem sendVirqPending_frame (vm : Vm) (cur v : Nat) (r : DescRef) :
    SendFrame vm (sendVirqPending vm cur v r) := by
  unfold sendVirqPending
  simp only
  split
  · exact ⟨Keeps.refl vm, rfl, fun _ => ⟨_, rfl⟩, fun _ => rfl⟩
  generalize hvs : ({ vm.vcpu v with
      pendingBitmap := setBit (vm.desc r).vno (vm.vcpu v).pendingBitmap
      pendingVirq := (vm.vcpu v).pendingVirq + 1 } : VirqStruct) = vs
  have hkeeps : Keeps vm (vm.setVcpu v vs) := by
    subst hvs
    exact Keeps.setVcpu rfl (length_setBit _ _) rfl
  have hdesc : ∀ q, (vm.setVcpu v vs).desc q = vm.desc q := desc_setVcpu (by rw [← hvs])
  have hactive : ∀ w, ((vm.setVcpu v vs).vcpu w).activeBitmap = (vm.vcpu w).activeBitmap :=
    setVcpu_same VirqStruct.activeBitmap (by rw [← hvs])
  split
  · refine ⟨hkeeps.trans (Keeps.setDesc rfl), by cases r <;> rfl, fun q => ?_, fun w => ?_⟩
    · rw [desc_setDesc, hdesc, hdesc]
      split
      · rename_i heq
        exact ⟨_, by rw [heq]⟩
      · exact ⟨_, rfl⟩
    · rw [setDesc_activeBitmap, hactive]
  · exact ⟨hkeeps, rfl, fun q => ⟨_, hdesc q⟩, hactive⟩

/-- Bit by bit: the line of the descriptor becomes pending, or is already. -/
theorem sendVirqPending_pending (h : Sized vm) (hr : vm.HasDesc r)
    (cur v w b : Nat) :
    testBit b ((sendVirqPending vm cur v r).vcpu w).pendingBitmap
      = (testBit b (vm.vcpu w).pendingBitmap || decide (w = v ∧ b = (vm.desc r).vno)) := by
  have hset : ∀ n, testBit b ((vm.setVcpu v { vm.vcpu v with
      pendingBitmap := setBit (vm.desc r).vno (vm.vcpu v).pendingBitmap
      pendingVirq := n }).vcpu w).pendingBitmap
      = (testBit b (vm.vcpu w).pendingBitmap || decide (w = v ∧ b = (vm.desc r).vno)) := by
    intro n
    by_cases hw : w = v
    · rw [hw, setVcpu_self, testBit_setBit (h.pend_lt (h.vno r hr) v)]
      simp [eq_comm]
    · rw [setVcpu_of_ne hw]
      simp [hw]
  unfold sendVirqPending
  simp only
  split
  · rename_i hpend
    by_cases hwb : w = v ∧ b = (vm.desc r).vno
    · rw [hwb.1, hwb.2, hpend]
      rfl
    · simp [hwb]
  split
  · rw [setDesc_pendingBitmap, hset]
  · rw [hset]

theorem sendVirq_cases {cur : Nat} {r : Option DescRef} {res : Except Errno Vm}
    (hs : sendVirq vm cur v r = some res) :
    (∃ e, res = .error e) ∨
      ∃ d, r = some d ∧ v < vm.vcpuNr ∧ res = .ok (sendVirqPending vm cur v d) := by
  unfold sendVirq at hs
  split at hs
  · cases hs
  rename_i hv
  cases r with
  | none =>
    cases hs
    exact Or.inl ⟨_, rfl⟩
  | some d =>
    simp only at hs
    split_ifs at hs
    · cases hs
      exact Or.inl ⟨_, rfl⟩
    · cases hs
      exact Or.inl ⟨_, rfl⟩
    · cases hs
      exact Or.inr ⟨d, rfl, by omega, rfl⟩

/-- Every caller fails, or is `__send_virq` on its target. -/
theorem result_cases {res : Except Errno Vm} (hs : c.result vm = some res) :
    (∃ e, res = .error e) ∨
      ∃ cur v r, c.target vm = some (v, r) ∧ vm.HasDesc r ∧ v < vm.vcpuNr ∧
        res = .ok (sendVirqPending vm cur v r) := by
  cases c with
  | toVcpu cur v virq =>
    rcases sendVirq_cases hs with he | ⟨d, hd, hv, hres⟩
    · exact Or.inl he
    · exact Or.inr ⟨cur, v, d, by rw [SendCall.target, hd]; rfl,
        hasDesc_of_getVirqDesc hv hd, hv, hres⟩
  | toVm cur virq =>
    simp only [SendCall.result, sendVirqToVm] at hs
    split at hs
    · cases hs
      exact Or.inl ⟨_, rfl⟩
    rename_i hlocal
    cases hd : getVirqDesc vm 0 virq with
    | none =>
      rw [hd] at hs
      cases hs
      exact Or.inl ⟨_, rfl⟩
    | some r =>
      simp only [hd] at hs
      split_ifs at hs
      · cases hs
        exact Or.inl ⟨_, rfl⟩
      · cases hs
        exact Or.inl ⟨_, rfl⟩
      · rcases sendVirq_cases hs with he | ⟨d, ⟨⟩, hv, hres⟩
        · exact Or.inl he
        · refine Or.inr ⟨cur, _, r, by rw [SendCall.target, hd]; rfl, ?_, hv, hres⟩
          -- some vcpu exists, so the lookup through vcpu 0 is in range
          exact hasDesc_of_getVirqDesc (by omega) hd
  | hwIrq cur r =>
    simp only [SendCall.result] at hs
    obtain ⟨hr, hs⟩ := Option.ite_none_right_eq_some.mp hs
    simp only [guestIrqHandler] at hs
    split_ifs at hs with hhw hany hvm
    · cases hs
      exact Or.inl ⟨_, rfl⟩
    · rcases sendVirq_cases hs with he | ⟨d, ⟨⟩, hv, hres⟩
      · exact Or.inl he
      · exact Or.inr ⟨cur, cur, r, by rw [SendCall.target, if_pos hany], hr, hv, hres⟩
    · rcases sendVirq_cases hs with he | ⟨d, ⟨⟩, hv, hres⟩
      · exact Or.inl he
      · exact Or.inr ⟨cur, _, r, by rw [SendCall.target, if_neg hany], hr, hv, hres⟩
    · cases hs
      exact Or.inl ⟨_, rfl⟩

theorem send_cases {x x' : System} (hs : sysStep x (.send c) = some x') :
    c.sent x.vm = none ∧ x' = x ∨
      ∃ cur v r, c.sent x.vm = some (v, (x.vm.desc r).vno) ∧ x.vm.HasDesc r ∧
        v < x.vm.vcpuNr ∧ x' = { x with vm := sendVirqPending x.vm cur v r } := by
  obtain ⟨vm', hvm', rfl⟩ := Option.map_eq_some_iff.mp hs
  obtain ⟨res, hres, rfl⟩ := Option.map_eq_some_iff.mp hvm'
  rcases result_cases hres with ⟨e, rfl⟩ | ⟨cur, v, r, htarget, hr, hv, rfl⟩
  · exact Or.inl ⟨by rw [SendCall.sent, hres], rfl⟩
  · exact Or.inr ⟨cur, v, r, by rw [SendCall.sent, hres, htarget], hr, hv, rfl⟩

theorem step_cases {x x' : System} {w : Nat} (hs : sysStep x (.step w) = some x') :
    ∃ m, enterStep x.vm w (x.stage w) = some m ∧ x' = x.put w m := by
  obtain ⟨-, hs⟩ := Option.ite_none_right_eq_some.mp hs
  obtain ⟨m, hstep, rfl⟩ := Option.map_eq_some_iff.mp hs
  exact ⟨m, hstep, rfl⟩

/-! ### Exits -/

/-- What the exit loop does to the lines while it visits those of `S`: it
takes some of them out of the active ones, having read their state as
inactive. What it reads for the others stays as it is. -/
structure Retires (v : Nat) (lr : Nat → VirqState) (S : Nat → Prop) (vm vm' : Vm) : Prop where
  keeps : Keeps vm vm'
  pending : ∀ w, (vm'.vcpu w).pendingBitmap = (vm.vcpu w).pendingBitmap
  others : ∀ w, w ≠ v → (vm'.vcpu w).activeBitmap = (vm.vcpu w).activeBitmap
  active : ∀ c, testBit c (vm'.vcpu v).activeBitmap = testBit c (vm.vcpu v).activeBitmap ∨
    S c ∧ testBit c (vm'.vcpu v).activeBitmap = false ∧
      (c < vmIrqCount vm → ReadsInactive vm v lr c)
  reads : ∀ c, ¬ S c → (ReadsInactive vm' v lr c ↔ ReadsInactive vm v lr c)

theorem Retires.refl (v : Nat) (lr : Nat → VirqState) (S : Nat → Prop) (vm : Vm) :
    Retires v lr S vm vm :=
  ⟨Keeps.refl vm, fun _ => rfl, fun _ _ => rfl, fun _ => Or.inl rfl, fun _ _ => Iff.rfl⟩

theorem Keeps.vmIrqCount (h : Keeps vm vm') : vmIrqCount vm' = vmIrqCount vm := by
  simp only [Virq.vmIrqCount, h.vspiNr]

/-- Lines are visited once each, so what is read for one of them is not
touched by the turns before. -/
theorem Retires.trans {S T U : Nat → Prop} {vm'' : Vm}
    (h : Retires v lr S vm vm') (h' : Retires v lr T vm' vm'') (hST : ∀ c, T c → ¬ S c)
    (hS : ∀ c, S c → U c) (hT : ∀ c, T c → U c) : Retires v lr U vm vm'' := by
  refine ⟨h.keeps.trans h'.keeps, fun w => (h'.pending w).trans (h.pending w),
    fun w hw => (h'.others w hw).trans (h.others w hw), fun c => ?_, fun c hc => ?_⟩
  · rcases h'.active c with hsame | ⟨hTc, hclear, hread⟩
    · rw [hsame]
      rcases h.active c with hsame | ⟨hSc, hrest⟩
      · exact Or.inl hsame
      · exact Or.inr ⟨hS c hSc, hrest⟩
    · refine Or.inr ⟨hT c hTc, hclear, fun hlt => ?_⟩
      rw [h.keeps.vmIrqCount] at hread
      exact (h.reads c (hST c hTc)).mp (hread hlt)
  · rw [h'.reads c fun hTc => hc (hT c hTc), h.reads c fun hSc => hc (hS c hSc)]

/-- A line without a descriptor is dropped; there is none below
`vm_irq_count`. -/
theorem dropActive_retires (lr : Nat → VirqState)
    (hr : getVirqDesc vm v bit = none) :
    Retires v lr (· = bit) vm (vm.setVcpu v { vm.vcpu v with
      activeBitmap := clearBit bit (vm.vcpu v).activeBitmap }) := by
  refine ⟨Keeps.setVcpu rfl rfl (length_clearBit _ _),
    setVcpu_same VirqStruct.pendingBitmap rfl, fun w hw => ?_, fun c => ?_, fun c _ => ?_⟩
  · rw [setVcpu_of_ne hw]
  · rw [setVcpu_self, testBit_clearBit]
    by_cases hcb : c = bit
    · subst hcb
      refine Or.inr ⟨rfl, by simp, fun hlt => ?_⟩
      obtain ⟨r, hr'⟩ := getVirqDesc_of_lt (v := v) hlt
      rw [hr] at hr'
      cases hr'
    · exact Or.inl (by simp [Ne.symm hcb])
  · have hdesc : ∀ q, (vm.setVcpu v { vm.vcpu v with
        activeBitmap := clearBit bit (vm.vcpu v).activeBitmap }).desc q = vm.desc q :=
      desc_setVcpu rfl
    unfold ReadsInactive
    simp only [hdesc, setVcpu_self]
    exact Iff.rfl

/-- Descriptors of other lines do not matter for what is read. -/
theorem reads_setDesc
    (hr : getVirqDesc vm v bit = some r) (hlocal : vs.localDesc = (vm.vcpu v).localDesc)
    (hlrs : vs.nrLrs = (vm.vcpu v).nrLrs) (d : VirqDesc) {c : Nat} (hc : c ≠ bit) :
    ReadsInactive ((vm.setVcpu v vs).setDesc r d) v lr c ↔ ReadsInactive vm v lr c := by
  unfold ReadsInactive virqchipGetVirqState
  refine exists_congr fun q => ?_
  have hget : getVirqDesc ((vm.setVcpu v vs).setDesc r d) v c = getVirqDesc vm v c := by
    simp only [getVirqDesc, setDesc_vspiNr]
    rfl
  rw [hget]
  refine and_congr_right fun hq => ?_
  have hne : q ≠ r := by
    rintro rfl
    exact hc (getVirqDesc_inj hq hr)
  rw [desc_setDesc, if_neg hne, desc_setVcpu hlocal, setDesc_nrLrs, setVcpu_self, hlrs]

theorem retireVirq_retires (lr : Nat → VirqState)
    (hr : getVirqDesc vm v bit = some r) :
    Retires v lr (· = bit) vm (retireVirq vm v lr r bit) := by
  unfold retireVirq
  simp only
  split
  · rename_i hstate
    generalize u32 ((vm.vcpu v).activeVirq + (2 ^ 32 - 1)) = n
    generalize hvs : ({ vm.vcpu v with
      lrsBitmap := clearBit (vm.desc r).id (vm.vcpu v).lrsBitmap
      activeVirq := n
      activeBitmap := clearBit bit (vm.vcpu v).activeBitmap } : VirqStruct) = vs
    have hlocal : vs.localDesc = (vm.vcpu v).localDesc := by rw [← hvs]
    have hpend : vs.pendingBitmap = (vm.vcpu v).pendingBitmap := by rw [← hvs]
    have hact : vs.activeBitmap = clearBit bit (vm.vcpu v).activeBitmap := by rw [← hvs]
    have hlrs : vs.nrLrs = (vm.vcpu v).nrLrs := by rw [← hvs]
    refine ⟨?_, fun w => ?_, fun w hw => ?_, fun c => ?_, fun c hc => ?_⟩
    · refine (Keeps.setVcpu hlocal (by rw [hpend]) ?_).trans (Keeps.setDesc ?_)
      · rw [hact, length_clearBit]
      · rw [desc_setVcpu hlocal]
    · rw [setDesc_pendingBitmap, setVcpu_same VirqStruct.pendingBitmap hpend]
    · rw [setDesc_activeBitmap, setVcpu_of_ne hw]
    · rw [setDesc_activeBitmap, setVcpu_self, hact, testBit_clearBit]
      by_cases hcb : c = bit
      · subst hcb
        exact Or.inr ⟨rfl, by simp, fun _ => ⟨r, hr, hstate⟩⟩
      · exact Or.inl (by simp [Ne.symm hcb])
    · exact reads_setDesc hr hlocal hlrs _ hc
  · refine ⟨Keeps.setDesc rfl, fun w => by simp, fun w _ => by simp, fun c => by simp,
      fun c hc => ?_⟩
    have hread : ∀ d, ReadsInactive ((vm.setVcpu v (vm.vcpu v)).setDesc r d) v lr c ↔
        ReadsInactive vm v lr c := fun d => reads_setDesc hr rfl rfl d hc
    rw [setVcpu_eq_self] at hread
    exact hread _

theorem exitScan_retires (fuel : Nat) :
    ∀ (vm : Vm) (bit : Nat),
      Retires v lr (fun c => bit ≤ c ∧ c < size) vm (exitScan v lr size fuel vm bit) := by
  induction fuel with
  | zero => exact fun vm bit => Retires.refl v lr _ vm
  | succ fuel ih =>
    intro vm bit
    rw [exitScan]
    split
    · exact Retires.refl v lr _ vm
    rename_i hlt
    have hrest : ∀ vm', Retires v lr (· = bit) vm vm' →
        Retires v lr (fun c => bit ≤ c ∧ c < size) vm (exitScan v lr size fuel vm'
          (findNextBit (vm'.vcpu v).activeBitmap size (bit + 1))) := by
      intro vm' hone
      have hge := (findNextBit_spec (vm'.vcpu v).activeBitmap size (bit + 1)).ge
      exact hone.trans (ih vm' _) (fun c hc => by omega) (fun c hc => by omega)
        (fun c hc => by omega)
    cases hr : getVirqDesc vm v bit with
    | none => exact hrest _ (dropActive_retires lr hr)
    | some r => exact hrest _ (retireVirq_retires lr hr)

/-! ### Entries -/

/-- The steps of an entry, as far as the bitmaps see them. -/
inductive EntryMove (vm : Vm) (v : Nat) : Stage → Vm → Stage → Prop
  /-- The end of the loop, an active line, or no list register. -/
  | pass {size bit old : Nat} {s' : Stage} (lastFail : Nat) (hs' : ∀ b, s'.handOver b = .none) :
      EntryMove vm v (.scan size bit old)
        (vm.setVcpu v { vm.vcpu v with lastFailVirq := lastFail }) s'
  | drop {size bit old next : Nat} (hr : getVirqDesc vm v bit = none) :
      EntryMove vm v (.scan size bit old)
        (vm.setVcpu v { vm.vcpu v with
          pendingBitmap := clearBit bit (vm.vcpu v).pendingBitmap }) (.scan size next old)
  | fill {size bit old : Nat} (r : DescRef) (id : Nat)
      (hact : testBit bit (vm.vcpu v).activeBitmap = false) :
      EntryMove vm v (.scan size bit old) (fillLr vm v r id) (.filled size bit old)
  | mark {size bit old : Nat} :
      EntryMove vm v (.filled size bit old) (markActive vm v bit) (.marked size bit old)
  | clear {size bit old next : Nat} :
      EntryMove vm v (.marked size bit old) (clearPending vm v bit) (.scan size next old)

theorem handOver_enterEnd (vm : Vm) (v old b : Nat) :
    (enterEnd vm v old).handOver b = .none := by
  unfold enterEnd
  split <;> rfl

theorem enterStep_move (hs : enterStep vm v s = some (vm', s')) :
    EntryMove vm v s vm' s' := by
  cases s with
  | host | guest => cases hs
  | filled size bit old =>
    cases hs
    exact .mark
  | marked size bit old =>
    cases hs
    exact .clear
  | scan size bit old =>
    have hpass : ∀ s', (∀ b, s'.handOver b = .none) →
        EntryMove vm v (.scan size bit old) vm s' := by
      intro s' hs'
      have hmove : EntryMove vm v (.scan size bit old)
          (vm.setVcpu v { vm.vcpu v with lastFailVirq := (vm.vcpu v).lastFailVirq }) s' :=
        .pass _ hs'
      rwa [show vm.setVcpu v { vm.vcpu v with lastFailVirq := (vm.vcpu v).lastFailVirq } = vm
        from setVcpu_eq_self vm v] at hmove
    simp only [enterStep] at hs
    split at hs
    · cases hs
      exact hpass _ (handOver_enterEnd vm v old)
    cases hr : getVirqDesc vm v bit with
    | none =>
      rw [hr] at hs
      cases hs
      exact .drop hr
    | some r =>
      simp only [hr] at hs
      split_ifs at hs with hact hfull
      · cases hs
        exact hpass (enterNext vm v size bit old) fun _ => rfl
      · cases hs
        exact .pass bit (handOver_enterEnd _ v old)
      · cases hs
        exact .fill r _ (by simpa using hact)

theorem fillLr_keeps (vm : Vm) (v : Nat) (r : DescRef) (id : Nat) :
    Keeps vm (fillLr vm v r id) := by
  have hset : Keeps vm (vm.setVcpu v { vm.vcpu v with
    lrsBitmap := setBit id (vm.vcpu v).lrsBitmap }) := Keeps.setVcpu rfl rfl rfl
  exact hset.trans (Keeps.setDesc (hset.vno r).symm)

theorem EntryMove.keeps (h : EntryMove vm v s vm' s') : Keeps vm vm' := by
  cases h with
  | pass => exact Keeps.setVcpu rfl rfl rfl
  | drop | clear => exact Keeps.setVcpu rfl (length_clearBit _ _) rfl
  | fill r id => exact fillLr_keeps vm v r id
  | mark => exact Keeps.setVcpu rfl rfl (length_setBit _ _)

/-- The bitmaps of other vcpus are not touched. -/
theorem EntryMove.others (h : EntryMove vm v s vm' s') {w : Nat} (hw : w ≠ v) :
    (vm'.vcpu w).pendingBitmap = (vm.vcpu w).pendingBitmap ∧
      (vm'.vcpu w).activeBitmap = (vm.vcpu w).activeBitmap := by
  cases h with
  | pass | drop => rw [setVcpu_of_ne hw]; exact ⟨rfl, rfl⟩
  | fill r id =>
    rw [fillLr, setDesc_pendingBitmap, setDesc_activeBitmap, setVcpu_of_ne hw]
    exact ⟨rfl, rfl⟩
  | mark => rw [markActive, setVcpu_of_ne hw]; exact ⟨rfl, rfl⟩
  | clear => rw [clearPending, setVcpu_of_ne hw]; exact ⟨rfl, rfl⟩

end Steps

/-! ## One line -/

/-- All that the system knows of line `b` on vcpu `v`. -/
structure Line where
  pending : Bool
  active : Bool
  hand : HandOver

def line (x : System) (v b : Nat) : Line :=
  ⟨testBit b (x.vm.vcpu v).pendingBitmap, testBit b (x.vm.vcpu v).activeBitmap,
    (x.stage v).handOver b⟩

/-- What a step does to one line. -/
inductive LineStep (x : System) (v b : Nat) : Event → Line → Prop
  | same (e : Event) : LineStep x v b e (line x v b)
  | sent {c : SendCall} (h : c.sent x.vm = some (v, b)) :
      LineStep x v b (.send c) { line x v b with pending := true }
  | fill (h : (line x v b).hand = .none) (ha : (line x v b).active = false) :
      LineStep x v b (.step v) { line x v b with hand := .filled }
  | mark (h : (line x v b).hand = .filled) :
      LineStep x v b (.step v) { line x v b with active := true, hand := .marked }
  | clear (h : (line x v b).hand = .marked) :
      LineStep x v b (.step v) { line x v b with pending := false, hand := .none }
  | retire {lr : Nat → VirqState} (h : (line x v b).hand = .none)
      (hr : ReadsInactive x.vm v lr b) :
      LineStep x v b (.exit v lr) { line x v b with active := false }

variable {e : Event}

section Lines

variable {x x' : System} {v w b : Nat}

theorem LineStep.of_eq (h : line x' v b = line x v b) :
    LineStep x v b e (line x' v b) := by
  rw [h]
  exact .same e

theorem line_put_of_ne (hw : v ≠ w) {s : Vm × Stage}
    (hpend : (s.1.vcpu v).pendingBitmap = (x.vm.vcpu v).pendingBitmap)
    (hact : (s.1.vcpu v).activeBitmap = (x.vm.vcpu v).activeBitmap) :
    line (x.put w s) v b = line x v b := by
  simp only [line, System.put, hpend, hact, Function.update_of_ne hw]

theorem line_put_self (x : System) (v b : Nat) (s : Vm × Stage) :
    line (x.put v s) v b = ⟨testBit b (s.1.vcpu v).pendingBitmap,
      testBit b (s.1.vcpu v).activeBitmap, s.2.handOver b⟩ := by
  simp only [line, System.put, Function.update_self]

theorem lineStep_send (h : Sized x.vm) (hs : sysStep x (.send c) = some x') :
    LineStep x v b (.send c) (line x' v b) := by
  rcases send_cases hs with ⟨-, rfl⟩ | ⟨cur, w, r, hsent, hr, -, rfl⟩
  · exact .same _
  have hline : line { x with vm := sendVirqPending x.vm cur w r } v b
      = { line x v b with
          pending := (line x v b).pending || decide (v = w ∧ b = (x.vm.desc r).vno) } := by
    simp only [line, sendVirqPending_pending h hr, (sendVirqPending_frame _ _ _ _).active]
  rw [hline]
  by_cases hwb : v = w ∧ b = (x.vm.desc r).vno
  · rw [decide_eq_true hwb, Bool.or_true]
    exact .sent (by rw [hsent, hwb.1, hwb.2])
  · rw [decide_eq_false hwb, Bool.or_false]
    exact .same _

theorem lineStep_enter (hs : sysStep x (.enter w) = some x') :
    line x' v b = line x v b := by
  obtain ⟨⟨-, hhost⟩, ⟨⟩⟩ := Option.ite_none_right_eq_some.mp hs
  by_cases hw : v = w
  · subst hw
    rw [line_put_self]
    simp [enterStart, line, hhost, Stage.handOver]
  · refine line_put_of_ne hw ?_ ?_ <;> simp [enterStart, setVcpu_of_ne hw]

theorem lineStep_exit (hb : b < vmIrqCount x.vm)
    (hs : sysStep x (.exit w lr) = some x') : LineStep x v b (.exit w lr) (line x' v b) := by
  obtain ⟨⟨-, hguest⟩, ⟨⟩⟩ := Option.ite_none_right_eq_some.mp hs
  have hret : Retires w lr _ x.vm (vgicIrqExitFromGuest x.vm w lr) := exitScan_retires _ _ _
  by_cases hw : v = w
  · subst hw
    have hhand : (line x v b).hand = .none := by simp [line, hguest, Stage.handOver]
    have hline : line (x.put v (vgicIrqExitFromGuest x.vm v lr, .host)) v b
        = { line x v b with
            active := testBit b ((vgicIrqExitFromGuest x.vm v lr).vcpu v).activeBitmap } := by
      rw [line_put_self]
      simp [line, hret.pending, hguest, Stage.handOver]
    rw [hline]
    rcases hret.active b with hsame | ⟨-, hclear, hread⟩
    · rw [show testBit b ((vgicIrqExitFromGuest x.vm v lr).vcpu v).activeBitmap
        = (line x v b).active from hsame]
      exact .same _
    · rw [show testBit b ((vgicIrqExitFromGuest x.vm v lr).vcpu v).activeBitmap = false
        from hclear]
      exact .retire hhand (hread hb)
  · exact .of_eq (line_put_of_ne hw (hret.pending v) (hret.others v hw))

/-- The step of an entry, on a line of the same vcpu. -/
theorem lineStep_move (h : Sized x.vm) (hb : b < vmIrqCount x.vm) {vm' : Vm}
    (hm : EntryMove x.vm v (x.stage v) vm' s') :
    LineStep x v b (.step v) (line (x.put v (vm', s')) v b) := by
  generalize hst : x.stage v = s at hm
  have hline : line x v b = ⟨testBit b (x.vm.vcpu v).pendingBitmap,
      testBit b (x.vm.vcpu v).activeBitmap, s.handOver b⟩ := by
    rw [line, hst]
  have hhand : (line x v b).hand = s.handOver b := by rw [hline]
  cases hm with
  | pass lastFail hs' =>
    refine .of_eq ?_
    rw [line_put_self, hline, setVcpu_self, hs' b]
    rfl
  | @drop size bit old next hr =>
    have hne : bit ≠ b := by
      rintro rfl
      obtain ⟨r, hr'⟩ := getVirqDesc_of_lt (v := v) hb
      rw [hr] at hr'
      cases hr'
    refine .of_eq ?_
    rw [line_put_self, hline, setVcpu_self, testBit_clearBit, decide_eq_true hne, Bool.and_true]
    rfl
  | @fill size bit old r id hact =>
    have hnew : line (x.put v (fillLr x.vm v r id, .filled size bit old)) v b
        = { line x v b with hand := (Stage.filled size bit old).handOver b } := by
      rw [line_put_self, hline]
      simp only [fillLr, setDesc_pendingBitmap, setDesc_activeBitmap, setVcpu_self]
    by_cases hbit : bit = b
    · subst hbit
      rw [hnew, Stage.handOver, if_pos rfl]
      exact .fill hhand (by rw [hline]; exact hact)
    · refine .of_eq ?_
      rw [hnew, Stage.handOver, if_neg hbit, hline]
      rfl
  | @mark size bit old =>
    have hnew : line (x.put v (markActive x.vm v bit, .marked size bit old)) v b
        = { line x v b with
            active := testBit b (setBit bit (x.vm.vcpu v).activeBitmap)
            hand := (Stage.marked size bit old).handOver b } := by
      rw [line_put_self, hline]
      simp only [markActive, setVcpu_self]
    by_cases hbit : bit = b
    · subst hbit
      rw [hnew, testBit_setBit (h.act_lt hb v), decide_eq_true rfl, Bool.or_true,
        Stage.handOver, if_pos rfl]
      exact .mark (by rw [hhand, Stage.handOver, if_pos rfl])
    · refine .of_eq ?_
      rw [hnew, testBit_setBit_of_ne hbit, Stage.handOver, if_neg hbit, hline,
        Stage.handOver, if_neg hbit]
  | @clear size bit old next =>
    have hnew : line (x.put v (clearPending x.vm v bit, .scan size next old)) v b
        = { line x v b with
            pending := (line x v b).pending && decide (bit ≠ b), hand := .none } := by
      rw [line_put_self, hline]
      simp only [clearPending, setVcpu_self, testBit_clearBit]
      rfl
    by_cases hbit : bit = b
    · rw [hnew, decide_eq_false (not_not.mpr hbit), Bool.and_false]
      exact .clear (by rw [hhand, Stage.handOver, if_pos hbit])
    · refine .of_eq ?_
      rw [hnew, decide_eq_true hbit, Bool.and_true, hline, Stage.handOver, if_neg hbit]

/-- **What a step does to a line**, for every line that has a descriptor. -/
theorem sysStep_line (h : Sized x.vm) (hb : b < vmIrqCount x.vm)
    (hs : sysStep x e = some x') : LineStep x v b e (line x' v b) := by
  cases e with
  | send c => exact lineStep_send h hs
  | enter w => exact .of_eq (lineStep_enter hs)
  | exit w lr => exact lineStep_exit hb hs
  | step w =>
    obtain ⟨⟨vm', s'⟩, hstep, rfl⟩ := step_cases hs
    have hmove := enterStep_move hstep
    by_cases hw : v = w
    · subst hw
      exact lineStep_move h hb hmove
    · obtain ⟨hpend, hact⟩ := hmove.others hw
      exact .of_eq (line_put_of_ne hw hpend hact)

theorem sysStep_keeps (hs : sysStep x e = some x') : Keeps x.vm x'.vm := by
  cases e with
  | send c =>
    rcases send_cases hs with ⟨-, rfl⟩ | ⟨cur, w, r, -, -, -, rfl⟩
    · exact Keeps.refl _
    · exact (sendVirqPending_frame x.vm cur w r).toKeeps
  | enter w =>
    obtain ⟨-, ⟨⟩⟩ := Option.ite_none_right_eq_some.mp hs
    exact Keeps.setVcpu rfl rfl rfl
  | exit w lr =>
    obtain ⟨-, ⟨⟩⟩ := Option.ite_none_right_eq_some.mp hs
    exact (exitScan_retires _ _ _).keeps
  | step w =>
    obtain ⟨⟨vm', s'⟩, hstep, rfl⟩ := step_cases hs
    exact (enterStep_move hstep).keeps

end Lines

/-! ## Undisturbed entries -/

variable {vm : Vm}
variable {old : Nat}

section Undisturbed

variable {x y : System} {v : Nat}

theorem put_put (x : System) (v : Nat) (s s' : Vm × Stage) :
    (x.put v s).put v s' = x.put v s' := by
  simp [System.put]

theorem put_stage (x : System) (v : Nat) (s : Vm × Stage) : (x.put v s).stage v = s.2 := by
  simp [System.put]

theorem sysStep_step {s : Vm × Stage} (hv : v < x.vm.vcpuNr)
    (h : enterStep x.vm v (x.stage v) = some s) : sysStep x (.step v) = some (x.put v s) := by
  rw [sysStep, if_pos hv, h]
  rfl

/-- From `x` the entry of `v` comes to `y`, with nothing in between. -/
def Enters (v : Nat) (x y : System) : Prop :=
  ∃ n, run sysStep x (List.replicate n (.step v)) = some y

theorem Enters.step {z : System} (hs : sysStep x (.step v) = some y) (h : Enters v y z) :
    Enters v x z := by
  obtain ⟨n, hn⟩ := h
  refine ⟨n + 1, ?_⟩
  rw [List.replicate_succ, run_cons, hs]
  exact hn

theorem handOver_eq (id : Nat)
    (hr : getVirqDesc vm v bit = some r) :
    clearPending (markActive (fillLr vm v r id) v bit) v bit = injectVirq vm v r bit id := by
  unfold getVirqDesc at hr
  split_ifs at hr
  · cases hr
    simp [clearPending, markActive, fillLr, injectVirq, Vm.setDesc, Vm.setVcpu,
      VirqStruct.setLocal]
  · cases hr
    simp [clearPending, markActive, fillLr, injectVirq, Vm.setDesc, Vm.setVcpu]

theorem handOver_keeps (hr : getVirqDesc vm v bit = some r)
    (id : Nat) : Keeps vm (injectVirq vm v r bit id) := by
  have hfill : Keeps vm (fillLr vm v r id) := fillLr_keeps vm v r id
  have hmark : Keeps (fillLr vm v r id) (markActive (fillLr vm v r id) v bit) :=
    Keeps.setVcpu rfl rfl (length_setBit _ _)
  rw [← handOver_eq id hr]
  exact (hfill.trans hmark).trans (Keeps.setVcpu rfl (length_clearBit _ _) rfl)

theorem handOver_run (hv : v < x.vm.vcpuNr)
    (hst : x.stage v = .scan size bit old) (hlt : ¬ size ≤ bit)
    (hr : getVirqDesc x.vm v bit = some r)
    (hact : ¬ testBit bit (x.vm.vcpu v).activeBitmap = true)
    {id : Nat} (hid : findFirstZeroBit (x.vm.vcpu v).lrsBitmap (x.vm.vcpu v).nrLrs = id)
    (hfree : ¬ (x.vm.vcpu v).nrLrs ≤ id) {z : System}
    (hrun : Enters v (x.put v (injectVirq x.vm v r bit id,
      enterNext (injectVirq x.vm v r bit id) v size bit old)) z) : Enters v x z := by
  have hfill : sysStep x (.step v)
      = some (x.put v (fillLr x.vm v r id, .filled size bit old)) := by
    refine sysStep_step hv ?_
    simp only [hst, enterStep, if_neg hlt, hr, if_neg hact, hid, if_neg hfree]
  have hvfill : v < (fillLr x.vm v r id).vcpuNr := by
    rw [fillLr, setDesc_vcpuNr]
    exact hv
  have hmark : sysStep (x.put v (fillLr x.vm v r id, .filled size bit old)) (.step v)
      = some (x.put v (markActive (fillLr x.vm v r id) v bit, .marked size bit old)) := by
    have hstep := sysStep_step (x := x.put v (fillLr x.vm v r id, .filled size bit old))
      (s := (markActive (fillLr x.vm v r id) v bit, .marked size bit old)) hvfill
      (by rw [put_stage]; rfl)
    rwa [put_put] at hstep
  have hclear : sysStep (x.put v (markActive (fillLr x.vm v r id) v bit, .marked size bit old))
      (.step v) = some (x.put v (injectVirq x.vm v r bit id,
        enterNext (injectVirq x.vm v r bit id) v size bit old)) := by
    have hstep := sysStep_step
      (x := x.put v (markActive (fillLr x.vm v r id) v bit, .marked size bit old)) (v := v)
      (s := (_, enterNext _ v size bit old)) hvfill (by rw [put_stage]; rfl)
    rw [put_put] at hstep
    rw [← handOver_eq id hr]
    exact hstep
  exact .step hfill (.step hmark (.step hclear hrun))

/-- The steps of an entry, with nothing in between, are the loop. -/
theorem scan_run (fuel : Nat) :
    ∀ {x : System} {bit : Nat} (flags : BitVec 32), v < x.vm.vcpuNr → size ≤ bit + fuel →
      x.stage v = .scan size bit old →
      Enters v x (x.put v ((enterScan v size fuel (x.vm, flags) bit).1,
        enterEnd (enterScan v size fuel (x.vm, flags) bit).1 v old)) := by
  have hdone : ∀ {x : System} {s : Vm × Stage}, v < x.vm.vcpuNr →
      enterStep x.vm v (x.stage v) = some s → Enters v x (x.put v s) :=
    fun hv h => .step (sysStep_step hv h) ⟨0, rfl⟩
  induction fuel with
  | zero =>
    intro x bit flags hv hle hst
    refine hdone hv ?_
    rw [hst, enterStep, if_pos (by omega)]
    rfl
  | succ fuel ih =>
    intro x bit flags hv hle hst
    -- the rest of the loop, from a state that differs in vcpu `v` only
    have hrest : ∀ (vm' : Vm) (flags : BitVec 32), Keeps x.vm vm' →
        Enters v (x.put v (vm', enterNext vm' v size bit old))
          (x.put v ((enterScan v size fuel (vm', flags)
              (findNextBit (vm'.vcpu v).pendingBitmap size (bit + 1))).1,
            enterEnd (enterScan v size fuel (vm', flags)
              (findNextBit (vm'.vcpu v).pendingBitmap size (bit + 1))).1 v old)) := by
      intro vm' flags hk
      have hih := ih (x := x.put v (vm', enterNext vm' v size bit old)) flags
        (by rw [← hk.vcpuNr] at hv; exact hv) (le_findNextBit_add hle _) (put_stage x v _)
      simp only [put_put] at hih
      exact hih
    rw [enterScan]
    by_cases hend : size ≤ bit
    · rw [if_pos hend]
      refine hdone hv ?_
      rw [hst, enterStep, if_pos hend]
    rw [if_neg hend]
    cases hr : getVirqDesc x.vm v bit with
    | none =>
      have hnext := hrest _ flags (@EntryMove.drop x.vm v size bit old 0 hr).keeps
      simp only [setVcpu_self] at hnext
      refine .step (sysStep_step (s := (_, _)) hv ?_) hnext
      simp only [hst, enterStep, if_neg hend, hr]
    | some r =>
      simp only
      split
      · rename_i hact
        refine .step (sysStep_step (s := (_, _)) hv ?_) (hrest _ flags (Keeps.refl _))
        simp only [hst, enterStep, if_neg hend, hr, hact, if_true]
      rename_i hact
      split
      · rename_i hfull
        refine hdone hv ?_
        simp only [hst, enterStep, if_neg hend, hr, if_neg hact, if_pos hfull]
      · rename_i hfree
        exact handOver_run hv hst hend hr hact rfl hfree (hrest _ _ (handOver_keeps hr _))

theorem run_keeps {l : List Event} (hr : run sysStep x l = some y) : Keeps x.vm y.vm :=
  run_invariant (P := fun _ _ => True) (I := fun y => Keeps x.vm y.vm)
    (fun _ _ _ hk _ hs => hk.trans (sysStep_keeps hs)) (Keeps.refl _) (along_true _ l) hr

/-- **An entry that no send falls into** is `vgic_irq_enter_to_guest`. -/
theorem enter_run (hv : v < x.vm.vcpuNr) (hhost : x.stage v = .host) :
    ∃ n, run sysStep x (.enter v :: List.replicate n (.step v))
      = some (x.put v ((vgicIrqEnterToGuest x.vm v).1, .guest)) := by
  have hstart : sysStep x (.enter v) = some (x.put v (enterStart x.vm v)) := by
    rw [sysStep, if_pos ⟨hv, hhost⟩]
  have hscan := scan_run (v := v) (x := x.put v (enterStart x.vm v)) _ 0 hv
    (Nat.le_add_left _ _) (put_stage x v _)
  rw [put_put] at hscan
  unfold vgicIrqEnterToGuest
  simp only
  generalize hs : enterScan v _ _
    (x.vm.setVcpu v { x.vm.vcpu v with lastFailVirq := 0 }, 0) _ = s
  obtain ⟨n, hn⟩ : Enters v (x.put v (enterStart x.vm v))
      (x.put v (s.1, enterEnd s.1 v (x.vm.vcpu v).lastFailVirq)) := by
    rw [← hs]
    exact hscan
  have hkeeps := run_keeps hn
  have hcons : ∀ m, run sysStep x (.enter v :: List.replicate (n + m) (.step v))
      = run sysStep (x.put v (s.1, enterEnd s.1 v (x.vm.vcpu v).lastFailVirq))
          (List.replicate m (.step v)) := by
    intro m
    rw [run_cons, hstart, ← List.replicate_append_replicate]
    exact run_append hn _
  split
  · rename_i hagain
    rw [enterEnd, if_pos hagain] at hcons
    have hv' : v < s.1.vcpuNr := Nat.lt_of_lt_of_eq hv hkeeps.vcpuNr.symm
    obtain ⟨m, hm⟩ := scan_run (v := v) (x := x.put v (s.1, _)) _ s.2 hv'
      (Nat.le_add_left _ _) (put_stage x v _)
    refine ⟨n + m, (hcons m).trans ?_⟩
    rw [hm, put_put]
    rfl
  · rename_i hagain
    rw [enterEnd, if_neg hagain] at hcons
    exact ⟨n, hcons 0⟩

/-- A list register is free. -/
def LrFree (vs : VirqStruct) : Prop := findFirstZeroBit vs.lrsBitmap vs.nrLrs < vs.nrLrs

/-- An entry that finds no line left over from the one before leaves only
active lines pending, unless it uses up the list registers. -/
theorem enter_taken (h : Sized vm) (hlast : (vm.vcpu v).lastFailVirq = 0)
    (hfree : LrFree ((vgicIrqEnterToGuest vm v).1.vcpu v)) (hb : b < vmIrqCount vm) :
    ¬ ((vgicIrqEnterToGuest vm v).1.vcpu v).Waits b := by
  have hscan := enterScan_scan v (vmIrqCount vm) (vmIrqCount vm)
    (vm.setVcpu v { vm.vcpu v with lastFailVirq := 0 }) 0 0 (by omega) (Nat.le_refl _)
    (by rw [setVcpu_self]; exact Nat.le_trans (le_bitsToLongs _) (by rw [h.actLen]))
  rw [setVcpu_self] at hscan
  unfold vgicIrqEnterToGuest at hfree ⊢
  simp only [hlast, ne_eq, not_true, false_and, if_false, Nat.sub_zero] at hfree ⊢
  rcases hscan.ends with ⟨-, hnone⟩ | ⟨hfull, -⟩
  · exact hnone b (Nat.zero_le b) hb
  · have hhit := (findFirstZeroBit_spec _ _).hit hfree
    rw [hfull _ hfree] at hhit
    cases hhit

end Undisturbed

/-! ## What an entry has found -/

/-- The scan of an entry goes on at a pending line. -/
theorem enterStep_found {vm vm' : Vm} {v : Nat} {s : Stage} {size bit old : Nat}
    (hs : enterStep vm v s = some (vm', .scan size bit old)) (hlt : bit < size) :
    testBit bit (vm'.vcpu v).pendingBitmap = true := by
  have hnext : ∀ (p : Bitmap) (lo : Nat), findNextBit p size lo = bit → testBit bit p = true := by
    rintro p lo rfl
    exact (findNextBit_spec p size lo).hit hlt
  have hend : ∀ (vm : Vm) (old' : Nat), enterEnd vm v old' = .scan size bit old →
      testBit bit (vm.vcpu v).pendingBitmap = true := by
    intro vm old' h
    unfold enterEnd at h
    split at h
    · cases h
      exact hnext _ 0 rfl
    · cases h
  cases s with
  | host | guest | filled => cases hs
  | marked size' bit' old' =>
    cases hs
    exact hnext _ _ rfl
  | scan size' bit' old' =>
    simp only [enterStep] at hs
    split at hs
    · obtain ⟨rfl, hstage⟩ := Prod.mk.inj (Option.some.inj hs)
      exact hend _ _ hstage
    split at hs
    · cases hs
      exact hnext _ _ rfl
    split_ifs at hs
    · cases hs
      exact hnext _ _ rfl
    · obtain ⟨rfl, hstage⟩ := Prod.mk.inj (Option.some.inj hs)
      exact hend _ _ hstage
    · cases hs

/-- Lines that the stage of a vcpu stands for are pending: only the vcpu's own entry clears
pending bits, so what the steps of an entry keep is kept. -/
theorem sysStep_at {p : Stage → Option Nat} {x x' : System} {e : Event}
    (hhost : p .host = none)
    (hscan : ∀ {size bit old c : Nat}, c ∈ p (.scan size bit old) → c = bit ∧ bit < size)
    (hstep : ∀ {vm vm' : Vm} {v : Nat} {s s' : Stage}, enterStep vm v s = some (vm', s') →
      (∀ c ∈ p s, testBit c (vm.vcpu v).pendingBitmap = true) →
      ∀ c ∈ p s', testBit c (vm'.vcpu v).pendingBitmap = true)
    (hsized : Sized x.vm) (h : ∀ v, ∀ c ∈ p (x.stage v), Pending x v c)
    (hs : sysStep x e = some x') : ∀ v, ∀ c ∈ p (x'.stage v), Pending x' v c := by
  intro v c hc
  unfold Pending
  cases e with
  | send call =>
    rcases send_cases hs with ⟨-, rfl⟩ | ⟨cur, w, r, -, hr, -, rfl⟩
    · exact h v c hc
    · have hpend : testBit c (x.vm.vcpu v).pendingBitmap = true := h v c hc
      rw [sendVirqPending_pending hsized hr, hpend, Bool.true_or]
  | enter w =>
    obtain ⟨-, ⟨⟩⟩ := Option.ite_none_right_eq_some.mp hs
    by_cases hw : v = w
    · subst hw
      rw [put_stage] at hc
      obtain ⟨rfl, hlt⟩ := hscan hc
      simp only [System.put, enterStart, setVcpu_self]
      exact (findNextBit_spec _ _ _).hit hlt
    · simp only [System.put, enterStart, Function.update_of_ne hw, setVcpu_of_ne hw] at hc ⊢
      exact h v c hc
  | exit w lr =>
    obtain ⟨-, ⟨⟩⟩ := Option.ite_none_right_eq_some.mp hs
    by_cases hw : v = w
    · subst hw
      rw [put_stage, hhost] at hc
      cases hc
    · simp only [System.put, Function.update_of_ne hw] at hc
      rw [System.put, vgicIrqExitFromGuest, (exitScan_retires _ _ _).pending]
      exact h v c hc
  | step w =>
    obtain ⟨⟨vm', s'⟩, hmove, rfl⟩ := step_cases hs
    by_cases hw : v = w
    · subst hw
      rw [put_stage] at hc
      exact hstep hmove (h v) c hc
    · simp only [System.put, Function.update_of_ne hw] at hc
      change testBit c (vm'.vcpu v).pendingBitmap = true
      rw [((enterStep_move hmove).others hw).1]
      exact h v c hc

/-! ## Runs -/

/-- While a line is handed over, `active_bitmap` is as the entry left it: the
exit that could clear it comes later on the same cpu. -/
structure SysInv (x : System) : Prop where
  sized : Sized x.vm
  filled : ∀ v b, b < vmIrqCount x.vm → (line x v b).hand = .filled →
    (line x v b).active = false
  marked : ∀ v b, b < vmIrqCount x.vm → (line x v b).hand = .marked →
    (line x v b).active = true

section Runs

variable {x x' : System} {v b : Nat}

theorem SysInv.step (h : SysInv x) (hs : sysStep x e = some x') : SysInv x' := by
  have hk := sysStep_keeps hs
  refine ⟨h.sized.keeps hk, fun v b hb hhand => ?_, fun v b hb hhand => ?_⟩ <;>
    rw [hk.vmIrqCount] at hb <;>
    have hl := sysStep_line (v := v) h.sized hb hs <;>
    generalize line x' v b = l at hl hhand ⊢
  · cases hl with
    | same | sent => exact h.filled v b hb hhand
    | fill _ ha => exact ha
    | mark | clear => cases hhand
    | retire => rfl
  · cases hl with
    | same | sent => exact h.marked v b hb hhand
    | fill | clear => cases hhand
    | mark => rfl
    | retire hnone =>
      rw [hnone] at hhand
      cases hhand

theorem sysInv_booted (h : Booted vm) : SysInv (booted vm) :=
  ⟨sized_of_booted h, fun _ _ _ hhand => (by cases hhand), fun _ _ _ hhand => (by cases hhand)⟩

theorem sysInv_run (h : Booted vm) {l : List Event}
    (hr : run sysStep (booted vm) l = some x) : SysInv x :=
  run_invariant (P := fun _ _ => True) (fun _ _ _ hi _ hs => hi.step hs) (sysInv_booted h)
    (along_true _ l) hr

/-- The invariant, with a line and what is known of it. -/
structure At (b : Nat) (p : Line → Prop) (v : Nat) (x : System) : Prop where
  inv : SysInv x
  lt : b < vmIrqCount x.vm
  here : p (line x v b)

theorem At.step {p q : Line → Prop} (h : At b p v x) (hs : sysStep x e = some x')
    (hq : q (line x' v b)) : At b q v x' :=
  ⟨h.inv.step hs, by rw [(sysStep_keeps hs).vmIrqCount]; exact h.lt, hq⟩

/-- An active line stays active until an exit observes it inactive. -/
theorem active_until (h : At b (·.active = true) v x) (l : List Event) :
    Until sysStep (Active · v b) (fun x e _ _ => Observed v b x e) x l := by
  refine until_of_invariant (I := At b (·.active = true) v) (fun y hy => hy.here)
    (fun y e y' hy hs => ?_) h l
  have hstep : (line y' v b).active = true → At b (·.active = true) v y' :=
    hy.step (q := (·.active = true)) hs
  have hl := sysStep_line (v := v) hy.inv.sized hy.lt hs
  generalize line y' v b = k at hl hstep
  cases hl with
  | same | sent | fill | clear => exact Or.inl (hstep hy.here)
  | mark => exact Or.inl (hstep rfl)
  | @retire lr _ hread => exact Or.inr fun _ => ⟨lr, rfl, hread⟩

/-- A pending line stays pending until it is injected. -/
theorem not_lost (h : At b (·.pending = true) v x) (l : List Event) : NotLost v b x l := by
  refine until_of_invariant (I := At b (·.pending = true) v) (fun y hy => hy.here)
    (fun y e y' hy hs => ?_) h l
  have hstep : (line y' v b).pending = true → At b (·.pending = true) v y' :=
    hy.step (q := (·.pending = true)) hs
  have hdone : (line y' v b).active = true → At b (·.active = true) v y' :=
    hy.step (q := (·.active = true)) hs
  have hl := sysStep_line (v := v) hy.inv.sized hy.lt hs
  generalize line y' v b = k at hl hstep hdone
  cases hl with
  | same | fill | mark | retire => exact Or.inl (hstep hy.here)
  | sent => exact Or.inl (hstep rfl)
  | clear hmarked =>
    exact Or.inr fun l => ⟨⟨rfl, hmarked⟩,
      active_until (hdone (hy.inv.marked v b hy.lt hmarked)) l⟩

/-- A pending line whose hand-over has not begun stays pending until it is
written to a list register. -/
theorem injected_again (h : At b (fun k => k.pending = true ∧ k.hand = .none) v x)
    (l : List Event) : InjectedAgain v b x l := by
  refine until_of_invariant (I := At b (fun k => k.pending = true ∧ k.hand = .none) v)
    (fun y hy => hy.here.1) (fun y e y' hy hs => ?_) h l
  have hstep : _ → At b (fun k => k.pending = true ∧ k.hand = .none) v y' := hy.step hs
  have hfilled : (line y' v b).hand = .filled → (y'.stage v).handOver b = .filled := id
  have hl := sysStep_line (v := v) hy.inv.sized hy.lt hs
  generalize line y' v b = k at hl hstep hfilled
  obtain ⟨hpend, hnone⟩ := hy.here
  cases hl with
  | same | retire => exact Or.inl (hstep ⟨hpend, hnone⟩)
  | sent => exact Or.inl (hstep ⟨rfl, hnone⟩)
  | fill _ ha =>
    exact Or.inr fun _ => ⟨rfl, Bool.eq_false_iff.mp ha, hfilled rfl⟩
  | mark hfill =>
    rw [hnone] at hfill
    cases hfill
  | clear hmarked =>
    rw [hnone] at hmarked
    cases hmarked

/-- The line a successful send leaves pending. -/
theorem sent_line (h : SysInv x) (hsent : c.sent x.vm = some (v, b))
    (hs : sysStep x (.send c) = some x') :
    v < x.vm.vcpuNr ∧ b < vmIrqCount x.vm ∧ x'.stage = x.stage ∧ x'.vm.vcpuNr = x.vm.vcpuNr ∧
      line x' v b = { line x v b with pending := true } := by
  rcases send_cases hs with ⟨hnone, -⟩ | ⟨cur, w, r, hsome, hr, hw, rfl⟩
  · rw [hsent] at hnone
    cases hnone
  rw [hsent] at hsome
  obtain ⟨rfl, rfl⟩ := Prod.mk.inj (Option.some.inj hsome)
  refine ⟨hw, h.sized.vno r hr, rfl, (sendVirqPending_frame _ _ _ _).vcpuNr, ?_⟩
  simp only [line, sendVirqPending_pending h.sized hr, (sendVirqPending_frame _ _ _ _).active,
    and_self, decide_true, Bool.or_true]

theorem clear_after (hv : v < x.vm.vcpuNr)
    (hst : x.stage v = .marked size b old) :
    ∃ x', sysStep x (.step v) = some x' ∧ ¬ Pending x' v b ∧ (x'.stage v).handOver b = .none := by
  refine ⟨_, sysStep_step hv (by rw [hst]; rfl), ?_, ?_⟩
  · simp [Pending, System.put, clearPending, testBit_clearBit]
  · rw [put_stage]
    rfl

theorem handOver_eq_marked (h : s.handOver b = .marked) :
    ∃ size old, s = .marked size b old := by
  cases s with
  | host | guest | scan => cases h
  | filled size bit old =>
    simp only [Stage.handOver] at h
    split at h <;> cases h
  | marked size bit old =>
    simp only [Stage.handOver] at h
    split at h
    · rename_i heq
      exact ⟨size, old, by rw [heq]⟩
    · cases h

end Runs

/-- **No virq is lost.** In every state that sends, entries and exits lead to
from a booted VM, for every send that succeeds:

* the line is pending until it is injected and from then on active until an
  exit observes it inactive;
* when the line is active at the send, it stays pending until it is written
  to a list register once more, after its deactivation, exactly when the
  send does not fall between the two bit operations of its injection;
* an entry that is not disturbed, and has no line left over from the one
  before, leaves no line pending that is not active, as long as list
  registers are left. -/
theorem virq_delivered {vm : Vm} (h : Booted vm) {pre : List Event} {x x' : System}
    {c : SendCall} {v b : Nat} (hx : run sysStep (booted vm) pre = some x)
    (hsent : c.sent x.vm = some (v, b)) (hs : sysStep x (.send c) = some x') :
    (∀ l, NotLost v b x' l) ∧
      (Active x v b →
        ((∀ l, InjectedAgain v b x' l) ↔ (x.stage v).handOver b ≠ .marked)) ∧
      ∀ w, w < x.vm.vcpuNr → x.stage w = .host → (x.vm.vcpu w).lastFailVirq = 0 →
        ∃ n y, run sysStep x (.enter w :: List.replicate n (.step w)) = some y ∧
          y.stage w = .guest ∧ (LrFree (y.vm.vcpu w) →
            ∀ d, d < vmIrqCount x.vm → Pending y w d → Active y w d) := by
  have hinv := sysInv_run h hx
  obtain ⟨hv, hb, hstage, hnr, hline⟩ := sent_line hinv hsent hs
  have hb' : b < vmIrqCount x'.vm := by rwa [(sysStep_keeps hs).vmIrqCount]
  refine ⟨fun l => not_lost ⟨hinv.step hs, hb', by rw [hline]⟩ l, fun hact => ?_, ?_⟩
  · constructor
    · intro hall hmarked
      -- the entry's next step clears the bit that the send found set
      obtain ⟨size, old, hst⟩ := handOver_eq_marked hmarked
      obtain ⟨y, hy, hclear, hnone⟩ := clear_after (x := x') (by rw [hnr]; exact hv)
        (by rw [hstage]; exact hst)
      rcases (hall [.step v]).2 y hy with hnew | hpend
      · have hfilled := hnew.2.2
        rw [hnone] at hfilled
        cases hfilled
      · exact hclear hpend
    · intro hne l
      refine injected_again ⟨hinv.step hs, hb', by rw [hline], ?_⟩ l
      rw [hline]
      show (x.stage v).handOver b = .none
      cases hhand : (x.stage v).handOver b with
      | none => rfl
      | marked => exact absurd hhand hne
      | filled =>
        have hact' := hinv.filled v b hb hhand
        rw [show (line x v b).active = true from hact] at hact'
        cases hact'
  · intro w hw hhost hlast
    obtain ⟨n, hn⟩ := enter_run hw hhost
    refine ⟨n, _, hn, put_stage x w _, fun hfree d hd hpend => ?_⟩
    by_contra hact
    exact enter_taken hinv.sized hlast hfree hd ⟨hpend, Bool.eq_false_iff.mpr hact⟩

/-- A running guest VM with two vcpus. -/
def runningVm : Vm := { bootedVm with state := .online, vcpuNr := 2 }

theorem booted_runningVm : Booted runningVm :=
  { booted_bootedVm with }

/-- Vcpu 1 sends an SGI to vcpu 0. -/
def sgi : SendCall := .toVcpu 1 0 3

/-- The SGI is sent a second time while the guest handles it. -/
theorem virq_delivered_twice :
    ∃ x x', run sysStep (booted runningVm)
        (.send sgi :: .enter 0 :: List.replicate 4 (.step 0)) = some x ∧
      x.stage 0 = .guest ∧ Active x 0 3 ∧ sgi.sent x.vm = some (0, 3) ∧
      sysStep x (.send sgi) = some x' ∧ (∀ l, NotLost 0 3 x' l) ∧
      ∀ l, InjectedAgain 0 3 x' l := by
  obtain ⟨x, hx, hguest, hact, hsent, x', hs, -⟩ : ∃ x, run sysStep (booted runningVm) (.send sgi
      :: .enter 0 :: List.replicate 4 (.step 0)) = some x ∧ x.stage 0 = .guest ∧ testBit 3
      (x.vm.vcpu 0).activeBitmap = true ∧ sgi.sent x.vm = some (0, 3) ∧
      ∃ x', sysStep x (.send sgi) = some x' ∧ True := by
    decide +kernel
  obtain ⟨hlost, hagain, -⟩ := virq_delivered booted_runningVm hx hsent hs
  refine ⟨x, x', hx, hguest, hact, hsent, hs, hlost, (hagain hact).mpr ?_⟩
  rw [hguest]
  decide

/-- Vcpu 1 sends the SGI a second time when the entry of vcpu 0 has put it in
`active_bitmap` and not yet taken it out of `pending_bitmap`. The send
returns `0`; the entry clears the bit, and after the exit that observes the
first one done nothing is left of the second. -/
theorem virq_merged :
    ∃ x x' y, run sysStep (booted runningVm)
        (.send sgi :: .enter 0 :: List.replicate 2 (.step 0)) = some x ∧
      Active x 0 3 ∧ sgi.sent x.vm = some (0, 3) ∧ sysStep x (.send sgi) = some x' ∧
      ¬ InjectedAgain 0 3 x' [.step 0] ∧
      run sysStep x' [.step 0, .step 0, .exit 0 (fun _ => .inactive)] = some y ∧
      ¬ Pending y 0 3 ∧ ¬ Active y 0 3 := by
  obtain ⟨x, hx, hact, hsent, x', hs, hst, hnr, y, hy, hpend, hdone⟩ : ∃ x, run sysStep
      (booted runningVm) (.send sgi :: .enter 0 :: List.replicate 2 (.step 0)) = some x ∧
      testBit 3 (x.vm.vcpu 0).activeBitmap = true ∧ sgi.sent x.vm = some (0, 3) ∧
      ∃ x', sysStep x (.send sgi) = some x' ∧ x'.stage 0 = .marked 128 3 0 ∧ x'.vm.vcpuNr = 2 ∧
      ∃ y, run sysStep x' [.step 0, .step 0, .exit 0 (fun _ => .inactive)] = some y ∧
      testBit 3 (y.vm.vcpu 0).pendingBitmap = false ∧
      testBit 3 (y.vm.vcpu 0).activeBitmap = false := by
    decide +kernel
  refine ⟨x, x', y, hx, hact, hsent, hs, fun hagain => ?_, hy,
    Bool.eq_false_iff.mp hpend, Bool.eq_false_iff.mp hdone⟩
  obtain ⟨z, hz, hclear, hnone⟩ := clear_after (by rw [hnr]; decide) hst
  rcases hagain.2 z hz with hnew | hpend
  · have hfilled := hnew.2.2
    rw [hnone] at hfilled
    cases hfilled
  · exact hclear hpend

end Minos.Virq.Delivery
