import Minos.Virt.VirqDelivery
import Minos.Virt.Vmbox

/-!
# Events of a vmbox

One side of a vmbox sets a bit of the other side's `ipc_type` and sends it the
`ipc_virq`; the other side reads `IPC_TYPE`, which clears the word. The bit is set
and cleared under the lock of the device, the virq is sent after the lock is
released, and for `IPC_EVENT` only when the bit was clear. Here the handlers of
`virt/vmbox/vmbox.c` are cut at these points, and anything may happen between
them: other writes, reads, and what the guest and the hypervisor do to the
interrupts of a VM.

`told` records, for every bit of `ipc_type`, whether the `ipc_virq` was made
pending after the bit was set.
-/

namespace Minos.VmboxEvent

open Minos.Lib Minos.Virq Minos.VmboxCon
open Minos.Virq.Delivery (SendCall System sysStep Sized Keeps)

/-! ## Handlers -/

/-- `vdev->bro`. -/
def other : Side → Side
  | .be => .fe
  | .fe => .be

/-- A write that has not returned. `side` is the device whose `ipc_type` it is
about, not the one that was written to. -/
inductive Op
  /-- `IPC_EVENT`, past its checks. -/
  | event (side : Side) (value : Nat)
  /-- `VDEV_ONLINE`, with its own state stored. -/
  | online (side : Side)
  /-- `VDEV_ONLINE`, with the other side seen online. -/
  | raise (side : Side)
  /-- Before `send_virq_to_vm`. -/
  | send (side : Side)
  deriving DecidableEq, Repr

structure Sys where
  owner : Side → Nat
  dev : Side → VmboxDevice
  vm : Nat → System
  ops : List Op
  told : Side → Nat → Bool

def Sys.setDev (s : Sys) (side : Side) (x : VmboxDevice) : Sys :=
  { s with dev := Function.update s.dev side x }

def Sys.setVm (s : Sys) (v : Nat) (x : System) : Sys :=
  { s with vm := Function.update s.vm v x }

def Sys.push (s : Sys) (op : Op) : Sys := { s with ops := op :: s.ops }

/-- The bit is set, and is told of no longer if it was clear. -/
def Sys.setBit (s : Sys) (side : Side) (b : Nat) : Sys :=
  let vdev := s.dev side
  { s.setDev side { vdev with ipcType := vdev.ipcType ||| 2 ^ b } with
    told := Function.update s.told side fun c =>
      s.told side c && (c != b || vdev.ipcType.testBit b) }

/-- The line of `virq` is pending on the vcpu it goes to. -/
def linePending (vm : Vm) (virq : Nat) : Bool :=
  match getVirqDesc vm 0 virq with
  | none => false
  | some r => testBit (vm.desc r).vno (vm.vcpu (vm.desc r).vcpuId).pendingBitmap

/-- `send_virq_to_vm(vdev->vm, vdev->ipc_virq)`, from the vcpu `cur`; the result is
not looked at. When the line has become pending every bit that is set has been
told of. -/
def Sys.notify (s : Sys) (side : Side) (cur : Nat) : Option Sys :=
  let v := s.owner side
  let vdev := s.dev side
  let call := SendCall.toVm cur vdev.ipcVirq
  (sysStep (s.vm v) (.send call)).map fun x =>
    let pending := (call.sent (s.vm v).vm).isSome && linePending x.vm vdev.ipcVirq
    { s.setVm v x with
      told := Function.update s.told side fun b =>
        s.told side b || (pending && vdev.ipcType.testBit b) }

/-- The next part of a write. -/
def opStep (s : Sys) (cur : Nat) : Op → Option Sys
  | .event side value =>
    if (s.dev side).ipcType.testBit value then some s
    else some ((s.setBit side value).push (.send side))
  | .online side =>
    if (s.dev side).state = devStatOnline then some (s.push (.raise side)) else some s
  | .raise side => some ((s.setBit side 0).push (.send side))
  | .send side => s.notify side cur

/-! ## Interleavings -/

inductive VmEvent
  /-- sends, entries and exits -/
  | virq (e : Delivery.Event)
  | enable (v virq : Nat)
  | disable (v virq : Nat)
  | state (st : VmState)

def vmStep (x : System) : VmEvent → Option System
  | .virq e => sysStep x e
  | .enable v virq => some { x with vm := virqEnable x.vm v virq }
  | .disable v virq => some { x with vm := virqDisable x.vm v virq }
  | .state st => some { x with vm := { x.vm with state := st } }

/-- `side` is the device whose `ipc_type` is meant. -/
inductive Event
  /-- The other side writes `IPC_EVENT`. -/
  | ipcEvent (side : Side) (value : Nat)
  /-- The other side writes `VDEV_ONLINE`. -/
  | vdevOnline (side : Side)
  /-- Write `i` of those that have not returned goes on, on the vcpu `cur`. -/
  | go (i cur : Nat)
  | readIpcType (side : Side)
  | vm (v : Nat) (e : VmEvent)

def step (s : Sys) : Event → Option Sys
  | .ipcEvent side value =>
    if (s.dev side).state = 0 ∨ devIpcCount ≤ value then some s
    else some (s.push (.event side value))
  | .vdevOnline side =>
    let mine := other side
    some ((s.setDev mine { s.dev mine with state := devStatOnline }).push (.online side))
  | .go i cur =>
    match s.ops[i]? with
    | none => none
    | some op => opStep { s with ops := s.ops.eraseIdx i } cur op
  | .readIpcType side =>
    some { s.setDev side { s.dev side with ipcType := 0 } with
      told := Function.update s.told side fun _ => false }
  | .vm v e => (vmStep (s.vm v) e).map (s.setVm v)

/-! ## Statements -/

/-- No event and no write yet. -/
structure Start (s : Sys) : Prop where
  clear : ∀ side, (s.dev side).ipcType = 0
  ops : s.ops = []
  sized : ∀ v, Sized (s.vm v).vm

/-- For every event that is set and unread the `ipc_virq` was made pending after
it was set, or a write is about to send it. -/
def NotStuck (s : Sys) : Prop :=
  ∀ side b, (s.dev side).ipcType.testBit b = true →
    s.told side b = true ∨ .send side ∈ s.ops

/-- The VM takes the line: it is a shared one, enabled and not of the hardware, and
the VM runs or is woken by it. -/
def Takes (vm : Vm) (virq : Nat) : Prop :=
  vmLocalVirqNr ≤ virq ∧ ∃ r ∈ getVirqDesc vm 0 virq,
    virqIsEnabled (vm.desc r) = true ∧ virqIsHw (vm.desc r) = false ∧
    (vm.state = .online ∨ vm.state = .suspend ∧ virqCanWakeup (vm.desc r) = true)

instance (vm : Vm) (virq : Nat) : Decidable (Takes vm virq) :=
  inferInstanceAs (Decidable (_ ∧ ∃ _ ∈ _, _))

/-- What is asked of the write that goes on. -/
def OpOk (s : Sys) : Op → Prop
  | .send side => (s.dev side).ipcType ≠ 0 →
      Takes (s.vm (s.owner side)).vm (s.dev side).ipcVirq
  | _ => True

instance (s : Sys) : (op : Op) → Decidable (OpOk s op)
  | .event _ _ => isTrue trivial
  | .online _ => isTrue trivial
  | .raise _ => isTrue trivial
  | .send _ => inferInstanceAs (Decidable (_ → _))

/-- A send for unread events finds a line that the VM takes. -/
def SendOk (s : Sys) : Event → Prop
  | .go i _ => ∀ op ∈ s.ops[i]?, OpOk s op
  | _ => True

instance (s : Sys) : (e : Event) → Decidable (SendOk s e)
  | .go _ _ => inferInstanceAs (Decidable (∀ _ ∈ _, _))
  | .ipcEvent _ _ => isTrue trivial
  | .vdevOnline _ => isTrue trivial
  | .readIpcType _ => isTrue trivial
  | .vm _ _ => isTrue trivial

/-! ## One send -/

variable {x : System}

theorem vmStep_keeps {x' : System} {e : VmEvent} (h : vmStep x e = some x') :
    Keeps x.vm x'.vm := by
  cases e with
  | virq e => exact Delivery.sysStep_keeps h
  | enable v virq =>
    cases h
    simp only [virqEnable]
    split
    · exact Keeps.refl _
    · exact Keeps.setDesc rfl
  | disable v virq =>
    cases h
    simp only [virqDisable]
    split
    · exact Keeps.refl _
    · exact Keeps.setDesc rfl
  | state st =>
    cases h
    exact ⟨rfl, rfl, fun r => by cases r <;> rfl, fun _ => rfl, fun _ => rfl⟩

/-- A line that the VM takes is sent and pending afterwards. -/
theorem Takes.sent {x' : System} {virq cur : Nat} (h : Takes x.vm virq) (hsized : Sized x.vm)
    (hs : sysStep x (.send (.toVm cur virq)) = some x') :
    ((SendCall.toVm cur virq).sent x.vm).isSome = true ∧ linePending x'.vm virq = true := by
  obtain ⟨hshared, r, hr, hen, hhw, hstate⟩ := h
  have hr := Option.mem_def.mp hr
  have hresult : (SendCall.toVm cur virq).result x.vm
      = sendVirq x.vm cur (x.vm.desc r).vcpuId (some r) := by
    simp only [SendCall.result, sendVirqToVm, if_neg (Nat.not_lt_of_le hshared), hr, hen, hhw,
      Bool.true_eq_false, Bool.false_eq_true, if_false]
  -- a missing vcpu is a fault
  have hv : (x.vm.desc r).vcpuId < x.vm.vcpuNr := by
    by_contra hno
    rw [sysStep, hresult, sendVirq, if_pos (Nat.le_of_not_lt hno)] at hs
    cases hs
  have hok : (SendCall.toVm cur virq).result x.vm
      = some (.ok (sendVirqPending x.vm cur (x.vm.desc r).vcpuId r)) := by
    rw [hresult, sendVirq, if_neg (Nat.not_le_of_lt hv)]
    rcases hstate with hon | ⟨hsus, hwake⟩
    · rw [if_neg (fun hne => hne.1 hon), if_neg (fun hne => by rw [hon] at hne; cases hne.1)]
    · rw [if_neg (fun hne => hne.2 hsus), if_neg (fun hne => by rw [hwake] at hne; cases hne.2)]
  rw [sysStep, hok] at hs
  cases hs
  refine ⟨?_, ?_⟩
  · simp only [SendCall.sent, hok, SendCall.target, hr, Option.map_some, Option.isSome_some]
  · have hkeeps := Delivery.sendVirqPending_frame x.vm cur (x.vm.desc r).vcpuId r
    have hget : getVirqDesc (sendVirqPending x.vm cur (x.vm.desc r).vcpuId r) 0 virq = some r := by
      rw [← hr]
      simp only [getVirqDesc, hkeeps.vspiNr]
    have hdesc : x.vm.HasDesc r :=
      Delivery.hasDesc_of_getVirqDesc (Nat.lt_of_le_of_lt (Nat.zero_le _) hv) hr
    show linePending (sendVirqPending x.vm cur (x.vm.desc r).vcpuId r) virq = true
    simp only [linePending, hget, hkeeps.vcpuId, hkeeps.vno,
      Delivery.sendVirqPending_pending hsized hdesc, and_self, decide_true, Bool.or_true]

/-! ## Runs -/

structure Inv (s : Sys) : Prop where
  sized : ∀ v, Sized (s.vm v).vm
  notStuck : NotStuck s

variable {s : Sys}

theorem Start.inv (h : Start s) : Inv s := by
  refine ⟨h.sized, fun side b hb => ?_⟩
  rw [h.clear side, Nat.zero_testBit] at hb
  cases hb

theorem sized_setVm {v : Nat} (h : ∀ w, Sized (s.vm w).vm)
    (hx : Keeps (s.vm v).vm x.vm) : ∀ w, Sized ((s.setVm v x).vm w).vm := by
  intro w
  simp only [Sys.setVm, Function.update_apply]
  split
  · exact (h v).keeps hx
  · exact h w

theorem NotStuck.setBit {rest : List Op} (side : Side) (b : Nat)
    (h : ∀ side' c, (s.dev side').ipcType.testBit c = true →
      s.told side' c = true ∨ .send side' ∈ rest) :
    NotStuck { (s.setBit side b) with ops := .send side :: rest } := by
  intro side' c hc
  by_cases hside : side' = side
  · exact Or.inr (hside ▸ List.mem_cons_self)
  · simp only [Sys.setBit, Sys.setDev, Function.update_of_ne hside] at hc ⊢
    exact (h side' c hc).imp_right (List.mem_cons_of_mem _)

theorem NotStuck.erase {i : Nat} {op : Op} (h : NotStuck s) (hop : s.ops[i]? = some op)
    {side : Side} (hne : op ≠ .send side) {b : Nat} (hb : (s.dev side).ipcType.testBit b = true) :
    s.told side b = true ∨ .send side ∈ s.ops.eraseIdx i := by
  refine (h side b hb).imp_right fun hmem => ?_
  obtain ⟨k, hk⟩ := List.mem_iff_getElem?.mp hmem
  refine List.mem_eraseIdx_iff_getElem?.mpr ⟨k, fun hki => hne ?_, hk⟩
  rw [hki, hop] at hk
  exact Option.some.inj hk

theorem Inv.go {s' : Sys} {i cur : Nat} (h : Inv s) (hok : SendOk s (.go i cur))
    (hs : step s (.go i cur) = some s') : Inv s' := by
  rw [step] at hs
  cases hop : s.ops[i]? with
  | none =>
    rw [hop] at hs
    cases hs
  | some op =>
    rw [hop] at hs
    simp only at hs
    have herase := fun side (hne : op ≠ .send side) b => h.notStuck.erase hop hne (b := b)
    cases op with
    | event side value =>
      have herase := fun side' b => herase side' (by simp) b
      rw [opStep] at hs
      split at hs
      · cases hs
        exact ⟨h.sized, herase⟩
      · cases hs
        exact ⟨h.sized, NotStuck.setBit side value herase⟩
    | online side =>
      have herase := fun side' b => herase side' (by simp) b
      rw [opStep] at hs
      split at hs
      · cases hs
        exact ⟨h.sized, fun side' b hb =>
          (herase side' b hb).imp_right (List.mem_cons_of_mem _)⟩
      · cases hs
        exact ⟨h.sized, herase⟩
    | raise side =>
      have herase := fun side' b => herase side' (by simp) b
      cases hs
      exact ⟨h.sized, NotStuck.setBit side 0 herase⟩
    | send side =>
      obtain ⟨x, hx, rfl⟩ := Option.map_eq_some_iff.mp hs
      refine ⟨sized_setVm h.sized (Delivery.sysStep_keeps hx), fun side' b hb => ?_⟩
      simp only [Sys.setVm] at hb hx ⊢
      by_cases hside : side' = side
      · subst hside
        have htakes := hok _ hop fun h0 => by
          rw [h0, Nat.zero_testBit] at hb
          cases hb
        obtain ⟨hsent, hpend⟩ := htakes.sent (h.sized _) hx
        left
        rw [Function.update_self, hsent, hpend, hb, Bool.and_self, Bool.and_self,
          Bool.or_true]
      · rw [Function.update_of_ne hside]
        exact herase side' (by simpa using Ne.symm hside) b hb

theorem Inv.step {s' : Sys} {e : Event} (h : Inv s) (hok : SendOk s e)
    (hs : step s e = some s') : Inv s' := by
  cases e with
  | go i cur => exact h.go hok hs
  | ipcEvent side value =>
    rw [VmboxEvent.step] at hs
    split at hs
    · cases hs
      exact h
    · cases hs
      exact ⟨h.sized, fun side' b hb =>
        (h.notStuck side' b hb).imp_right (List.mem_cons_of_mem _)⟩
  | vdevOnline side =>
    cases hs
    refine ⟨h.sized, fun side' b hb => ?_⟩
    have hb : (s.dev side').ipcType.testBit b = true := by
      simp only [Sys.push, Sys.setDev, Function.update_apply] at hb
      split at hb
      · rename_i hside
        rw [hside]
        exact hb
      · exact hb
    exact (h.notStuck side' b hb).imp_right (List.mem_cons_of_mem _)
  | readIpcType side =>
    cases hs
    refine ⟨h.sized, fun side' b hb => ?_⟩
    by_cases hside : side' = side
    · subst hside
      simp only [Sys.setDev, Function.update_self, Nat.zero_testBit] at hb
      cases hb
    · simp only [Sys.setDev, Function.update_of_ne hside] at hb ⊢
      exact h.notStuck side' b hb
  | vm v e =>
    obtain ⟨x, hx, rfl⟩ := Option.map_eq_some_iff.mp hs
    exact ⟨sized_setVm h.sized (vmStep_keeps hx), h.notStuck⟩

/-- **Events are not stuck**, as long as every send for unread events finds a line
that the VM takes. -/
theorem vmbox_events_not_stuck {s : Sys} (hs : Start s) (l : List Event)
    (hl : Along step SendOk s l) :
    ∀ pre, pre <+: l → ∀ s', run step s pre = some s' → NotStuck s' := by
  intro pre hpre s' hrun
  exact (run_invariant (fun _ _ _ h hok hs => h.step hok hs) hs.inv
    (along_of_pre hpre hl) hrun).notStuck

/-- A running VM with line 40, not enabled. -/
def vmWithLine : Vm :=
  afterRequest Delivery.runningVm (requestVirq {} Delivery.runningVm 40 0)

/-- Two such VMs with a vmbox, both sides online. -/
def bothOnline : Sys where
  owner := fun
    | .be => 0
    | .fe => 1
  dev := fun _ => { state := devStatOnline, ipcVirq := 40 }
  vm := fun _ => Delivery.booted vmWithLine
  ops := []
  told := fun _ _ => false

theorem start_bothOnline : Start bothOnline :=
  ⟨fun _ => rfl, rfl, fun _ =>
    Delivery.sized_of_booted (Delivery.booted_runningVm.request rfl 40 0 0)⟩

/-- The frontend enables its line and gets event 3 twice before it reads. -/
def twice : List Event :=
  [.vm 1 (.enable 0 40), .ipcEvent .fe 3, .go 0 0, .go 0 0, .ipcEvent .fe 3, .go 0 0,
    .readIpcType .fe]

theorem vmbox_events_not_stuck_twice :
    (run step bothOnline twice).isSome ∧
      ∀ pre, pre <+: twice → ∀ s', run step bothOnline pre = some s' → NotStuck s' :=
  ⟨by decide +kernel, vmbox_events_not_stuck start_bothOnline twice (by decide +kernel)⟩

/-- Event 3 comes while the line is disabled, and again after it is enabled: the
bit is set, no write is in progress, and the line was never pending. -/
theorem vmbox_event_stuck :
    ∃ s, run step bothOnline [.ipcEvent .fe 3, .go 0 0, .go 0 0, .vm 1 (.enable 0 40),
        .ipcEvent .fe 3, .go 0 0] = some s ∧
      (s.dev .fe).ipcType.testBit 3 = true ∧ s.told .fe 3 = false ∧ s.ops = [] ∧
      linePending (s.vm 1).vm 40 = false ∧ ¬ NotStuck s := by
  refine exists_found (P := fun s => (s.dev .fe).ipcType.testBit 3 = true ∧ s.told .fe 3 = false ∧
      s.ops = [] ∧ linePending (s.vm 1).vm 40 = false)
    (fun s _ ⟨hbit, htold, hops, hpend⟩ => ⟨hbit, htold, hops, hpend, fun hgood => ?_⟩)
    (by decide +kernel)
  rcases hgood .fe 3 hbit with ht | hsend
  · rw [htold] at ht
    cases ht
  · rw [hops] at hsend
    cases hsend

end Minos.VmboxEvent
