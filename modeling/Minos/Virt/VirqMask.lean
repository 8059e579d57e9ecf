import Minos.Virt.VmboxEvent

/-!
# Disabled lines and the list registers

A guest disables a line through `GICD_ICENABLER`, which clears a flag of the
descriptor. Of the send paths only `send_virq_to_vm` reads the flag, and
`vgic_irq_enter_to_guest` does not: a line that is pending is written to a list
register whether it is enabled or not.

`MaskInv` is what keeps a disabled line out: every pending line is enabled. It
holds as long as only enabled lines are sent and no pending line is disabled.
-/

namespace Minos.VirqMask

open Minos.Lib Minos.Virq Minos.Virq.Delivery
open Minos.VmboxEvent (VmEvent vmStep)

/-- The line `b` as vcpu `v` sees it is enabled. -/
def Enabled (vm : Vm) (v b : Nat) : Prop :=
  ∀ r, getVirqDesc vm v b = some r → virqIsEnabled (vm.desc r) = true

/-- The step writes a list register for a line that is disabled. -/
def WritesDisabled (x : System) (e : VmEvent) : Prop :=
  ∃ v size bit old x', e = .virq (.step v) ∧ x.stage v = .scan size bit old ∧
    vmStep x e = some x' ∧ x'.stage v = .filled size bit old ∧ ¬ Enabled x.vm v bit

/-- The line that a send makes pending is enabled. -/
def SendsEnabled (x : System) (e : VmEvent) : Prop :=
  ∀ c v b, e = .virq (.send c) → c.sent x.vm = some (v, b) → Enabled x.vm v b

/-- A line is not disabled while it is pending on a vcpu. -/
def DisablesIdle (x : System) (e : VmEvent) : Prop :=
  ∀ v virq w b, e = .disable v virq → getVirqDesc x.vm w b = getVirqDesc x.vm v virq →
    ¬ Pending x w b

/-! ## The flags of the descriptors -/

def SameFlags (vm vm' : Vm) : Prop := ∀ r, (vm'.desc r).flags = (vm.desc r).flags

section Flags

variable {vm vm' : Vm} {v w : Nat} {r : DescRef} {vs : VirqStruct} {d : VirqDesc}

theorem SameFlags.refl (vm : Vm) : SameFlags vm vm := fun _ => rfl

theorem SameFlags.trans {vm'' : Vm} (h : SameFlags vm vm') (h' : SameFlags vm' vm'') :
    SameFlags vm vm'' := fun r => (h' r).trans (h r)

theorem SameFlags.setVcpu (hlocal : vs.localDesc = (vm.vcpu v).localDesc) :
    SameFlags vm (vm.setVcpu v vs) := by
  intro r
  rw [desc_setVcpu hlocal]

theorem SameFlags.setDesc (hflags : d.flags = (vm.desc r).flags) :
    SameFlags vm (vm.setDesc r d) := by
  intro q
  rw [desc_setDesc]
  split
  · rename_i heq
    rw [heq, hflags]
  · rfl

theorem retireVirq_flags (vm : Vm) (v : Nat) (lr : Nat → VirqState) (r : DescRef) (b : Nat) :
    SameFlags vm (retireVirq vm v lr r b) := by
  unfold retireVirq
  simp only
  split
  · have hset : ∀ lrs n act, SameFlags vm (vm.setVcpu v { vm.vcpu v with
        lrsBitmap := lrs, activeVirq := n, activeBitmap := act }) :=
      fun _ _ _ => SameFlags.setVcpu rfl
    exact (hset _ _ _).trans (SameFlags.setDesc (hset _ _ _ r).symm)
  · exact SameFlags.setDesc rfl

theorem exitScan_flags {lr : Nat → VirqState} {size : Nat} (fuel : Nat) :
    ∀ (vm : Vm) (bit : Nat), SameFlags vm (exitScan v lr size fuel vm bit) := by
  induction fuel with
  | zero => exact fun vm _ => SameFlags.refl vm
  | succ fuel ih =>
    intro vm bit
    rw [exitScan]
    split
    · exact SameFlags.refl vm
    simp only
    split
    · have hset : SameFlags vm (vm.setVcpu v { vm.vcpu v with
          activeBitmap := clearBit bit (vm.vcpu v).activeBitmap }) := SameFlags.setVcpu rfl
      exact hset.trans (ih _ _)
    · exact (retireVirq_flags vm v lr _ bit).trans (ih _ _)

theorem EntryMove.flags {s s' : Stage} (h : EntryMove vm v s vm' s') : SameFlags vm vm' := by
  cases h with
  | pass | drop | mark | clear => exact SameFlags.setVcpu rfl
  | fill r id =>
    have hset : SameFlags vm (vm.setVcpu v { vm.vcpu v with
        lrsBitmap := setBit id (vm.vcpu v).lrsBitmap }) := SameFlags.setVcpu rfl
    exact hset.trans (SameFlags.setDesc (hset r).symm)

/-- An entry sets no bit of `pending_bitmap`. -/
theorem EntryMove.pending {s s' : Stage} {b : Nat} (h : EntryMove vm v s vm' s')
    (hpend : testBit b (vm'.vcpu v).pendingBitmap = true) :
    testBit b (vm.vcpu v).pendingBitmap = true := by
  cases h with
  | pass => simpa using hpend
  | mark => simpa [markActive] using hpend
  | fill r id => simpa [fillLr] using hpend
  | drop =>
    rw [setVcpu_self, testBit_clearBit] at hpend
    exact (Bool.and_eq_true_iff.mp hpend).1
  | clear =>
    simp only [clearPending, setVcpu_self, testBit_clearBit] at hpend
    exact (Bool.and_eq_true_iff.mp hpend).1

theorem sysStep_flags {x x' : System} {e : Event} (hs : sysStep x e = some x') :
    SameFlags x.vm x'.vm := by
  cases e with
  | send c =>
    rcases send_cases hs with ⟨-, rfl⟩ | ⟨cur, w, r, -, -, -, rfl⟩
    · exact SameFlags.refl _
    · exact (sendVirqPending_frame x.vm cur w r).flags
  | enter w =>
    obtain ⟨-, ⟨⟩⟩ := Option.ite_none_right_eq_some.mp hs
    exact SameFlags.setVcpu rfl
  | exit w lr =>
    obtain ⟨-, ⟨⟩⟩ := Option.ite_none_right_eq_some.mp hs
    exact exitScan_flags _ _ _
  | step w =>
    obtain ⟨⟨vm', s'⟩, hstep, rfl⟩ := step_cases hs
    exact EntryMove.flags (enterStep_move hstep)

end Flags

/-! ## The invariant -/

/-- Pending lines are enabled, and the entry of a vcpu stands at a pending one. -/
structure MaskInv (x : System) : Prop where
  sized : Sized x.vm
  enabled : ∀ v b, Pending x v b → Enabled x.vm v b
  found : ∀ v size bit old, x.stage v = .scan size bit old → bit < size → Pending x v bit

section Steps

variable {x x' : System} {e : VmEvent} {v b : Nat}

theorem Enabled.same {vm vm' : Vm} (h : Enabled vm v b) (hnr : vm'.vspiNr = vm.vspiNr)
    (hflags : SameFlags vm vm') : Enabled vm' v b := by
  intro r hr
  rw [getVirqDesc_congr hnr] at hr
  unfold virqIsEnabled
  rw [hflags r]
  exact h r hr

/-- A step that only clears bits, or sets that of an enabled line, keeps the pending ones
enabled. -/
theorem sysStep_enabled {e : Event} (h : MaskInv x) (hsend : SendsEnabled x (.virq e))
    (hs : sysStep x e = some x') (hpend : Pending x' v b) : Enabled x'.vm v b := by
  have hkeeps := sysStep_keeps hs
  have hflags := sysStep_flags hs
  by_cases hold : Pending x v b
  · exact (h.enabled v b hold).same hkeeps.vspiNr hflags
  cases e with
  | send c =>
    rcases send_cases hs with ⟨-, rfl⟩ | ⟨cur, w, r, hsent, hr, -, rfl⟩
    · exact absurd hpend hold
    · unfold Pending at hpend hold
      rw [sendVirqPending_pending h.sized hr, Bool.or_eq_true] at hpend
      obtain ⟨rfl, rfl⟩ := of_decide_eq_true (hpend.resolve_left hold)
      exact (hsend c _ _ rfl hsent).same hkeeps.vspiNr hflags
  | enter w =>
    obtain ⟨-, ⟨⟩⟩ := Option.ite_none_right_eq_some.mp hs
    refine absurd ?_ hold
    unfold Pending at hpend ⊢
    simp only [System.put, enterStart] at hpend
    by_cases hw : v = w
    · subst hw
      rwa [setVcpu_self] at hpend
    · rwa [setVcpu_of_ne hw] at hpend
  | exit w lr =>
    obtain ⟨-, ⟨⟩⟩ := Option.ite_none_right_eq_some.mp hs
    refine absurd ?_ hold
    unfold Pending at hpend ⊢
    rwa [System.put, vgicIrqExitFromGuest, (exitScan_retires _ _ _).pending] at hpend
  | step w =>
    obtain ⟨⟨vm', s'⟩, hstep, rfl⟩ := step_cases hs
    refine absurd ?_ hold
    have hmove := enterStep_move hstep
    unfold Pending at hpend ⊢
    change testBit b (vm'.vcpu v).pendingBitmap = true at hpend
    by_cases hw : v = w
    · subst hw
      exact EntryMove.pending hmove hpend
    · rwa [(hmove.others hw).1] at hpend

/-- The line that the scan of an entry stands at. -/
def scanned : Stage → Option Nat
  | .scan size bit _ => if bit < size then some bit else none
  | _ => none

theorem mem_scanned {s : Stage} {bit : Nat} :
    bit ∈ scanned s ↔ ∃ size old, s = .scan size bit old ∧ bit < size := by
  cases s with
  | scan size bit' old =>
    simp only [scanned, Option.mem_def, Option.ite_none_right_eq_some, Option.some.injEq]
    constructor
    · rintro ⟨hlt, rfl⟩
      exact ⟨size, old, rfl, hlt⟩
    · rintro ⟨size', old', ⟨⟩, hlt⟩
      exact ⟨hlt, rfl⟩
  | host | guest | filled | marked => simp [scanned]

theorem sysStep_found {e : Event} (h : MaskInv x) (hs : sysStep x e = some x')
    {size bit old : Nat} (hstage : x'.stage v = .scan size bit old) (hlt : bit < size) :
    Pending x' v bit := by
  have hbit : bit ∈ scanned (x'.stage v) := mem_scanned.mpr ⟨size, old, hstage, hlt⟩
  refine sysStep_at rfl (fun hc => ?_) (fun hs _ c hc => ?_) h.sized (fun w c hc => ?_) hs
    v bit hbit
  · obtain ⟨size, old, ⟨⟩, hlt⟩ := mem_scanned.mp hc
    exact ⟨rfl, hlt⟩
  · obtain ⟨size, old, rfl, hlt⟩ := mem_scanned.mp hc
    exact enterStep_found hs hlt
  · obtain ⟨size, old, hstage, hlt⟩ := mem_scanned.mp hc
    exact h.found w size c old hstage hlt

/-- The flag of one descriptor is set or cleared: nothing else changes. -/
theorem MaskInv.setDesc (h : MaskInv x) {r : DescRef} {d : VirqDesc}
    (hvno : d.vno = (x.vm.desc r).vno)
    (hon : virqIsEnabled d = true ∨ ∀ w b, getVirqDesc x.vm w b = some r → ¬ Pending x w b) :
    MaskInv { x with vm := x.vm.setDesc r d } := by
  have hpend : ∀ w b, Pending { x with vm := x.vm.setDesc r d } w b ↔ Pending x w b := by
    intro w b
    unfold Pending
    rw [setDesc_pendingBitmap]
  refine ⟨h.sized.keeps (Keeps.setDesc hvno), fun w b hb q hq => ?_,
    fun w size bit old hst hlt => ?_⟩
  · have hold := (hpend w b).mp hb
    rw [getVirqDesc_congr (setDesc_vspiNr _ _ _)] at hq
    change virqIsEnabled ((x.vm.setDesc r d).desc q) = true
    rw [desc_setDesc]
    split
    · rename_i heq
      subst heq
      exact hon.resolve_right fun hno => hno w b hq hold
    · exact h.enabled w b hold q hq
  · exact (hpend w bit).mpr (h.found w size bit old hst hlt)

theorem enabled_setFlag (d : VirqDesc) : virqIsEnabled (d.setFlag virqsEnabledBit) = true := by
  simp [virqIsEnabled, VirqDesc.setFlag, flagMask, virqsEnabledBit]

theorem MaskInv.step (h : MaskInv x) (hsend : SendsEnabled x e) (hidle : DisablesIdle x e)
    (hs : vmStep x e = some x') : MaskInv x' := by
  cases e with
  | virq e =>
    have hs : sysStep x e = some x' := hs
    exact ⟨h.sized.keeps (sysStep_keeps hs), fun v b => sysStep_enabled h hsend hs,
      fun v size bit old => sysStep_found h hs⟩
  | enable v virq =>
    cases hs
    simp only [virqEnable]
    split
    · exact h
    · exact h.setDesc rfl (Or.inl (enabled_setFlag _))
  | disable v virq =>
    cases hs
    simp only [virqDisable]
    split
    · exact h
    · rename_i r hr
      exact h.setDesc rfl (Or.inr fun w b hb => hidle v virq w b rfl (hb.trans hr.symm))
  | state st =>
    cases hs
    have hkeeps : Keeps x.vm { x.vm with state := st } :=
      ⟨rfl, rfl, fun r => by cases r <;> rfl, fun _ => rfl, fun _ => rfl⟩
    refine ⟨h.sized.keeps hkeeps, fun v b hb r hr => ?_, h.found⟩
    have hen := h.enabled v b hb r hr
    cases r <;> exact hen

theorem MaskInv.notWritten (h : MaskInv x) (e : VmEvent) : ¬ WritesDisabled x e := by
  rintro ⟨v, size, bit, old, x', rfl, hstage, hs, hfilled, hoff⟩
  refine hoff (h.enabled v bit (h.found v size bit old hstage ?_))
  -- past the end of the range no list register is written
  by_contra hge
  obtain ⟨-, hs⟩ := Option.ite_none_right_eq_some.mp (show sysStep x (.step v) = some x' from hs)
  rw [hstage] at hs
  simp only [enterStep, if_pos (Nat.le_of_not_lt hge), Option.map_some] at hs
  cases hs
  rw [put_stage] at hfilled
  unfold enterEnd at hfilled
  split at hfilled <;> cases hfilled

/-- **Disabled lines.** From a VM as it is brought up, in every run in which only enabled lines
are sent and no pending line is disabled, no list register is written for a disabled line. -/
theorem virq_not_written_disabled (vm : Vm) (hvm : Booted vm) (l : List VmEvent)
    (hok : Along vmStep (fun x e => SendsEnabled x e ∧ DisablesIdle x e) (booted vm) l) :
    Along vmStep (fun x e => ¬ WritesDisabled x e) (booted vm) l := by
  have hinv : MaskInv (booted vm) := by
    refine ⟨sized_of_booted hvm, fun v b hb => ?_, fun v size bit old hstage => ?_⟩
    · have hzero : ∀ n, testBit b (List.replicate n 0) = false := fun n =>
        testBit_replicate_zero n b
      unfold Pending booted at hb
      rw [(hvm.pending v).1, hzero] at hb
      cases hb
    · cases hstage
  exact along_of_invariant (fun x e x' h hc hs => h.step hc.1 hc.2 hs)
    (fun x e h _ => h.notWritten e) hinv hok

end Steps

/-- The two conditions for runs that disable only private lines, as a test. -/
def sendsAndDisables (x : System) : VmEvent → Bool
  | .virq (.send c) =>
    match c.sent x.vm with
    | none => true
    | some (v, b) => (getVirqDesc x.vm v b).all fun r => virqIsEnabled (x.vm.desc r)
  | .disable v virq => virq < vmLocalVirqNr && !testBit virq (x.vm.vcpu v).pendingBitmap
  | _ => true

theorem ok_of_sendsAndDisables {x : System} {e : VmEvent} (h : sendsAndDisables x e = true) :
    SendsEnabled x e ∧ DisablesIdle x e := by
  constructor
  · rintro c v b rfl hsent r hr
    simp only [sendsAndDisables, hsent, hr] at h
    exact h
  · rintro v virq w b rfl hdesc hpend
    simp only [sendsAndDisables, Bool.and_eq_true, decide_eq_true_eq, Bool.not_eq_true'] at h
    -- a private descriptor belongs to one line of one vcpu
    rw [getVirqDesc, getVirqDesc, if_pos h.1] at hdesc
    unfold Pending at hpend
    split_ifs at hdesc <;> cases hdesc
    rw [h.2] at hpend
    cases hpend

/-- An SGI is sent, put into a list register and then disabled. -/
def disabledLater : List VmEvent :=
  [.virq (.send sgi), .virq (.enter 0), .virq (.step 0), .virq (.step 0), .virq (.step 0),
    .disable 0 3]

theorem virq_not_written_disabled_sgi :
    (run vmStep (booted runningVm) disabledLater).isSome ∧
      Along vmStep (fun x e => ¬ WritesDisabled x e) (booted runningVm) disabledLater := by
  have hok : Along vmStep (fun x e => sendsAndDisables x e = true) (booted runningVm)
      disabledLater := by
    decide +kernel
  exact ⟨by decide +kernel, virq_not_written_disabled runningVm booted_runningVm disabledLater
    (along_of_invariant (fun _ _ _ _ _ _ => trivial)
      (fun _ _ _ h => ok_of_sendsAndDisables h) trivial hok)⟩

/-- A run after which the entry comes to the disabled SGI and writes it. -/
theorem not_along_of_scanned (pre : List VmEvent)
    (h : ∃ x, run vmStep (booted runningVm) pre = some x ∧
      x.stage 0 = .scan 128 3 0 ∧ virqIsEnabled (x.vm.desc (.percpu 0 3)) = false ∧
      ∃ x', vmStep x (.virq (.step 0)) = some x' ∧ x'.stage 0 = .filled 128 3 0) :
    ¬ Along vmStep (fun x e => ¬ WritesDisabled x e) (booted runningVm)
      (pre ++ [.virq (.step 0)]) := by
  intro hall
  obtain ⟨x, hx, hstage, hoff, x', hx', hfilled⟩ := h
  refine (along_of_append hall hx).1 ⟨0, 128, 3, 0, x', rfl, hstage, hx', hfilled, fun hen => ?_⟩
  rw [hen (.percpu 0 3) rfl] at hoff
  cases hoff

/-- An SGI is disabled and then sent, or sent and then disabled, before the next entry. In both
runs the entry writes it to a list register. -/
theorem virq_written_disabled :
    (¬ Along vmStep (fun x e => ¬ WritesDisabled x e) (booted runningVm)
      [.disable 0 3, .virq (.send sgi), .virq (.enter 0), .virq (.step 0)]) ∧
    ¬ Along vmStep (fun x e => ¬ WritesDisabled x e) (booted runningVm)
      [.virq (.send sgi), .disable 0 3, .virq (.enter 0), .virq (.step 0)] := by
  constructor
  · exact not_along_of_scanned [.disable 0 3, .virq (.send sgi), .virq (.enter 0)]
      (by decide +kernel)
  · exact not_along_of_scanned [.virq (.send sgi), .disable 0 3, .virq (.enter 0)]
      (by decide +kernel)

end Minos.VirqMask
