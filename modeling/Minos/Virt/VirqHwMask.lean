import Minos.Core.Irq
import Minos.Virt.VirqDelivery

/-!
# The masks of physical interrupts

`virq_enable`, `virq_disable` and the requests of `virt/virq.c` once more, with what
they do to the physical interrupt behind a line: it is to be masked while the line is
disabled. A line without hardware has the number 0 in the place of the interrupt.

`request_hw_virq`, `request_virq` and `alloc_vm_virq` come down to
`request_virq_affinity`, or to nothing.
-/

namespace Minos.VirqHwMask

open Minos.Lib Minos.Virq
open Minos.Irq (nrPercpuIrqs)

/-- The mask of an interrupt as a cpu has it; `SPI`s have one for all. -/
abbrev Masks := Nat → Nat → Bool

structure Sys where
  vm : Nat → Vm
  masked : Masks

/-- What cpu `cpu` does, for VM `k`. -/
inductive Op
  | enable (v virq : Nat)
  | disable (v virq : Nat)
  | request (v virq hwirq : Nat) (flags : BitVec 64)
  | requestPervcpu (virq : Nat) (flags : BitVec 64)
  deriving DecidableEq, Repr

structure Event where
  cpu : Nat
  k : Nat
  op : Op

def Sys.desc (s : Sys) (k : Nat) (r : DescRef) : VirqDesc := (s.vm k).desc r

def Sys.set (s : Sys) (k : Nat) (vm : Vm) (masked : Masks) : Sys :=
  ⟨Function.update s.vm k vm, masked⟩

/-- `__irq_enable`, of one of `nr` interrupts. -/
def irqEnable (nr cpu irq : Nat) (mask : Bool) (m : Masks) : Masks := fun c i =>
  if i = irq ∧ irq < nr ∧ (nrPercpuIrqs ≤ irq ∨ c = cpu) then mask else m c i

/-- `virq_enable`; the first shared line is not above `VM_LOCAL_VIRQ_NR`. -/
def virqEnableHw (nr cpu : Nat) (s : Sys) (k v virq : Nat) : Sys :=
  match getVirqDesc (s.vm k) v virq with
  | none => s
  | some r => s.set k (virqEnable (s.vm k) v virq)
      (if vmLocalVirqNr < virq ∧ virqIsHw (s.desc k r) then
        irqEnable nr cpu (s.desc k r).hno false s.masked else s.masked)

/-- `virq_disable`, where the test is with `||`. -/
def virqDisableHw (nr cpu : Nat) (s : Sys) (k v virq : Nat) : Sys :=
  match getVirqDesc (s.vm k) v virq with
  | none => s
  | some r => s.set k (virqDisable (s.vm k) v virq)
      (if vmLocalVirqNr < virq ∨ virqIsHw (s.desc k r) then
        irqEnable nr cpu (s.desc k r).hno true s.masked else s.masked)

/-- The masks after `__request_virq`, which leaves the descriptor `d`: `request_irq`
unmasks the interrupt. -/
def requestMask (nr cpu : Nat) (d : VirqDesc) (hwirq : Nat) (flags : BitVec 64) (m : Masks) :
    Masks :=
  let m :=
    if hwirq ≠ 0 then irqEnable nr cpu d.hno true (irqEnable nr cpu hwirq false m) else m
  if flags.getLsbD virqsEnabledBit ∧ virqIsHw d then irqEnable nr cpu d.hno false m else m

/-- `__request_virq`. -/
def requestVirqHw (nr cpu : Nat) (s : Sys) (k v : Nat) (r : DescRef) (virq hwirq : Nat)
    (flags : BitVec 64) : Sys :=
  match requestVirqDesc (s.vm k) v r virq hwirq flags with
  | .ok vm => s.set k vm (requestMask nr cpu (vm.desc r) hwirq flags s.masked)
  | .error _ => s

/-- `request_virq_affinity`. -/
def requestVirqAffinityHw (nr cpu : Nat) (s : Sys) (k v virq hwirq : Nat) (flags : BitVec 64) :
    Sys :=
  if (s.vm k).vcpuNr ≤ v then s
  else
    match getVirqDesc (s.vm k) v virq with
    | none => s
    | some r => requestVirqHw nr cpu s k v r virq hwirq flags

/-- A turn of the loop of `request_virq_pervcpu`. -/
def requestPervcpuOne (nr cpu k virq : Nat) (flags : BitVec 64) (s : Sys) (v : Nat) : Sys :=
  let r := .percpu v virq
  let s := requestVirqHw nr cpu s k v r virq 0 flags
  s.set k ((s.vm k).setDesc r { s.desc k r with
    vcpuId := virqAffinityVcpuAny, vmid := virqAffinityVmAny }) s.masked

def step (nr : Nat) (s : Sys) (e : Event) : Option Sys :=
  some <| match e.op with
    | .enable v virq => virqEnableHw nr e.cpu s e.k v virq
    | .disable v virq => virqDisableHw nr e.cpu s e.k v virq
    | .request v virq hwirq flags => requestVirqAffinityHw nr e.cpu s e.k v virq hwirq flags
    | .requestPervcpu virq flags =>
      if vmLocalVirqNr ≤ virq then s
      else (List.range (s.vm e.k).vcpuNr).foldl (requestPervcpuOne nr e.cpu e.k virq flags) s

/-! ## What is asked of the masks -/

/-- The interrupt behind a shared line is unmasked exactly when the line is enabled. -/
def Mirror (s : Sys) : Prop :=
  ∀ k i, virqIsHw (s.desc k (.spi i)) = true →
    ∀ c, s.masked c (s.desc k (.spi i)).hno = !virqIsEnabled (s.desc k (.spi i))

/-- A line without hardware is enabled or disabled. -/
def NoHw (s : Sys) (e : Event) : Prop :=
  ∃ v virq r, (e.op = .enable v virq ∨ e.op = .disable v virq) ∧
    getVirqDesc (s.vm e.k) v virq = some r ∧ virqIsHw (s.desc e.k r) = false

def Right (nr : Nat) (s : Sys) (e : Event) : Prop :=
  ∀ s', step nr s e = some s' → Mirror s' ∧ (NoHw s e → s'.masked = s.masked)

/-- The line with hardware that `r` is to be gets an `SPI` that no line has, and if it
is shared and enabled then the request enables it too. -/
def FreshHw (nr : Nat) (s : Sys) (k : Nat) (r : DescRef) (hwirq : Nat) (flags : BitVec 64) :
    Prop :=
  nrPercpuIrqs ≤ hwirq ∧ hwirq < nr ∧ hwirq < 2 ^ 16 ∧
    (∀ k' r', virqIsHw (s.desc k' r') = true → (s.desc k' r').hno ≠ hwirq) ∧
    ∀ i, r = .spi i → virqIsEnabled (s.desc k r) = true →
      flags.getLsbD virqsEnabledBit = true

/-- The first shared line, with hardware, is not enabled while the interrupt is masked;
the other shared lines that are disabled have hardware; and what is asked of requests. -/
def CallOk (nr : Nat) (s : Sys) (e : Event) : Prop :=
  match e.op with
  | .enable v virq => virq = vmLocalVirqNr → ∀ r, getVirqDesc (s.vm e.k) v virq = some r →
      virqIsHw (s.desc e.k r) = true → ∀ c, s.masked c (s.desc e.k r).hno = false
  | .disable v virq => vmLocalVirqNr < virq → ∀ r, getVirqDesc (s.vm e.k) v virq = some r →
      virqIsHw (s.desc e.k r) = true
  | .request v virq hwirq flags => ∀ r, getVirqDesc (s.vm e.k) v virq = some r →
      if hwirq = 0 then flags.getLsbD virqsHwBit = false
      else virqIsRequested (s.desc e.k r) = false → FreshHw nr s e.k r hwirq flags
  | .requestPervcpu _ flags => flags.getLsbD virqsHwBit = false

/-! ## One descriptor -/

/-- The masks mirror the lines, whose interrupts are `SPI`s, each behind one line. -/
structure Inv (nr : Nat) (s : Sys) : Prop where
  mirror : Mirror s
  spi : ∀ k r, virqIsHw (s.desc k r) = true →
    nrPercpuIrqs ≤ (s.desc k r).hno ∧ (s.desc k r).hno < nr
  unique : ∀ k r k' r', virqIsHw (s.desc k r) = true → virqIsHw (s.desc k' r') = true →
    (s.desc k r).hno = (s.desc k' r').hno → k = k' ∧ r = r'

variable {nr cpu k v virq hwirq : Nat} {s s' : Sys} {r : DescRef} {d : VirqDesc}
  {flags : BitVec 64} {m : Masks}

/-- One descriptor of one VM becomes `d`. -/
def Sets (s : Sys) (k : Nat) (r : DescRef) (d : VirqDesc) (s' : Sys) : Prop :=
  ∀ k' r', s'.desc k' r' = if k' = k ∧ r' = r then d else s.desc k' r'

theorem sets_set {vm : Vm} (h : ∀ q, vm.desc q = if q = r then d else s.desc k q) (m : Masks) :
    Sets s k r d (s.set k vm m) := by
  intro k' r'
  by_cases hk : k' = k
  · subst hk
    simp [Sys.desc, Sys.set, h]
  · simp [Sys.desc, Sys.set, hk]

theorem irqEnable_spi {irq : Nat} (hspi : nrPercpuIrqs ≤ irq ∧ irq < nr) (mask : Bool)
    (c i : Nat) : irqEnable nr cpu irq mask m c i = if i = irq then mask else m c i := by
  simp [irqEnable, hspi.1, hspi.2]

/-- **One descriptor changes**: the masks have to be right for it, and to stay for the
interrupts behind the others. -/
theorem Inv.sets (h : Inv nr s) (hset : Sets s k r d s')
    (hspi : virqIsHw d = true → nrPercpuIrqs ≤ d.hno ∧ d.hno < nr)
    (hfresh : virqIsHw d = true → ∀ k' r', ¬ (k' = k ∧ r' = r) →
      virqIsHw (s.desc k' r') = true → (s.desc k' r').hno ≠ d.hno)
    (hself : ∀ i, r = .spi i → virqIsHw d = true → ∀ c, s'.masked c d.hno = !virqIsEnabled d)
    (hmask : ∀ c irq, (virqIsHw d = true → irq ≠ d.hno) → s'.masked c irq = s.masked c irq) :
    Inv nr s' := by
  refine ⟨fun k' i hhw c => ?_, fun k' r' hhw => ?_, fun k₁ r₁ k₂ r₂ h₁ h₂ heq => ?_⟩
  · rw [hset] at hhw ⊢
    split at hhw
    · rename_i hk
      rw [if_pos hk]
      exact hself i hk.2.symm hhw c
    · rename_i hk
      rw [if_neg hk, hmask c _ fun hd => hfresh hd k' _ hk hhw]
      exact h.mirror k' i hhw c
  · rw [hset] at hhw ⊢
    split at hhw
    · rename_i hk
      rw [if_pos hk]
      exact hspi hhw
    · rename_i hk
      rw [if_neg hk]
      exact h.spi k' r' hhw
  · rw [hset] at h₁ h₂ heq
    rw [hset k₂] at heq
    split at h₁ <;> split at h₂ <;> rename_i hk₁ hk₂
    · exact ⟨hk₁.1.trans hk₂.1.symm, hk₁.2.trans hk₂.2.symm⟩
    · rw [if_pos hk₁, if_neg hk₂] at heq
      exact absurd heq.symm (hfresh h₁ k₂ r₂ hk₂ h₂)
    · rw [if_neg hk₁, if_pos hk₂] at heq
      exact absurd heq (hfresh h₂ k₁ r₁ hk₁ h₁)
    · rw [if_neg hk₁, if_neg hk₂] at heq
      exact h.unique k₁ r₁ k₂ r₂ h₁ h₂ heq

/-- The enable flag of a line changes, with the mask of its interrupt or, if that is
right already, without. -/
theorem Inv.setEnabled {p : Prop} [Decidable p] {mask : Bool} (h : Inv nr s) (cpu : Nat)
    (hset : Sets s k r d s') (hhno : d.hno = (s.desc k r).hno)
    (hhw : virqIsHw d = virqIsHw (s.desc k r)) (hen : virqIsEnabled d = !mask)
    (hmask : s'.masked =
      if p then irqEnable nr cpu (s.desc k r).hno mask s.masked else s.masked)
    (hp : p → virqIsHw (s.desc k r) = true)
    (hself : ∀ i, r = .spi i → virqIsHw (s.desc k r) = true → ¬ p →
      ∀ c, s.masked c (s.desc k r).hno = mask) : Inv nr s' := by
  refine h.sets hset (fun hd => ?_) (fun hd k' r' hne hhw' heq => ?_) (fun i hi hd c => ?_)
    fun c irq hirq => ?_
  · rw [hhno]
    exact h.spi k r (hhw ▸ hd)
  · exact hne (h.unique k' r' k r hhw' (hhw ▸ hd) (heq.trans hhno))
  · rw [hhw] at hd
    rw [hhno, hen, hmask, Bool.not_not]
    split
    · rw [irqEnable_spi (h.spi k r hd), if_pos rfl]
    · rename_i hno
      exact hself i hi hd hno c
  · rw [hmask]
    split
    · rename_i hyes
      rw [irqEnable_spi (h.spi k r (hp hyes)), if_neg (hhno ▸ hirq (hhw ▸ hp hyes))]
    · rfl

/-- Without hardware, it is enough that the masks stay. -/
theorem Inv.noHw (h : Inv nr s) (hset : Sets s k r d s') (hd : virqIsHw d = false)
    (hmask : s'.masked = s.masked) : Inv nr s' := by
  have hno : virqIsHw d ≠ true := by simp [hd]
  exact h.sets hset (fun hhw => absurd hhw hno) (fun hhw => absurd hhw hno)
    (fun _ _ hhw => absurd hhw hno) fun c irq _ => by rw [hmask]

/-! ## The calls -/

theorem Inv.enable (h : Inv nr s) (cpu : Nat)
    (hok : virq = vmLocalVirqNr → ∀ r, getVirqDesc (s.vm k) v virq = some r →
      virqIsHw (s.desc k r) = true → ∀ c, s.masked c (s.desc k r).hno = false) :
    Inv nr (virqEnableHw nr cpu s k v virq) := by
  unfold virqEnableHw
  split
  · exact h
  rename_i r hr
  have hset : ∀ q, (virqEnable (s.vm k) v virq).desc q
      = if q = r then (s.desc k r).setFlag virqsEnabledBit else s.desc k q := by
    intro q
    simp only [virqEnable, hr, desc_setDesc, Sys.desc]
  refine h.setEnabled cpu (sets_set hset _) rfl ?_ ?_ rfl And.right fun i hi hd hno c => ?_
  · simp [virqIsHw, VirqDesc.setFlag, flagMask, virqsEnabledBit, virqsHwBit]
  · simp [virqIsEnabled, VirqDesc.setFlag, flagMask, virqsEnabledBit]
  · refine hok ?_ r hr hd c
    -- a shared line that is not above the first is the first
    subst hi
    unfold getVirqDesc at hr
    split at hr
    · cases hr
    · have hle : ¬ vmLocalVirqNr < virq := fun hlt => hno ⟨hlt, hd⟩
      omega

theorem Inv.disable (h : Inv nr s) (cpu : Nat)
    (hok : vmLocalVirqNr < virq → ∀ r, getVirqDesc (s.vm k) v virq = some r →
      virqIsHw (s.desc k r) = true) : Inv nr (virqDisableHw nr cpu s k v virq) := by
  unfold virqDisableHw
  split
  · exact h
  rename_i r hr
  have hset : ∀ q, (virqDisable (s.vm k) v virq).desc q
      = if q = r then (s.desc k r).clearFlag virqsEnabledBit else s.desc k q := by
    intro q
    simp only [virqDisable, hr, desc_setDesc, Sys.desc]
  refine h.setEnabled cpu (sets_set hset _) rfl ?_ ?_ rfl (fun hp => ?_) fun i hi hd hno => ?_
  · simp [virqIsHw, VirqDesc.clearFlag, flagMask, virqsEnabledBit, virqsHwBit]
  · simp [virqIsEnabled, VirqDesc.clearFlag, flagMask, virqsEnabledBit]
  · exact hp.elim (fun hlt => hok hlt r hr) id
  · exact absurd (Or.inr hd) hno

/-- What a request that is granted leaves in the descriptor. -/
theorem requestVirqDesc_desc {vm vm' : Vm}
    (h : requestVirqDesc vm v r virq hwirq flags = .ok vm') :
    virqIsRequested (vm.desc r) = false ∧
    (vm'.desc r).hno = hwirq % 2 ^ 16 ∧
    virqIsHw (vm'.desc r) = (decide (hwirq ≠ 0) || flags.getLsbD virqsHwBit) ∧
    virqIsEnabled (vm'.desc r)
      = (virqIsEnabled (vm.desc r) || flags.getLsbD virqsEnabledBit) ∧
    ∀ q, vm'.desc q = if q = r then vm'.desc r else vm.desc q := by
  simp only [requestVirqDesc] at h
  split at h
  · cases h
  rename_i hreq
  obtain rfl := Except.ok.inj h
  have hmap : ∀ map q, ({ vm with vspiMap := map } : Vm).desc q = vm.desc q := by
    rintro map (_ | _) <;> rfl
  refine ⟨by simpa using hreq, ?_, ?_, ?_, fun q => ?_⟩
  · rw [desc_setDesc, if_pos rfl]
    simp only [updateVirqCap]
    split <;> split <;> rfl
  · rw [desc_setDesc, if_pos rfl]
    simp only [updateVirqCap, virqIsHw]
    split <;> split <;> simp_all [VirqDesc.setFlag, VirqDesc.clearFlag, flagMask, virqsHwBit,
      virqsFiqBit, virqsRequestedBit]
  · rw [desc_setDesc, if_pos rfl]
    simp only [updateVirqCap, virqIsEnabled]
    split <;> split <;> simp_all [VirqDesc.setFlag, VirqDesc.clearFlag, flagMask, virqsHwBit,
      virqsFiqBit, virqsRequestedBit, virqsEnabledBit]
  · rw [desc_setDesc, desc_setDesc, if_pos rfl]
    congr 1
    split
    · exact hmap _ q
    · rfl

theorem Inv.requestNoHw (h : Inv nr s) (cpu v : Nat) (hflags : flags.getLsbD virqsHwBit = false) :
    Inv nr (requestVirqHw nr cpu s k v r virq 0 flags) := by
  unfold requestVirqHw
  split
  · rename_i vm hvm
    obtain ⟨-, -, hhw, -, hdesc⟩ := requestVirqDesc_desc hvm
    have hno : virqIsHw (vm.desc r) = false := by simp [hhw, hflags]
    refine h.noHw (sets_set hdesc _) hno ?_
    simp [Sys.set, requestMask, hno]
  · exact h

theorem Inv.requestHw (h : Inv nr s) (cpu v : Nat) (hne : hwirq ≠ 0)
    (hok : virqIsRequested (s.desc k r) = false → FreshHw nr s k r hwirq flags) :
    Inv nr (requestVirqHw nr cpu s k v r virq hwirq flags) := by
  unfold requestVirqHw
  split
  · rename_i vm hvm
    obtain ⟨hreq, hhno, hhw, hen, hdesc⟩ := requestVirqDesc_desc hvm
    obtain ⟨hge, hlt, h16, hfresh, hflag⟩ := hok hreq
    rw [Nat.mod_eq_of_lt h16] at hhno
    have hhw : virqIsHw (vm.desc r) = true := by simp [hhw, hne]
    have hmask : ∀ c i, requestMask nr cpu (vm.desc r) hwirq flags s.masked c i
        = if i = hwirq then !flags.getLsbD virqsEnabledBit else s.masked c i := by
      intro c i
      simp only [requestMask, hhno, if_pos hne, hhw]
      cases flags.getLsbD virqsEnabledBit
      · simp only [Bool.false_eq_true, false_and, if_false, irqEnable_spi ⟨hge, hlt⟩]
        split <;> rfl
      · simp only [and_self, if_true, irqEnable_spi ⟨hge, hlt⟩]
        split <;> rfl
    refine h.sets (sets_set hdesc _) (fun _ => hhno ▸ ⟨hge, hlt⟩)
      (fun _ k' r' _ hhw' => hhno ▸ hfresh k' r' hhw') (fun i hi _ c => ?_) fun c irq hirq => ?_
    · refine (hmask c _).trans ?_
      rw [hhno, if_pos rfl, hen]
      -- a line that was enabled before is enabled by the request
      cases hold : virqIsEnabled ((s.vm k).desc r)
      · simp
      · simp [hflag i hi hold]
    · refine (hmask c irq).trans (if_neg ?_)
      exact hhno ▸ hirq hhw
  · exact h

theorem Inv.requestPervcpuOne (h : Inv nr s) (cpu v : Nat)
    (hflags : flags.getLsbD virqsHwBit = false) :
    Inv nr (requestPervcpuOne nr cpu k virq flags s v) := by
  have h' : Inv nr (requestVirqHw nr cpu s k v (.percpu v virq) virq 0 flags) :=
    h.requestNoHw cpu v hflags
  simp only [VirqHwMask.requestPervcpuOne]
  generalize requestVirqHw nr cpu s k v (.percpu v virq) virq 0 flags = s₁ at h' ⊢
  -- the rest of the turn only forgets the vcpu of the line
  refine h'.setEnabled (p := False) cpu (sets_set (desc_setDesc _ _ _) _) rfl rfl
    (Bool.not_not _).symm (if_neg not_false).symm False.elim fun i hi => ?_
  cases hi

theorem Inv.step {e : Event} (h : Inv nr s) (hok : CallOk nr s e) (hs : step nr s e = some s') :
    Inv nr s' := by
  obtain rfl := Option.some.inj hs
  obtain ⟨cpu, k, op⟩ := e
  cases op with
  | enable v virq => exact h.enable cpu hok
  | disable v virq => exact h.disable cpu hok
  | request v virq hwirq flags =>
    simp only [requestVirqAffinityHw]
    split
    · exact h
    split
    · exact h
    rename_i r hr
    have hreq := hok r hr
    by_cases hz : hwirq = 0
    · subst hz
      exact h.requestNoHw cpu v (by simpa using hreq)
    · rw [if_neg hz] at hreq
      exact h.requestHw cpu v hz hreq
  | requestPervcpu virq flags =>
    simp only
    split
    · exact h
    generalize List.range _ = l
    clear hs
    -- over the vcpus the loop has still to visit
    induction l generalizing s with
    | nil => exact h
    | cons v l ih => exact ih (h.requestPervcpuOne cpu v hok) hok

/-- A line without hardware leaves the masks alone. -/
theorem noHw_masked {e : Event} (hok : CallOk nr s e) (hs : VirqHwMask.step nr s e = some s')
    (hno : NoHw s e) : s'.masked = s.masked := by
  obtain ⟨v, virq, r, hop, hr, hhw⟩ := hno
  obtain rfl := Option.some.inj hs
  rcases hop with hop | hop
  · simp [hop, virqEnableHw, hr, hhw, Sys.set]
  · simp only [CallOk, hop, hr] at hok
    have hle : ¬ vmLocalVirqNr < virq := by
      intro hlt
      rw [hok hlt r rfl] at hhw
      cases hhw
    simp [hop, virqDisableHw, hr, hhw, hle, Sys.set]

/-- **Masks mirror lines**, over every run in which no line starts with hardware and the
calls are as `CallOk` has them. -/
theorem virq_masks_right {es : List Event} (h : ∀ k r, virqIsHw (s.desc k r) = false)
    (hok : Along (step nr) (CallOk nr) s es) : Along (step nr) (Right nr) s es := by
  have hinv : Inv nr s := by
    constructor <;> simp [Mirror, h]
  refine along_of_invariant (fun s e s' h hok hs => h.step hok hs) (fun s e h hok s' hs => ?_)
    hinv hok
  exact ⟨(h.step hok hs).mirror, noHw_masked hok hs⟩

/-- Every VM has one vcpu and shared lines that nobody has requested; no interrupt is
masked. -/
def idleSys : Sys where
  vm k := virqCreateVm {} {
    vmid := k, state := .online, vspiNr := 0, vspiDesc := fun _ => {}, vspiMap := []
    vcpuNr := 1
    vcpu := fun _ =>
      { nrLrs := 4, lastFailVirq := 0, pendingVirq := 0, activeVirq := 0
        localDesc := fun _ => {}, pendingBitmap := [], activeBitmap := [], lrsBitmap := [] } }
  masked _ _ := false

theorem idleSys_hw (k : Nat) (r : DescRef) : virqIsHw (idleSys.desc k r) = false := by
  cases r <;> simp [virqIsHw, Sys.desc, idleSys, virqCreateVm, Vm.desc]

/-- The interrupt 40 is given to the second shared line, which is enabled and disabled. -/
def hwLine : List Event :=
  [⟨0, 1, .request 0 33 40 0⟩, ⟨0, 1, .enable 0 33⟩, ⟨0, 1, .disable 0 33⟩]

theorem virq_masks_right_line : (run (step 64) idleSys hwLine).isSome ∧
    Along (step 64) (Right 64) idleSys hwLine := by
  have hfresh : FreshHw 64 idleSys 1 (.spi 1) 40 0 := by
    refine ⟨by decide, by decide, by decide, fun k r hhw => ?_, fun i _ hen => ?_⟩
    · rw [idleSys_hw] at hhw
      cases hhw
    · cases hen
  refine ⟨rfl, virq_masks_right idleSys_hw ⟨?_, ?_⟩⟩
  · rintro r ⟨⟩ -
    exact hfresh
  rintro _ ⟨⟩
  refine ⟨nofun, ?_⟩
  rintro _ ⟨⟩
  refine ⟨?_, fun _ _ => trivial⟩
  rintro - r ⟨⟩
  rfl

/-- A shared line without hardware is disabled; the first shared line has the interrupt
40, and is disabled and enabled. -/
def noHwLine : List Event := [⟨0, 1, .request 0 33 0 0⟩, ⟨0, 1, .disable 0 33⟩]
def firstLine : List Event :=
  [⟨0, 1, .request 0 32 40 2⟩, ⟨0, 1, .disable 0 32⟩, ⟨0, 1, .enable 0 32⟩]

/-- The one masks interrupt 0 of the cpu, the other leaves interrupt 40 masked. -/
theorem virq_masks_not_right : ¬ Along (step 64) (Right 64) idleSys noHwLine ∧
    ¬ Along (step 64) (Right 64) idleSys firstLine := by
  constructor
  · intro h
    have hright := (h.2 _ rfl).1 _ rfl
    have hsame := hright.2 ⟨0, 33, .spi 1, .inr rfl, rfl, rfl⟩
    have hmask := congrFun (congrFun hsame 0) 0
    revert hmask
    decide
  · intro h
    have hright := ((h.2 _ rfl).2 _ rfl).1 _ rfl
    have hmask := hright.1 1 0 rfl 0
    revert hmask
    decide

end Minos.VirqHwMask
