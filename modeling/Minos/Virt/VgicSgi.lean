import Minos.Virt.VirqDelivery

/-!
# Software-generated interrupts

A vcpu sends an SGI to vcpus of its own VM by a write of `GICD_SGIR`
(`vgicv2_send_sgi`) or of `ICC_SGI1R` (`vgicv3_send_sgi`). Both collect the targets in
a mask of cpus and send to each cpu of the mask. What the guest puts into the
register is not compared with the vcpus it has: a cpu of the mask without a vcpu is a
`panic` in the one and a null pointer in the other, and a cpu number from `ICC_SGI1R`
can lie behind the mask, which is on the stack. All of this is `none`.
-/

namespace Minos.VgicSgi

open Minos.Lib Minos.Virq

/-- `CONFIG_NR_CPUS`, `CONFIG_NR_CPUS_CLUSTER0` and `ARM_FEATURE_MPIDR_SHIFT`. -/
structure Config where
  nrCpus : Nat
  nrCpusCluster0 : Nat
  mpidrShift : Bool

/-! ## The masks -/

/-- `cpumask_clearall`. -/
def cpumaskClearall (cfg : Config) : Bitmap := List.replicate (bitsToLongs cfg.nrCpus) 0

def cpumaskSetCpu (mask : Bitmap) (cpu : Nat) : Option Bitmap :=
  if cpu < 64 * mask.length then some (setBit cpu mask) else none

/-- `for_each_cpu`, which does not look at the mask if there is one cpu. -/
def forEachCpu (cfg : Config) (mask : Bitmap) : List Nat :=
  if 1 < cfg.nrCpus then forEachSetBit mask cfg.nrCpus else [0]

/-- All vcpus but the sender. -/
def others (vm : Vm) (v : Nat) : List Nat := (List.range vm.vcpuNr).filter (· ≠ v)

/-- The targets are set in the mask, and then sent to one after the other. What
`send_virq_to_vcpu` returns is not looked at. -/
def sendToCpus (cfg : Config) (vm : Vm) (v sgi : Nat) (targets : List Nat) : Option Vm := do
  let mask ← targets.foldlM cpumaskSetCpu (cpumaskClearall cfg)
  (forEachCpu cfg mask).foldlM (fun vm bit => afterSend vm (sendVirqToVcpu vm v bit sgi)) vm

/-! ## The two registers -/

def sgirMode (value : BitVec 32) : Nat := ((value >>> 24) &&& 3).toNat

def vgicv2SendSgi (cfg : Config) (vm : Vm) (v : Nat) (value : BitVec 32) : Option Vm :=
  let list := [((value >>> 16) &&& 0xff).setWidth 64]
  let sgi := (value &&& 0xf).toNat
  match sgirMode value with
  | 0 => sendToCpus cfg vm v sgi (forEachSetBit list 8)
  | 1 => sendToCpus cfg vm v sgi (others vm v)
  | 2 => sendToCpus cfg vm v sgi [v]
  | _ => some vm

/-- A field of eight bits of `ICC_SGI1R`. -/
def affField (value : BitVec 64) (lsb : Nat) : Nat :=
  ((value &&& (0xff <<< lsb)) >>> lsb).toNat

/-- The upper two fields are not used. -/
def affinityToLogicCpu (cfg : Config) (_aff3 _aff2 aff1 aff0 : Nat) : Nat :=
  u32 (aff1 * cfg.nrCpusCluster0 + aff0)

def vgicv3SendSgi (cfg : Config) (vm : Vm) (v : Nat) (value : BitVec 64) : Option Vm :=
  let sgi := ((value &&& 0xf000000) >>> 24).toNat
  if 16 ≤ sgi then some vm
  else if value.getLsbD 40 then sendToCpus cfg vm v sgi (others vm v)
  else
    sendToCpus cfg vm v sgi ((forEachSetBit [value &&& 0xffff] 16).map
      (affinityToLogicCpu cfg (affField value 48) (affField value 32) (affField value 16)))

/-- A write of one of the registers. -/
inductive SgiWrite
  | sgir (value : BitVec 32)
  | sgi1r (value : BitVec 64)
  deriving DecidableEq, Repr

def sendSgi (cfg : Config) (vm : Vm) (v : Nat) : SgiWrite → Option Vm
  | .sgir value => vgicv2SendSgi cfg vm v value
  | .sgi1r value => vgicv3SendSgi cfg vm v value

/-! ## What the registers select -/

/-- `cpuid_to_affinity`. -/
def cpuidToAffinity (cfg : Config) (cpuid : Nat) : Nat :=
  let c := cfg.nrCpusCluster0
  if cfg.mpidrShift then
    if cpuid < c then cpuid * 2 ^ 8 else 2 ^ 16 + (cpuid - c) * 2 ^ 8
  else if cpuid < c then cpuid else 2 ^ 8 + (cpuid - c)

/-- `MPIDR` as the vcpu `t` reads it. -/
def vmpidr (cfg : Config) (vm : Vm) (t : Nat) : Nat :=
  if vm.vmid = 0 then cpuidToAffinity cfg t else t

/-- The vcpu `t` has the affinity in the fields of `value`, with `bit` for the lowest. -/
def Names (cfg : Config) (vm : Vm) (value : BitVec 64) (bit t : Nat) : Prop :=
  let m := vmpidr cfg vm t
  m / 2 ^ 32 = affField value 48 ∧ m / 2 ^ 16 % 2 ^ 8 = affField value 32 ∧
    m / 2 ^ 8 % 2 ^ 8 = affField value 16 ∧ m % 2 ^ 8 = bit

instance (cfg : Config) (vm : Vm) (value : BitVec 64) (bit t : Nat) :
    Decidable (Names cfg vm value bit t) := by
  unfold Names
  infer_instance

def SgiWrite.sgi : SgiWrite → Nat
  | .sgir value => (value &&& 0xf).toNat
  | .sgi1r value => ((value &&& 0xf000000) >>> 24).toNat

/-- The write selects the vcpu `t`. -/
def Selected (cfg : Config) (vm : Vm) (v t : Nat) : SgiWrite → Prop
  | .sgir value =>
    match sgirMode value with
    | 0 => t < 8 ∧ value.getLsbD (16 + t) = true
    | 1 => t ≠ v
    | 2 => t = v
    | _ => False
  | .sgi1r value =>
    if value.getLsbD 40 then t ≠ v
    else ∃ bit < 16, value.getLsbD bit = true ∧ Names cfg vm value bit t

/-- The SGI, and nothing else, becomes pending on the vcpus that are selected. -/
def Right (cfg : Config) (vm : Vm) (v : Nat) (w : SgiWrite) : Prop :=
  ∃ vm', sendSgi cfg vm v w = some vm' ∧ ∀ t < vm.vcpuNr, ∀ j,
    testBit j (vm'.vcpu t).pendingBitmap = true ↔
      testBit j (vm.vcpu t).pendingBitmap = true ∨ j = w.sgi ∧ Selected cfg vm v t w

/-- The SGI is pending on the vcpu `t` before the write. -/
def SgiWrite.Pending (vm : Vm) (t : Nat) (w : SgiWrite) : Prop :=
  testBit w.sgi (vm.vcpu t).pendingBitmap = true

instance (vm : Vm) (t : Nat) (w : SgiWrite) : Decidable (w.Pending vm t) :=
  inferInstanceAs (Decidable (_ = true))

/-- The cpu number that a bit of the list of `ICC_SGI1R` becomes. -/
def listCpu (cfg : Config) (value : BitVec 64) (bit : Nat) : Nat :=
  u32 (affField value 16 * cfg.nrCpusCluster0 + bit)

/-- For a list of `GICD_SGIR`: a bit that is a cpu is a vcpu. For one of `ICC_SGI1R`: the
cpu numbers lie inside the mask, one that is a cpu is a vcpu, and they are those of the
vcpus with the affinities in the list. With one cpu that one gets the SGI whatever the
targets are, so it has to be selected. A vcpu on which the SGI is pending may have it sent
or not. -/
def TargetsOk (cfg : Config) (vm : Vm) : SgiWrite → Prop
  | .sgir value =>
    match sgirMode value with
    | 0 => (∀ t < 8, t < cfg.nrCpus → value.getLsbD (16 + t) = true → t < vm.vcpuNr) ∧
      (cfg.nrCpus = 1 → (SgiWrite.sgir value).Pending vm 0 ∨ value.getLsbD 16 = true)
    | 1 => cfg.nrCpus = 1 → (SgiWrite.sgir value).Pending vm 0
    | _ => True
  | .sgi1r value =>
    if value.getLsbD 40 then cfg.nrCpus = 1 → (SgiWrite.sgi1r value).Pending vm 0
    else
      (∀ bit < 16, value.getLsbD bit = true →
        listCpu cfg value bit < 64 * bitsToLongs cfg.nrCpus ∧
        (listCpu cfg value bit < cfg.nrCpus → listCpu cfg value bit < vm.vcpuNr)) ∧
      ∀ t < vm.vcpuNr, (SgiWrite.sgi1r value).Pending vm t ∨
        ((cfg.nrCpus = 1 ∨ ∃ bit < 16, value.getLsbD bit = true ∧ listCpu cfg value bit = t) ↔
          ∃ bit < 16, value.getLsbD bit = true ∧ Names cfg vm value bit t)

instance (cfg : Config) (vm : Vm) : (w : SgiWrite) → Decidable (TargetsOk cfg vm w)
  | .sgir _ => by unfold TargetsOk; dsimp only; split <;> infer_instance
  | .sgi1r _ => by unfold TargetsOk; infer_instance

/-! ## Sending to a list of cpus -/

variable {cfg : Config} {vm vm' : Vm} {v sgi t : Nat} {owed : Nat → Int}

/-- The SGI is pending on the vcpus that meet `T` as well. -/
structure Sent (owed : Nat → Int) (vm : Vm) (sgi : Nat) (T : Nat → Prop) (vm' : Vm) : Prop where
  inv : VgicInv vm' owed
  state : vm'.state = vm.state
  vcpuNr : vm'.vcpuNr = vm.vcpuNr
  pending : ∀ t j, testBit j (vm'.vcpu t).pendingBitmap = true ↔
    testBit j (vm.vcpu t).pendingBitmap = true ∨ j = sgi ∧ T t

theorem sendVirqPending_pending (h : VgicInv vm owed) (cur : Nat) (ht : t < vm.vcpuNr)
    (hsgi : sgi < vmSgiVirqNr) (u j : Nat) :
    testBit j ((sendVirqPending vm cur t (.percpu t sgi)).vcpu u).pendingBitmap = true ↔
      testBit j (vm.vcpu u).pendingBitmap = true ∨ j = sgi ∧ u = t := by
  have hlocal : sgi < vmLocalVirqNr := by
    unfold vmLocalVirqNr
    omega
  have hinv := h.vcpus t ht
  have hvno : (vm.desc (.percpu t sgi)).vno = sgi := hinv.vno sgi hlocal
  have hlen : sgi < 64 * (vm.vcpu t).pendingBitmap.length := by
    rw [hinv.pendLen, bitsToLongs]
    omega
  unfold sendVirqPending
  simp only [hvno]
  split
  · rename_i hset
    constructor
    · exact .inl
    · rintro (h | ⟨rfl, rfl⟩)
      · exact h
      · exact hset
  · by_cases hu : u = t
    · subst hu
      simp [Vm.setDesc, VirqStruct.setLocal, testBit_setBit hlen, @eq_comm _ j sgi]
    · simp [Vm.setDesc, Vm.setVcpu, hu]

theorem sent_one (h : VgicInv vm owed) (honline : vm.state = .online) (cur : Nat)
    (ht : t < vm.vcpuNr) (hsgi : sgi < vmSgiVirqNr) :
    ∃ vm', afterSend vm (sendVirqToVcpu vm cur t sgi) = some vm' ∧
      Sent owed vm sgi (· = t) vm' := by
  have hlocal : sgi < vmLocalVirqNr := by
    unfold vmLocalVirqNr
    omega
  have hr : getVirqDesc vm t sgi = some (.percpu t sgi) := by
    rw [getVirqDesc, if_pos hlocal]
  have hown : vm.Owns t (vm.desc (.percpu t sgi)).vno := by
    left
    exact ((h.vcpus t ht).vno sgi hlocal).trans_lt hlocal
  have hframe := Delivery.sendVirqPending_frame vm cur t (.percpu t sgi)
  have hstate := hframe.state
  have hnr := hframe.vcpuNr
  refine ⟨sendVirqPending vm cur t (.percpu t sgi), ?_, h.send cur hown, hstate, hnr,
    sendVirqPending_pending h cur ht hsgi⟩
  simp [sendVirqToVcpu, hr, sendVirq, Nat.not_le.mpr ht, honline, afterSend, afterRequest]

/-- All the targets are vcpus and get the SGI, or one that is not is a stop. -/
theorem sent_all (h : VgicInv vm owed) (honline : vm.state = .online) (cur : Nat)
    (hsgi : sgi < vmSgiVirqNr) (l : List Nat) :
    ((∀ t ∈ l, t < vm.vcpuNr) ∧ ∃ vm', l.foldlM (fun vm bit => afterSend vm
        (sendVirqToVcpu vm cur bit sgi)) vm = some vm' ∧ Sent owed vm sgi (· ∈ l) vm') ∨
      (¬ ∀ t ∈ l, t < vm.vcpuNr) ∧
        l.foldlM (fun vm bit => afterSend vm (sendVirqToVcpu vm cur bit sgi)) vm = none := by
  -- over the targets left, with the VM that the sends so far have left
  induction l generalizing vm with
  | nil => exact Or.inl ⟨by simp, vm, rfl, h, rfl, rfl, by simp⟩
  | cons t l ih =>
    rw [List.foldlM_cons, List.forall_mem_cons]
    by_cases ht : t < vm.vcpuNr
    · obtain ⟨vm₁, hvm₁, hsent⟩ := sent_one h honline cur ht hsgi
      rw [hvm₁, and_iff_right ht, ← hsent.vcpuNr]
      refine (ih hsent.inv (hsent.state.trans honline)).imp_left
        fun ⟨hl, vm', hvm', hrest⟩ => ⟨hl, vm', hvm', hrest.inv, hrest.state.trans hsent.state,
          hrest.vcpuNr.trans hsent.vcpuNr, fun u j => ?_⟩
      rw [hrest.pending, hsent.pending, List.mem_cons, and_or_left, or_assoc]
    · refine Or.inr ⟨fun hall => ht hall.1, ?_⟩
      simp only [sendVirqToVcpu, sendVirq, if_pos (Nat.le_of_not_lt ht)]
      rfl

theorem setCpus_mask (l : List Nat) (mask : Bitmap) :
    ((∀ cpu ∈ l, cpu < 64 * mask.length) ∧ ∃ m, l.foldlM cpumaskSetCpu mask = some m ∧
        ∀ j, testBit j m = true ↔ testBit j mask = true ∨ j ∈ l) ∨
      (¬ ∀ cpu ∈ l, cpu < 64 * mask.length) ∧ l.foldlM cpumaskSetCpu mask = none := by
  induction l generalizing mask with
  | nil => exact Or.inl ⟨by simp, mask, rfl, by simp⟩
  | cons cpu l ih =>
    rw [List.foldlM_cons, cpumaskSetCpu, List.forall_mem_cons]
    split
    · rename_i hcpu
      rw [and_iff_right hcpu, ← length_setBit cpu mask]
      refine (ih (setBit cpu mask)).imp_left fun ⟨hl, m, hm, hbits⟩ => ⟨hl, m, hm, fun j => ?_⟩
      rw [hbits, testBit_setBit hcpu]
      simp only [Bool.or_eq_true, decide_eq_true_eq, List.mem_cons, or_assoc, @eq_comm _ j cpu]
    · rename_i hcpu
      exact Or.inr ⟨fun hall => hcpu hall.1, rfl⟩

/-- **The targets get the SGI** exactly when they lie inside the mask and those that are cpus
are vcpus; the rest of `Right` is that they are the selected ones. -/
theorem right_iff_of_targets {w : SgiWrite} {l : List Nat} (h : VgicInv vm owed)
    (honline : vm.state = .online) (hnr : vm.vcpuNr ≤ cfg.nrCpus) (hv : v < vm.vcpuNr)
    (hsgi : w.sgi < vmSgiVirqNr) (hw : sendSgi cfg vm v w = sendToCpus cfg vm v w.sgi l) :
    Right cfg vm v w ↔ (∀ t ∈ l, t < 64 * bitsToLongs cfg.nrCpus) ∧
      (∀ t ∈ l, t < cfg.nrCpus → t < vm.vcpuNr) ∧
      ∀ t < vm.vcpuNr, w.Pending vm t ∨ ((cfg.nrCpus = 1 ∨ t ∈ l) ↔ Selected cfg vm v t w) := by
  have hlen : (cpumaskClearall cfg).length = bitsToLongs cfg.nrCpus := List.length_replicate
  rw [Right, hw, sendToCpus]
  have hset := setCpus_mask l (cpumaskClearall cfg)
  rw [hlen] at hset
  obtain ⟨hmask, m, hm, hbits⟩ | ⟨hmask, hm⟩ := hset
  swap
  · rw [hm]
    exact iff_of_false nofun fun hall => hmask hall.1
  have hmem : ∀ t, t ∈ forEachCpu cfg m ↔ t < cfg.nrCpus ∧ (cfg.nrCpus = 1 ∨ t ∈ l) := by
    intro t
    have hclear : testBit t (cpumaskClearall cfg) = false := testBit_replicate_zero _ t
    rw [forEachCpu]
    split
    · rw [mem_forEachSetBit, hbits, hclear, or_iff_right Bool.false_ne_true,
        or_iff_right (Nat.ne_of_gt ‹1 < cfg.nrCpus›)]
    · rw [List.mem_singleton]
      omega
  have hreach : (∀ t ∈ forEachCpu cfg m, t < vm.vcpuNr) ↔
      ∀ t ∈ l, t < cfg.nrCpus → t < vm.vcpuNr := by
    refine ⟨fun hall t ht hlt => hall t ((hmem t).mpr ⟨hlt, Or.inr ht⟩), fun hall t ht => ?_⟩
    obtain ⟨hlt, hone | ht⟩ := (hmem t).mp ht
    · omega
    · exact hall t ht hlt
  rw [hm, and_iff_right hmask, ← hreach]
  obtain ⟨hvcpus, vm', hvm', hsent⟩ | ⟨hvcpus, hnone⟩ :=
    sent_all h honline v hsgi (forEachCpu cfg m)
  · rw [and_iff_right hvcpus]
    simp only [Option.bind_eq_bind, Option.bind_some, hvm', Option.some.injEq, exists_eq_left',
      hsent.pending]
    refine forall₂_congr fun t ht => ?_
    have hlt := Nat.lt_of_lt_of_le ht hnr
    rw [hmem, and_iff_right hlt]
    constructor
    · intro hall
      have hsgi := hall w.sgi
      simp only [true_and] at hsgi
      refine or_iff_not_imp_left.mpr fun hpend => ?_
      rw [SgiWrite.Pending] at hpend
      rwa [or_iff_right hpend, or_iff_right hpend] at hsgi
    · rintro (hpend | hsel) j
      · refine or_congr_right' fun hj => and_congr_right ?_
        rintro rfl
        exact absurd hpend hj
      · rw [hsel]
  · refine iff_of_false ?_ fun hall => hvcpus hall.1
    rintro ⟨vm', hsome, -⟩
    simp only [Option.bind_eq_bind, Option.bind_some, hnone] at hsome
    cases hsome

/-! ## The target lists -/

theorem mem_sgirList {value : BitVec 32} :
    t ∈ forEachSetBit [((value >>> 16) &&& 0xff).setWidth 64] 8 ↔
      t < 8 ∧ value.getLsbD (16 + t) = true := by
  have hones : ∀ i < 8, (0xff : BitVec 32).getLsbD i = true := by decide
  rw [mem_forEachSetBit]
  refine and_congr_right fun ht => ?_
  have hdiv : t / 64 = 0 := by omega
  have hmod : t % 64 = t := by omega
  have h64 : t < 64 := by omega
  simp only [testBit, hdiv, hmod, List.getD_cons_zero, BitVec.getLsbD_setWidth,
    BitVec.getLsbD_and, BitVec.getLsbD_ushiftRight, hones t ht, h64, decide_true,
    Bool.true_and, Bool.and_true]

theorem mem_sgi1rList {value : BitVec 64} :
    t ∈ forEachSetBit [value &&& 0xffff] 16 ↔ t < 16 ∧ value.getLsbD t = true := by
  have hones : ∀ i < 16, (0xffff : BitVec 64).getLsbD i = true := by decide
  rw [mem_forEachSetBit]
  refine and_congr_right fun ht => ?_
  have hdiv : t / 64 = 0 := by omega
  have hmod : t % 64 = t := by omega
  simp only [testBit, hdiv, hmod, List.getD_cons_zero, BitVec.getLsbD_and, hones t ht,
    Bool.and_true]

theorem SgiWrite.sgi_lt (w : SgiWrite) : w.sgi < vmSgiVirqNr := by
  cases w with
  | sgir value =>
    have hle : (value &&& 0xf).toNat ≤ 0xf := by
      rw [BitVec.toNat_and]
      exact Nat.and_le_right
    exact Nat.lt_succ_of_le hle
  | sgi1r value =>
    have hle : (value &&& 0xf000000).toNat ≤ 0xf000000 := by
      rw [BitVec.toNat_and]
      exact Nat.and_le_right
    simp only [SgiWrite.sgi, BitVec.toNat_ushiftRight, Nat.shiftRight_eq_div_pow, vmSgiVirqNr]
    omega

theorem others_right_iff {w : SgiWrite} (h : VgicInv vm owed) (honline : vm.state = .online)
    (hnr : vm.vcpuNr ≤ cfg.nrCpus) (hv : v < vm.vcpuNr)
    (hw : sendSgi cfg vm v w = sendToCpus cfg vm v w.sgi (others vm v))
    (hsel : ∀ t, Selected cfg vm v t w ↔ t ≠ v) :
    Right cfg vm v w ↔ (cfg.nrCpus = 1 → w.Pending vm 0) := by
  have hmem : ∀ t, t ∈ others vm v ↔ t < vm.vcpuNr ∧ t ≠ v := by simp [others]
  have hle : cfg.nrCpus ≤ 64 * bitsToLongs cfg.nrCpus := by
    rw [bitsToLongs]
    omega
  rw [right_iff_of_targets h honline hnr hv w.sgi_lt hw]
  constructor
  · rintro ⟨-, -, hall⟩ hone
    obtain rfl : v = 0 := by omega
    refine (hall 0 hv).resolve_right fun hiff => ?_
    rw [hsel] at hiff
    exact hiff.mp (Or.inl hone) rfl
  · intro hone
    refine ⟨fun t ht => ?_, fun t ht _ => ((hmem t).mp ht).1, fun t ht => ?_⟩
    · have hlt := ((hmem t).mp ht).1
      omega
    · by_cases h1 : cfg.nrCpus = 1
      · obtain rfl : t = 0 := by omega
        exact Or.inl (hone h1)
      · rw [hsel, hmem, or_iff_right h1, and_iff_right ht]
        exact Or.inr Iff.rfl

section Registers

variable (h : VgicInv vm owed) (honline : vm.state = .online) (hnr : vm.vcpuNr ≤ cfg.nrCpus)
  (hv : v < vm.vcpuNr)

include h honline hnr hv

theorem sgir_right_iff (value : BitVec 32) :
    Right cfg vm v (.sgir value) ↔ TargetsOk cfg vm (.sgir value) := by
  have hsgi := (SgiWrite.sgir value).sgi_lt
  have hword : 64 ≤ 64 * bitsToLongs cfg.nrCpus := by
    rw [bitsToLongs]
    omega
  by_cases h0 : sgirMode value = 0
  · rw [right_iff_of_targets h honline hnr hv hsgi
      (l := forEachSetBit [((value >>> 16) &&& 0xff).setWidth 64] 8)
      (by simp only [sendSgi, vgicv2SendSgi, h0]; rfl)]
    simp only [TargetsOk, Selected, h0, mem_sgirList]
    constructor
    · rintro ⟨-, hvcpu, hall⟩
      refine ⟨fun t ht hlt hset => hvcpu t ⟨ht, hset⟩ hlt, fun hone => ?_⟩
      refine (hall 0 (by omega)).imp_right fun hiff => ?_
      exact (hiff.mp (Or.inl hone)).2
    · rintro ⟨hvcpu, hone⟩
      refine ⟨fun t ht => by omega, fun t ht hlt => hvcpu t ht.1 hlt ht.2, fun t ht => ?_⟩
      by_cases h1 : cfg.nrCpus = 1
      · obtain rfl : t = 0 := by omega
        exact (hone h1).imp_right fun hset => iff_of_true (Or.inl h1) ⟨by decide, hset⟩
      · exact Or.inr (or_iff_right h1)
  by_cases h1 : sgirMode value = 1
  · rw [others_right_iff h honline hnr hv (by simp only [sendSgi, vgicv2SendSgi, h1]; rfl)
      (by simp only [Selected, h1, implies_true])]
    simp only [TargetsOk, h1]
  by_cases h2 : sgirMode value = 2
  · rw [right_iff_of_targets h honline hnr hv hsgi (l := [v])
      (by simp only [sendSgi, vgicv2SendSgi, h2]; rfl)]
    simp only [TargetsOk, Selected, h2, List.mem_singleton, forall_eq, iff_true]
    refine ⟨?_, fun _ => hv, fun t ht => Or.inr ?_⟩
    · rw [bitsToLongs]
      omega
    · omega
  -- the reserved mode
  have hmode : TargetsOk cfg vm (.sgir value) ↔ True := by simp only [TargetsOk]
  rw [hmode, iff_true]
  refine ⟨vm, by simp only [sendSgi, vgicv2SendSgi], fun t _ j => ?_⟩
  simp [Selected]

theorem sgi1r_right_iff (value : BitVec 64) :
    Right cfg vm v (.sgi1r value) ↔ TargetsOk cfg vm (.sgi1r value) := by
  have hsgi := (SgiWrite.sgi1r value).sgi_lt
  have hlt : ¬ 16 ≤ ((value &&& 0xf000000) >>> 24).toNat := Nat.not_le.mpr hsgi
  by_cases h40 : value.getLsbD 40 = true
  · rw [others_right_iff h honline hnr hv
      (by simp only [sendSgi, vgicv3SendSgi, if_neg hlt, h40, if_true]; rfl)
      (by simp only [Selected, h40, if_true, implies_true])]
    simp only [TargetsOk, h40, if_true]
  · have hmem : ∀ t, t ∈ (forEachSetBit [value &&& 0xffff] 16).map (listCpu cfg value) ↔
        ∃ bit < 16, value.getLsbD bit = true ∧ listCpu cfg value bit = t := by
      simp only [List.mem_map, mem_sgi1rList, and_assoc, implies_true]
    rw [right_iff_of_targets h honline hnr hv hsgi
      (l := (forEachSetBit [value &&& 0xffff] 16).map (listCpu cfg value))
      (by simp only [sendSgi, vgicv3SendSgi, if_neg hlt, if_neg h40]; rfl), ← and_assoc]
    simp only [TargetsOk, Selected, if_neg h40, hmem]
    refine and_congr_left' ⟨?_, ?_⟩
    · rintro ⟨hmask, hvcpu⟩ bit hbit hset
      exact ⟨hmask _ ⟨bit, hbit, hset, rfl⟩, hvcpu _ ⟨bit, hbit, hset, rfl⟩⟩
    · intro hall
      constructor
      · rintro t ⟨bit, hbit, hset, rfl⟩
        exact (hall bit hbit hset).1
      · rintro t ⟨bit, hbit, hset, rfl⟩
        exact (hall bit hbit hset).2

/-- **SGIs reach the vcpus they select** for exactly those values a vcpu writes whose targets
are in order. -/
theorem sgi_right (w : SgiWrite) : Right cfg vm v w ↔ TargetsOk cfg vm w := by
  cases w with
  | sgir value => exact sgir_right_iff h honline hnr hv value
  | sgi1r value => exact sgi1r_right_iff h honline hnr hv value

end Registers

/-- Four cpus, in one cluster. -/
def fourCpus : Config := ⟨4, 4, false⟩

/-- Vcpu 0 of two sends SGI 3 to vcpu 1, which the list names, and to a number that is no
cpu and is passed over. -/
theorem sgi_right_pair : Right fourCpus Delivery.runningVm 0 (.sgir 0x20003) ∧
    Right fourCpus Delivery.runningVm 0 (.sgi1r 0x3000002) ∧
    Right fourCpus Delivery.runningVm 0 (.sgi1r 0x3000020) := by
  have hinv := Delivery.booted_runningVm.inv
  have hright : ∀ w, TargetsOk fourCpus Delivery.runningVm w → Right fourCpus _ 0 w :=
    fun w => (sgi_right hinv rfl (by decide) (by decide) w).mpr
  exact ⟨hright _ (by decide), hright _ (by decide), hright _ (by decide)⟩

/-- With a list that names the third cpu the write stops the hypervisor. -/
theorem sgi_not_right : ¬ Right fourCpus Delivery.runningVm 0 (.sgir 0x40003) ∧
    ¬ Right fourCpus Delivery.runningVm 0 (.sgi1r 0x3000004) := by
  have hnone : sendSgi fourCpus Delivery.runningVm 0 (.sgir 0x40003) = none ∧
      sendSgi fourCpus Delivery.runningVm 0 (.sgi1r 0x3000004) = none := by
    decide +kernel
  constructor
  · rintro ⟨vm', h, -⟩
    rw [hnone.1] at h
    cases h
  · rintro ⟨vm', h, -⟩
    rw [hnone.2] at h
    cases h

end Minos.VgicSgi
