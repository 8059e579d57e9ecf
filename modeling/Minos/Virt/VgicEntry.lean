import Minos.Virt.Vgic

/-!
# What a guest entry leaves waiting

`vgic_irq_enter_to_guest` scans the pending lines from the one that found no
list register last time, and then those below it. The first scan ends at
`vm_irq_count - last_fail_virq`, which is a number of lines and not the number
of the last one, so the lines from there on are left out.

`Scan` is what one scan does to the lines of a vcpu; `enterScan_scan` follows
the loop, and the entry is two of them.
-/

namespace Minos.Virq

open Minos.Lib

/-- Pending and not active: the line is to be put into a list register. -/
def VirqStruct.Waits (vs : VirqStruct) (b : Nat) : Prop :=
  testBit b vs.pendingBitmap = true ∧ testBit b vs.activeBitmap = false

instance (vs : VirqStruct) (b : Nat) : Decidable (vs.Waits b) :=
  inferInstanceAs (Decidable (_ ∧ _))

/-- Every list register is taken. -/
def VirqStruct.Full (vs : VirqStruct) : Prop :=
  ∀ id < vs.nrLrs, testBit id vs.lrsBitmap = true

def VirqStruct.freeLrs (vs : VirqStruct) : Nat :=
  Nat.count (fun id => testBit id vs.lrsBitmap = false) vs.nrLrs

/-- How many lines from `lo` to `hi` wait. -/
def VirqStruct.waiting (vs : VirqStruct) (lo hi : Nat) : Nat :=
  Nat.count (fun b => lo ≤ b ∧ vs.Waits b) hi

/-- The bitmaps are as long as the VM needs them. -/
structure VirqStruct.Fits (vs : VirqStruct) (nr : Nat) : Prop where
  pend : nr ≤ 64 * vs.pendingBitmap.length
  act : nr ≤ 64 * vs.activeBitmap.length
  lrs : vs.nrLrs ≤ 64 * vs.lrsBitmap.length

section Lines

variable {vs vs' : VirqStruct} {lo hi nr : Nat}

theorem VirqStruct.Full.freeLrs (h : vs.Full) : vs.freeLrs = 0 := by
  by_contra hne
  obtain ⟨id, hid, hfree⟩ := count_pos.mp (Nat.pos_of_ne_zero hne)
  rw [h id hid] at hfree
  cases hfree

theorem VirqStruct.full_of_freeLrs (h : vs.freeLrs = 0) : vs.Full := by
  intro id hid
  by_contra hne
  have hpos : 0 < vs.freeLrs := count_pos.mpr ⟨id, hid, Bool.eq_false_iff.mpr hne⟩
  omega

theorem waiting_eq_zero (h : ∀ b, lo ≤ b → b < hi → ¬ vs.Waits b) : vs.waiting lo hi = 0 := by
  by_contra hne
  obtain ⟨b, hb, hlo, hw⟩ := count_pos.mp (Nat.pos_of_ne_zero hne)
  exact h b hlo hb hw

theorem waiting_congr (h : ∀ b, lo ≤ b → b < hi → (vs'.Waits b ↔ vs.Waits b)) :
    vs'.waiting lo hi = vs.waiting lo hi := by
  refine count_congr fun b hb => ?_
  constructor
  · rintro ⟨hlo, hw⟩
    exact ⟨hlo, (h b hlo hb).mp hw⟩
  · rintro ⟨hlo, hw⟩
    exact ⟨hlo, (h b hlo hb).mpr hw⟩

/-- Lines that do not wait can be left out at the front. -/
theorem waiting_skip {lo' : Nat} (hle : lo ≤ lo') (h : ∀ b, lo ≤ b → b < lo' → ¬ vs.Waits b) :
    vs.waiting lo' hi = vs.waiting lo hi := by
  refine count_congr fun b _ => ?_
  constructor
  · rintro ⟨hlo, hw⟩
    exact ⟨by omega, hw⟩
  · rintro ⟨hlo, hw⟩
    refine ⟨?_, hw⟩
    by_contra hlt
    exact h b hlo (by omega) hw

end Lines

/-! ## One scan -/

theorem getVirqDesc_isSome {vm : Vm} {v b : Nat} :
    (getVirqDesc vm v b).isSome ↔ b < vmIrqCount vm := by
  unfold getVirqDesc vmIrqCount
  split
  · simp only [Option.isSome_some, true_iff]
    omega
  · split
    · simp only [Option.isSome_none, Bool.false_eq_true, false_iff]
      omega
    · simp only [Option.isSome_some, true_iff]
      omega

/-- What a scan of the lines from `lo` to `hi` does: the waiting ones are placed, or the list
registers run out. -/
structure Scan (lo hi : Nat) (vs vs' : VirqStruct) : Prop where
  fits : ∀ nr, vs.Fits nr → vs'.Fits nr
  outside : ∀ b, ¬ (lo ≤ b ∧ b < hi) → (vs'.Waits b ↔ vs.Waits b)
  placed : ∀ b, vs.Waits b → testBit b vs'.activeBitmap = true ∨ vs'.Waits b
  active : ∀ b, testBit b vs.activeBitmap = true → testBit b vs'.activeBitmap = true
  fewer : ∀ b, vs'.Waits b → vs.Waits b
  balance : vs.nrLrs ≤ 64 * vs.lrsBitmap.length →
    vs'.freeLrs + vs.waiting lo hi = vs.freeLrs + vs'.waiting lo hi
  ends : vs'.lastFailVirq = vs.lastFailVirq ∧ (∀ b, lo ≤ b → b < hi → ¬ vs'.Waits b) ∨
    vs'.Full ∧ (lo ≤ vs'.lastFailVirq ∧ vs'.lastFailVirq < hi) ∧ vs'.Waits vs'.lastFailVirq

/-- The line `b` goes from pending to active, in the list register `id`. -/
def VirqStruct.place (vs : VirqStruct) (b id : Nat) : VirqStruct :=
  { vs with
    lrsBitmap := setBit id vs.lrsBitmap
    activeBitmap := setBit b vs.activeBitmap
    activeVirq := u32 (vs.activeVirq + 1)
    pendingVirq := vs.pendingVirq - 1
    pendingBitmap := clearBit b vs.pendingBitmap }

theorem injectVirq_vcpu (vm : Vm) (v : Nat) (r : DescRef) (b id : Nat) :
    ∃ f, (injectVirq vm v r b id).vcpu v = { (vm.vcpu v).place b id with localDesc := f } := by
  obtain ⟨f, hf⟩ := setDesc_vcpu (vm.setVcpu v ((vm.vcpu v).place b id)) r
    { vm.desc r with id := id % 2 ^ 8, state := .pending } v
  rw [setVcpu_self] at hf
  exact ⟨f, hf⟩

section Scans

variable {vs vs' : VirqStruct} {lo hi b id : Nat} {f : Nat → VirqDesc}

/-- No line of the range waits. -/
theorem Scan.refl (h : ∀ b, lo ≤ b → b < hi → ¬ vs.Waits b) : Scan lo hi vs vs :=
  ⟨fun _ hfits => hfits, fun _ _ => Iff.rfl, fun _ hw => Or.inr hw, fun _ ha => ha,
    fun _ hw => hw, fun _ => rfl, Or.inl ⟨rfl, h⟩⟩

/-- Lines that do not wait are passed over. -/
theorem Scan.skip {lo' : Nat} (h : Scan lo' hi vs vs') (hle : lo ≤ lo')
    (hskip : ∀ b, lo ≤ b → b < lo' → ¬ vs.Waits b) : Scan lo hi vs vs' := by
  have hskip' : ∀ b, lo ≤ b → b < lo' → ¬ vs'.Waits b :=
    fun b hlo hlt hw => hskip b hlo hlt (h.fewer b hw)
  refine { h with outside := fun b hb => h.outside b (by omega), balance := ?_, ends := ?_ }
  · rw [← waiting_skip hle hskip, ← waiting_skip hle hskip']
    exact h.balance
  · refine h.ends.imp (fun hdone => ⟨hdone.1, fun b hlo hlt => ?_⟩)
      fun ⟨hfull, hat, hw⟩ => ⟨hfull, by omega, hw⟩
    by_cases hb : b < lo'
    · exact hskip' b hlo hb
    · exact hdone.2 b (by omega) hlt

/-- No list register is free for the line `b`. -/
theorem Scan.stop (hfull : vs.Full) (hb : lo ≤ b ∧ b < hi) (hw : vs.Waits b) :
    Scan lo hi vs { vs with lastFailVirq := b } :=
  ⟨fun _ hfits => { hfits with }, fun _ _ => Iff.rfl, fun _ hw => Or.inr hw, fun _ ha => ha,
    fun _ hw => hw, fun _ => rfl, Or.inr ⟨hfull, hb, hw⟩⟩

/-- The first line that waits is placed, and the scan goes on behind it. -/
theorem Scan.inject (hw : vs.Waits b) (hb : b < 64 * vs.activeBitmap.length) (hhi : b < hi)
    (hid : id < vs.nrLrs) (hfree : testBit id vs.lrsBitmap = false)
    (h : Scan (b + 1) hi { vs.place b id with localDesc := f } vs') : Scan b hi vs vs' := by
  have hact : ∀ c, testBit c (setBit b vs.activeBitmap) =
      (testBit c vs.activeBitmap || decide (b = c)) := testBit_setBit hb
  -- every other line waits as before
  have hwaits : ∀ c, VirqStruct.Waits { vs.place b id with localDesc := f } c ↔
      vs.Waits c ∧ b ≠ c := by
    intro c
    change testBit c (clearBit b _) = true ∧ testBit c (setBit b _) = false ↔ _
    unfold VirqStruct.Waits
    rw [hact, testBit_clearBit]
    by_cases hc : b = c <;> simp [hc]
  have hactb : testBit b vs'.activeBitmap = true :=
    h.active b (by change testBit b (setBit b _) = true; simp [hact])
  have hnotb : ¬ vs'.Waits b := by
    rintro ⟨-, hoff⟩
    rw [hactb] at hoff
    cases hoff
  have hwaiting : vs.waiting b hi =
      VirqStruct.waiting { vs.place b id with localDesc := f } (b + 1) hi + 1 := by
    refine count_insert hhi (by omega) ⟨Nat.le_refl _, hw⟩ fun j hj => ?_
    rw [hwaits j]
    constructor
    · rintro ⟨hlo, hwj⟩
      exact ⟨by omega, hwj, Ne.symm hj⟩
    · rintro ⟨hlo, hwj, -⟩
      exact ⟨by omega, hwj⟩
  have hwaiting' : vs'.waiting (b + 1) hi = vs'.waiting b hi := by
    refine waiting_skip (Nat.le_succ b) fun c hlo hlt => ?_
    obtain rfl : c = b := by omega
    exact hnotb
  refine ⟨fun nr hfits => h.fits nr ?_, fun c hc => ?_, fun c hwc => ?_, fun c hc => ?_,
    fun c hwc => ((hwaits c).mp (h.fewer c hwc)).1, fun hlrs => ?_, ?_⟩
  · exact ⟨by simpa [VirqStruct.place, clearBit] using hfits.pend,
      by simpa [VirqStruct.place, setBit] using hfits.act,
      by simpa [VirqStruct.place, setBit] using hfits.lrs⟩
  · rw [h.outside c (by omega), hwaits c]
    exact ⟨fun hwc => hwc.1, fun hwc => ⟨hwc, by omega⟩⟩
  · by_cases hc : b = c
    · subst hc
      exact Or.inl hactb
    · exact h.placed c ((hwaits c).mpr ⟨hwc, hc⟩)
  · exact h.active c (by change testBit c (setBit b _) = true; simp [hact, hc])
  · have hfreeLrs : vs.freeLrs =
        VirqStruct.freeLrs { vs.place b id with localDesc := f } + 1 := by
      refine count_insert hid ?_ hfree fun j hj => ?_
      · change ¬ testBit id (setBit id _) = false
        simp [testBit_setBit (Nat.lt_of_lt_of_le hid hlrs)]
      · change _ ↔ testBit j (setBit id _) = false
        rw [testBit_setBit_of_ne (Ne.symm hj)]
    have hbal := h.balance (by simpa [VirqStruct.place, setBit] using hlrs)
    omega
  · refine h.ends.imp (fun hdone => ⟨hdone.1, fun c hlo hlt => ?_⟩)
      fun hend => ⟨hend.1, by omega, hend.2.2⟩
    by_cases hc : b = c
    · subst hc
      exact hnotb
    · exact hdone.2 c (by omega) hlt

/-- The loop of the entry from `lo` on. The induction is on the turns left; each finds the next
pending line. -/
theorem enterScan_scan (v size fuel : Nat) :
    ∀ (vm : Vm) (flags : BitVec 32) (lo : Nat), size ≤ lo + fuel → size ≤ vmIrqCount vm →
      size ≤ 64 * (vm.vcpu v).activeBitmap.length →
      Scan lo size (vm.vcpu v) ((enterScan v size fuel (vm, flags)
        (findNextBit (vm.vcpu v).pendingBitmap size lo)).1.vcpu v) := by
  induction fuel with
  | zero =>
    intro vm flags lo hfuel _ _
    exact Scan.refl fun b hlo hlt => by omega
  | succ fuel ih =>
    intro vm flags lo hfuel hsize hlen
    have hnext := findNextBit_spec (vm.vcpu v).pendingBitmap size lo
    -- the lines the search passes over are not pending
    have hskip : ∀ b, lo ≤ b → b < findNextBit (vm.vcpu v).pendingBitmap size lo →
        ¬ (vm.vcpu v).Waits b := by
      intro b hlo hlt hw
      have hmiss := hnext.miss b hlo hlt
      simp only [hw.1] at hmiss
      cases hmiss
    generalize hbit : findNextBit (vm.vcpu v).pendingBitmap size lo = bit at hnext hskip
    rw [enterScan]
    split
    · exact Scan.refl fun b hlo hlt => hskip b hlo (by omega)
    rename_i hlt
    have hge : lo ≤ bit := hnext.ge (by omega)
    have hdesc : (getVirqDesc vm v bit).isSome := getVirqDesc_isSome.mpr (by omega)
    obtain ⟨r, hr⟩ := Option.isSome_iff_exists.mp hdesc
    simp only [hr]
    split
    · rename_i hact
      refine (ih vm flags (bit + 1) (by omega) hsize hlen).skip (by omega) fun b hlo hb hw => ?_
      by_cases heq : b = bit
      · subst heq
        have hoff := hw.2
        rw [hact] at hoff
        cases hoff
      · exact hskip b hlo (by omega) hw
    rename_i hact
    have hw : (vm.vcpu v).Waits bit := ⟨hnext.hit (by omega), by simpa using hact⟩
    have hfirst := findFirstZeroBit_spec (vm.vcpu v).lrsBitmap (vm.vcpu v).nrLrs
    split
    · rename_i hnone
      rw [setVcpu_self]
      refine Scan.stop (fun id hid => ?_) ⟨hge, by omega⟩ hw
      have hmiss := hfirst.miss id (Nat.zero_le _) (by omega)
      simpa using hmiss
    · rename_i hid
      obtain ⟨f, hvs⟩ := injectVirq_vcpu vm v r bit
        (findFirstZeroBit (vm.vcpu v).lrsBitmap (vm.vcpu v).nrLrs)
      have hrest := ih (injectVirq vm v r bit
        (findFirstZeroBit (vm.vcpu v).lrsBitmap (vm.vcpu v).nrLrs)) (injectFlags flags (vm.desc r))
        (bit + 1) (by omega) (by simpa [vmIrqCount, injectVirq, Vm.setVcpu] using hsize)
        (by simpa [hvs, VirqStruct.place, setBit] using hlen)
      rw [hvs] at hrest
      have hscan := Scan.inject hw (by omega) (by omega) (by omega)
        (by simpa using hfirst.hit (by omega)) hrest
      rw [← hvs] at hscan
      exact hscan.skip hge hskip

end Scans

/-! ## The entry -/

/-- After the entry every line that waited is in a list register, or all of them are taken. -/
def EntryComplete (vm : Vm) (v : Nat) : Prop :=
  (∀ b < vmIrqCount vm, (vm.vcpu v).Waits b →
    testBit b ((vgicIrqEnterToGuest vm v).1.vcpu v).activeBitmap = true) ∨
  ((vgicIrqEnterToGuest vm v).1.vcpu v).Full

/-- The lines that neither scan of the entry looks at. -/
def LeftOut (old count b : Nat) : Prop := old ≤ b ∧ count - old ≤ b

/-- The lines that wait and are looked at. -/
def looked (vs : VirqStruct) (count : Nat) : Nat :=
  vs.waiting vs.lastFailVirq (count - vs.lastFailVirq) + vs.waiting 0 vs.lastFailVirq

/-- What an entry of a VM with `count` lines does to those of the vcpu. -/
structure Entered (count : Nat) (vs vs' : VirqStruct) : Prop where
  leftOut : ∀ b, LeftOut vs.lastFailVirq count b → (vs'.Waits b ↔ vs.Waits b)
  placed : ∀ b, vs.Waits b → testBit b vs'.activeBitmap = true ∨ vs'.Waits b
  fewer : ∀ b, vs'.Waits b → vs.Waits b
  room : vs'.Full → vs.freeLrs ≤ looked vs count
  ends : vs'.lastFailVirq = 0 ∧ vs'.freeLrs + looked vs count = vs.freeLrs ∧
      (∀ b < count, ¬ LeftOut vs.lastFailVirq count b → ¬ vs'.Waits b) ∨
    vs'.Full ∧ vs'.Waits vs'.lastFailVirq ∧ ¬ LeftOut vs.lastFailVirq count vs'.lastFailVirq

section Entry

variable {vs vs₁ vs' : VirqStruct} {vm : Vm} {v count : Nat}

/-- The list registers run out in the first scan. -/
theorem Entered.of_full (hlrs : vs.nrLrs ≤ 64 * vs.lrsBitmap.length)
    (h : Scan vs.lastFailVirq (count - vs.lastFailVirq) { vs with lastFailVirq := 0 } vs')
    (hfull : vs'.Full) (hat : vs'.lastFailVirq < count - vs.lastFailVirq)
    (hw : vs'.Waits vs'.lastFailVirq) : Entered count vs vs' := by
  refine ⟨fun b hb => h.outside b fun hin => ?_, h.placed, h.fewer, fun _ => ?_,
    Or.inr ⟨hfull, hw, fun hout => ?_⟩⟩
  · unfold LeftOut at hb
    omega
  · have hzero := hfull.freeLrs
    have hbal : vs'.freeLrs + vs.waiting _ _ = vs.freeLrs + vs'.waiting _ _ := h.balance hlrs
    unfold looked
    omega
  · unfold LeftOut at hout
    omega

/-- The first scan comes to its end, and the second follows it. -/
theorem Entered.of_scans (hfits : vs.Fits count)
    (h₁ : Scan vs.lastFailVirq (count - vs.lastFailVirq) { vs with lastFailVirq := 0 } vs₁)
    (hdone : ∀ b, vs.lastFailVirq ≤ b → b < count - vs.lastFailVirq → ¬ vs₁.Waits b)
    (hlast : vs₁.lastFailVirq = 0) (h₂ : Scan 0 vs.lastFailVirq vs₁ vs') :
    Entered count vs vs' := by
  have hbal₁ : vs₁.freeLrs + vs.waiting _ _ = vs.freeLrs + vs₁.waiting _ _ :=
    h₁.balance hfits.lrs
  rw [waiting_eq_zero hdone] at hbal₁
  have hbal₂ := h₂.balance (h₁.fits count { hfits with }).lrs
  -- the second scan finds the lines below as they were
  have hbelow : vs₁.waiting 0 vs.lastFailVirq = vs.waiting 0 vs.lastFailVirq :=
    waiting_congr fun b _ hlt => h₁.outside b (by omega)
  rw [hbelow] at hbal₂
  refine ⟨fun b hb => ?_, fun b hw => ?_, fun b hw => h₁.fewer b (h₂.fewer b hw),
    fun hfull => ?_, ?_⟩
  · unfold LeftOut at hb
    rw [h₂.outside b (by omega)]
    exact h₁.outside b (by omega)
  · rcases h₁.placed b hw with hact | hwait
    · exact Or.inl (h₂.active b hact)
    · exact h₂.placed b hwait
  · have hzero := hfull.freeLrs
    unfold looked
    omega
  · refine h₂.ends.imp (fun hend => ⟨hend.1.trans hlast, ?_, fun b hlt hb hw => ?_⟩)
      fun ⟨hfull, hat, hw⟩ => ⟨hfull, hw, fun hout => ?_⟩
    · rw [waiting_eq_zero hend.2] at hbal₂
      unfold looked
      omega
    · unfold LeftOut at hb
      by_cases hlow : b < vs.lastFailVirq
      · exact hend.2 b (Nat.zero_le _) hlow hw
      · exact hdone b (by omega) (by omega) (h₂.fewer b hw)
    · unfold LeftOut at hout
      omega

theorem enterScan_vspiNr (v size fuel : Nat) :
    ∀ (s : Vm × BitVec 32) (bit : Nat), (enterScan v size fuel s bit).1.vspiNr = s.1.vspiNr := by
  induction fuel with
  | zero => exact fun _ _ => rfl
  | succ fuel ih =>
    rintro ⟨vm, flags⟩ bit
    rw [enterScan]
    split
    · rfl
    cases getVirqDesc vm v bit with
    | none => exact ih _ _
    | some r =>
      simp only
      split_ifs
      · exact ih _ _
      · rfl
      · rw [ih]
        simp [injectVirq, Vm.setVcpu]

theorem vgicIrqEnterToGuest_entered (hfits : (vm.vcpu v).Fits (vmIrqCount vm))
    (hlast : (vm.vcpu v).lastFailVirq < vmIrqCount vm) :
    Entered (vmIrqCount vm) (vm.vcpu v) ((vgicIrqEnterToGuest vm v).1.vcpu v) := by
  have hvs := setVcpu_self vm v { vm.vcpu v with lastFailVirq := 0 }
  have h₁ := enterScan_scan v (vmIrqCount vm - (vm.vcpu v).lastFailVirq)
    (vmIrqCount vm - (vm.vcpu v).lastFailVirq) (vm.setVcpu v { vm.vcpu v with lastFailVirq := 0 })
    0 (vm.vcpu v).lastFailVirq (by omega) (Nat.sub_le _ _)
    (by rw [hvs]; exact Nat.le_trans (Nat.sub_le _ _) hfits.act)
  unfold vgicIrqEnterToGuest
  simp only
  generalize hs : enterScan v _ _ (vm.setVcpu v { vm.vcpu v with lastFailVirq := 0 }, 0) _ = s
  rw [hvs, hs] at h₁
  have hcount : vmIrqCount s.1 = vmIrqCount vm := by
    rw [← hs, vmIrqCount, enterScan_vspiNr]
    rfl
  split
  · rename_i hagain
    rcases h₁.ends with ⟨hkept, hdone⟩ | ⟨-, ⟨hle, -⟩, -⟩
    · have hact₁ := (h₁.fits _ { hfits with }).act
      exact Entered.of_scans hfits h₁ hdone hkept
        (enterScan_scan v _ _ s.1 s.2 0 (by omega) (by omega) (by omega))
    · -- the line that failed is not below the one the scan began at
      have hzero := hagain.2
      have hne := hagain.1
      omega
  · rename_i hstop
    rcases h₁.ends with ⟨hkept, hdone⟩ | ⟨hfull, ⟨-, hlt⟩, hw⟩
    · -- without a second scan the first one began at line 0
      have hold : (vm.vcpu v).lastFailVirq = 0 := by
        by_contra hne
        exact hstop ⟨hne, hkept⟩
      refine Entered.of_scans hfits h₁ hdone hkept ?_
      rw [hold]
      exact Scan.refl fun b _ hlt => by omega
    · exact Entered.of_full hfits.lrs h₁ hfull hlt hw

/-- **`vgic_irq_enter_to_guest`.** The entry is complete exactly if no line that waits is left
out, or the lines that are looked at take all the free list registers. -/
theorem vgic_entry_complete_iff (vm : Vm) (v : Nat)
    (hfits : (vm.vcpu v).Fits (vmIrqCount vm)) (hlast : (vm.vcpu v).lastFailVirq < vmIrqCount vm) :
    EntryComplete vm v ↔
      (∀ b < vmIrqCount vm, (vm.vcpu v).Waits b →
        ¬ LeftOut (vm.vcpu v).lastFailVirq (vmIrqCount vm) b) ∨
      (vm.vcpu v).freeLrs ≤ looked (vm.vcpu v) (vmIrqCount vm) := by
  have h := vgicIrqEnterToGuest_entered hfits hlast
  unfold EntryComplete
  constructor
  · rintro (hall | hfull)
    · refine Or.inl fun b hlt hw hout => ?_
      have hstill := ((h.leftOut b hout).mpr hw).2
      rw [hall b hlt hw] at hstill
      cases hstill
    · exact Or.inr (h.room hfull)
  · rintro (hnone | hroom)
    · refine h.ends.imp (fun hend b hlt hw => ?_) And.left
      exact (h.placed b hw).resolve_right (hend.2.2 b hlt (hnone b hlt hw))
    · rcases h.ends with ⟨-, hbal, -⟩ | ⟨hfull, -⟩
      · exact Or.inr (VirqStruct.full_of_freeLrs (by omega))
      · exact Or.inr hfull

end Entry

/-- The booted VM with these lines pending on its vcpu. -/
def withPending (vm : Vm) (pending : Bitmap) : Vm :=
  vm.setVcpu 0 { vm.vcpu 0 with pendingBitmap := pending }

/-- Lines 1 to 4 take the four list registers and line 40 finds none; the guest handles the four,
and line 40 is pending with `pending`. -/
def afterFail (pending : Bitmap) : Vm :=
  withPending (vgicIrqExitFromGuest (vgicIrqEnterToGuest
    (withPending bootedVm [0x1000000001e, 0]) 0).1 0 fun _ => .inactive) pending

theorem vgic_entry_complete_next :
    ((afterFail [0x10000000000, 0]).vcpu 0).lastFailVirq = 40 ∧
      EntryComplete (afterFail [0x10000000000, 0]) 0 :=
  ⟨by decide +kernel, (vgic_entry_complete_iff (afterFail [0x10000000000, 0]) 0
    ⟨by decide +kernel, by decide +kernel, by decide +kernel⟩ (by decide +kernel)).mpr
    (Or.inl (by unfold LeftOut; decide +kernel))⟩

/-- Line 90 became pending as well. The scan from line 40 on ends before line 88, and line 90
stays pending with three list registers free. -/
theorem vgic_entry_left_out :
    ((afterFail [0x10000000000, 0x4000000]).vcpu 0).lastFailVirq = 40 ∧
      ((afterFail [0x10000000000, 0x4000000]).vcpu 0).Waits 90 ∧
      ((vgicIrqEnterToGuest (afterFail [0x10000000000, 0x4000000]) 0).1.vcpu 0).Waits 90 ∧
      ((vgicIrqEnterToGuest (afterFail [0x10000000000, 0x4000000]) 0).1.vcpu 0).freeLrs = 3 ∧
      ¬ EntryComplete (afterFail [0x10000000000, 0x4000000]) 0 := by
  refine ⟨by decide +kernel, by decide +kernel, by decide +kernel, by decide +kernel, ?_⟩
  rintro (hall | hfull)
  · have hact := hall 90 (by decide +kernel) (by decide +kernel)
    revert hact
    decide +kernel
  · have hlr := hfull 1 (by decide +kernel)
    revert hlr
    decide +kernel

/-! ## After a reset -/

/-- The vcpu as `virq_create_vm` and `vcpu_virq_struct_init` leave a new one. -/
def VirqStruct.fresh (vs : VirqStruct) : VirqStruct :=
  vcpuVirqStructInit { vs with
    lastFailVirq := 0
    pendingBitmap := List.replicate vs.pendingBitmap.length 0
    activeBitmap := List.replicate vs.activeBitmap.length 0
    lrsBitmap := List.replicate vs.lrsBitmap.length 0 }

/-- The vcpu with the lines `p` pending. -/
def Vm.pend (vm : Vm) (v : Nat) (p : Bitmap) : Vm :=
  vm.setVcpu v { vm.vcpu v with pendingBitmap := p }

/-- What a reset is for. -/
structure ResetRight (vm : Vm) (v : Nat) : Prop where
  cleared : ∀ b, (getVirqDesc vm v b).isSome →
    testBit b ((vcpuVirqStructReset vm v).vcpu v).pendingBitmap = false ∧
      testBit b ((vcpuVirqStructReset vm v).vcpu v).activeBitmap = false
  lrs : ∀ id, testBit id ((vcpuVirqStructReset vm v).vcpu v).lrsBitmap = false
  counters : ((vcpuVirqStructReset vm v).vcpu v).pendingVirq = 0 ∧
    ((vcpuVirqStructReset vm v).vcpu v).activeVirq = 0
  entry : ∀ p : Bitmap, p.length = (vm.vcpu v).pendingBitmap.length →
    vgicIrqEnterToGuest ((vcpuVirqStructReset vm v).pend v p) v =
      vgicIrqEnterToGuest ((vm.setVcpu v (vm.vcpu v).fresh).pend v p) v

/-- The bitmaps of a vcpu: as long as they are allocated, with bits for lines and list registers
that are there. -/
structure VirqStruct.Bitmaps (vs : VirqStruct) (nr : Nat) : Prop where
  pend : vs.pendingBitmap.length = bitsToLongs nr
  act : vs.activeBitmap.length = bitsToLongs nr
  lrs : vs.lrsBitmap.length = 2
  nrLrs : vs.nrLrs ≤ 128
  actLine : ∀ b, testBit b vs.activeBitmap = true → b < nr
  lrsLine : ∀ id, testBit id vs.lrsBitmap = true → id < vs.nrLrs

section Reset

variable {vm : Vm} {v b : Nat} {p : Bitmap}

theorem le_bitsToLongs (n : Nat) : n ≤ 64 * bitsToLongs n := by
  unfold bitsToLongs
  omega

theorem eq_replicate_of_testBit (h : ∀ b, testBit b p = false) :
    p = List.replicate p.length 0 := by
  refine List.eq_replicate_iff.mpr ⟨rfl, fun w hw => ?_⟩
  obtain ⟨k, hk, rfl⟩ := List.getElem_of_mem hw
  refine BitVec.eq_of_getLsbD_eq fun i hi => ?_
  have hbit := h (64 * k + i)
  rw [testBit, show (64 * k + i) / 64 = k by omega, show (64 * k + i) % 64 = i by omega,
    List.getD_eq_getElem?_getD, List.getElem?_eq_getElem hk, Option.getD_some] at hbit
  rw [hbit]
  simp

theorem reset_vcpu (vm : Vm) (v : Nat) : (vcpuVirqStructReset vm v).vcpu v =
    vcpuVirqStructInit { vm.vcpu v with
      pendingBitmap := bitmapZero (vm.vcpu v).pendingBitmap vm.vspiNr
      activeBitmap := bitmapZero (vm.vcpu v).activeBitmap vm.vspiNr
      lrsBitmap := bitmapZero (vm.vcpu v).lrsBitmap (vm.vcpu v).nrLrs } :=
  setVcpu_self _ _ _

/-- The `memset` of the list registers covers them all. -/
theorem reset_lrs (h : (vm.vcpu v).Bitmaps (vmIrqCount vm)) (id : Nat) :
    testBit id (bitmapZero (vm.vcpu v).lrsBitmap (vm.vcpu v).nrLrs) = false := by
  rw [testBit_bitmapZero]
  split
  · rfl
  · rename_i hge
    by_contra hne
    have hlt := h.lrsLine id (by simpa using hne)
    have hle := le_bitsToLongs (vm.vcpu v).nrLrs
    omega

theorem pend_vcpu (vm : Vm) (v : Nat) (p : Bitmap) :
    (vm.pend v p).vcpu v = { vm.vcpu v with pendingBitmap := p } :=
  setVcpu_self _ _ _

/-- A line pending alone, the last one there is. It is left out by an entry that does not begin
at line 0. -/
def lastLine (vm : Vm) (v : Nat) : Bitmap :=
  setBit (vmIrqCount vm - 1) (List.replicate (vm.vcpu v).pendingBitmap.length 0)

theorem testBit_lastLine (h : (vm.vcpu v).Bitmaps (vmIrqCount vm)) :
    testBit b (lastLine vm v) = decide (vmIrqCount vm - 1 = b) := by
  have hpos : 0 < vmIrqCount vm := by
    unfold vmIrqCount vmLocalVirqNr vmSgiVirqNr
    omega
  have hle := le_bitsToLongs (vmIrqCount vm)
  unfold lastLine
  rw [testBit_setBit (by rw [List.length_replicate, h.pend]; omega)]
  simp

/-- The last line after an entry of a vcpu with nothing active. -/
theorem entry_lastLine (vs : VirqStruct) (h : (vm.vcpu v).Bitmaps (vmIrqCount vm))
    (hact : vs.activeBitmap.length = (vm.vcpu v).activeBitmap.length)
    (hoff : testBit (vmIrqCount vm - 1) vs.activeBitmap = false)
    (hlrs : vs.nrLrs ≤ 64 * vs.lrsBitmap.length) (hlast : vs.lastFailVirq < vmIrqCount vm) :
    Entered (vmIrqCount vm) { vs with pendingBitmap := lastLine vm v }
        ((vgicIrqEnterToGuest ((vm.setVcpu v vs).pend v (lastLine vm v)) v).1.vcpu v) ∧
      ∀ b, VirqStruct.Waits { vs with pendingBitmap := lastLine vm v } b ↔
        b = vmIrqCount vm - 1 := by
  have hle := le_bitsToLongs (vmIrqCount vm)
  have hentered := @vgicIrqEnterToGuest_entered ((vm.setVcpu v vs).pend v (lastLine vm v)) v
  rw [pend_vcpu, setVcpu_self] at hentered
  refine ⟨hentered ⟨?_, ?_, hlrs⟩ hlast, fun b => ?_⟩
  · change vmIrqCount vm ≤ 64 * (lastLine vm v).length
    simpa [lastLine, setBit, h.pend] using hle
  · change vmIrqCount vm ≤ 64 * vs.activeBitmap.length
    rw [hact, h.act]
    exact hle
  · unfold VirqStruct.Waits
    dsimp only
    rw [testBit_lastLine h, decide_eq_true_eq]
    constructor
    · rintro ⟨heq, -⟩
      exact heq.symm
    · rintro rfl
      exact ⟨rfl, hoff⟩

theorem words_le (vm : Vm) : bitsToLongs vm.vspiNr ≤ bitsToLongs (vmIrqCount vm) := by
  unfold bitsToLongs vmIrqCount
  omega

/-- The lines the `memset`s leave out are what is left of the bitmap. -/
theorem testBit_reset (hlt : 64 * bitsToLongs vm.vspiNr ≤ b → testBit b p = false) :
    testBit b (bitmapZero p vm.vspiNr) = false := by
  rw [testBit_bitmapZero]
  split
  · rfl
  · exact hlt (by omega)

theorem ResetRight.left (hr : ResetRight vm v) (hlt : b < vmIrqCount vm)
    (hge : 64 * bitsToLongs vm.vspiNr ≤ b) : testBit b (vm.vcpu v).pendingBitmap = false ∧
      testBit b (vm.vcpu v).activeBitmap = false := by
  have hb := hr.cleared b (getVirqDesc_isSome.mpr hlt)
  rw [reset_vcpu] at hb
  change testBit b (bitmapZero _ _) = false ∧ testBit b (bitmapZero _ _) = false at hb
  rwa [testBit_bitmapZero, testBit_bitmapZero, if_neg (by omega), if_neg (by omega)] at hb

/-- With the last line alone pending, the entry after the reset passes it over unless it begins at
line 0; that of a new vcpu does not. -/
theorem ResetRight.lastFail (hr : ResetRight vm v) (h : (vm.vcpu v).Bitmaps (vmIrqCount vm))
    (hlast : (vm.vcpu v).lastFailVirq < vmIrqCount vm) : (vm.vcpu v).lastFailVirq = 0 := by
  by_contra hne
  have hvs := reset_vcpu vm v
  have hcount : 32 ≤ vmIrqCount vm := by
    unfold vmIrqCount vmLocalVirqNr vmSgiVirqNr vmPpiVirqNr
    omega
  have hnr := h.nrLrs
  have htop := (hr.cleared (vmIrqCount vm - 1) (getVirqDesc_isSome.mpr (by omega))).2
  have hsame : vm.setVcpu v ((vcpuVirqStructReset vm v).vcpu v) = vcpuVirqStructReset vm v := by
    rw [hvs]
    rfl
  have hlrsLen : (bitmapZero (vm.vcpu v).lrsBitmap (vm.vcpu v).nrLrs).length = 2 := by
    rw [length_bitmapZero (by rw [h.lrs, bitsToLongs]; omega), h.lrs]
  obtain ⟨hreset, hwreset⟩ := entry_lastLine ((vcpuVirqStructReset vm v).vcpu v) h
    (by rw [hvs]; exact length_bitmapZero (by rw [h.act]; exact words_le vm)) htop
    (by
      rw [hvs]
      change (vm.vcpu v).nrLrs ≤ 64 * (bitmapZero _ _).length
      omega)
    (by rw [hvs]; exact hlast)
  rw [hsame, hr.entry (lastLine vm v) (by simp [lastLine, setBit])] at hreset
  obtain ⟨hfresh, hwfresh⟩ := entry_lastLine (vm.vcpu v).fresh h
    (by simp [VirqStruct.fresh, vcpuVirqStructInit])
    (by simp [VirqStruct.fresh, vcpuVirqStructInit])
    (by
      simp only [VirqStruct.fresh, vcpuVirqStructInit, List.length_replicate, h.lrs]
      omega)
    (by simp only [VirqStruct.fresh, vcpuVirqStructInit]; omega)
  have hout : LeftOut ((vcpuVirqStructReset vm v).vcpu v).lastFailVirq (vmIrqCount vm)
      (vmIrqCount vm - 1) := by
    rw [hvs]
    change (vm.vcpu v).lastFailVirq ≤ _ ∧ vmIrqCount vm - (vm.vcpu v).lastFailVirq ≤ _
    omega
  have hstill := (hreset.leftOut _ hout).mpr ((hwreset _).mpr rfl)
  rcases hfresh.ends with ⟨-, -, hnone⟩ | ⟨-, hw, -⟩
  · refine hnone (vmIrqCount vm - 1) (by omega) (fun hin => ?_) hstill
    change 0 ≤ _ ∧ vmIrqCount vm - 0 ≤ _ at hin
    omega
  · -- the list registers ran out at the last line, which the entry after the reset never saw
    have hat := (hwfresh _).mp (hfresh.fewer _ hw)
    rcases hreset.ends with ⟨hzero, -⟩ | ⟨-, -, hin⟩
    · omega
    · rw [hat] at hin
      exact hin hout

/-- But for what is pending, the vcpu is a new one. -/
theorem reset_eq_fresh (h : (vm.vcpu v).Bitmaps (vmIrqCount vm))
    (hzero : (vm.vcpu v).lastFailVirq = 0)
    (hact : ∀ b < vmIrqCount vm, 64 * bitsToLongs vm.vspiNr ≤ b →
      testBit b (vm.vcpu v).activeBitmap = false) (p : Bitmap) :
    (vcpuVirqStructReset vm v).pend v p = (vm.setVcpu v (vm.vcpu v).fresh).pend v p := by
  have hactZero : bitmapZero (vm.vcpu v).activeBitmap vm.vspiNr =
      List.replicate (vm.vcpu v).activeBitmap.length 0 := by
    rw [eq_replicate_of_testBit (p := bitmapZero _ _) fun b => testBit_reset fun hge => ?_,
      length_bitmapZero (by rw [h.act]; exact words_le vm)]
    by_contra hne
    have hset : testBit b (vm.vcpu v).activeBitmap = true := by simpa using hne
    exact hne (hact b (h.actLine b hset) hge)
  have hlrsZero : bitmapZero (vm.vcpu v).lrsBitmap (vm.vcpu v).nrLrs =
      List.replicate (vm.vcpu v).lrsBitmap.length 0 := by
    have hnr := h.nrLrs
    rw [eq_replicate_of_testBit (p := bitmapZero _ _) (reset_lrs h),
      length_bitmapZero (by rw [h.lrs, bitsToLongs]; omega)]
  have hstruct : { (vcpuVirqStructReset vm v).vcpu v with pendingBitmap := p } =
      { (vm.vcpu v).fresh with pendingBitmap := p } := by
    rw [reset_vcpu]
    simp only [vcpuVirqStructInit, VirqStruct.fresh, hactZero, hlrsZero, hzero]
  unfold Vm.pend
  rw [hstruct, setVcpu_self]
  simp [Vm.setVcpu, vcpuVirqStructReset]

/-- **`vcpu_virq_struct_reset`.** A reset is right exactly if the last entry found a list register
for every line and no line that the `memset`s leave out was pending or active. -/
theorem vcpu_virq_reset_right_iff (vm : Vm) (v : Nat) (h : (vm.vcpu v).Bitmaps (vmIrqCount vm))
    (hlast : (vm.vcpu v).lastFailVirq < vmIrqCount vm) :
    ResetRight vm v ↔ (vm.vcpu v).lastFailVirq = 0 ∧
      ∀ b < vmIrqCount vm, 64 * bitsToLongs vm.vspiNr ≤ b →
        testBit b (vm.vcpu v).pendingBitmap = false ∧
          testBit b (vm.vcpu v).activeBitmap = false := by
  constructor
  · intro hr
    exact ⟨hr.lastFail h hlast, fun b hlt hge => hr.left hlt hge⟩
  · rintro ⟨hzero, hclear⟩
    have hvs := reset_vcpu vm v
    refine ⟨fun b hb => ?_, fun id => ?_, ?_, fun p _ => ?_⟩
    · rw [hvs]
      have hlt := getVirqDesc_isSome.mp hb
      exact ⟨testBit_reset fun hge => (hclear b hlt hge).1,
        testBit_reset fun hge => (hclear b hlt hge).2⟩
    · rw [hvs]
      exact reset_lrs h id
    · rw [hvs]
      exact ⟨rfl, rfl⟩
    · rw [reset_eq_fresh h hzero (fun b hlt hge => (hclear b hlt hge).2) p]

end Reset

theorem bitmaps_bootedVm : (bootedVm.vcpu 0).Bitmaps (vmIrqCount bootedVm) := by
  have hact := (booted_bootedVm.active 0).1
  have hlrs := booted_bootedVm.lrs 0
  refine ⟨by decide +kernel, by decide +kernel, by decide +kernel, by decide +kernel, ?_, ?_⟩
  · simp [hact]
  · intro id hid
    have hzero : testBit id (List.replicate 2 0) = false := testBit_replicate_zero 2 id
    rw [hlrs, hzero] at hid
    cases hid

theorem vcpu_virq_reset_right_booted : ResetRight bootedVm 0 :=
  (vcpu_virq_reset_right_iff bootedVm 0 bitmaps_bootedVm (by decide +kernel)).mpr
    ⟨by decide +kernel, by decide +kernel⟩

/-- A reset after an entry that found no list register for line 40. Line 90, pending after it, is
not put into a list register; on a new vcpu it is. -/
theorem vcpu_virq_reset_last_fail :
    ((vcpuVirqStructReset (afterFail [0, 0]) 0).vcpu 0).lastFailVirq = 40 ∧
      ((vgicIrqEnterToGuest
        ((vcpuVirqStructReset (afterFail [0, 0]) 0).pend 0 [0, 0x4000000]) 0).1.vcpu 0).Waits 90 ∧
      ¬ ResetRight (afterFail [0, 0]) 0 := by
  refine ⟨by decide +kernel, by decide +kernel, fun h => ?_⟩
  have hlrs := congrArg (fun r => (r.1.vcpu 0).lrsBitmap)
    (h.entry [0, 0x4000000] (by decide +kernel))
  revert hlrs
  decide +kernel

end Minos.Virq
