import Mathlib.Data.List.Count
import Mathlib.Data.List.Nodup
import Mathlib.Data.List.Rotate

/-!
# Placing the vcpus of a VM

`vcpu_affinity_init` and `get_vcpu_affinity` of `virt/vm.c`: which cpus the
vcpus of a VM created at run time go to. The cpus of the native VMs are
marked in a bitmap at boot. The search goes round the cpus from where the
last one ended and takes those that are acceptable until it has enough;
what is acceptable is settled before the loop, from the number asked for.
-/

namespace Minos.VcpuAffinity

/-- The native VMs when `vcpu_affinity_init` runs: the `vcpu_affinity` array
of each, up to its `vcpu_nr`. The host VM is one of them. -/
structure Natives (nrCpus : Nat) where
  vms : List (List Nat)
  vm0 : List Nat
  vm0_mem : vm0 ∈ vms
  vm0_vcpus : vm0 ≠ []
  lt : ∀ vm ∈ vms, ∀ cpu ∈ vm, cpu < nrCpus

variable {nrCpus : Nat} (p : Natives nrCpus)

/-- `test_bit(cpu, vcpu_aff_bitmap)`. -/
def Natives.vcpuAffBitmap (cpu : Nat) : Bool := p.vms.any (·.contains cpu)

def Natives.nativeVcpus : Nat := (List.range nrCpus).countP p.vcpuAffBitmap

/-- `aff_current` after `vcpu_affinity_init`. -/
def Natives.affInit : Nat :=
  ((List.range nrCpus).find? fun cpu => !p.vcpuAffBitmap cpu).getD (nrCpus - 1)

def Natives.vm0Vcpu0 : Nat := p.vm0.head p.vm0_vcpus

/-- Whether the loop takes a cpu. -/
def Natives.accept (nr cpu : Nat) : Bool :=
  let vm0Vcpu0Ok := nr = nrCpus
  let vm0VcpusOk := nr ≠ nrCpus ∧ nrCpus - p.nativeVcpus < nr
  !p.vcpuAffBitmap cpu || (cpu = p.vm0Vcpu0 ∧ vm0Vcpu0Ok) ||
    (cpu ≠ p.vm0Vcpu0 ∧ vm0VcpusOk)

/-- `++aff_current`, back to 0 at the end. -/
def next (nrCpus cur : Nat) : Nat := if nrCpus ≤ cur + 1 then 0 else cur + 1

/-- The `do` loop with `aff` written so far; `none` when it takes more than
`fuel` turns. The second result is `aff_current`. -/
def affLoop (accept : Nat → Bool) (nrCpus nr : Nat) :
    Nat → Nat → List Nat → Option (List Nat × Nat)
  | 0, _, _ => none
  | fuel + 1, cur, aff =>
    let aff := if accept cur then aff ++ [cur] else aff
    if aff.length < nr then affLoop accept nrCpus nr fuel (next nrCpus cur) aff
    else some (aff, next nrCpus cur)

def Natives.getVcpuAffinity (cur nr fuel : Nat) : Option (List Nat × Nat) :=
  affLoop (p.accept nr) nrCpus nr fuel cur []

/-- The call ends, with as many cpus as asked for, all different, and
`aff_current` is a cpu again. -/
def Natives.Right (cur nr : Nat) : Prop :=
  ∃ fuel aff cur', p.getVcpuAffinity cur nr fuel = some (aff, cur') ∧
    aff.length = nr ∧ aff.Nodup ∧ (∀ cpu ∈ aff, cpu < nrCpus) ∧ cur' < nrCpus

/-! ## The loop -/

section Loop

variable {accept : Nat → Bool} {nr fuel cur cur' : Nat} {aff out : List Nat}

theorem next_lt (h : cur < nrCpus) : next nrCpus cur < nrCpus := by
  unfold next
  split <;> omega

/-- The loop only adds cpus that it accepts. -/
theorem affLoop_accept (h : affLoop accept nrCpus nr fuel cur aff = some (out, cur'))
    (haff : ∀ cpu ∈ aff, accept cpu = true) : ∀ cpu ∈ out, accept cpu = true := by
  induction fuel generalizing cur aff with
  | zero => cases h
  | succ fuel ih =>
    have hstep : ∀ cpu ∈ (if accept cur then aff ++ [cur] else aff), accept cpu = true := by
      intro cpu hcpu
      split at hcpu
      · rcases List.mem_append.mp hcpu with hcpu | hcpu
        · exact haff cpu hcpu
        · rwa [List.mem_singleton.mp hcpu]
      · exact haff cpu hcpu
    rw [affLoop] at h
    generalize (if accept cur then aff ++ [cur] else aff) = aff' at h hstep
    split at h
    · exact ih h hstep
    · cases h
      exact hstep

/-- The cpus the loop looks at in `fuel` turns. -/
def visited (nrCpus : Nat) : Nat → Nat → List Nat
  | 0, _ => []
  | fuel + 1, cur => cur :: visited nrCpus fuel (next nrCpus cur)

/-- When enough of the cpus it looks at are acceptable, the loop ends with
the first of these. -/
theorem affLoop_of_visited (hcur : cur < nrCpus) (hlen : aff.length < nr)
    (henough : nr ≤ aff.length + ((visited nrCpus fuel cur).filter accept).length) :
    ∃ cur', affLoop accept nrCpus nr fuel cur aff
      = some (aff ++ ((visited nrCpus fuel cur).filter accept).take (nr - aff.length), cur') ∧
        cur' < nrCpus := by
  induction fuel generalizing cur aff with
  | zero => simp [visited] at henough; omega
  | succ fuel ih =>
    simp only [affLoop, visited] at henough ⊢
    cases hacc : accept cur with
    | false =>
      simp only [List.filter_cons, hacc, Bool.false_eq_true, if_false] at henough ⊢
      rw [if_pos hlen]
      exact ih (next_lt hcur) hlen henough
    | true =>
      simp only [List.filter_cons, hacc, if_true, List.length_append, List.length_cons,
        List.length_nil] at henough ⊢
      obtain ⟨k, hk⟩ : ∃ k, nr - aff.length = k + 1 := ⟨nr - aff.length - 1, by omega⟩
      rw [hk, List.take_succ_cons]
      split
      · have hlen' : (aff ++ [cur]).length < nr := by simp; omega
        have hrest := ih (next_lt hcur) hlen' (by simp; omega)
        have hk' : nr - (aff ++ [cur]).length = k := by simp; omega
        rwa [hk', List.append_assoc] at hrest
      · refine ⟨_, ?_, next_lt hcur⟩
        rw [show k = 0 by omega, List.take_zero]

theorem next_eq_mod (h : cur < nrCpus) : next nrCpus cur = (cur + 1) % nrCpus := by
  unfold next
  split
  · rw [show cur + 1 = nrCpus by omega, Nat.mod_self]
  · rw [Nat.mod_eq_of_lt (by omega)]

@[simp] theorem length_visited : (visited nrCpus fuel cur).length = fuel := by
  induction fuel generalizing cur with
  | zero => rfl
  | succ fuel ih => simp [visited, ih]

theorem getElem_visited (hcur : cur < nrCpus) (i : Nat)
    (hi : i < (visited nrCpus fuel cur).length) :
    (visited nrCpus fuel cur)[i] = (i + cur) % nrCpus := by
  induction fuel generalizing cur i with
  | zero => simp at hi
  | succ fuel ih =>
    cases i with
    | zero => simp [visited, Nat.mod_eq_of_lt hcur]
    | succ i =>
      simp only [visited, List.getElem_cons_succ]
      rw [ih (next_lt hcur), next_eq_mod hcur, Nat.add_mod_mod]
      congr 1
      omega

/-- In one lap the loop looks at every cpu once. -/
theorem visited_lap (hcur : cur < nrCpus) :
    visited nrCpus nrCpus cur = (List.range nrCpus).rotate cur := by
  refine List.ext_getElem (by simp) fun i hi _ => ?_
  rw [getElem_visited hcur, List.getElem_rotate]
  simp

end Loop

/-! ## Acceptable cpus -/

theorem vm0Vcpu0_mem : p.vcpuAffBitmap p.vm0Vcpu0 = true := by
  rw [Natives.vcpuAffBitmap, List.any_eq_true]
  exact ⟨p.vm0, p.vm0_mem, by simp [Natives.vm0Vcpu0]⟩

theorem vm0Vcpu0_lt : p.vm0Vcpu0 < nrCpus :=
  p.lt p.vm0 p.vm0_mem _ (List.head_mem p.vm0_vcpus)

theorem countP_free :
    (List.range nrCpus).countP (fun cpu => !p.vcpuAffBitmap cpu) + p.nativeVcpus = nrCpus := by
  have h := List.length_eq_countP_add_countP p.vcpuAffBitmap (l := List.range nrCpus)
  simp only [List.length_range, Bool.not_eq_true, Bool.decide_eq_false] at h
  rw [Natives.nativeVcpus, Nat.add_comm]
  exact h.symm

theorem countP_ne (cpu : Nat) :
    nrCpus ≤ (List.range nrCpus).countP (fun c => decide (c ≠ cpu)) + 1 := by
  have h := List.length_eq_countP_add_countP (fun c => decide (c ≠ cpu))
    (l := List.range nrCpus)
  have hone := List.nodup_iff_count_le_one.mp (List.nodup_range (n := nrCpus)) cpu
  simp only [List.length_range, decide_not, Bool.not_eq_true, Bool.decide_eq_false,
    Bool.not_not] at h
  have heq : (List.range nrCpus).countP (fun c => decide (c = cpu))
      = (List.range nrCpus).count cpu := by
    rw [List.count_eq_countP]
    refine List.countP_congr fun c _ => ?_
    simp
  simp only [decide_not]
  omega

/-- Enough cpus are acceptable, unless all cpus are asked for and a native
VM has one that the host VM's first vcpu has not. -/
theorem enough_accept {nr : Nat} (hnr : nr ≤ nrCpus) (h : nr = nrCpus → p.nativeVcpus ≤ 1) :
    nr ≤ (List.range nrCpus).countP (p.accept nr) := by
  have hfree := countP_free p
  have hne : nrCpus ≤ (List.range nrCpus).countP (fun c => decide (c ≠ p.vm0Vcpu0)) + 1 :=
    countP_ne p.vm0Vcpu0
  have hmono : ∀ q : Nat → Bool, (∀ c, q c = true → p.accept nr c = true) →
      (List.range nrCpus).countP q ≤ (List.range nrCpus).countP (p.accept nr) :=
    fun q hq => List.countP_mono_left fun c _ => hq c
  have hfree_le := hmono (fun cpu => !p.vcpuAffBitmap cpu) fun c hc => by
    simp [Natives.accept, show p.vcpuAffBitmap c = false by simpa using hc]
  by_cases hall : nr = nrCpus
  · -- the one native cpu, if any, is that of the host VM's first vcpu
    have hlen : ∀ c ∈ List.range nrCpus, p.accept nr c = true := by
      intro c hc
      by_cases hbit : p.vcpuAffBitmap c = true
      · have heq : c = p.vm0Vcpu0 := by
          by_contra hdiff
          have htwo : 2 ≤ p.nativeVcpus := by
            have hsub : [c, p.vm0Vcpu0].Subperm
                ((List.range nrCpus).filter p.vcpuAffBitmap) := by
              refine List.subperm_of_subset (List.nodup_cons.mpr ⟨by simpa using hdiff,
                List.nodup_singleton _⟩) fun x hx => ?_
              rcases List.mem_pair.mp hx with rfl | rfl
              · exact List.mem_filter.mpr ⟨hc, hbit⟩
              · exact List.mem_filter.mpr
                  ⟨List.mem_range.mpr (vm0Vcpu0_lt p), vm0Vcpu0_mem p⟩
            rw [Natives.nativeVcpus, List.countP_eq_length_filter]
            exact hsub.length_le
          exact absurd (h hall) (by omega)
        simp [Natives.accept, heq, hall]
      · simp [Natives.accept, hbit]
    rw [List.countP_eq_length.mpr hlen, List.length_range]
    exact hnr
  · by_cases hmany : nrCpus - p.nativeVcpus < nr
    · -- every cpu but that one is acceptable
      have hle := hmono (fun c => decide (c ≠ p.vm0Vcpu0)) fun c hc => by
        simp [Natives.accept, hall, hmany, show c ≠ p.vm0Vcpu0 by simpa using hc]
      omega
    · omega

/-- **Placement**: for every placement of the native VMs, every start of the
search and every number of cpus up to all of them, the search ends with that
many different cpus, unless all cpus are asked for and the native VMs have more
than the one of the host VM's first vcpu. -/
theorem vcpu_affinity_right_iff (cur nr : Nat) (hcur : cur < nrCpus)
    (hpos : 1 ≤ nr) (hnr : nr ≤ nrCpus) :
    p.Right cur nr ↔ (nr = nrCpus → p.nativeVcpus ≤ 1) := by
  constructor
  · rintro ⟨fuel, aff, cur', hrun, hlen, hnodup, hlt, -⟩ rfl
    have hacc := affLoop_accept hrun (by simp)
    -- all cpus are in the answer
    have hperm : aff.Perm (List.range nr) :=
      (List.subperm_of_subset hnodup fun c hc =>
        List.mem_range.mpr (hlt c hc)).perm_of_length_le (by simp [hlen])
    have honly : ∀ c ∈ (List.range nr).filter p.vcpuAffBitmap, c = p.vm0Vcpu0 := by
      intro c hc
      obtain ⟨hmem, hbit⟩ := List.mem_filter.mp hc
      have h := hacc c (hperm.mem_iff.mpr hmem)
      simpa [Natives.accept, hbit] using h
    rw [Natives.nativeVcpus, List.countP_eq_length_filter]
    have hsub : ((List.range nr).filter p.vcpuAffBitmap).Subperm [p.vm0Vcpu0] :=
      List.subperm_of_subset (List.nodup_range.filter _) fun c hc =>
        List.mem_singleton.mpr (honly c hc)
    exact hsub.length_le
  · intro h
    have hlap := visited_lap hcur
    have hperm : (visited nrCpus nrCpus cur).Perm (List.range nrCpus) := by
      rw [hlap]
      exact List.rotate_perm _ _
    have henough : nr ≤ ((visited nrCpus nrCpus cur).filter (p.accept nr)).length := by
      rw [← List.countP_eq_length_filter, hperm.countP_eq]
      exact enough_accept p hnr h
    obtain ⟨cur', hrun, hcur'⟩ := affLoop_of_visited hcur (show [].length < nr from hpos)
      (henough.trans_eq (Nat.zero_add _).symm)
    refine ⟨nrCpus, _, cur', hrun, by simp [henough], ?_, fun c hc => ?_, hcur'⟩
    · have hnodup := hperm.nodup_iff.mpr List.nodup_range
      exact (hnodup.filter _).sublist (List.take_sublist _ _)
    · have hmem := List.mem_of_mem_filter (List.mem_of_mem_take (List.nil_append _ ▸ hc))
      exact List.mem_range.mp (hperm.mem_iff.mp hmem)

/-- Eight cpus, with the host VM on cpus 0 and 1 and another native VM on 4. -/
def placed : Natives 8 :=
  ⟨[[0, 1], [4]], [0, 1], by decide, by decide, by decide⟩

/-- Seven cpus of the eight. -/
theorem vcpu_affinity_right_seven : placed.Right placed.affInit 7 :=
  (vcpu_affinity_right_iff placed _ 7 (by decide) (by decide) (by decide)).mpr (by decide)

/-- All eight: cpus 2 and 3 come twice, and 1 and 4 never. -/
theorem vcpu_affinity_twice :
    placed.getVcpuAffinity placed.affInit 8 16
        = some ([2, 3, 5, 6, 7, 0, 2, 3], 4) ∧
      ¬ placed.Right placed.affInit 8 := by
  have hrun : placed.getVcpuAffinity placed.affInit 8 16
      = some ([2, 3, 5, 6, 7, 0, 2, 3], 4) := by decide
  refine ⟨hrun, ?_⟩
  rintro ⟨fuel, aff, cur', h, hlen, hnodup, hlt, -⟩
  have hmem : 1 ∈ aff := by
    have hperm : aff.Perm (List.range 8) :=
      (List.subperm_of_subset hnodup fun c hc =>
        List.mem_range.mpr (hlt c hc)).perm_of_length_le (by simp [hlen])
    exact hperm.mem_iff.mpr (by decide)
  exact absurd (affLoop_accept h (by simp) 1 hmem) (by decide)

end Minos.VcpuAffinity
