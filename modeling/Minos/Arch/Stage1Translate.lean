import Minos.Arch.Stage1
import Minos.Arch.Stage2Translate

/-!
# Translating host addresses in software

`arch_translate_va_to_pa` walks the tables that `arch_host_map` built. It finds the same entries as
the hardware, and for a page it returns the same address; for a 2MB block it computes the address
and returns 0.

The comparison needs to know what the entries are, as it does for guests: `Leaves`, with no block
in the first level. A page mapped into a block goes into the memory behind the block,
so that this is kept by calls whose range has no block in it.
-/

namespace Minos.Stage1

open Minos.Lib Minos.Stage2

/-- `arch_translate_va_to_pa`. -/
def archTranslateVaToPa (s : Tables) (va : Nat) : Nat :=
  let pud := s.pgd (s1PudIndex va)
  let pmd := s.tab (tableAddr pud) (pmdIndex va)
  let phy := tableAddr (s.tab (tableAddr pmd) (pteIndex va))
  if pud = 0 then 0
  else if pmd = 0 then 0
  -- `phy` is set to the address in the block, and then comes `return 0`
  else if huge pmd then 0
  else if phy = 0 then 0
  else phy + va % pageSize

/-- Tables built by `arch_host_map`, whether the calls succeed or not, with no block in the range of
a call. -/
inductive HostBuilt (src : PageSource) : Tables → Prop
  | init (tab : Nat → Nat → Entry) : HostBuilt src ⟨fun _ => 0, tab, 0, []⟩
  | map {s : Tables} {start stop physical : Nat} {flags : Entry} {r : Ret} : HostBuilt src s →
      start ≤ stop → NoBlock s start stop → archHostMap src s start stop physical flags = some r →
      HostBuilt src r.2

variable {src : PageSource} {s : Tables}

/-! ## Entries of the tables of the host -/

/-- Every table built by maps has entries that can be, and no block in the first level. -/
theorem HostBuilt.shaped (h : HostBuilt src s) : HostSound src Leaves s := by
  induction h with
  | init tab => exact ⟨⟨_, wellFormed_init tab, nofun, nofun⟩, fun _ _ hb => hb.1 rfl⟩
  | map _ hle hblock hmap ih =>
    rcases Nat.eq_or_lt_of_le hle with rfl | hlt
    · rw [archHostMap, if_pos rfl] at hmap
      cases hmap
      exact ih
    · obtain ⟨hpiece, hstart, hstop, h⟩ := archHostMap_piece hlt hmap
      exact (mapPudRange_till kept_leaves ih (hblock.pages hstop) hpiece hstart h).1

/-! ## The two walks -/

theorem s1Index_mod (va : Nat) :
    s1PudIndex (va % s1VirtMax) = s1PudIndex va ∧ pmdIndex (va % s1VirtMax) = pmdIndex va ∧
      pteIndex (va % s1VirtMax) = pteIndex va ∧ va % s1VirtMax % pageSize = va % pageSize := by
  simp only [s1PudIndex, pmdIndex, pteIndex, s1VirtMax, pudSize, pmdSize, pageSize, ptrsPerS1Pud,
    ptrsPerPmd, ptrsPerPte]
  omega

/-- What the software returns for a leaf: nothing but pages, and not page 0. -/
def pageAddr (l : Leaf) : Nat := if l.size = pageSize ∧ pageSize ≤ l.pa then l.pa else 0

theorem pageAddr_eq_pa {l : Leaf} (hge : pageSize ≤ l.pa) :
    pageAddr l = l.pa ↔ l.size = pageSize := by
  have hpos : 0 < pageSize := by decide
  rw [pageAddr]
  split
  · rename_i h
    simp [h.1]
  · rename_i h
    simp only [hge, and_true] at h
    simp only [h, iff_false]
    omega

theorem pageAddr_eq_zero {l : Leaf} :
    pageAddr l = 0 ↔ (pageSize ≤ l.pa → l.size ≠ pageSize) := by
  have hpos : 0 < pageSize := by decide
  rw [pageAddr]
  split
  · rename_i h
    simp only [h, true_imp_iff, ne_eq, not_true_eq_false, iff_false]
    omega
  · rename_i h
    exact iff_of_true rfl fun hge hsize => h ⟨hsize, hge⟩

/-- **The software walk**: what the walk of the low 39 bits finds, without the blocks. -/
theorem archTranslateVaToPa_eq (hs : HostSound src Leaves s) (va : Nat) :
    archTranslateVaToPa s va = ((walk s (va % s1VirtMax)).map pageAddr).getD 0 := by
  obtain ⟨⟨role, hwf, hl⟩, hpgd⟩ := hs
  obtain ⟨h1, h2, h3, h4⟩ := s1Index_mod va
  have hi := s1PudIndex_lt va
  have hi' := pudEntry_lt hi
  have hlt : va % s1VirtMax < s1VirtMax := Nat.mod_lt _ (by decide)
  rw [archTranslateVaToPa, walk, if_pos hlt, h1]
  by_cases hpud : s.pgd (s1PudIndex va) = 0
  · rw [if_pos hpud, hpud, if_neg zero_ne_block, if_neg zero_ne_table]
    rfl
  have hat : PmdAt s (s1PudIndex va) (tableAddr (s.pgd (s1PudIndex va))) :=
    ⟨((hwf.pud _ hi').table hpud (hpgd _ hi)).1, rfl⟩
  rw [if_neg hpud, if_neg fun h => hpgd _ hi (huge_iff.mpr h), if_pos hat.1, pmdWalk, h2]
  generalize tableAddr (s.pgd (s1PudIndex va)) = a at hat
  by_cases hpmd : s.tab a (pmdIndex va) = 0
  · rw [if_pos hpmd, hpmd, if_neg zero_ne_block, if_neg zero_ne_table]
    rfl
  rw [if_neg hpmd]
  by_cases hblock : huge (s.tab a (pmdIndex va))
  · rw [if_pos hblock, if_pos hblock.2]
    exact (pageAddr_eq_zero.mpr fun _ => by simp only [leafAt]; decide).symm
  have htable : s.tab a (pmdIndex va) &&& 3 = desTable :=
    ((hwf.pmd _ a hi' hat _ (pmdIndex_lt va)).table hpmd hblock).1
  have hpte := hl.pte _ _ _
    (hwf.role_pte hi' (pmdIndex_lt va) ⟨a, hat, htable, rfl⟩) (pteIndex va)
  rw [if_neg hblock, if_neg fun h => hblock (huge_iff.mpr h), if_pos htable, pteWalk, h3]
  generalize s.tab (tableAddr (s.tab a (pmdIndex va))) (pteIndex va) = e at hpte
  rcases hpte with rfl | hpage
  · rw [if_neg zero_ne_page, if_pos (show tableAddr 0 = 0 by decide)]
    rfl
  · have haddr := tableAddr_page e
    rw [if_pos hpage]
    simp only [leafAt, pageAddr, Option.map_some, Option.getD_some, true_and, h4,
      Nat.div_mul_cancel (Nat.dvd_of_mod_eq_zero haddr)]
    by_cases h0 : tableAddr e = 0
    · rw [if_pos h0, if_neg]
      simp only [pageSize] at *
      omega
    · rw [if_neg h0, if_pos]
      simp only [pageSize] at *
      omega

/-- **Where the software walk is right**: not for a 2MB block, and not above 39 bits, where it
looks up the low bits. `va` is what the hardware makes of an address. -/
theorem arch_translate_va_to_pa_iff (hb : HostBuilt src s) (tagging : Bool) (a : Nat) :
    ((∀ l, walk s (va tagging a) = some l → pageSize ≤ l.pa → archTranslateVaToPa s a = l.pa) ∧
      (walk s (va tagging a) = none → archTranslateVaToPa s a = 0)) ↔
    ∀ l, walk s (a % s1VirtMax) = some l → pageSize ≤ l.pa →
      if va tagging a < s1VirtMax then l.size = pageSize else l.size ≠ pageSize := by
  rw [archTranslateVaToPa_eq hb.shaped]
  by_cases hlt : va tagging a < s1VirtMax
  · have heq : va tagging a = a % s1VirtMax := by
      cases tagging with
      | true => rfl
      | false => exact (Nat.mod_eq_of_lt hlt).symm
    simp only [if_pos hlt]
    rw [heq]
    cases walk s (a % s1VirtMax) with
    | none => simp
    | some l =>
      simp only [Option.some.injEq, forall_eq', Option.map_some, Option.getD_some, reduceCtorEq,
        false_imp_iff, and_true]
      exact forall_congr' fun hge => pageAddr_eq_pa hge
  · rw [walk_of_ge hlt]
    simp only [if_neg hlt, reduceCtorEq, false_imp_iff, implies_true, true_and, true_imp_iff]
    cases walk s (a % s1VirtMax) with
    | none => simp
    | some l =>
      simp only [Option.some.injEq, forall_eq', Option.map_some, Option.getD_some]
      exact pageAddr_eq_zero

/-- An address in a page after a 2MB block. -/
theorem arch_translate_va_to_pa_page :
    ∃ s', archHostMap pagePool noTables 0x40000000 0x40201000 0x80000000 vmHuge2M =
        some (none, s') ∧
      (∀ l, walk s' (va false 0x40200234) = some l → pageSize ≤ l.pa →
        archTranslateVaToPa s' 0x40200234 = l.pa) ∧
      (walk s' (va false 0x40200234) = none → archTranslateVaToPa s' 0x40200234 = 0) := by
  refine exists_found (P := fun s' => (walk s' 0x40200234).map Leaf.size = some pageSize)
    (fun s' hmap hsize => ?_) (by decide +kernel)
  have hbuilt : HostBuilt pagePool s' := .map (.init _) (by decide) (noBlock_noTables _ _) hmap
  refine (arch_translate_va_to_pa_iff hbuilt false 0x40200234).mpr ?_
  intro l hl _
  rw [Nat.mod_eq_of_lt (by decide)] at hl
  rw [hl] at hsize
  rw [if_pos (by decide)]
  exact Option.some.inj hsize

/-- An address in a 2MB block is answered with 0. -/
theorem arch_translate_va_to_pa_block :
    ∃ s', archHostMap pagePool noTables 0x40000000 0x40200000 0x80000000 vmHuge2M =
        some (none, s') ∧
      (walk s' 0x40001234).map Leaf.pa = some 0x80001234 ∧
      archTranslateVaToPa s' 0x40001234 = 0 := by
  decide +kernel

end Minos.Stage1
