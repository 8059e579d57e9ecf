import Minos.Arch.Stage2Map

/-!
# Translating guest addresses in software

`arch_translate_guest_ipa` walks the tables that `arch_guest_map` built, and the result is compared
with the walk of the hardware. The two read the same entries. They differ in three ways: a
first-level entry is followed like a table even if it is a 1GB block, an output page 0 is taken
for no page, and neither the input nor the output is checked against 40 bits.

To compare them one has to know what the entries of a table can be, at each level: blocks are
aligned to their size, and the last level has pages only. `Leaves` says so, next to the roles of
the pages.
-/

namespace Minos.Stage2

open Minos.Lib

variable {src : PageSource} {s : Tables} {role : Nat → Role} {i j a p : Nat} {e : Entry}

/-- `arch_translate_guest_ipa`. `none` is a walk that goes on in the memory of a 1GB block, which
holds no table; `some none` is `-EFAULT`. -/
def archTranslateGuestIpa (s : Tables) (va : Nat) : Option (Option Nat) :=
  if huge (s.pgd (pudIndex va)) then none else some (stage2IpaToPa s va)

/-! ## Entries of built tables -/

/-- What the entries can be, next to the roles of the pages that hold them. -/
structure Leaves (s : Tables) (role : Nat → Role) : Prop where
  pmd : ∀ a i, role a = .pmd i → ∀ j, huge (s.tab a j) → tableAddr (s.tab a j) % pmdSize = 0
  pte : ∀ p i j, role p = .pte i j → ∀ k, s.tab p k = 0 ∨ s.tab p k &&& 3 = desPage

namespace Leaves

theorem take (h : Leaves s role) (p : Nat) (r : Role) :
    Leaves (s.newTable p) (Function.update role p r) := by
  constructor
  · intro a i ha j hb
    by_cases hap : a = p
    · subst hap
      rw [newTable_self] at hb
      exact absurd rfl hb.1
    · rw [newTable_of_ne hap] at hb ⊢
      rw [Function.update_of_ne hap] at ha
      exact h.pmd a i ha j hb
  · intro q i j hq k
    by_cases hqp : q = p
    · subst hqp
      exact .inl newTable_self
    · rw [newTable_of_ne hqp]
      rw [Function.update_of_ne hqp] at hq
      exact h.pte q i j hq k

theorem setPte (h : Leaves s role) (hp : role p = .pte i j) (he : e = 0 ∨ e &&& 3 = desPage)
    (k : Nat) : Leaves (s.setTab p k e) role := by
  constructor
  · intro a i' ha j' hb
    have hne : a ≠ p := by
      rintro rfl
      cases ha.symm.trans hp
    rw [setTab_of_ne (.inl hne)] at hb ⊢
    exact h.pmd a i' ha j' hb
  · intro q i' j' hq n
    by_cases hat : q = p ∧ n = k
    · obtain ⟨rfl, rfl⟩ := hat
      rw [setTab_self]
      exact he
    · rw [setTab_of_ne (not_and_or.mp hat)]
      exact h.pte q i' j' hq n

theorem setPmd (h : Leaves s role) (ha : role a = .pmd i)
    (he : huge e → tableAddr e % pmdSize = 0) (j : Nat) : Leaves (s.setTab a j e) role := by
  constructor
  · intro b i' hb n hn
    by_cases hat : b = a ∧ n = j
    · obtain ⟨rfl, rfl⟩ := hat
      rw [setTab_self] at hn ⊢
      exact he hn
    · rw [setTab_of_ne (not_and_or.mp hat)] at hn ⊢
      exact h.pmd b i' hb n hn
  · intro q i' j' hq n
    have hne : q ≠ a := by
      rintro rfl
      cases hq.symm.trans ha
    rw [setTab_of_ne (.inl hne)]
    exact h.pte q i' j' hq n

end Leaves

theorem kept_leaves : Kept Leaves where
  tab h heq := by
    constructor
    · rw [heq]
      exact h.pmd
    · rw [heq]
      exact h.pte
  take h := h.take
  setPte h := h.setPte
  setPmd h := h.setPmd

theorem Built.shaped (h : Built src s) : Sound src Leaves s :=
  h.sound kept_leaves fun _ => ⟨nofun, nofun⟩

/-! ## The two walks -/

/-- A page descriptor that leads to the physical page 0. -/
def Leaf.ZeroPage (l : Leaf) : Prop := l.size = pageSize ∧ l.pa < pageSize

instance (l : Leaf) : Decidable l.ZeroPage := inferInstanceAs (Decidable (_ ∧ _))

theorem tableAddr_page (e : Entry) : tableAddr e % pageSize = 0 := by
  have hmask : physicalMask.toNat % 2 ^ 12 = 0 := by decide
  rw [tableAddr, BitVec.toNat_and, pageSize, Nat.and_mod_two_pow, hmask, Nat.and_zero]

theorem index_mod (ipa : Nat) :
    pudIndex (ipa % vmmVirtMax) = pudIndex ipa ∧ pmdIndex (ipa % vmmVirtMax) = pmdIndex ipa ∧
      pteIndex (ipa % vmmVirtMax) = pteIndex ipa ∧ ipa % vmmVirtMax % pmdSize = ipa % pmdSize ∧
      ipa % vmmVirtMax % pageSize = ipa % pageSize := by
  simp only [pudIndex, pmdIndex, pteIndex, vmmVirtMax, pudSize, pmdSize, pageSize, ptrsPerPud,
    ptrsPerPmd, ptrsPerPte]
  omega

/-- **The software walk**: the walk of the low 40 bits, without the physical page 0. -/
theorem stage2IpaToPa_eq (hs : Sound src Leaves s) {ipa : Nat}
    (hb : ¬ huge (s.pgd (pudIndex ipa))) :
    stage2IpaToPa s ipa = (walk s (ipa % vmmVirtMax)).bind fun l =>
      if l.ZeroPage then none else some l.pa := by
  obtain ⟨role, hwf, hl⟩ := hs
  obtain ⟨h1, h2, h3, h4, h5⟩ := index_mod ipa
  have hlt : ipa % vmmVirtMax < vmmVirtMax := Nat.mod_lt _ (by decide)
  rw [stage2IpaToPa]
  by_cases hpud : s.pgd (pudIndex ipa) = 0
  · rw [if_pos hpud, walk_of_pud_zero (h1.symm ▸ hpud)]
    rfl
  have hat : PmdAt s (pudIndex ipa) (tableAddr (s.pgd (pudIndex ipa))) :=
    ⟨((hwf.pud _ (pudIndex_lt ipa)).table hpud hb).1, rfl⟩
  have hrole := hwf.role_pmd (pudIndex_lt ipa) hat
  rw [if_neg hpud, walk_of_pmdAt hlt (h1.symm ▸ hat), pmdWalk, h2, h1]
  generalize tableAddr (s.pgd (pudIndex ipa)) = a at hat hrole
  by_cases hpmd : s.tab a (pmdIndex ipa) = 0
  · rw [if_pos hpmd, hpmd, if_neg zero_ne_block, if_neg zero_ne_table]
    rfl
  rw [if_neg hpmd]
  by_cases hblock : huge (s.tab a (pmdIndex ipa))
  · have hsize : ¬ (leafAt (s.tab a (pmdIndex ipa)) pmdSize (ipa % vmmVirtMax)).ZeroPage :=
      fun hz => absurd hz.1 (by simp only [leafAt]; decide)
    have haddr : tableAddr (s.tab a (pmdIndex ipa)) / pmdSize * pmdSize =
        tableAddr (s.tab a (pmdIndex ipa)) :=
      Nat.div_mul_cancel (Nat.dvd_of_mod_eq_zero (hl.pmd a _ hrole _ hblock))
    rw [if_pos hblock, if_pos hblock.2, Option.bind_some, if_neg hsize, leafAt, haddr, h4]
  have htable : s.tab a (pmdIndex ipa) &&& 3 = desTable :=
    ((hwf.pmd _ a (pudIndex_lt ipa) hat _ (pmdIndex_lt ipa)).table hpmd hblock).1
  have hpte := hl.pte _ _ _
    (hwf.role_pte (pudIndex_lt ipa) (pmdIndex_lt ipa) ⟨a, hat, htable, rfl⟩) (pteIndex ipa)
  rw [if_neg hblock, if_neg fun h => hblock (huge_iff.mpr h), if_pos htable, pteWalk, h3]
  generalize s.tab (tableAddr (s.tab a (pmdIndex ipa))) (pteIndex ipa) = e at hpte
  rcases hpte with rfl | hpage
  · rw [if_neg zero_ne_page, if_pos (show tableAddr 0 = 0 by decide)]
    rfl
  · have haddr : tableAddr e / pageSize * pageSize = tableAddr e :=
      Nat.div_mul_cancel (Nat.dvd_of_mod_eq_zero (tableAddr_page e))
    have hzero : (leafAt e pageSize (ipa % vmmVirtMax)).ZeroPage ↔ tableAddr e = 0 := by
      have hmod := tableAddr_page e
      simp only [Leaf.ZeroPage, leafAt, haddr, h5, true_and]
      simp only [pageSize] at *
      omega
    have hpa : (leafAt e pageSize (ipa % vmmVirtMax)).pa = tableAddr e + ipa % pageSize := by
      simp only [leafAt, haddr, h5]
    rw [if_pos hpage, Option.bind_some, hpa]
    exact if_congr hzero.symm rfl rfl

/-- **`arch_translate_guest_ipa`.** It agrees with the walk of the hardware for an address exactly
if the address is not in a 1GB block and the walk of its low 40 bits, where it finds something,
finds an output of 40 bits that is not the page 0; an address of more than 40 bits has to find
nothing, or the page 0. -/
theorem arch_translate_guest_ipa_iff (hb : Built src s) (ipa : Nat) :
    archTranslateGuestIpa s ipa = some ((translate s ipa).map Leaf.pa) ↔
      ¬ huge (s.pgd (pudIndex ipa)) ∧ ∀ l, walk s (ipa % vmmVirtMax) = some l →
        if ipa < vmmVirtMax then l.pa < physicalMax ∧ ¬ l.ZeroPage else l.ZeroPage := by
  rw [archTranslateGuestIpa]
  by_cases hhuge : huge (s.pgd (pudIndex ipa))
  · rw [if_pos hhuge]
    exact iff_of_false nofun fun h => h.1 hhuge
  rw [if_neg hhuge, and_iff_right hhuge, Option.some.injEq, stage2IpaToPa_eq hb.shaped hhuge]
  by_cases hlt : ipa < vmmVirtMax
  · simp only [if_pos hlt, Nat.mod_eq_of_lt hlt, translate]
    cases walk s ipa with
    | none => simp
    | some l =>
      have hzero : l.ZeroPage → l.pa < physicalMax := fun hz =>
        Nat.lt_trans hz.2 (by decide)
      by_cases hz : l.ZeroPage <;> by_cases hpa : l.pa < physicalMax <;> simp_all
  · have hnone : translate s ipa = none := by rw [translate, walk_of_ge hlt]; rfl
    simp only [if_neg hlt, hnone, Option.map_none]
    cases walk s (ipa % vmmVirtMax) with
    | none => simp
    | some l => by_cases hz : l.ZeroPage <;> simp [hz]

/-- An address in the 2MB block of a mapping that has pages around it. -/
theorem arch_translate_guest_ipa_block :
    ∃ s', archGuestMap pagePool noTables 0x1ff000 0x401000 0x801ff000 guestRam = some (none, s') ∧
      archTranslateGuestIpa s' 0x234567 = some ((translate s' 0x234567).map Leaf.pa) := by
  refine exists_found (P := fun s' => ¬ huge (s'.pgd 0) ∧ (walk s' 0x234567).map
      (fun l => (l.pa, l.size)) = some (0x80234567, pmdSize)) (fun s' hmap ⟨hhuge, hwalk⟩ => ?_)
    (by decide +kernel)
  refine (arch_translate_guest_ipa_iff (.map (.init _) hmap) 0x234567).mpr
    ⟨hhuge, fun l hl => ?_⟩
  rw [Nat.mod_eq_of_lt (by decide)] at hl
  rw [hl, Option.map_some, Option.some.injEq, Prod.mk.injEq] at hwalk
  rw [if_pos (by decide), hwalk.1, Leaf.ZeroPage, hwalk.2]
  exact ⟨by decide, fun hz => absurd hz.1 (by decide)⟩

/-- A 1GB block is followed into its own memory, and a page that leads to the physical page 0 is
not found. -/
theorem arch_translate_guest_ipa_differs :
    (∃ s', archGuestMap pagePool noTables 0 0x40000000 0x80000000 (guestRam ||| vmHuge1G) =
        some (none, s') ∧
      archTranslateGuestIpa s' 0x1000 = none ∧
      (translate s' 0x1000).map Leaf.pa = some 0x80001000) ∧
    ∃ s', archGuestMap pagePool noTables 0x1000 0x2000 0 guestRam = some (none, s') ∧
      archTranslateGuestIpa s' 0x1000 = some none ∧ (translate s' 0x1000).map Leaf.pa = some 0 := by
  constructor <;> decide +kernel

end Minos.Stage2
