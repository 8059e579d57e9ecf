import Minos.Arch.Stage2
import Mathlib.Data.Option.Basic

/-!
# Walking stage-2 tables

`walk` is what the hardware does with the tables, and `translate` what it
does under the `VTCR_EL2` of `generate_vtcr_el2`: a 40-bit input, and an
address size fault for an output of more than 40 bits. Then the shape of
tables that the walk may rely on, and what a write to one entry changes.

Every page that holds a table has one role: the table of entry `i` of the
first level, or that of entry `j` below it. A role is a function of the page,
so no page is reached along two paths, and a write to a page with a known
role changes the walk of the addresses below that path only.
-/

namespace Minos.Stage2

open Minos.Lib

/-! ## Bits of a descriptor -/

variable {m x : Entry}

theorem clear_or {y : Entry} (hx : x &&& m = 0) (hy : y &&& m = 0) :
    (x ||| y) &&& m = 0 := by
  rw [BitVec.and_or_distrib_right, hx, hy]
  rfl

variable {a : Nat}

/-- A page address fits the address field. -/
theorem ofNat_and_physicalMask (ha : a % pageSize = 0) (hlt : a < 2 ^ 48) :
    BitVec.ofNat 64 a &&& physicalMask = BitVec.ofNat 64 a := by
  have hmask : ∀ i : Fin 64, physicalMask.getLsbD i.1 = decide (12 ≤ i.1 ∧ i.1 < 48) := by decide
  apply BitVec.eq_of_getLsbD_eq
  intro i hi
  rw [BitVec.getLsbD_and, BitVec.getLsbD_ofNat, hmask ⟨i, hi⟩]
  obtain ⟨q, rfl⟩ := Nat.dvd_of_mod_eq_zero ha
  by_cases hlow : 12 ≤ i
  · by_cases hhigh : i < 48
    · simp [hlow, hhigh]
    · have hbit : (pageSize * q).testBit i = false :=
        Nat.testBit_lt_two_pow
          (Nat.lt_of_lt_of_le hlt (Nat.pow_le_pow_right (by decide) (by omega)))
      simp [hbit]
  · have hbit : (pageSize * q).testBit i = false := by
      rw [pageSize, Nat.testBit_two_pow_mul, decide_eq_false hlow, Bool.false_and]
    simp [hbit]

theorem ofNat_and_other (ha : a % pageSize = 0) (hlt : a < 2 ^ 48)
    (hm : physicalMask &&& m = 0) : BitVec.ofNat 64 a &&& m = 0 := by
  rw [← ofNat_and_physicalMask ha hlt, BitVec.and_assoc, hm]
  exact BitVec.and_zero

theorem desc_spec (hx : x &&& physicalMask = 0) (ha : a % pageSize = 0)
    (hlt : a < 2 ^ 48) :
    (x ||| BitVec.ofNat 64 a) &&& 3 = x &&& 3 ∧ tableAddr (x ||| BitVec.ofNat 64 a) = a ∧
      (x ||| BitVec.ofNat 64 a) &&& attrMask = x &&& attrMask := by
  refine ⟨?_, ?_, ?_⟩
  · rw [BitVec.and_or_distrib_right, ofNat_and_other ha hlt (by decide)]
    exact BitVec.or_zero
  · have hor : (0 : Entry) ||| BitVec.ofNat 64 a = BitVec.ofNat 64 a := BitVec.zero_or
    rw [tableAddr, BitVec.and_or_distrib_right, hx, ofNat_and_physicalMask ha hlt, hor,
      BitVec.toNat_ofNat, Nat.mod_eq_of_lt (by omega)]
  · rw [BitVec.and_or_distrib_right, ofNat_and_other ha hlt (by decide)]
    exact BitVec.or_zero

theorem tableDesc_spec (ha : a % pageSize = 0) (hlt : a < 2 ^ 48) :
    (BitVec.ofNat 64 a ||| desTable) &&& 3 = desTable ∧
      tableAddr (BitVec.ofNat 64 a ||| desTable) = a := by
  rw [BitVec.or_comm]
  obtain ⟨htype, haddr, -⟩ := desc_spec (x := desTable) (by decide) ha hlt
  exact ⟨htype.trans (by decide), haddr⟩

theorem clear_ite {b : Entry} (c : Prop) [Decidable c] (hx : x &&& m = 0) (hb : b &&& m = 0) :
    (if c then x else x ||| b) &&& m = 0 := by
  split
  · exact hx
  · exact clear_or hx hb

/-- The rights of a mapping are neither address nor type. -/
theorem rightsAttr_clear (flags : Entry) : rightsAttr flags &&& (physicalMask ||| 3) = 0 := by
  simp only [rightsAttr]
  have hap : (if flags &&& vmRwMask = vmRead then apRo
      else if flags &&& vmRwMask = vmRead ||| vmWrite then apRw
      else if flags &&& vmRwMask = vmWrite then apWo
      else apNon) &&& (physicalMask ||| 3) = 0 := by
    split_ifs <;> decide
  refine clear_ite _ (clear_ite _ (clear_ite _ ?_ (by decide)) (by decide)) (by decide)
  split
  · exact clear_or hap (by decide)
  · exact hap

theorem and_of_clear {n : Entry} (h : x &&& m = 0) (hn : m &&& n = n) : x &&& n = 0 := by
  rw [← hn, ← BitVec.and_assoc, h]
  exact BitVec.zero_and

theorem attr_or_spec {r ty : Entry} (hx : x &&& physicalMask = 0 ∧ x &&& 3 = ty)
    (hr : r &&& (physicalMask ||| 3) = 0) :
    (x ||| r) &&& physicalMask = 0 ∧ (x ||| r) &&& 3 = ty := by
  have hr1 := and_of_clear hr (show _ &&& physicalMask = physicalMask by decide)
  have hr2 := and_of_clear hr (show _ &&& (3 : Entry) = 3 by decide)
  refine ⟨clear_or hx.1 hr1, ?_⟩
  rw [BitVec.and_or_distrib_right, hx.2, hr2]
  exact BitVec.or_zero

/-- Attributes leave the address alone, and give the type of their kind. -/
theorem leafAttr_spec {nc device wt normal ty : Entry}
    (h : ∀ x ∈ [nc, device, wt, normal], x &&& physicalMask = 0 ∧ x &&& 3 = ty) (flags : Entry) :
    leafAttr nc device wt normal flags &&& physicalMask = 0 ∧
      leafAttr nc device wt normal flags &&& 3 = ty := by
  rw [leafAttr]
  refine attr_or_spec ?_ (rightsAttr_clear flags)
  split
  · exact h nc (by simp)
  split
  · exact h device (by simp)
  split
  · exact h wt (by simp)
  · exact h normal (by simp)

theorem stage2PageAttr_spec (flags : Entry) :
    stage2PageAttr flags &&& physicalMask = 0 ∧ stage2PageAttr flags &&& 3 = desPage :=
  leafAttr_spec
    (by
      simp only [List.forall_mem_cons, List.not_mem_nil, false_imp_iff, implies_true]
      decide)
    flags

theorem stage2BlockAttr_spec (flags : Entry) :
    stage2BlockAttr flags &&& physicalMask = 0 ∧ stage2BlockAttr flags &&& 3 = desBlock :=
  leafAttr_spec
    (by
      simp only [List.forall_mem_cons, List.not_mem_nil, false_imp_iff, implies_true]
      decide)
    flags

/-! ## The walk -/

/-- Where an address leads: the output address, the attributes of the
descriptor and how much it maps. -/
structure Leaf where
  pa : Nat
  attr : Entry
  size : Nat
  deriving DecidableEq, Repr

def leafAt (e : Entry) (size ipa : Nat) : Leaf :=
  ⟨tableAddr e / size * size + ipa % size, e &&& attrMask, size⟩

/-- Level 3: only pages. -/
def pteWalk (t : Nat → Entry) (ipa : Nat) : Option Leaf :=
  if t (pteIndex ipa) &&& 3 = desPage then some (leafAt (t (pteIndex ipa)) pageSize ipa)
  else none

/-- Level 2: 2MB blocks and tables. -/
def pmdWalk (s : Tables) (t : Nat → Entry) (ipa : Nat) : Option Leaf :=
  if t (pmdIndex ipa) &&& 3 = desBlock then some (leafAt (t (pmdIndex ipa)) pmdSize ipa)
  else if t (pmdIndex ipa) &&& 3 = desTable then
    pteWalk (s.tab (tableAddr (t (pmdIndex ipa)))) ipa
  else none

/-- Level 1: 1GB blocks and tables. -/
def pudWalk (s : Tables) (ipa : Nat) : Option Leaf :=
  if s.pgd (pudIndex ipa) &&& 3 = desBlock then some (leafAt (s.pgd (pudIndex ipa)) pudSize ipa)
  else if s.pgd (pudIndex ipa) &&& 3 = desTable then
    pmdWalk s (s.tab (tableAddr (s.pgd (pudIndex ipa)))) ipa
  else none

/-- The walk of an input address of 40 bits. -/
def walk (s : Tables) (ipa : Nat) : Option Leaf :=
  if ipa < vmmVirtMax then pudWalk s ipa else none

/-- The walk, with the address size fault for outputs of more than 40 bits. -/
def translate (s : Tables) (ipa : Nat) : Option Leaf :=
  (walk s ipa).filter fun l => l.pa < physicalMax

/-! ## Well-formed tables -/

/-- What a page of host memory is used for. -/
inductive Role
  | free
  | pmd (i : Nat)
  | pte (i j : Nat)
  deriving DecidableEq, Repr

/-- Empty, a block, or a table in the role `r`. -/
def EntryOk (role : Nat → Role) (r : Role) (e : Entry) : Prop :=
  e = 0 ∨ e &&& 3 = desBlock ∨ (e &&& 3 = desTable ∧ role (tableAddr e) = r)

/-- Entry `i` of the first level is the table `a`. -/
def PmdAt (s : Tables) (i a : Nat) : Prop :=
  s.pgd i &&& 3 = desTable ∧ tableAddr (s.pgd i) = a

/-- Below it, entry `j` is the table `p`. -/
def PteAt (s : Tables) (i j p : Nat) : Prop :=
  ∃ a, PmdAt s i a ∧ s.tab a j &&& 3 = desTable ∧ tableAddr (s.tab a j) = p

structure WellFormed (src : PageSource) (s : Tables) (role : Nat → Role) : Prop where
  pud : ∀ i, i < ptrsPerPud → EntryOk role (.pmd i) (s.pgd i)
  pmd : ∀ i a, i < ptrsPerPud → PmdAt s i a → ∀ j, j < ptrsPerPmd →
    EntryOk role (.pte i j) (s.tab a j)
  fresh : ∀ k a, s.got ≤ k → src.get k = some a → role a = .free

/-- Tables that some assignment of roles makes well formed. -/
def TablesOk (src : PageSource) (s : Tables) : Prop := ∃ role, WellFormed src s role

variable {r : Role}
variable {n : Nat}

section Shape

variable {src : PageSource} {s s' : Tables} {role : Nat → Role} {i j k a p ipa : Nat} {e : Entry}

theorem pudIndex_lt (a : Nat) : pudIndex a < ptrsPerPud := Nat.mod_lt _ (by decide)

theorem pmdIndex_lt (a : Nat) : pmdIndex a < ptrsPerPmd := Nat.mod_lt _ (by decide)

theorem pteIndex_lt (a : Nat) : pteIndex a < ptrsPerPte := Nat.mod_lt _ (by decide)

theorem zero_ne_table : ¬ ((0 : Entry) &&& 3 = desTable) := by decide

theorem zero_ne_page : ¬ ((0 : Entry) &&& 3 = desPage) := by decide

theorem zero_ne_block : ¬ ((0 : Entry) &&& 3 = desBlock) := by decide

theorem block_ne_table {e : Entry} (h : e &&& 3 = desBlock) : ¬ (e &&& 3 = desTable) := by
  rw [h]
  decide

theorem huge_iff {e : Entry} : huge e ↔ e &&& 3 = desBlock := by
  refine ⟨And.right, fun h => ⟨?_, h⟩⟩
  rintro rfl
  exact zero_ne_block h

theorem EntryOk.table (h : EntryOk role r e) (h0 : e ≠ 0) (hb : ¬ huge e) :
    e &&& 3 = desTable ∧ role (tableAddr e) = r := by
  rcases h with h | h | h
  · exact absurd h h0
  · exact absurd (huge_iff.mpr h) hb
  · exact h

theorem EntryOk.role_of_table (h : EntryOk role r e) (ht : e &&& 3 = desTable) :
    role (tableAddr e) = r := by
  rcases h with h | h | h
  · rw [h] at ht
    exact absurd ht zero_ne_table
  · exact absurd ht (block_ne_table h)
  · exact h.2

theorem WellFormed.role_pmd (h : WellFormed src s role) (hi : i < ptrsPerPud)
    (ha : PmdAt s i a) : role a = .pmd i := by
  rw [← ha.2]
  exact (h.pud i hi).role_of_table ha.1

theorem WellFormed.role_pte (h : WellFormed src s role) (hi : i < ptrsPerPud)
    (hj : j < ptrsPerPmd) (hp : PteAt s i j p) : role p = .pte i j := by
  obtain ⟨a, ha, htable, rfl⟩ := hp
  exact (h.pmd i a hi ha j hj).role_of_table htable

/-! ## What a walk reads -/

/-- The walk reads one entry at each level. -/
theorem walk_congr (hpgd : s'.pgd (pudIndex ipa) = s.pgd (pudIndex ipa))
    (hpmd : ∀ a, PmdAt s (pudIndex ipa) a → s'.tab a (pmdIndex ipa) = s.tab a (pmdIndex ipa))
    (hpte : ∀ p, PteAt s (pudIndex ipa) (pmdIndex ipa) p →
      s'.tab p (pteIndex ipa) = s.tab p (pteIndex ipa)) : walk s' ipa = walk s ipa := by
  have hlevel1 : pudWalk s' ipa = pudWalk s ipa := by
    rw [pudWalk, pudWalk, hpgd]
    split
    · rfl
    split
    · rename_i htable
      have hat : PmdAt s (pudIndex ipa) (tableAddr (s.pgd (pudIndex ipa))) := ⟨htable, rfl⟩
      rw [pmdWalk, pmdWalk, hpmd _ hat]
      split
      · rfl
      split
      · rename_i htable'
        rw [pteWalk, pteWalk, hpte _ ⟨_, hat, htable', rfl⟩]
      · rfl
    · rfl
  rw [walk, walk, hlevel1]

theorem walk_of_ge (h : ¬ ipa < vmmVirtMax) : walk s ipa = none := if_neg h

theorem walk_of_pmdAt (hlt : ipa < vmmVirtMax) (ha : PmdAt s (pudIndex ipa) a) :
    walk s ipa = pmdWalk s (s.tab a) ipa := by
  rw [walk, if_pos hlt, pudWalk, if_neg fun hb => block_ne_table hb ha.1, if_pos ha.1, ha.2]

theorem walk_of_pteAt (hlt : ipa < vmmVirtMax) (hp : PteAt s (pudIndex ipa) (pmdIndex ipa) p) :
    walk s ipa = pteWalk (s.tab p) ipa := by
  obtain ⟨a, ha, htable, rfl⟩ := hp
  rw [walk_of_pmdAt hlt ha, pmdWalk, if_neg fun hb => block_ne_table hb htable, if_pos htable]

theorem walk_of_pud_zero (h0 : s.pgd (pudIndex ipa) = 0) : walk s ipa = none := by
  rw [walk]
  split
  · rw [pudWalk, h0, if_neg zero_ne_block, if_neg zero_ne_table]
  · rfl

theorem walk_of_pmd_zero (ha : PmdAt s (pudIndex ipa) a) (h0 : s.tab a (pmdIndex ipa) = 0) :
    walk s ipa = none := by
  by_cases hlt : ipa < vmmVirtMax
  · rw [walk_of_pmdAt hlt ha, pmdWalk, h0, if_neg zero_ne_block, if_neg zero_ne_table]
  · exact walk_of_ge hlt

theorem newTable_self : (s.newTable p).tab p k = 0 := by
  simp only [Tables.newTable, Function.update_self]

theorem newTable_of_ne {q : Nat} (h : q ≠ p) : (s.newTable p).tab q = s.tab q :=
  Function.update_of_ne h ..

theorem setTab_self : (s.setTab p k e).tab p k = e := by
  simp only [Tables.setTab, Function.update_self]

theorem setTab_of_ne {q : Nat} (h : q ≠ p ∨ n ≠ k) :
    (s.setTab p k e).tab q n = s.tab q n := by
  simp only [Tables.setTab]
  by_cases hq : q = p
  · subst hq
    rw [Function.update_self, Function.update_of_ne (h.resolve_left fun hne => hne rfl)]
  · rw [Function.update_of_ne hq]

theorem setPgd_self : (s.setPgd i e).pgd i = e := Function.update_self ..

theorem setPgd_of_ne (h : n ≠ i) : (s.setPgd i e).pgd n = s.pgd n :=
  Function.update_of_ne h ..

/-! ## Writes that keep tables well formed -/

theorem EntryOk.zero (role : Nat → Role) (r : Role) : EntryOk role r 0 := Or.inl rfl

theorem EntryOk.update {q : Role} (h : EntryOk role r e) (hr : r ≠ .free)
    (hp : role p = .free) : EntryOk (Function.update role p q) r e := by
  rcases h with h | h | ⟨htable, hrole⟩
  · exact Or.inl h
  · exact Or.inr (Or.inl h)
  · have hne : tableAddr e ≠ p := by
      rintro rfl
      exact hr (hrole.symm.trans hp)
    exact Or.inr (Or.inr ⟨htable, (Function.update_of_ne hne ..).trans hrole⟩)

theorem WellFormed.pmd_ne_free (h : WellFormed src s role) (hi : i < ptrsPerPud)
    (ha : PmdAt s i a) (hp : role p = .free) : a ≠ p := by
  rintro rfl
  have hrole := h.role_pmd hi ha
  rw [hp] at hrole
  cases hrole

theorem WellFormed.pmd_ne_pte (h : WellFormed src s role) (hn : n < ptrsPerPud)
    (ha : PmdAt s n a) (hp : role p = .pte i j) : a ≠ p := by
  rintro rfl
  have hrole := h.role_pmd hn ha
  rw [hp] at hrole
  cases hrole

/-- A page of `get_free_page`, cleared, before any entry leads to it. -/
theorem WellFormed.take (h : WellFormed src s role) (hget : src.get s.got = some p) (r : Role) :
    WellFormed src (s.newTable p) (Function.update role p r) where
  pud i hi := (h.pud i hi).update (by simp) (h.fresh _ _ (Nat.le_refl _) hget)
  pmd i a hi ha j hj := by
    have hfree := h.fresh _ _ (Nat.le_refl _) hget
    have hne : a ≠ p := h.pmd_ne_free hi ha hfree
    rw [newTable_of_ne hne]
    exact (h.pmd i a hi ha j hj).update (by simp) hfree
  fresh k b hk hb := by
    have hlt : s.got + 1 ≤ k := hk
    have hne : b ≠ p := by
      rintro rfl
      have := src.inj _ _ _ hget hb
      omega
    exact (Function.update_of_ne hne ..).trans (h.fresh k b (by omega) hb)

theorem WellFormed.setPte (h : WellFormed src s role) (hp : role p = .pte i j) :
    WellFormed src (s.setTab p k e) role where
  pud := h.pud
  pmd n a hn ha m hm := by
    rw [setTab_of_ne (Or.inl (h.pmd_ne_pte hn ha hp))]
    exact h.pmd n a hn ha m hm
  fresh := h.fresh

/-- A write to a table of the middle level. -/
theorem WellFormed.setPmd (h : WellFormed src s role) (ha : role a = .pmd i)
    (he : EntryOk role (.pte i j) e) : WellFormed src (s.setTab a j e) role where
  pud := h.pud
  pmd n b hn hb m hm := by
    by_cases hat : b = a ∧ m = j
    · obtain ⟨rfl, rfl⟩ := hat
      have hrole := (h.role_pmd hn hb).symm.trans ha
      cases hrole
      rw [setTab_self]
      exact he
    · rw [setTab_of_ne (not_and_or.mp hat)]
      exact h.pmd n b hn hb m hm
  fresh := h.fresh

/-- A write to the first level. -/
theorem WellFormed.setPud (h : WellFormed src s role) (he : EntryOk role (.pmd i) e)
    (hbelow : e &&& 3 = desTable → ∀ j, j < ptrsPerPmd →
      EntryOk role (.pte i j) (s.tab (tableAddr e) j)) : WellFormed src (s.setPgd i e) role where
  pud n hn := by
    by_cases hni : n = i
    · subst hni
      rw [setPgd_self]
      exact he
    · rw [setPgd_of_ne hni]
      exact h.pud n hn
  pmd n a hn ha m hm := by
    by_cases hni : n = i
    · subst hni
      rw [PmdAt, setPgd_self] at ha
      obtain ⟨htable, rfl⟩ := ha
      exact hbelow htable m hm
    · rw [PmdAt, setPgd_of_ne hni] at ha
      exact h.pmd n a hn ha m hm
  fresh := h.fresh

/-! ## What a write changes -/

theorem walk_take (h : WellFormed src s role) (hget : src.get s.got = some p) :
    walk (s.newTable p) ipa = walk s ipa := by
  have hfree := h.fresh _ _ (Nat.le_refl _) hget
  apply walk_congr
  · rfl
  · intro a ha
    have hne : a ≠ p := h.pmd_ne_free (pudIndex_lt ipa) ha hfree
    rw [newTable_of_ne hne]
  · intro q hq
    have hne : q ≠ p := by
      rintro rfl
      have hrole := h.role_pte (pudIndex_lt ipa) (pmdIndex_lt ipa) hq
      rw [hfree] at hrole
      cases hrole
    rw [newTable_of_ne hne]

/-- A write to the last level changes the walk of one page. -/
theorem walk_setPte_of_ne (h : WellFormed src s role) (hp : role p = .pte i j)
    (hne : ¬ (pudIndex ipa = i ∧ pmdIndex ipa = j ∧ pteIndex ipa = k)) :
    walk (s.setTab p k e) ipa = walk s ipa := by
  apply walk_congr
  · rfl
  · intro a ha
    exact setTab_of_ne (Or.inl (h.pmd_ne_pte (pudIndex_lt ipa) ha hp))
  · intro q hq
    by_cases hqp : q = p
    · subst hqp
      have hrole := (h.role_pte (pudIndex_lt ipa) (pmdIndex_lt ipa) hq).symm.trans hp
      cases hrole
      exact setTab_of_ne (Or.inr fun hk => hne ⟨rfl, rfl, hk⟩)
    · exact setTab_of_ne (Or.inl hqp)

theorem PteAt.setPte (h : WellFormed src s role) (hi : i < ptrsPerPud) (hj : j < ptrsPerPmd)
    (hp : PteAt s i j p) : PteAt (s.setTab p k e) i j p := by
  have hrole := h.role_pte hi hj hp
  obtain ⟨a, ha, htable⟩ := hp
  refine ⟨a, ha, ?_⟩
  rw [setTab_of_ne (Or.inl (h.pmd_ne_pte hi ha hrole))]
  exact htable

theorem walk_setPte_self (h : WellFormed src s role) (hlt : ipa < vmmVirtMax)
    (hp : PteAt s (pudIndex ipa) (pmdIndex ipa) p) :
    walk (s.setTab p (pteIndex ipa) e) ipa =
      if e &&& 3 = desPage then some (leafAt e pageSize ipa) else none := by
  rw [walk_of_pteAt hlt (hp.setPte h (pudIndex_lt ipa) (pmdIndex_lt ipa)), pteWalk, setTab_self]

/-- A write to the middle level changes the walk of 2MB. -/
theorem walk_setPmd_of_ne (h : WellFormed src s role) (ha : role a = .pmd i)
    (hne : ¬ (pudIndex ipa = i ∧ pmdIndex ipa = j)) :
    walk (s.setTab a j e) ipa = walk s ipa := by
  apply walk_congr
  · rfl
  · intro b hb
    by_cases hba : b = a
    · subst hba
      have hrole := (h.role_pmd (pudIndex_lt ipa) hb).symm.trans ha
      cases hrole
      exact setTab_of_ne (Or.inr fun hj => hne ⟨rfl, hj⟩)
    · exact setTab_of_ne (Or.inl hba)
  · intro q hq
    have hqa : q ≠ a := by
      rintro rfl
      have hrole := (h.role_pte (pudIndex_lt ipa) (pmdIndex_lt ipa) hq).symm.trans ha
      cases hrole
    exact setTab_of_ne (Or.inl hqa)

theorem walk_setPmd_self (hlt : ipa < vmmVirtMax) (ha : PmdAt s (pudIndex ipa) a) :
    walk (s.setTab a (pmdIndex ipa) e) ipa =
      if e &&& 3 = desBlock then some (leafAt e pmdSize ipa)
      else if e &&& 3 = desTable then pteWalk ((s.setTab a (pmdIndex ipa) e).tab (tableAddr e)) ipa
      else none := by
  have ha' : PmdAt (s.setTab a (pmdIndex ipa) e) (pudIndex ipa) a := ha
  rw [walk_of_pmdAt hlt ha', pmdWalk, setTab_self]

theorem walk_setPud_of_ne (hne : pudIndex ipa ≠ i) : walk (s.setPgd i e) ipa = walk s ipa :=
  walk_congr (setPgd_of_ne hne) (fun _ _ => rfl) fun _ _ => rfl

theorem walk_setPud_self (hlt : ipa < vmmVirtMax) :
    walk (s.setPgd (pudIndex ipa) e) ipa =
      if e &&& 3 = desBlock then some (leafAt e pudSize ipa)
      else if e &&& 3 = desTable then
        pmdWalk (s.setPgd (pudIndex ipa) e) (s.tab (tableAddr e)) ipa
      else none := by
  rw [walk, if_pos hlt, pudWalk, setPgd_self]
  rfl

end Shape

end Minos.Stage2
