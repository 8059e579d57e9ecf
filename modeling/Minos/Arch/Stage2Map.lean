import Minos.Arch.Stage2Walk
import Minos.Lib.Run

/-!
# Mapping memory

`arch_guest_map` splits its range at 1GB, 2MB and 4KB, by three loops of one
shape, and `arch_host_map` does the same. What a map does with one entry is
said once for both, as `PmdStep` and `PudStep`; from there it is one argument
which tables the loops keep well formed, whether or not they succeed, so that
it holds of all tables built by maps, and what a loop has mapped when it
returns.

The output of a mapping is checked at its base only: `arch_guest_map` accepts
a range that starts below 2^40 and goes on above, and the descriptors of its
tail hold addresses that the walk refuses.
-/

namespace Minos.Stage2

open Minos.Lib

/-- The descriptors of a mapping, without their addresses. -/
structure Descs where
  page : Entry
  block : Entry
  page_spec : page &&& physicalMask = 0 ∧ page &&& 3 = desPage
  block_spec : block &&& physicalMask = 0 ∧ block &&& 3 = desBlock

def stage2Descs (flags : Entry) : Descs :=
  ⟨stage2PageAttr flags, stage2BlockAttr flags, stage2PageAttr_spec flags,
    stage2BlockAttr_spec flags⟩

variable {src : PageSource} {s s' : Tables} {role : Nat → Role} {flags : Entry}
  {K : Tables → (Nat → Role) → Prop} {d : Descs} {r : Ret}
  {i j a p idx start stop next physical : Nat}
  {t : Tables} {size m unit : Nat} {body : Tables → Nat → Nat → Nat → Nat → Option Ret}

/-! ## Tables stay well formed -/

/-- More that is known of the pages than their roles, if every write of a map
or an unmap keeps it. -/
structure Kept (K : Tables → (Nat → Role) → Prop) : Prop where
  tab : ∀ {s s' role}, K s role → s'.tab = s.tab → K s' role
  take : ∀ {s role}, K s role → ∀ p r, K (s.newTable p) (Function.update role p r)
  setPte : ∀ {s role p i j e}, K s role → role p = .pte i j → e = 0 ∨ e &&& 3 = desPage →
    ∀ k, K (s.setTab p k e) role
  setPmd : ∀ {s role a i e}, K s role → role a = .pmd i →
    (huge e → tableAddr e % pmdSize = 0) → ∀ j, K (s.setTab a j e) role

theorem kept_true : Kept fun _ _ => True :=
  ⟨fun _ _ => trivial, fun _ _ _ => trivial, fun _ _ _ _ => trivial, fun _ _ _ _ => trivial⟩

def Sound (src : PageSource) (K : Tables → (Nat → Role) → Prop) (s : Tables) : Prop :=
  ∃ role, WellFormed src s role ∧ K s role

/-- Below entry `i` of the first level there is the table `a`. -/
def UnderPmd (src : PageSource) (K : Tables → (Nat → Role) → Prop) (i a : Nat) (s : Tables) :
    Prop :=
  ∃ role, WellFormed src s role ∧ K s role ∧ PmdAt s i a

/-- Below entry `j` of the table `a` there is the table `p`. -/
def UnderPte (src : PageSource) (K : Tables → (Nat → Role) → Prop) (i a j p : Nat) (s : Tables) :
    Prop :=
  ∃ role, WellFormed src s role ∧ K s role ∧ PmdAt s i a ∧ s.tab a j &&& 3 = desTable ∧
    tableAddr (s.tab a j) = p

theorem TablesOk.sound (h : TablesOk src s) : Sound src (fun _ _ => True) s := by
  obtain ⟨role, hwf⟩ := h
  exact ⟨role, hwf, trivial⟩

theorem Sound.tablesOk (h : Sound src K s) : TablesOk src s := by
  obtain ⟨role, hwf, -⟩ := h
  exact ⟨role, hwf⟩

theorem UnderPmd.sound (h : UnderPmd src K i a s) : Sound src K s := by
  obtain ⟨role, hwf, hk, -⟩ := h
  exact ⟨role, hwf, hk⟩

theorem UnderPte.underPmd (h : UnderPte src K i a j p s) : UnderPmd src K i a s := by
  obtain ⟨role, hwf, hk, ha, -⟩ := h
  exact ⟨role, hwf, hk, ha⟩

/-- The first table is as it was, and no page was given back. -/
def SameTop (s s' : Tables) : Prop := s'.pgd = s.pgd ∧ s'.freed = s.freed

theorem SameTop.trans (h : SameTop s t) (h' : SameTop t s') : SameTop s s' :=
  ⟨h'.1.trans h.1, h'.2.trans h.2⟩

/-- A loop from a page to a page keeps what each of its bodies keeps. -/
theorem mapLoop_pages {next : Nat → Nat → Nat} {P : Tables → Prop} {n : Nat}
    (hnext : ∀ start stop, start % pageSize = 0 → stop % pageSize = 0 →
      next start stop % pageSize = 0)
    (hbody : ∀ s idx start next physical r, idx < n → P s → start % pageSize = 0 →
      next % pageSize = 0 → physical % pageSize = 0 →
      body s idx start next physical = some r → P r.2) :
    ∀ (left : Nat) (s : Tables) (idx start stop physical : Nat) (r : Ret), left + idx ≤ n → P s →
      start % pageSize = 0 → stop % pageSize = 0 → physical % pageSize = 0 →
      mapLoop next body left s idx start stop physical = some r → P r.2 := by
  intro left
  induction left with
  | zero =>
    intro s idx start stop physical r _ _ _ _ _ h
    cases h
  | succ left ih =>
    intro s idx start stop physical r hleft hs h1 h2 h3 h
    rw [mapLoop, Option.bind_eq_some_iff] at h
    obtain ⟨q, hq, h⟩ := h
    have h4 := hnext start stop h1 h2
    have hP := hbody _ _ _ _ _ q (by omega) hs h1 h4 h3 hq
    split at h
    · cases h
      exact hP
    split at h
    · cases h
      exact hP
    · refine ih _ _ _ _ _ r (by omega) hP h4 h2 ?_ h
      simp only [u64, sub64, pageSize] at *
      omega

theorem addrEnd_page (hsize : size % pageSize = 0) (h2 : stop % pageSize = 0) :
    addrEnd size start stop % pageSize = 0 := by
  rw [addrEnd]
  split
  · rw [Nat.mul_mod, hsize, Nat.mul_zero, Nat.zero_mod]
  · exact h2

/-! ### Pages -/

theorem ofNat_and_three {n : Nat} (hn : n % 4 = 0) : BitVec.ofNat 64 n &&& 3 = 0 := by
  apply BitVec.eq_of_toNat_eq
  have h3 : (3 : BitVec 64).toNat = 2 ^ 2 - 1 := rfl
  rw [BitVec.toNat_and, h3, Nat.and_two_pow_sub_one_eq_mod, BitVec.toNat_ofNat]
  show _ = 0
  omega

theorem type_or {x ty : Entry} {n : Nat} (hx : x &&& 3 = ty) (hn : n % 4 = 0) :
    (x ||| BitVec.ofNat 64 n) &&& 3 = ty := by
  rw [BitVec.and_or_distrib_right, hx, ofNat_and_three hn]
  exact BitVec.or_zero

/-- The loop of `stage2_map_pte_range` and of `stage1_map_pte_range`. -/
def writePages (attr : Entry) (ptep : Nat) (s : Tables) (start stop physical : Nat) : Option Ret :=
  mapLoop (fun start _ => u64 (start + pageSize))
    (fun s idx _ _ physical =>
      some (none, s.setTab ptep idx (attr ||| BitVec.ofNat 64 physical)))
    (ptrsPerPte - pteIndex start) s (pteIndex start) start stop physical

theorem UnderPte.setPte (hK : Kept K) (hi : i < ptrsPerPud) (hj : j < ptrsPerPmd)
    (h : UnderPte src K i a j p s) {e : Entry} (he : e = 0 ∨ e &&& 3 = desPage) (k : Nat) :
    UnderPte src K i a j p (s.setTab p k e) := by
  obtain ⟨role, hwf, hk, ha, htable⟩ := h
  have hp : role p = .pte i j := hwf.role_pte hi hj ⟨a, ha, htable⟩
  refine ⟨role, hwf.setPte hp, hK.setPte hk hp he k, ha, ?_⟩
  rw [setTab_of_ne (Or.inl (hwf.pmd_ne_pte hi ha hp))]
  exact htable

theorem UnderPte.writePage (hK : Kept K) (hi : i < ptrsPerPud) (hj : j < ptrsPerPmd)
    (h : UnderPte src K i a j p s) (hphys : physical % pageSize = 0) (k : Nat) :
    UnderPte src K i a j p (s.setTab p k (d.page ||| BitVec.ofNat 64 physical)) := by
  refine h.setPte hK hi hj (.inr (type_or d.page_spec.2 ?_)) k
  simp only [pageSize] at hphys
  omega

theorem writePages_inv (hK : Kept K) (hi : i < ptrsPerPud) (hj : j < ptrsPerPmd)
    (hs : UnderPte src K i a j p s) (h1 : start % pageSize = 0) (h2 : stop % pageSize = 0)
    (h3 : physical % pageSize = 0) (h : writePages d.page p s start stop physical = some r) :
    UnderPte src K i a j p r.2 ∧ SameTop s r.2 := by
  have hindex := pteIndex_lt start
  refine mapLoop_pages (P := fun t => UnderPte src K i a j p t ∧ SameTop s t) (n := ptrsPerPte)
    (fun start _ h _ => ?_) ?_ _ _ _ _ _ _ r (by omega) ⟨hs, rfl, rfl⟩ h1 h2 h3 h
  · simp only [u64, pageSize] at *
    omega
  · intro t idx start next physical r _ ht _ _ h3 h
    cases h
    exact ⟨ht.1.writePage hK hi hj h3 _, ht.2⟩

/-! ### Entries of the middle level -/

theorem WellFormed.skip (h : WellFormed src s role) :
    WellFormed src { s with got := s.got + 1 } role :=
  ⟨h.pud, h.pmd, fun k a hk => h.fresh k a (Nat.le_of_succ_le hk)⟩

theorem PageSource.tableDesc {k : Nat} (h : src.get k = some p) :
    (BitVec.ofNat 64 p ||| desTable) &&& 3 = desTable ∧
      tableAddr (BitVec.ofNat 64 p ||| desTable) = p :=
  tableDesc_spec (src.aligned _ _ h) (Nat.lt_trans (src.lt _ _ h) (by decide))

/-- A new table below entry `j` of the table `a`. -/
theorem UnderPmd.newPte (hK : Kept K) (hi : i < ptrsPerPud) (h : UnderPmd src K i a s)
    (h0 : s.tab a j = 0) (hget : src.get s.got = some p) :
    UnderPte src K i a j p ((s.newTable p).setTab a j (BitVec.ofNat 64 p ||| desTable)) ∧
      ∀ ipa, walk ((s.newTable p).setTab a j (BitVec.ofNat 64 p ||| desTable)) ipa =
        walk s ipa := by
  obtain ⟨role, hwf, hk, ha⟩ := h
  obtain ⟨htype, haddr⟩ := src.tableDesc hget
  have hne : a ≠ p := hwf.pmd_ne_free hi ha (hwf.fresh _ _ (Nat.le_refl _) hget)
  have hwf' := hwf.take hget (.pte i j)
  have hrole : Function.update role p (.pte i j) a = .pmd i :=
    (Function.update_of_ne hne ..).trans (hwf.role_pmd hi ha)
  refine ⟨⟨_, hwf'.setPmd hrole (Or.inr (Or.inr ⟨htype, ?_⟩)), hK.setPmd (hK.take hk p _) hrole
    (fun hb => absurd htype (block_ne_table hb.2)) j, ha, ?_⟩, ?_⟩
  · rw [haddr, Function.update_self]
  · rw [setTab_self]
    exact ⟨htype, haddr⟩
  · intro ipa
    by_cases hat : pudIndex ipa = i ∧ pmdIndex ipa = j
    · obtain ⟨rfl, rfl⟩ := hat
      rw [walk_of_pmd_zero ha h0]
      by_cases hlt : ipa < vmmVirtMax
      · rw [walk_setPmd_self hlt (show PmdAt (s.newTable p) _ a from ha),
          if_neg fun hb => block_ne_table hb htype, if_pos htype, haddr, pteWalk,
          setTab_of_ne (Or.inl hne.symm), newTable_self, if_neg zero_ne_page]
      · exact walk_of_ge hlt
    · rw [walk_setPmd_of_ne hwf' hrole hat, walk_take hwf hget]

/-- **What a map does with one entry of the middle level**: it writes a block,
it fails, or it goes on in a table below the entry, new and empty if there was
none. -/
inductive PmdStep (src : PageSource) (K : Tables → (Nat → Role) → Prop) (d : Descs) (i a idx : Nat)
    (s : Tables) (start next physical : Nat) (r : Ret) : Prop
  | block (hstart : start % pmdSize = 0) (hphys : physical % pmdSize = 0)
      (hlen : sub64 next start % pmdSize = 0)
      (hr : r = (none, s.setTab a idx
        (d.block ||| BitVec.ofNat 64 (physical / pmdSize * pmdSize))))
  | fails (hfail : r.1 ≠ none) (hunder : UnderPmd src K i a r.2) (htop : SameTop s r.2)
      (hwalk : ∀ ipa, walk r.2 ipa = walk s ipa)
  | table (p : Nat) (s1 : Tables) (hunder : UnderPte src K i a idx p s1) (htop : SameTop s s1)
      (hwalk : ∀ ipa, walk s1 ipa = walk s ipa)
      (h : writePages d.page p s1 start next physical = some r)

/-- An entry that is no block. -/
theorem pmdStep_below (hK : Kept K) (hi : i < ptrsPerPud) (hj : idx < ptrsPerPmd)
    (hs : UnderPmd src K i a s) (hb : s.tab a idx ≠ 0 → ¬ huge (s.tab a idx))
    (h : (if s.tab a idx = 0 then
        match src.get s.got with
        | none => some (some .enomem, { s with got := s.got + 1 })
        | some ptep =>
          writePages d.page ptep
            ((s.newTable ptep).setTab a idx (BitVec.ofNat 64 ptep ||| desTable)) start next physical
      else writePages d.page (tableAddr (s.tab a idx)) s start next physical) = some r) :
    PmdStep src K d i a idx s start next physical r := by
  have hs' := hs
  obtain ⟨role, hwf, hk, ha⟩ := hs'
  split at h
  · rename_i h0
    split at h
    · cases h
      exact .fails (by simp) ⟨role, hwf.skip, hK.tab hk rfl, ha⟩ ⟨rfl, rfl⟩ fun _ => rfl
    · rename_i p hget
      obtain ⟨hs1, hwalk⟩ := hs.newPte hK hi h0 hget
      exact .table p _ hs1 ⟨rfl, rfl⟩ hwalk h
  · rename_i h0
    obtain ⟨htable, -⟩ := (hwf.pmd i a hi ha idx hj).table h0 (hb h0)
    exact .table _ s ⟨role, hwf, hk, ha, htable, rfl⟩ ⟨rfl, rfl⟩ (fun _ => rfl) h

theorem block_aligned {attr : Entry} (hclear : attr &&& physicalMask = 0) (n : Nat) :
    tableAddr (attr ||| BitVec.ofNat 64 (n * pmdSize)) % pmdSize = 0 := by
  have hor : (0 : Entry) ||| (BitVec.ofNat 64 (n * pmdSize) &&& physicalMask) =
      BitVec.ofNat 64 (n * pmdSize) &&& physicalMask := BitVec.zero_or
  have hlow : n * 2 ^ 21 % 2 ^ 64 % 2 ^ 21 = 0 := by omega
  rw [tableAddr, BitVec.and_or_distrib_right, hclear, hor,
    BitVec.toNat_and, BitVec.toNat_ofNat]
  simp only [pmdSize]
  rw [Nat.and_mod_two_pow, hlow, Nat.zero_and]

theorem PmdStep.inv (hK : Kept K) (hi : i < ptrsPerPud) (hj : idx < ptrsPerPmd)
    (hs : UnderPmd src K i a s) (h1 : start % pageSize = 0) (h2 : next % pageSize = 0)
    (h3 : physical % pageSize = 0) (h : PmdStep src K d i a idx s start next physical r) :
    UnderPmd src K i a r.2 ∧ SameTop s r.2 := by
  cases h with
  | block _ _ _ hr =>
    subst hr
    obtain ⟨role, hwf, hk, ha⟩ := hs
    have hrole := hwf.role_pmd hi ha
    refine ⟨⟨role, hwf.setPmd hrole (Or.inr (Or.inl (type_or d.block_spec.2 ?_))),
      hK.setPmd hk hrole (fun _ => block_aligned d.block_spec.1 _) idx, ha⟩, rfl, rfl⟩
    simp only [pmdSize]
    omega
  | fails _ hunder htop _ => exact ⟨hunder, htop⟩
  | table p s1 hunder htop _ h =>
    obtain ⟨hs', htop'⟩ := writePages_inv hK hi hj hunder h1 h2 h3 h
    exact ⟨hs'.underPmd, htop.trans htop'⟩

/-! ### Entries of the first level -/

/-- The first level has no block that it had not, and no page was given back. -/
def NoNewBlock (s s' : Tables) : Prop :=
  (∀ k, huge (s'.pgd k) → huge (s.pgd k)) ∧ s'.freed = s.freed

theorem NoNewBlock.trans (h : NoNewBlock s t) (h' : NoNewBlock t s') :
    NoNewBlock s s' := ⟨fun k hk => h.1 k (h'.1 k hk), h'.2.trans h.2⟩

theorem SameTop.noNewBlock (h : SameTop s s') : NoNewBlock s s' := ⟨fun _ hk => h.1 ▸ hk, h.2⟩

/-- A new table below entry `i` of the first level. -/
theorem Sound.newPmd (hK : Kept K) (h : Sound src K s) (h0 : s.pgd i = 0)
    (hget : src.get s.got = some p) :
    UnderPmd src K i p ((s.newTable p).setPgd i (BitVec.ofNat 64 p ||| desTable)) ∧
      NoNewBlock s ((s.newTable p).setPgd i (BitVec.ofNat 64 p ||| desTable)) ∧
      ∀ ipa, walk ((s.newTable p).setPgd i (BitVec.ofNat 64 p ||| desTable)) ipa =
        walk s ipa := by
  obtain ⟨role, hwf, hk⟩ := h
  obtain ⟨htype, haddr⟩ := src.tableDesc hget
  refine ⟨⟨_, (hwf.take hget (.pmd i)).setPud (Or.inr (Or.inr ⟨htype, ?_⟩)) ?_,
    hK.tab (hK.take hk p _) rfl, ?_⟩, ⟨fun k hb => ?_, rfl⟩, ?_⟩
  · rw [haddr, Function.update_self]
  · intro _ j _
    rw [haddr, newTable_self]
    exact EntryOk.zero ..
  · rw [PmdAt, setPgd_self]
    exact ⟨htype, haddr⟩
  · by_cases hki : k = i
    · rw [hki, setPgd_self] at hb
      exact absurd htype (block_ne_table hb.2)
    · rwa [setPgd_of_ne hki] at hb
  · intro ipa
    by_cases hat : pudIndex ipa = i
    · subst hat
      rw [walk_of_pud_zero h0]
      by_cases hlt : ipa < vmmVirtMax
      · rw [walk_setPud_self hlt, if_neg fun hb => block_ne_table hb htype, if_pos htype, haddr,
          pmdWalk, newTable_self, if_neg zero_ne_block, if_neg zero_ne_table]
      · exact walk_of_ge hlt
    · rw [walk_setPud_of_ne hat, walk_take hwf hget]

/-- **What a map does with one entry of the first level.** It writes blocks
only if `B`, and `below` is the loop over a table of the middle level. -/
inductive PudStep (src : PageSource) (K : Tables → (Nat → Role) → Prop) (d : Descs) (B : Prop)
    (below : Nat → Tables → Option Ret) (idx : Nat) (s : Tables) (start next physical : Nat)
    (r : Ret) : Prop
  | block (hB : B) (hstart : start % pudSize = 0) (hphys : physical % pudSize = 0)
      (hlen : sub64 next start % pudSize = 0)
      (hr : r = (none, s.setPgd idx (d.block ||| BitVec.ofNat 64 (physical / pudSize * pudSize))))
  | fails (hfail : r.1 ≠ none) (hs : Sound src K r.2) (htop : SameTop s r.2)
      (hwalk : ∀ ipa, walk r.2 ipa = walk s ipa)
  | table (a : Nat) (s1 : Tables) (hunder : UnderPmd src K idx a s1) (htop : NoNewBlock s s1)
      (hwalk : ∀ ipa, walk s1 ipa = walk s ipa) (h : below a s1 = some r)

variable {B : Prop} {below : Nat → Tables → Option Ret}

theorem pudStep_below (hK : Kept K) (hi : idx < ptrsPerPud) (hs : Sound src K s)
    (hb : s.pgd idx ≠ 0 → ¬ huge (s.pgd idx))
    (h : (if s.pgd idx = 0 then
        match src.get s.got with
        | none => some (some .enomem, { s with got := s.got + 1 })
        | some pmdp =>
          below pmdp ((s.newTable pmdp).setPgd idx (BitVec.ofNat 64 pmdp ||| desTable))
      else below (tableAddr (s.pgd idx)) s) = some r) :
    PudStep src K d B below idx s start next physical r := by
  have hs' := hs
  obtain ⟨role, hwf, hk⟩ := hs'
  split at h
  · rename_i h0
    split at h
    · cases h
      exact .fails (by simp) ⟨role, hwf.skip, hK.tab hk rfl⟩ ⟨rfl, rfl⟩ fun _ => rfl
    · rename_i p hget
      obtain ⟨hs1, htop, hwalk⟩ := hs.newPmd hK h0 hget
      exact .table p _ hs1 htop hwalk h
  · rename_i h0
    obtain ⟨htable, -⟩ := (hwf.pud idx hi).table h0 (hb h0)
    exact .table _ s ⟨role, hwf, hk, htable, rfl⟩ ⟨fun _ hk => hk, rfl⟩ (fun _ => rfl) h

theorem PudStep.inv (hK : Kept K) (hs : Sound src K s)
    (hbelow : ∀ a s1, UnderPmd src K idx a s1 → (∀ ipa, walk s1 ipa = walk s ipa) →
      below a s1 = some r → UnderPmd src K idx a r.2 ∧ SameTop s1 r.2)
    (h : PudStep src K d B below idx s start next physical r) :
    Sound src K r.2 ∧ (¬ B → NoNewBlock s r.2) := by
  cases h with
  | block hB _ _ _ hr =>
    subst hr
    obtain ⟨role, hwf, hk⟩ := hs
    have htype : (d.block ||| BitVec.ofNat 64 (physical / pudSize * pudSize)) &&& 3 = desBlock :=
      type_or d.block_spec.2 (by simp only [pudSize]; omega)
    exact ⟨⟨role, hwf.setPud (Or.inr (Or.inl htype)) fun ht => absurd ht (block_ne_table htype),
      hK.tab hk rfl⟩, fun hno => absurd hB hno⟩
  | fails _ hs' htop _ => exact ⟨hs', fun _ => htop.noNewBlock⟩
  | table a s1 hunder htop hwalk h =>
    obtain ⟨hs', htop'⟩ := hbelow a s1 hunder hwalk h
    exact ⟨hs'.sound, fun _ => htop.trans htop'.noNewBlock⟩

/-! ### `arch_guest_map` -/

theorem mapPmdEntry_step (hK : Kept K) (hi : i < ptrsPerPud) (hj : idx < ptrsPerPmd)
    (hs : UnderPmd src K i a s)
    (h : mapPmdEntry src a flags s idx start next physical = some r) :
    PmdStep src K (stage2Descs flags) i a idx s start next physical r := by
  rw [mapPmdEntry] at h
  split at h
  · rename_i hhuge
    cases h
    exact .block hhuge.2.1 hhuge.2.2.1 hhuge.2.2.2 rfl
  split at h
  · cases h
    exact .fails (by simp) hs ⟨rfl, rfl⟩ fun _ => rfl
  · rename_i hb
    exact pmdStep_below hK hi hj hs (fun h0 hhuge => hb ⟨h0, hhuge⟩) h

theorem mapPmdRange_inv (hK : Kept K) (hi : i < ptrsPerPud) (hs : UnderPmd src K i a s)
    (h1 : start % pageSize = 0) (h2 : stop % pageSize = 0) (h3 : physical % pageSize = 0)
    (h : mapPmdRange src a flags s start stop physical = some r) :
    UnderPmd src K i a r.2 ∧ SameTop s r.2 := by
  have hindex := pmdIndex_lt start
  refine mapLoop_pages (P := fun t => UnderPmd src K i a t ∧ SameTop s t) (n := ptrsPerPmd)
    (fun _ _ _ h => addrEnd_page (by decide) h) ?_ _ _ _ _ _ _ r (by omega) ⟨hs, rfl, rfl⟩
    h1 h2 h3 h
  intro t idx start next physical r hj ht h1 h2 h3 h
  obtain ⟨hs', htop⟩ := (mapPmdEntry_step hK hi hj ht.1 h).inv hK hi hj ht.1 h1 h2 h3
  exact ⟨hs', ht.2.trans htop⟩

theorem mapPudEntry_step (hK : Kept K) (hi : idx < ptrsPerPud) (hs : Sound src K s)
    (h : mapPudEntry src flags s idx start next physical = some r) :
    PudStep src K (stage2Descs flags) (flags &&& vmHuge1G ≠ 0)
      (fun a s => mapPmdRange src a flags s start next physical) idx s start next physical r := by
  rw [mapPudEntry] at h
  split at h
  · rename_i hhuge
    cases h
    exact .block (fun hno => hhuge.1 (.inl hno)) hhuge.2.1 hhuge.2.2.1 hhuge.2.2.2 rfl
  split at h
  · cases h
    exact .fails (by simp) hs ⟨rfl, rfl⟩ fun _ => rfl
  · rename_i hb
    exact pudStep_below hK hi hs (fun h0 hhuge => hb ⟨h0, hhuge⟩) h

/-- Whatever the arguments of a map, the tables stay well formed. -/
theorem archGuestMap_inv (hK : Kept K) (hs : Sound src K s)
    (h : archGuestMap src s start stop physical flags = some r) :
    Sound src K r.2 ∧ (¬ flags &&& vmHuge1G ≠ 0 → NoNewBlock s r.2) := by
  rw [archGuestMap] at h
  split at h
  · cases h
    exact ⟨hs, fun _ => ⟨fun _ hk => hk, rfl⟩⟩
  iterate 2
    split at h
    · cases h
  split at h
  · cases h
  rename_i hpages
  obtain ⟨h1, h2, h3⟩ := not_not.mp hpages
  have hindex := pudIndex_lt start
  refine mapLoop_pages (P := fun t => Sound src K t ∧ (¬ flags &&& vmHuge1G ≠ 0 → NoNewBlock s t))
    (n := ptrsPerPud) (fun _ _ _ h => addrEnd_page (by decide) h) ?_ _ _ _ _ _ _ r (by omega)
    ⟨hs, fun _ => ⟨fun _ hk => hk, rfl⟩⟩ h1 h2 h3 h
  intro t idx start next physical r hi ht h1 h2 h3 h
  obtain ⟨hs', htop⟩ := (mapPudEntry_step hK hi ht.1 h).inv hK ht.1
    fun a s1 hs1 _ h => mapPmdRange_inv hK hi hs1 h1 h2 h3 h
  exact ⟨hs', fun hno => (ht.2 hno).trans (htop hno)⟩

/-- Tables built by maps, with any arguments, some of which may have failed.
`arch_alloc_guest_pgd` clears the first table; other pages hold anything. -/
inductive Built (src : PageSource) : Tables → Prop
  | init (tab : Nat → Nat → Entry) : Built src ⟨fun _ => 0, tab, 0, []⟩
  | map {s : Tables} {start stop physical : Nat} {flags : Entry} {r : Ret} : Built src s →
      archGuestMap src s start stop physical flags = some r → Built src r.2

theorem wellFormed_init (tab : Nat → Nat → Entry) :
    WellFormed src ⟨fun _ => 0, tab, 0, []⟩ fun _ => .free where
  pud _ _ := EntryOk.zero ..
  pmd _ _ _ ha := absurd ha.1 zero_ne_table
  fresh _ _ _ _ := rfl

theorem Built.sound (hK : Kept K) (hinit : ∀ tab, K ⟨fun _ => 0, tab, 0, []⟩ fun _ => .free)
    (h : Built src s) : Sound src K s := by
  induction h with
  | init tab => exact ⟨_, wellFormed_init tab, hinit tab⟩
  | map _ hmap ih => exact (archGuestMap_inv hK ih hmap).1

theorem Built.tablesOk (h : Built src s) : TablesOk src s :=
  (h.sound kept_true fun _ => trivial).tablesOk

/-! ## Cutting a range -/

/-- A page-aligned range inside entry number `e` of the entries of `size`
bytes, and where it is mapped to. -/
structure Piece (size e start stop physical : Nat) : Prop where
  lt : start < stop
  entry : start / size = e
  le : stop ≤ e * size + size
  stop_le : stop ≤ vmmVirtMax
  start_page : start % pageSize = 0
  stop_page : stop % pageSize = 0
  physical_page : physical % pageSize = 0
  physical_lt : physical + (stop - start) < 2 ^ 48

/-- Where the part of a range that lies in its first entry ends. -/
def pieceEnd (size start stop : Nat) : Nat := min (start / size * size + size) stop

theorem addrEnd_eq (hsize : 0 < size) (hle : size ≤ pudSize) (hlt : start < stop)
    (hstop : stop ≤ vmmVirtMax) : addrEnd size start stop = pieceEnd size start stop := by
  have hvirt : vmmVirtMax = 2 ^ 40 := rfl
  have hpud : pudSize = 2 ^ 30 := rfl
  have hboundary : (start + size) / size * size = start / size * size + size := by
    rw [Nat.add_div_right _ hsize, Nat.succ_mul]
  have hbelow : start / size * size ≤ start := Nat.div_mul_le_self ..
  rw [addrEnd, u64_of_lt (by omega), hboundary, sub64_of_le (by omega) (by omega),
    sub64_of_le (by omega) (by omega), pieceEnd]
  split <;> omega

theorem pageEnd_eq (hlt : start < stop) (hstop : stop ≤ vmmVirtMax) (h1 : start % pageSize = 0)
    (h2 : stop % pageSize = 0) : u64 (start + pageSize) = pieceEnd pageSize start stop := by
  have hvirt : vmmVirtMax = 2 ^ 40 := rfl
  simp only [pageSize] at h1 h2 ⊢
  rw [u64_of_lt (by omega), pieceEnd]
  omega

section Cut

variable {size big e : Nat}

theorem pieceEnd_spec (hsize : 0 < size) (hpage : size % pageSize = 0) (h2 : stop % pageSize = 0)
    (hlt : start < stop) :
    start < pieceEnd size start stop ∧ pieceEnd size start stop ≤ stop ∧
      pieceEnd size start stop ≤ start / size * size + size ∧
      pieceEnd size start stop % pageSize = 0 := by
  have habove : start < start / size * size + size := Nat.lt_div_mul_add hsize
  have hround : (start / size * size + size) % pageSize = 0 := by
    rw [← Nat.succ_mul, Nat.mul_mod, hpage, Nat.mul_zero, Nat.zero_mod]
  refine ⟨?_, Nat.min_le_right .., Nat.min_le_left .., ?_⟩
  · rw [pieceEnd]
    omega
  · rw [pieceEnd]
    rcases Nat.le_total (start / size * size + size) stop with h | h
    · rw [Nat.min_eq_left h]
      exact hround
    · rw [Nat.min_eq_right h]
      exact h2

/-- A range that goes on after its first entry is cut where the entry ends. -/
theorem pieceEnd_of_ne (hne : pieceEnd size start stop ≠ stop) :
    pieceEnd size start stop = (start / size + 1) * size := by
  rw [Nat.succ_mul]
  rw [pieceEnd] at hne ⊢
  omega

/-- The first piece of a range. -/
theorem Piece.first (h : Piece big e start stop physical) (hsize : 0 < size)
    (hpage : size % pageSize = 0) :
    Piece size (start / size) start (pieceEnd size start stop) physical := by
  obtain ⟨h1, h2, h3, h4⟩ := pieceEnd_spec hsize hpage h.stop_page h.lt
  have hphys := h.physical_lt
  exact ⟨h1, rfl, h3, Nat.le_trans h2 h.stop_le, h.start_page, h4, h.physical_page, by omega⟩

/-- What is left of it. -/
theorem Piece.rest (h : Piece big e start stop physical) (hsize : 0 < size)
    (hpage : size % pageSize = 0) (hne : pieceEnd size start stop ≠ stop) :
    Piece big e (pieceEnd size start stop) stop
        (physical + (pieceEnd size start stop - start)) ∧
      pieceEnd size start stop / size = start / size + 1 := by
  obtain ⟨h1, h2, h3, h4⟩ := pieceEnd_spec hsize hpage h.stop_page h.lt
  have hphys := h.physical_lt
  have hpage1 := h.start_page
  have hpage2 := h.physical_page
  have hle := h.le
  have hlt' : pieceEnd size start stop < stop := by omega
  constructor
  · refine ⟨hlt', ?_, h.le, h.stop_le, h4, h.stop_page, ?_, by omega⟩
    · have hbig : e * big ≤ start := by
        rw [← h.entry]
        exact Nat.div_mul_le_self ..
      apply Nat.div_eq_of_lt_le
      · omega
      · rw [Nat.succ_mul]
        omega
    · simp only [pageSize] at *
      omega
  · rw [pieceEnd_of_ne hne, Nat.mul_div_cancel _ hsize]

/-- Where the next piece is mapped to. -/
theorem Piece.advance (h : Piece big e start stop physical) (hsize : 0 < size)
    (hpage : size % pageSize = 0) :
    u64 (physical + sub64 (pieceEnd size start stop) start) =
      physical + (pieceEnd size start stop - start) := by
  obtain ⟨h1, h2, -, -⟩ := pieceEnd_spec hsize hpage h.stop_page h.lt
  have hvirt : vmmVirtMax = 2 ^ 40 := rfl
  have hstop := h.stop_le
  have hphys := h.physical_lt
  rw [sub64_of_le (by omega) (by omega), u64_of_lt (by omega)]

/-- A loop cuts a range inside entry `e` of `big` bytes where the entries of
`size` bytes end. -/
structure Cuts (nextEnd : Nat → Nat → Nat) (size big e : Nat) : Prop where
  pos : 0 < size
  page : size % pageSize = 0
  next : ∀ start stop physical, Piece big e start stop physical →
    nextEnd start stop = pieceEnd size start stop

theorem cuts_pages : Cuts (fun start _ => u64 (start + pageSize)) pageSize big e :=
  ⟨by decide, by decide, fun _ _ _ h => pageEnd_eq h.lt h.stop_le h.start_page h.stop_page⟩

theorem cuts_pmd : Cuts (addrEnd pmdSize) pmdSize big e :=
  ⟨by decide, by decide, fun _ _ _ h => addrEnd_eq (by decide) (by decide) h.lt h.stop_le⟩

theorem cuts_pud : Cuts (addrEnd pudSize) pudSize big e :=
  ⟨by decide, by decide, fun _ _ _ h => addrEnd_eq (by decide) (by decide) h.lt h.stop_le⟩

end Cut

/-! ## What a map has mapped -/

/-- The attributes of a descriptor for `size` bytes. -/
def mapAttr (flags : Entry) (size : Nat) : Entry :=
  (if size = pageSize then stage2PageAttr flags else stage2BlockAttr flags) &&& attrMask

def Descs.attr (d : Descs) (size : Nat) : Entry :=
  (if size = pageSize then d.page else d.block) &&& attrMask

/-- `[start, stop)` leads to `physical` and on in `s'`; all else is as in `s`. -/
structure Maps (d : Descs) (s s' : Tables) (start stop physical : Nat) : Prop where
  inside : ∀ ipa, start ≤ ipa → ipa < stop → ∃ l, walk s' ipa = some l ∧
    l.pa = physical + (ipa - start) ∧ l.attr = d.attr l.size
  outside : ∀ ipa, ¬ (start ≤ ipa ∧ ipa < stop) → walk s' ipa = walk s ipa

theorem Maps.trans (h1 : Maps d s t start next physical)
    (h2 : Maps d t s' next stop (physical + (next - start))) (hle : start ≤ next)
    (hle' : next ≤ stop) : Maps d s s' start stop physical where
  inside ipa hge hlt := by
    by_cases hnext : ipa < next
    · obtain ⟨l, hwalk, hpa, hattr⟩ := h1.inside ipa hge hnext
      exact ⟨l, (h2.outside ipa (by omega)).trans hwalk, hpa, hattr⟩
    · obtain ⟨l, hwalk, hpa, hattr⟩ := h2.inside ipa (by omega) hlt
      exact ⟨l, hwalk, by omega, hattr⟩
  outside ipa hout := (h2.outside ipa (by omega)).trans (h1.outside ipa (by omega))

/-- A map that succeeds has mapped its range; one that fails a first part of it,
up to a multiple of `unit`. -/
def MapsTill (d : Descs) (unit : Nat) (s : Tables) (r : Ret) (start stop physical : Nat) : Prop :=
  ∃ last, start ≤ last ∧ last ≤ stop ∧ Maps d s r.2 start last physical ∧
    (r.1 = none → last = stop) ∧ (r.1 ≠ none → last < stop ∧ (last = start ∨ last % unit = 0))

theorem Maps.till (h : Maps d s s' start stop physical) (hle : start ≤ stop) :
    MapsTill d unit s (none, s') start stop physical :=
  ⟨stop, hle, Nat.le_refl _, h, fun _ => rfl, fun hno => absurd rfl hno⟩

theorem MapsTill.maps (h : MapsTill d unit s r start stop physical)
    (hr : r.1 = none) : Maps d s r.2 start stop physical := by
  obtain ⟨last, -, -, hmaps, hdone, -⟩ := h
  exact hdone hr ▸ hmaps

theorem MapsTill.none (hlt : start < stop) (hfail : r.1 ≠ none)
    (hwalk : ∀ ipa, walk r.2 ipa = walk s ipa) : MapsTill d unit s r start stop physical :=
  ⟨start, Nat.le_refl _, Nat.le_of_lt hlt, ⟨fun _ _ _ => by omega, fun ipa _ => hwalk ipa⟩,
    fun h => absurd h hfail, fun _ => ⟨hlt, .inl rfl⟩⟩

theorem MapsTill.congr (h : MapsTill d unit t r start stop physical)
    (hwalk : ∀ ipa, walk t ipa = walk s ipa) : MapsTill d unit s r start stop physical := by
  obtain ⟨last, h1, h2, hmaps, h3⟩ := h
  exact ⟨last, h1, h2, ⟨hmaps.inside, fun ipa hout => (hmaps.outside ipa hout).trans (hwalk ipa)⟩,
    h3⟩

/-- What the addresses of a range lead to meets `A`. -/
def Leads (A : Leaf → Prop) (s : Tables) (start stop : Nat) : Prop :=
  ∀ ipa l, start ≤ ipa → ipa < stop → walk s ipa = some l → A l

/-- A loop maps its range as far as it comes, if its bodies do so with their
pieces. What they ask of their range is asked of that of the loop. -/
theorem mapLoop_till {nextEnd : Nat → Nat → Nat} {A : Leaf → Prop} (P : Tables → Prop)
    (n base : Nat) {size unit big e : Nat} (hcut : Cuts nextEnd size big e)
    (hunit : size % unit = 0)
    (hbody : ∀ s idx start next physical r, idx < n → P s → Leads A s start next →
      Piece size (base + idx) start next physical → body s idx start next physical = some r →
      P r.2 ∧ MapsTill d unit s r start next physical) :
    ∀ (left : Nat) (s : Tables) (idx start stop physical : Nat) (r : Ret), left + idx ≤ n →
      P s → Leads A s start stop → Piece big e start stop physical → start / size = base + idx →
      mapLoop nextEnd body left s idx start stop physical = some r →
      P r.2 ∧ MapsTill d unit s r start stop physical := by
  intro left
  induction left with
  | zero =>
    intro s idx start stop physical r _ _ _ _ _ h
    cases h
  | succ left ih =>
    intro s idx start stop physical r hleft hs hA hpiece hentry h
    rw [mapLoop, Option.bind_eq_some_iff, hcut.next _ _ _ hpiece] at h
    obtain ⟨⟨err, t⟩, hq, h⟩ := h
    have hfirst := hpiece.first hcut.pos hcut.page
    rw [hentry] at hfirst
    have hend : pieceEnd size start stop ≤ stop := Nat.min_le_right ..
    obtain ⟨hP, htill⟩ := hbody _ _ _ _ _ _ (by omega) hs
      (fun ipa l hge hlt => hA ipa l hge (by omega)) hfirst hq
    cases err with
    | some err =>
      cases h
      obtain ⟨last, h1, h2, hmaps, -, h3⟩ := htill
      obtain ⟨hlt, h4⟩ := h3 (by simp)
      exact ⟨hP, last, h1, Nat.le_trans h2 hend, hmaps, nofun,
        fun _ => ⟨Nat.lt_of_lt_of_le hlt hend, h4⟩⟩
    | none =>
      have hmaps : Maps d s t start (pieceEnd size start stop) physical := htill.maps rfl
      have hle := Nat.le_of_lt hfirst.lt
      simp only at h
      split at h
      · rename_i hlast
        cases h
        rw [hlast] at hmaps
        exact ⟨hP, hmaps.till (Nat.le_of_lt hpiece.lt)⟩
      · rename_i hmore
        obtain ⟨hrest, hsucc⟩ := hpiece.rest hcut.pos hcut.page hmore
        rw [hpiece.advance hcut.pos hcut.page] at h
        have hA' : Leads A t (pieceEnd size start stop) stop := by
          intro ipa l hge hlt hl
          rw [hmaps.outside ipa (by omega)] at hl
          exact hA ipa l (by omega) hlt hl
        obtain ⟨hP', last, h1, h2, hmaps', hdone, hfail⟩ :=
          ih _ _ _ _ _ _ (by omega) hP hA' hrest (by omega) h
        -- the pieces before end where an entry ends
        have hbound : pieceEnd size start stop % unit = 0 := by
          rw [pieceEnd_of_ne hmore, Nat.mul_mod, hunit, Nat.mul_zero, Nat.zero_mod]
        refine ⟨hP', last, Nat.le_trans hle h1, h2, hmaps.trans hmaps' hle h1, hdone, fun hno => ?_⟩
        obtain ⟨hlt, rfl | h4⟩ := hfail hno
        · exact ⟨hlt, .inr hbound⟩
        · exact ⟨hlt, .inr h4⟩

theorem Piece.entry_iff (h : Piece size m start stop physical) (hsize : 0 < size)
    (hstart : start % size = 0) (hstop : stop = start + size) (ipa : Nat) :
    ipa / size = m ↔ start ≤ ipa ∧ ipa < stop := by
  rw [Nat.div_eq_iff hsize, ← h.entry, Nat.div_mul_cancel (Nat.dvd_of_mod_eq_zero hstart)]
  omega

theorem Piece.leafAt_pa {ipa : Nat} {e : Entry} (h : Piece size m start stop physical)
    (hstart : start % size = 0) (hphys : physical % size = 0) (haddr : tableAddr e = physical)
    (hat : ipa / size = m) : (leafAt e size ipa).pa = physical + (ipa - start) := by
  have hmod : ipa % size = ipa - start := by
    rw [Nat.mod_eq_sub_div_mul, hat, ← h.entry,
      Nat.div_mul_cancel (Nat.dvd_of_mod_eq_zero hstart)]
  simp only [leafAt]
  rw [haddr, Nat.div_mul_cancel (Nat.dvd_of_mod_eq_zero hphys), hmod]

/-- A descriptor for the whole of entry `m` of `size` bytes. -/
theorem maps_leaf {e : Entry} (hsize : 0 < size)
    (hpiece : Piece size m start stop physical) (hstart : start % size = 0)
    (hstop : stop = start + size) (hphys : physical % size = 0) (haddr : tableAddr e = physical)
    (hattr : e &&& attrMask = d.attr size)
    (hself : ∀ ipa, ipa < vmmVirtMax → ipa / size = m → walk s' ipa = some (leafAt e size ipa))
    (hother : ∀ ipa, ipa < vmmVirtMax → ipa / size ≠ m → walk s' ipa = walk s ipa) :
    Maps d s s' start stop physical := by
  have hentry := hpiece.entry_iff hsize hstart hstop
  have hle := hpiece.stop_le
  constructor
  · intro ipa hge hlt
    have hat := (hentry ipa).mpr ⟨hge, hlt⟩
    exact ⟨_, hself ipa (by omega) hat, hpiece.leafAt_pa hstart hphys haddr hat, hattr⟩
  · intro ipa hout
    by_cases hlt : ipa < vmmVirtMax
    · exact hother ipa hlt fun h => hout ((hentry ipa).mp h)
    · rw [walk_of_ge hlt, walk_of_ge hlt]

section Levels

variable {ipa : Nat}

theorem pmd_entry_iff (hlt : ipa < vmmVirtMax) (hj : j < ptrsPerPmd) :
    (pudIndex ipa = i ∧ pmdIndex ipa = j) ↔ ipa / pmdSize = i * ptrsPerPmd + j := by
  simp only [pudIndex, pmdIndex, pudSize, pmdSize, ptrsPerPud, ptrsPerPmd, vmmVirtMax] at *
  omega

theorem pte_entry_iff (hlt : ipa < vmmVirtMax) (hj : j < ptrsPerPmd) (hk : idx < ptrsPerPte) :
    (pudIndex ipa = i ∧ pmdIndex ipa = j ∧ pteIndex ipa = idx) ↔
      ipa / pageSize = (i * ptrsPerPmd + j) * ptrsPerPte + idx := by
  simp only [pudIndex, pmdIndex, pteIndex, pudSize, pmdSize, pageSize, ptrsPerPud, ptrsPerPmd,
    ptrsPerPte, vmmVirtMax] at *
  omega

theorem pud_entry_iff (hlt : ipa < vmmVirtMax) : pudIndex ipa = i ↔ ipa / pudSize = i := by
  simp only [pudIndex, pudSize, ptrsPerPud, vmmVirtMax] at *
  omega

/-! The first entry of a loop is that of the range's start. -/

theorem Piece.pte_entry (h : Piece pmdSize m start stop physical) :
    start / pageSize = m * ptrsPerPte + pteIndex start := by
  have hentry := h.entry
  simp only [pteIndex, pmdSize, pageSize, ptrsPerPte] at *
  omega

theorem Piece.pmd_entry (h : Piece pudSize i start stop physical) :
    start / pmdSize = i * ptrsPerPmd + pmdIndex start := by
  have hentry := h.entry
  simp only [pmdIndex, pudSize, pmdSize, ptrsPerPmd] at *
  omega

theorem Piece.pud_entry (h : Piece vmmVirtMax 0 start stop physical) :
    start / pudSize = 0 + pudIndex start := by
  have hentry := h.entry
  simp only [pudIndex, vmmVirtMax, pudSize, ptrsPerPud] at *
  omega

/-- One page. -/
theorem maps_page (hi : i < ptrsPerPud) (hj : j < ptrsPerPmd) (hk : idx < ptrsPerPte)
    (hs : UnderPte src K i a j p s)
    (hpiece : Piece pageSize ((i * ptrsPerPmd + j) * ptrsPerPte + idx) start next physical) :
    Maps d s (s.setTab p idx (d.page ||| BitVec.ofNat 64 physical)) start next physical := by
  obtain ⟨role, hwf, -, ha, htable⟩ := hs
  have hrole : role p = .pte i j := hwf.role_pte hi hj ⟨a, ha, htable⟩
  have hphys := hpiece.physical_lt
  obtain ⟨hclear, hpage⟩ := d.page_spec
  obtain ⟨htype, haddr, hattr⟩ := desc_spec hclear hpiece.physical_page (by omega)
  have hstop : next = start + pageSize := by
    obtain ⟨h1, h2, h3, -, h5, h6, -, -⟩ := hpiece
    simp only [pageSize] at *
    omega
  refine maps_leaf (by decide) hpiece hpiece.start_page hstop hpiece.physical_page haddr ?_ ?_ ?_
  · rw [hattr, Descs.attr, if_pos rfl]
  · intro ipa hlt hat
    obtain ⟨rfl, rfl, rfl⟩ := (pte_entry_iff hlt hj hk).mpr hat
    rw [walk_setPte_self hwf hlt ⟨a, ha, htable⟩, if_pos (htype.trans hpage)]
  · intro ipa hlt hat
    exact walk_setPte_of_ne hwf hrole fun h => hat ((pte_entry_iff hlt hj hk).mp h)

/-- The loop over pages does not fail. -/
theorem writePages_done {attr : Entry} (h : writePages attr p s start stop physical = some r) :
    r.1 = none := by
  rw [writePages] at h
  generalize ptrsPerPte - pteIndex start = left at h
  generalize pteIndex start = idx at h
  induction left generalizing s idx start physical with
  | zero => cases h
  | succ left ih =>
    rw [mapLoop, Option.bind_some] at h
    simp only at h
    split at h
    · cases h
      rfl
    · exact ih _ h

theorem writePages_maps (hK : Kept K) (hi : i < ptrsPerPud) (hj : j < ptrsPerPmd)
    (hs : UnderPte src K i a j p s)
    (hpiece : Piece pmdSize (i * ptrsPerPmd + j) start stop physical)
    (h : writePages d.page p s start stop physical = some r) :
    r.1 = none ∧ Maps d s r.2 start stop physical := by
  have hindex := pteIndex_lt start
  have htill := mapLoop_till (d := d) (A := fun _ => True) (UnderPte src K i a j p) ptrsPerPte
    ((i * ptrsPerPmd + j) * ptrsPerPte) cuts_pages (Nat.mod_self _) ?_ _ _ _ _ _ _ r
    (by omega) hs (fun _ _ _ _ _ => trivial) hpiece hpiece.pte_entry h
  · exact ⟨writePages_done h, htill.2.maps (writePages_done h)⟩
  · intro s idx start next physical r hk hs _ hpiece h
    cases h
    exact ⟨hs.writePage hK hi hj hpiece.physical_page _,
      (maps_page hi hj hk hs hpiece).till (Nat.le_of_lt hpiece.lt)⟩

/-- What both checks for a block descriptor have in common: the piece is the
whole of its entry. -/
theorem Piece.whole (h : Piece size m start next physical)
    (hstart : start % size = 0) (hlen : sub64 next start % size = 0) : next = start + size := by
  have hvirt : vmmVirtMax = 2 ^ 40 := rfl
  have hlt := h.lt
  have hstop := h.stop_le
  have hle := h.le
  rw [← h.entry, Nat.div_mul_cancel (Nat.dvd_of_mod_eq_zero hstart)] at hle
  rw [sub64_of_le (by omega) (by omega)] at hlen
  -- the length is a positive multiple of `size`, and at most one
  have hge : size ≤ next - start := Nat.le_of_dvd (by omega) (Nat.dvd_of_mod_eq_zero hlen)
  omega

theorem Descs.block_desc (d : Descs) (hpage : size % pageSize = 0)
    (hne : size ≠ pageSize) (hphys : physical % size = 0) (hlt : physical < 2 ^ 48) :
    (d.block ||| BitVec.ofNat 64 (physical / size * size)) &&& 3 = desBlock ∧
      tableAddr (d.block ||| BitVec.ofNat 64 (physical / size * size)) = physical ∧
      (d.block ||| BitVec.ofNat 64 (physical / size * size)) &&& attrMask = d.attr size := by
  obtain ⟨hclear, hblock⟩ := d.block_spec
  have hdvd : pageSize ∣ physical :=
    Nat.dvd_trans (Nat.dvd_of_mod_eq_zero hpage) (Nat.dvd_of_mod_eq_zero hphys)
  rw [Nat.div_mul_cancel (Nat.dvd_of_mod_eq_zero hphys)]
  obtain ⟨htype, haddr, hattr⟩ := desc_spec hclear (Nat.mod_eq_zero_of_dvd hdvd) hlt
  refine ⟨htype.trans hblock, haddr, ?_⟩
  rw [hattr, Descs.attr, if_neg hne]

theorem PmdStep.till (hK : Kept K) (hi : i < ptrsPerPud) (hj : idx < ptrsPerPmd)
    (hs : UnderPmd src K i a s)
    (hpiece : Piece pmdSize (i * ptrsPerPmd + idx) start next physical)
    (h : PmdStep src K d i a idx s start next physical r) :
    MapsTill d pmdSize s r start next physical := by
  have hphys := hpiece.physical_lt
  cases h with
  | block hstart halign hlen hr =>
    subst hr
    obtain ⟨role, hwf, -, ha⟩ := hs
    obtain ⟨htype, haddr, hattr⟩ :=
      d.block_desc (by decide) (by decide) halign (show physical < 2 ^ 48 by omega)
    refine Maps.till (maps_leaf (by decide) hpiece hstart (hpiece.whole hstart hlen) halign haddr
      hattr ?_ ?_) (Nat.le_of_lt hpiece.lt)
    · intro ipa hlt hat
      obtain ⟨rfl, rfl⟩ := (pmd_entry_iff hlt hj).mpr hat
      rw [walk_setPmd_self hlt ha, if_pos htype]
    · intro ipa hlt hat
      exact walk_setPmd_of_ne hwf (hwf.role_pmd hi ha) fun h => hat ((pmd_entry_iff hlt hj).mp h)
  | fails hfail _ _ hwalk => exact .none hpiece.lt hfail hwalk
  | table p s1 hunder _ hwalk h =>
    obtain ⟨hdone, hmaps⟩ := writePages_maps hK hi hj hunder hpiece h
    obtain ⟨err, t⟩ := r
    cases hdone
    exact (hmaps.till (Nat.le_of_lt hpiece.lt)).congr hwalk

/-- **A table of the middle level**: the loop over its entries, of either map. -/
theorem pmdLoop_till {A : Leaf → Prop} (hK : Kept K) (hi : i < ptrsPerPud)
    (hbody : ∀ s idx start next physical r, idx < ptrsPerPmd → UnderPmd src K i a s →
      Leads A s start next → Piece pmdSize (i * ptrsPerPmd + idx) start next physical →
      body s idx start next physical = some r →
      PmdStep src K d i a idx s start next physical r)
    (hs : UnderPmd src K i a s) (hA : Leads A s start stop)
    (hpiece : Piece pudSize i start stop physical)
    (h : mapLoop (addrEnd pmdSize) body (ptrsPerPmd - pmdIndex start) s (pmdIndex start) start stop
      physical = some r) :
    (UnderPmd src K i a r.2 ∧ SameTop s r.2) ∧ MapsTill d pmdSize s r start stop physical := by
  have hindex := pmdIndex_lt start
  refine mapLoop_till (fun t => UnderPmd src K i a t ∧ SameTop s t) ptrsPerPmd (i * ptrsPerPmd)
    cuts_pmd (Nat.mod_self _) ?_ _ _ _ _ _ _ r (by omega) ⟨hs, rfl, rfl⟩ hA hpiece
    hpiece.pmd_entry h
  intro t idx start next physical r hj ht hA hpiece h
  have hstep := hbody t idx start next physical r hj ht.1 hA hpiece h
  obtain ⟨hs', htop⟩ := hstep.inv hK hi hj ht.1 hpiece.start_page hpiece.stop_page
    hpiece.physical_page
  exact ⟨⟨hs', ht.2.trans htop⟩, hstep.till hK hi hj ht.1 hpiece⟩

/-- **One entry of the first level**, if `below` does its part. -/
theorem PudStep.till (hK : Kept K) (hs : Sound src K s)
    (hpiece : Piece pudSize idx start next physical)
    (hbelow : ∀ a s1, UnderPmd src K idx a s1 → (∀ ipa, walk s1 ipa = walk s ipa) →
      below a s1 = some r →
      (UnderPmd src K idx a r.2 ∧ SameTop s1 r.2) ∧ MapsTill d pmdSize s1 r start next physical)
    (h : PudStep src K d B below idx s start next physical r) :
    (Sound src K r.2 ∧ (¬ B → NoNewBlock s r.2)) ∧ MapsTill d pmdSize s r start next physical := by
  refine ⟨h.inv hK hs fun a s1 hs1 hwalk h => (hbelow a s1 hs1 hwalk h).1, ?_⟩
  have hphys := hpiece.physical_lt
  cases h with
  | block _ hstart halign hlen hr =>
    subst hr
    obtain ⟨htype, haddr, hattr⟩ :=
      d.block_desc (by decide) (by decide) halign (show physical < 2 ^ 48 by omega)
    refine Maps.till (maps_leaf (by decide) hpiece hstart (hpiece.whole hstart hlen) halign haddr
      hattr ?_ ?_) (Nat.le_of_lt hpiece.lt)
    · intro ipa hlt hat
      obtain rfl := (pud_entry_iff hlt).mpr hat
      rw [walk_setPud_self hlt, if_pos htype]
    · intro ipa hlt hat
      exact walk_setPud_of_ne fun h => hat ((pud_entry_iff hlt).mp h)
  | fails hfail _ _ hwalk => exact .none hpiece.lt hfail hwalk
  | table a s1 hunder _ hwalk h => exact (hbelow a s1 hunder hwalk h).2.congr hwalk

theorem mapPmdRange_till (hK : Kept K) (hi : i < ptrsPerPud) (hs : UnderPmd src K i a s)
    (hpiece : Piece pudSize i start stop physical)
    (h : mapPmdRange src a flags s start stop physical = some r) :
    (UnderPmd src K i a r.2 ∧ SameTop s r.2) ∧
      MapsTill (stage2Descs flags) pmdSize s r start stop physical :=
  pmdLoop_till (A := fun _ => True) hK hi
    (fun _ _ _ _ _ _ hj hs _ _ h => mapPmdEntry_step hK hi hj hs h) hs
    (fun _ _ _ _ _ => trivial) hpiece h

theorem mapPudRange_till (hs : TablesOk src s) (hpiece : Piece vmmVirtMax 0 start stop physical)
    (h : mapPudRange src flags s start stop physical = some r) :
    MapsTill (stage2Descs flags) pmdSize s r start stop physical := by
  have hindex := pudIndex_lt start
  refine (mapLoop_till (A := fun _ => True) (Sound src fun _ _ => True) ptrsPerPud 0 cuts_pud
    (by decide) ?_ _ _ _ _ _ _ r (by omega) hs.sound (fun _ _ _ _ _ => trivial) hpiece
    hpiece.pud_entry h).2
  intro s idx start next physical r hi hs _ hpiece h
  rw [Nat.zero_add] at hpiece
  obtain ⟨⟨hs', -⟩, htill⟩ := (mapPudEntry_step kept_true hi hs h).till kept_true hs hpiece
    fun a s1 hs1 _ h => mapPmdRange_till kept_true hi hs1 hpiece h
  exact ⟨hs', htill⟩

end Levels

/-- The arguments `arch_guest_map` accepts. -/
theorem archGuestMap_piece (hlt : start < stop)
    (h : archGuestMap src s start stop physical flags = some r) :
    Piece vmmVirtMax 0 start stop physical ∧
      mapPudRange src flags s start stop physical = some r := by
  rw [archGuestMap, if_neg (by omega)] at h
  split at h
  · cases h
  rename_i hvirt
  split at h
  · cases h
  rename_i hphys
  split at h
  · cases h
  rename_i halign
  rw [not_not] at hvirt hphys halign
  refine ⟨⟨hlt, ?_, ?_, hvirt.2, halign.1, halign.2.1, halign.2.2, ?_⟩, h⟩
  · exact Nat.div_eq_of_lt hvirt.1
  · simpa using hvirt.2
  · simp only [vmmVirtMax, physicalMax] at hvirt hphys
    omega

/-- **What a map leaves behind**, whatever it returns. -/
theorem archGuestMap_till (hs : TablesOk src s) (hlt : start < stop)
    (h : archGuestMap src s start stop physical flags = some r) :
    MapsTill (stage2Descs flags) pmdSize s r start stop physical := by
  obtain ⟨hpiece, h⟩ := archGuestMap_piece hlt h
  exact mapPudRange_till hs hpiece h

theorem archGuestMap_maps (hs : TablesOk src s) (hlt : start < stop)
    (h : archGuestMap src s start stop physical flags = some (none, s')) :
    Maps (stage2Descs flags) s s' start stop physical := (archGuestMap_till hs hlt h).maps rfl

/-! ## Loops stay in their table -/

theorem mapLoop_isSome {nextEnd : Nat → Nat → Nat} (n base : Nat) {size big e : Nat}
    (hcut : Cuts nextEnd size big e) (hbig : e * big + big = (base + n) * size)
    (hbody : ∀ s idx start next physical, Piece size (base + idx) start next physical →
      (body s idx start next physical).isSome) :
    ∀ (left : Nat) (s : Tables) (idx start stop physical : Nat), left + idx = n →
      Piece big e start stop physical → start / size = base + idx →
      (mapLoop nextEnd body left s idx start stop physical).isSome := by
  intro left
  induction left with
  | zero =>
    intro s idx start stop physical hleft hpiece hentry
    -- past the last entry there is nothing left of the range
    have hge : (base + n) * size ≤ start := by
      rw [← hleft, Nat.zero_add, ← hentry]
      exact Nat.div_mul_le_self ..
    have hle := hpiece.le
    have hlt := hpiece.lt
    omega
  | succ left ih =>
    intro s idx start stop physical hleft hpiece hentry
    have hfirst := hpiece.first hcut.pos hcut.page
    rw [hentry] at hfirst
    obtain ⟨⟨err, t⟩, hq⟩ := Option.isSome_iff_exists.mp (hbody s idx _ _ physical hfirst)
    rw [mapLoop, hcut.next _ _ _ hpiece, hq, Option.bind_some]
    cases err with
    | some err => rfl
    | none =>
      simp only
      split
      · rfl
      · rename_i hmore
        obtain ⟨hrest, hsucc⟩ := hpiece.rest hcut.pos hcut.page hmore
        rw [hpiece.advance hcut.pos hcut.page]
        exact ih _ _ _ _ _ (by omega) hrest (by omega)

theorem mapPteRange_isSome (hpiece : Piece pmdSize m start stop physical) :
    (mapPteRange p flags s start stop physical).isSome := by
  have hindex := pteIndex_lt start
  refine mapLoop_isSome ptrsPerPte (m * ptrsPerPte) cuts_pages ?_ (fun _ _ _ _ _ _ => rfl)
    _ _ _ _ _ _ (by omega) hpiece hpiece.pte_entry
  simp only [pmdSize, pageSize, ptrsPerPte]
  omega

theorem mapPmdRange_isSome (hpiece : Piece pudSize i start stop physical) :
    (mapPmdRange src a flags s start stop physical).isSome := by
  have hindex := pmdIndex_lt start
  refine mapLoop_isSome ptrsPerPmd (i * ptrsPerPmd) cuts_pmd ?_ ?_ _ _ _ _ _ _ (by omega) hpiece
    hpiece.pmd_entry
  · simp only [pudSize, pmdSize, ptrsPerPmd]
    omega
  · intro s idx start next physical hpiece
    rw [mapPmdEntry]
    split
    · rfl
    split
    · rfl
    split
    · split
      · rfl
      · exact mapPteRange_isSome hpiece
    · exact mapPteRange_isSome hpiece

theorem mapPudRange_isSome (hpiece : Piece vmmVirtMax 0 start stop physical) :
    (mapPudRange src flags s start stop physical).isSome := by
  have hindex := pudIndex_lt start
  refine mapLoop_isSome ptrsPerPud 0 cuts_pud (by decide) ?_ _ _ _ _ _ _ (by omega) hpiece
    hpiece.pud_entry
  intro s idx start next physical hpiece
  rw [mapPudEntry]
  split
  · rfl
  split
  · rfl
  split
  · split
    · rfl
    · exact mapPmdRange_isSome hpiece
  · exact mapPmdRange_isSome hpiece

theorem archGuestMap_isSome (hlt : start < stop) (hstop : stop ≤ vmmVirtMax)
    (h1 : start % pageSize = 0) (h2 : stop % pageSize = 0) (h3 : physical % pageSize = 0)
    (hphys : physical < physicalMax) : (archGuestMap src s start stop physical flags).isSome := by
  rw [archGuestMap, if_neg (by omega), if_neg (not_not.mpr ⟨by omega, hstop⟩),
    if_neg (not_not.mpr hphys), if_neg (not_not.mpr ⟨h1, h2, h3⟩)]
  refine mapPudRange_isSome ⟨hlt, Nat.div_eq_of_lt (by omega), by omega, hstop, h1, h2, h3, ?_⟩
  simp only [vmmVirtMax, physicalMax] at hstop hphys
  omega

/-! ## The translation after a map -/

/-- What `arch_guest_map` is for: `[start, stop)` translates to `physical` and
on with the attributes of `flags`, and all else translates as before. -/
def MapsTo (flags : Entry) (s s' : Tables) (start stop physical : Nat) : Prop :=
  (∀ ipa, start ≤ ipa → ipa < stop → ∃ l, translate s' ipa = some l ∧
    l.pa = physical + (ipa - start) ∧ l.attr = mapAttr flags l.size) ∧
  ∀ ipa, ¬ (start ≤ ipa ∧ ipa < stop) → translate s' ipa = translate s ipa

theorem translate_eq_some {ipa : Nat} {l : Leaf} :
    translate s ipa = some l ↔ walk s ipa = some l ∧ l.pa < physicalMax := by
  rw [translate, Option.filter_eq_some_iff, decide_eq_true_iff]

/-- **A map that succeeds does what it is for exactly if its output ends below
2^40**, whatever the maps before it. -/
theorem arch_guest_map_iff (hb : Built src s) (hlt : start < stop)
    (h : archGuestMap src s start stop physical flags = some (none, s')) :
    MapsTo flags s s' start stop physical ↔ physical + (stop - start) ≤ physicalMax := by
  have hmaps := archGuestMap_maps hb.tablesOk hlt h
  constructor
  · intro hto
    -- the last byte translates
    obtain ⟨l, hl, hpa, -⟩ := hto.1 (stop - 1) (by omega) (by omega)
    have := (translate_eq_some.mp hl).2
    omega
  · intro hle
    constructor
    · intro ipa hge hlt'
      obtain ⟨l, hwalk, hpa, hattr⟩ := hmaps.inside ipa hge hlt'
      exact ⟨l, translate_eq_some.mpr ⟨hwalk, by omega⟩, hpa, hattr⟩
    · intro ipa hout
      rw [translate, translate, hmaps.outside ipa hout]

/-- Tables of a new VM. -/
def noTables : Tables := ⟨fun _ => 0, fun _ _ => 0, 0, []⟩

/-- 64 pages from 2^28 on. -/
def poolPage (k : Nat) : Option Nat := if k < 64 then some (2 ^ 28 + k * pageSize) else none

theorem poolPage_eq_some {k : Nat} (h : poolPage k = some a) :
    k < 64 ∧ a = 2 ^ 28 + k * 2 ^ 12 := by
  rw [poolPage] at h
  split at h
  · exact ⟨‹_›, (Option.some.inj h).symm⟩
  · cases h

theorem poolPage_aligned (k a : Nat) (h : poolPage k = some a) : a % pageSize = 0 := by
  have := poolPage_eq_some h
  rw [pageSize]
  omega

theorem poolPage_lt (k a : Nat) (h : poolPage k = some a) : a < 2 ^ 40 := by
  have := poolPage_eq_some h
  omega

theorem poolPage_inj (i j a : Nat) (hi : poolPage i = some a) (hj : poolPage j = some a) :
    i = j := by
  have := poolPage_eq_some hi
  have := poolPage_eq_some hj
  omega

def pagePool : PageSource := ⟨poolPage, poolPage_aligned, poolPage_lt, poolPage_inj⟩

def guestRam : Entry := vmNormal ||| vmRead ||| vmWrite ||| vmHuge2M

/-- A page, a 2MB block and a page. -/
theorem arch_guest_map_mixed :
    ∃ s', archGuestMap pagePool noTables 0x1ff000 0x401000 0x801ff000 guestRam = some (none, s') ∧
      MapsTo guestRam noTables s' 0x1ff000 0x401000 0x801ff000 := by
  refine exists_found (P := fun _ => True) (fun s' hmap _ => ?_) (by decide +kernel)
  exact (arch_guest_map_iff (.init _) (by decide) hmap).mpr (by decide)

/-- The second page of a mapping that starts a page below 2^40 is in the
tables, and does not translate. -/
theorem arch_guest_map_crosses :
    ∃ s', Built pagePool noTables ∧
      archGuestMap pagePool noTables 0 0x2000 0xfffffff000 guestRam = some (none, s') ∧
      (walk s' 0x1000).map Leaf.pa = some 0x10000000000 ∧ translate s' 0x1000 = none ∧
      ¬ MapsTo guestRam noTables s' 0 0x2000 0xfffffff000 := by
  obtain ⟨s', hmap, hwalk, htrans⟩ : ∃ s', archGuestMap pagePool noTables 0 0x2000 0xfffffff000
      guestRam = some (none, s') ∧ (walk s' 0x1000).map Leaf.pa = some 0x10000000000 ∧
        translate s' 0x1000 = none := by
    decide +kernel
  refine ⟨s', .init _, hmap, hwalk, htrans, ?_⟩
  rintro ⟨hin, -⟩
  obtain ⟨l, hl, -⟩ := hin 0x1000 (by decide) (by decide)
  rw [htrans] at hl
  cases hl

/-- **A map that fails** has mapped its range up to `last`, its start or a 2MB boundary in it, as it
was asked to, and all else translates as before; a range inside one 2MB entry is not mapped at
all. -/
theorem arch_guest_map_fails {err : Errno} (hb : Built src s) (hle : start ≤ stop)
    (h : archGuestMap src s start stop physical flags = some (some err, s')) :
    (∃ last, start ≤ last ∧ last ≤ stop ∧ (last = start ∨ last % pmdSize = 0) ∧
      (∀ ipa, start ≤ ipa → ipa < last → ∃ l, walk s' ipa = some l ∧
        l.pa = physical + (ipa - start) ∧ l.attr = mapAttr flags l.size) ∧
      ∀ ipa, ¬ (start ≤ ipa ∧ ipa < last) → translate s' ipa = translate s ipa) ∧
    (start / pmdSize = (stop - 1) / pmdSize → ∀ ipa, translate s' ipa = translate s ipa) := by
  rcases Nat.eq_or_lt_of_le hle with rfl | hlt
  · -- an empty range is refused before anything is done
    rw [archGuestMap, if_pos rfl] at h
    cases h
    refine ⟨⟨start, hle, hle, .inl rfl, fun _ _ _ => ?_, fun _ _ => rfl⟩, fun _ _ => rfl⟩
    omega
  obtain ⟨last, h1, h2, hmaps, -, hfail⟩ := archGuestMap_till hb.tablesOk hlt h
  obtain ⟨hlt', h3⟩ := hfail (by simp)
  have hout : ∀ ipa, ¬ (start ≤ ipa ∧ ipa < last) → translate s' ipa = translate s ipa := by
    intro ipa hipa
    rw [translate, translate, hmaps.outside ipa hipa]
  refine ⟨⟨last, h1, h2, h3, hmaps.inside, hout⟩, fun hentry ipa => hout ipa ?_⟩
  -- there is no 2MB boundary inside the range
  have hlast : last = start := by
    simp only [pmdSize] at hentry h3
    omega
  omega

/-- A range of pages from a page before a block: the page is mapped, and the call fails at the
block. -/
theorem arch_guest_map_fails_part :
    ∃ s s', Built pagePool s ∧
      archGuestMap pagePool s 0x1ff000 0x201000 0x90000000 vmNormal = some (some .einval, s') ∧
      (translate s 0x1ff000).map Leaf.pa = none ∧
      (translate s' 0x1ff000).map Leaf.pa = some 0x90000000 := by
  obtain ⟨s, hs, hmaps⟩ : ∃ s, archGuestMap pagePool noTables 0x200000 0x400000 0x80200000
      guestRam = some (none, s) ∧ ∃ s',
        archGuestMap pagePool s 0x1ff000 0x201000 0x90000000 vmNormal = some (some .einval, s') ∧
        (translate s 0x1ff000).map Leaf.pa = none ∧
        (translate s' 0x1ff000).map Leaf.pa = some 0x90000000 := by
    decide +kernel
  exact ⟨s, hmaps.imp fun s' hs' => ⟨.map (.init _) hs, hs'⟩⟩

/-- The same range without the page: nothing changes. -/
theorem arch_guest_map_fails_block :
    ∃ s s', archGuestMap pagePool s 0x200000 0x201000 0x90001000 vmNormal =
        some (some .einval, s') ∧
      (∃ last, 0x200000 ≤ last ∧ last ≤ 0x201000 ∧ (last = 0x200000 ∨ last % pmdSize = 0) ∧
        (∀ ipa, 0x200000 ≤ ipa → ipa < last → ∃ l, walk s' ipa = some l ∧
          l.pa = 0x90001000 + (ipa - 0x200000) ∧ l.attr = mapAttr vmNormal l.size) ∧
        ∀ ipa, ¬ (0x200000 ≤ ipa ∧ ipa < last) → translate s' ipa = translate s ipa) ∧
      ∀ ipa, translate s' ipa = translate s ipa := by
  obtain ⟨s, hs, s', hmap, -⟩ : ∃ s, archGuestMap pagePool noTables 0x200000 0x400000 0x80200000
      guestRam = some (none, s) ∧ ∃ s',
        archGuestMap pagePool s 0x200000 0x201000 0x90001000 vmNormal = some (some .einval, s') ∧
        True := by
    decide +kernel
  have hfails := arch_guest_map_fails (.map (.init _) hs) (by decide) hmap
  exact ⟨s, s', hmap, hfails.1, hfails.2 (by decide)⟩

end Minos.Stage2
