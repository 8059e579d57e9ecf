import Minos.Arch.Stage2Unmap
import Mathlib.Data.List.Nodup

/-!
# Releasing the tables of a guest

`release_vm_memory` unmaps the whole input range before it gives back the
first table. For this range the entry of `end`, where the unmap starts, is
that of `start`: 2^40 is one entry past the table, and the index wraps to 0.
So every entry of every level is met once, at its own address, and a table is
given back where its entry is cleared.

The unmap takes each entry of the first level for a table, so this holds of
tables built without 1GB blocks.
-/

namespace Minos.Stage2

open Minos.Lib

variable {src : PageSource} {s s' : Tables} {role : Nat → Role} {i j a p : Nat}

/-- `__destroy_guest_mapping`: a range that is no range of pages is widened. -/
def destroyGuestMapping (s : Tables) (vir size : Nat) : Option Ret :=
  if vir % pageSize ≠ 0 ∨ size % pageSize ≠ 0 then
    let stop := u64 (u64 (vir + size) + (pageSize - 1)) / pageSize * pageSize
    let vir := vir / pageSize * pageSize
    archGuestUnmap s vir (u64 (vir + sub64 stop vir))
  else archGuestUnmap s vir (u64 (vir + size))

/-- `VM_IPA_SIZE` -/
def vmIpaSize : Nat := 2 ^ 40

/-- What `release_vm_memory` does first. -/
def releaseMappings (s : Tables) : Option Ret := destroyGuestMapping s 0 vmIpaSize

/-! ## Tables without 1GB blocks -/

/-- Tables built by maps without `__VM_HUGE_1G`, some of which may have
failed. -/
inductive BuiltSmall (src : PageSource) : Tables → Prop
  | init (tab : Nat → Nat → Entry) : BuiltSmall src ⟨fun _ => 0, tab, 0, []⟩
  | map {s : Tables} {start stop physical : Nat} {flags : Entry} {r : Ret} : BuiltSmall src s →
      flags &&& vmHuge1G = 0 → archGuestMap src s start stop physical flags = some r →
      BuiltSmall src r.2

theorem BuiltSmall.built (h : BuiltSmall src s) : Built src s := by
  induction h with
  | init tab => exact .init tab
  | map _ _ hmap ih => exact .map ih hmap

/-- No entry of the first level is a block, and nothing was given back. -/
structure Small (s : Tables) : Prop where
  noBlock : ∀ i, ¬ huge (s.pgd i)
  freed : s.freed = []

theorem BuiltSmall.small (h : BuiltSmall src s) : Small s := by
  induction h with
  | init tab => exact ⟨fun _ => not_huge_zero, rfl⟩
  | map hs hflags hmap ih =>
    obtain ⟨hhuge, hfreed⟩ :=
      (archGuestMap_inv kept_true hs.built.tablesOk.sound hmap).2 (not_not.mpr hflags)
    exact ⟨fun k hk => ih.noBlock k (hhuge k hk), hfreed.trans ih.freed⟩

/-! ## What has been given back -/

/-- From `s` to `s'` the pages in `S` were given back, each once. -/
def Frees (s s' : Tables) (S : Nat → Prop) : Prop :=
  ∃ new, s'.freed = new ++ s.freed ∧ new.Nodup ∧ ∀ p, p ∈ new ↔ S p

variable {S : Nat → Prop}

theorem Frees.refl (s : Tables) (hS : ∀ p, ¬ S p) : Frees s s S :=
  ⟨[], rfl, List.nodup_nil, fun p => iff_of_false List.not_mem_nil (hS p)⟩

variable {S' : Nat → Prop}

theorem Frees.congr {t : Tables} (h : Frees s t S) (hfreed : s'.freed = t.freed)
    (hS : ∀ p, S' p ↔ S p) : Frees s s' S' := by
  obtain ⟨new, hnew, hnodup, hmem⟩ := h
  exact ⟨new, hfreed.trans hnew, hnodup, fun p => (hmem p).trans (hS p).symm⟩

theorem Frees.trans {t : Tables} {S'' : Nat → Prop} (h : Frees s t S) (h' : Frees t s' S')
    (hdisj : ∀ p, S p → ¬ S' p) (hS : ∀ p, S'' p ↔ S p ∨ S' p) : Frees s s' S'' := by
  obtain ⟨new, hfreed, hnodup, hmem⟩ := h
  obtain ⟨new', hfreed', hnodup', hmem'⟩ := h'
  refine ⟨new' ++ new, by rw [hfreed', hfreed, List.append_assoc], ?_, fun p => ?_⟩
  · refine List.nodup_append'.mpr ⟨hnodup', hnodup, fun p hp' hp => ?_⟩
    exact hdisj p ((hmem p).mp hp) ((hmem' p).mp hp')
  · rw [List.mem_append, hmem', hmem, hS, or_comm]

theorem Frees.freePages (h : Frees s s' S) (hp : ¬ S p)
    (hS : ∀ q, S' q ↔ S q ∨ q = p) : Frees s (s'.freePages p) S' :=
  have hone : Frees s' (s'.freePages p) (· = p) :=
    ⟨[p], rfl, List.nodup_singleton p, fun _ => List.mem_singleton⟩
  h.trans hone (fun _ hq heq => hp (heq ▸ hq)) hS

/-! ## Whole tables -/

/-- A loop over `cnt` whole entries meets each at its own address. -/
theorem unmapLoop_whole {next : Nat → Nat → Nat}
    {body : Tables → Nat → Nat → Nat → Option Tables} (size m cnt : Nat) (P : Nat → Tables → Prop)
    (hsize : 0 < size)
    (hnext : ∀ t, t < cnt → next ((m + t) * size) ((m + cnt) * size) = (m + t + 1) * size)
    (hbody : ∀ t s, t < cnt → P t s →
      ∃ s', body s t ((m + t) * size) ((m + t + 1) * size) = some s' ∧ P (t + 1) s') :
    ∀ (left t : Nat) (s : Tables), t < cnt → cnt ≤ left + t → P t s →
      ∃ s', unmapLoop next body left s t ((m + t) * size) ((m + cnt) * size) = some s' ∧
        P cnt s' := by
  intro left
  induction left with
  | zero =>
    intro t s ht hleft
    omega
  | succ left ih =>
    intro t s ht hleft hs
    obtain ⟨u, hu, hP⟩ := hbody t s ht hs
    rw [unmapLoop, hnext t ht, hu, Option.bind_some]
    by_cases hlast : t + 1 = cnt
    · subst hlast
      exact ⟨u, if_pos rfl, hP⟩
    · have hne : (m + t + 1) * size ≠ (m + cnt) * size := fun heq => by
        have := Nat.eq_of_mul_eq_mul_right hsize heq
        omega
      rw [if_neg hne]
      exact ih (t + 1) u (by omega) (by omega) hP

variable {m : Nat}

/-- A table of pages. -/
theorem unmapPte_whole (hm : m < ptrsPerPud * ptrsPerPmd) (p : Nat) (s : Tables) :
    ∃ s', unmapPteRange p s (m * pmdSize) ((m + 1) * pmdSize) = some s' ∧ s'.pgd = s.pgd ∧
      s'.freed = s.freed ∧ ∀ q, q ≠ p → s'.tab q = s.tab q := by
  have hstart : m * pmdSize = (m * ptrsPerPte + 0) * pageSize := by
    simp only [pmdSize, ptrsPerPte, pageSize]
    omega
  have hstop : (m + 1) * pmdSize = (m * ptrsPerPte + ptrsPerPte) * pageSize := by
    simp only [pmdSize, ptrsPerPte, pageSize]
    omega
  have hindex : pteIndex (m * pmdSize) = 0 := by
    simp only [pteIndex, pmdSize, ptrsPerPte, pageSize]
    omega
  rw [unmapPteRange, hindex, hstart, hstop]
  refine unmapLoop_whole pageSize _ ptrsPerPte (fun _ t => t.pgd = s.pgd ∧ t.freed = s.freed ∧
    ∀ q, q ≠ p → t.tab q = s.tab q) (by decide) ?_ ?_ _ 0 s (by decide) (by decide)
    ⟨rfl, rfl, fun _ _ => rfl⟩
  · intro t ht
    simp only [ptrsPerPud, ptrsPerPmd] at hm
    simp only [u64, pageSize, ptrsPerPte] at ht ⊢
    omega
  · rintro t u - ⟨hpgd, hfreed, htab⟩
    split
    · refine ⟨_, rfl, hpgd, hfreed, fun q hq => ?_⟩
      rw [← htab q hq]
      exact Function.update_of_ne hq ..
    · exact ⟨u, rfl, hpgd, hfreed, htab⟩

variable {t : Nat}

theorem addrEnd_whole {size cnt : Nat} (hsize : 0 < size) (hle : size ≤ pudSize) (ht : t < cnt)
    (hcnt : (m + cnt) * size ≤ vmmVirtMax) :
    addrEnd size ((m + t) * size) ((m + cnt) * size) = (m + t + 1) * size := by
  have hlt : (m + t) * size < (m + cnt) * size :=
    Nat.mul_lt_mul_of_pos_right (by omega) hsize
  have hend : (m + t + 1) * size ≤ (m + cnt) * size := Nat.mul_le_mul_right _ (by omega)
  rw [addrEnd_eq hsize hle hlt hcnt, pieceEnd, Nat.mul_div_cancel _ hsize, ← Nat.succ_mul]
  exact Nat.min_eq_left hend

theorem isRange_whole {size : Nat} (hlt : (m + 1) * size < 2 ^ 64) :
    isRange size (m * size) ((m + 1) * size) := by
  refine ⟨Nat.mul_mod_left .., ?_⟩
  rw [Nat.succ_mul] at hlt ⊢
  rw [sub64_of_le (Nat.le_add_right ..) hlt, Nat.add_sub_cancel_left]

/-- Entry `j` of the table `a` is the table `p`. -/
def TableAt (s : Tables) (a j p : Nat) : Prop :=
  s.tab a j &&& 3 = desTable ∧ tableAddr (s.tab a j) = p

theorem TableAt.role_eq (h : TableAt s a j p) (hentry : EntryOk role (.pte i j) (s.tab a j)) :
    role p = .pte i j := h.2 ▸ hentry.role_of_table h.1

/-- `u` is `s` after the entries below `t` of the table `a`, which is that of
entry `i`. -/
structure PmdSwept (role : Nat → Role) (i a : Nat) (s : Tables) (t : Nat) (u : Tables) : Prop where
  pgd : u.pgd = s.pgd
  other : ∀ q, q ≠ a → (∀ j, role q ≠ .pte i j) → u.tab q = s.tab q
  self : ∀ j, t ≤ j → u.tab a j = s.tab a j
  frees : Frees s u fun p => ∃ j < t, TableAt s a j p

variable {u v : Tables}

theorem PmdSwept.skip (h : PmdSwept role i a s t u)
    (hno : ¬ s.tab a t &&& 3 = desTable) (hpgd : v.pgd = u.pgd) (hfreed : v.freed = u.freed)
    (htab : ∀ q k, q ≠ a ∨ k ≠ t → v.tab q k = u.tab q k) : PmdSwept role i a s (t + 1) v where
  pgd := hpgd.trans h.pgd
  other := by
    intro q hq hrole
    rw [← h.other q hq hrole]
    exact funext fun k => htab q k (.inl hq)
  self := by
    intro j hj
    rw [htab a j (.inr (by omega)), h.self j (by omega)]
  frees := h.frees.congr hfreed fun q => by
    rw [Nat.exists_lt_succ_right, or_iff_left fun hq => hno hq.1]

/-- An entry that is a table: its pages are unmapped, and it is given back. -/
theorem PmdSwept.table (h : PmdSwept role i a s t u)
    (ha : role a = .pmd i) (hentry : ∀ j, j ≤ t → EntryOk role (.pte i j) (s.tab a j))
    (hp : TableAt s a t p) (hpgd : v.pgd = u.pgd) (hfreed : v.freed = u.freed)
    (htab : ∀ q, q ≠ p → v.tab q = u.tab q) :
    PmdSwept role i a s (t + 1) ((v.setTab a t 0).freePages p) := by
  have hrole : role p = .pte i t := hp.role_eq (hentry t (Nat.le_refl t))
  have hap : a ≠ p := by
    rintro rfl
    rw [ha] at hrole
    cases hrole
  have hfrees : Frees s (v.setTab a t 0) fun p => ∃ j < t, TableAt s a j p :=
    h.frees.congr hfreed fun _ => Iff.rfl
  refine ⟨hpgd.trans h.pgd, fun q hq hne => ?_, fun j hj => ?_, hfrees.freePages ?_ fun q => ?_⟩
  · have hqp : q ≠ p := by
      rintro rfl
      exact hne t hrole
    rw [← h.other q hq hne, ← htab q hqp]
    exact Function.update_of_ne hq ..
  · show (v.setTab a t 0).tab a j = _
    rw [setTab_of_ne (.inr (by omega)), htab a hap, h.self j (by omega)]
  · rintro ⟨j, hj, hat⟩
    -- the tables given back so far have other roles
    have hother := hat.role_eq (hentry j (by omega))
    rw [hrole] at hother
    cases hother
    exact Nat.lt_irrefl _ hj
  · rw [Nat.exists_lt_succ_right]
    refine or_congr_right ⟨fun hq => hq.2.symm.trans hp.2, ?_⟩
    rintro rfl
    exact hp

/-- A table of the second level, with the roles its entries have. -/
theorem unmapPmd_whole (hi : i < ptrsPerPud) (ha : role a = .pmd i)
    (hentry : ∀ j, j < ptrsPerPmd → EntryOk role (.pte i j) (s.tab a j)) :
    ∃ s', unmapPmdRange a s (i * pudSize) ((i + 1) * pudSize) = some s' ∧
      PmdSwept role i a s ptrsPerPmd s' := by
  have hstart : i * pudSize = (i * ptrsPerPmd + 0) * pmdSize := by
    simp only [pudSize, ptrsPerPmd, pmdSize]
    omega
  have hstop : (i + 1) * pudSize = (i * ptrsPerPmd + ptrsPerPmd) * pmdSize := by
    simp only [pudSize, ptrsPerPmd, pmdSize]
    omega
  have hindex : pmdIndex (i * pudSize) = 0 := by
    simp only [pmdIndex, pudSize, ptrsPerPmd, pmdSize]
    omega
  have hbound : (i * ptrsPerPmd + ptrsPerPmd) * pmdSize ≤ vmmVirtMax := by
    simp only [ptrsPerPud, ptrsPerPmd, pmdSize, vmmVirtMax] at *
    omega
  have hinit : PmdSwept role i a s 0 s := by
    refine ⟨rfl, fun _ _ _ => rfl, fun _ _ => rfl, .refl s fun p hp => ?_⟩
    obtain ⟨j, hj, -⟩ := hp
    exact Nat.not_lt_zero j hj
  rw [unmapPmdRange, hindex, hstart, hstop]
  refine unmapLoop_whole pmdSize _ ptrsPerPmd (PmdSwept role i a s) (by decide)
    (fun t ht => addrEnd_whole (by decide) (by decide) ht hbound) ?_ (ptrsPerPmd - 0) 0 s
    (by decide) (by decide) hinit
  intro t u ht hu
  rw [unmapPmdEntry, hu.self t (Nat.le_refl t)]
  by_cases h0 : s.tab a t = 0
  · rw [if_pos h0]
    exact ⟨u, rfl, hu.skip (h0 ▸ zero_ne_table) rfl rfl fun _ _ _ => rfl⟩
  rw [if_neg h0]
  by_cases hb : huge (s.tab a t)
  · rw [if_pos hb]
    exact ⟨_, rfl, hu.skip (block_ne_table (huge_iff.mp hb)) rfl rfl fun _ _ => setTab_of_ne⟩
  rw [if_neg hb]
  have hm : i * ptrsPerPmd + t < ptrsPerPud * ptrsPerPmd := by
    simp only [ptrsPerPud, ptrsPerPmd] at *
    omega
  obtain ⟨v, hv, hpgd, hfreed, htab⟩ := unmapPte_whole hm (tableAddr (s.tab a t)) u
  have hrange : isRange pmdSize ((i * ptrsPerPmd + t) * pmdSize)
      ((i * ptrsPerPmd + t + 1) * pmdSize) := by
    refine isRange_whole ?_
    simp only [ptrsPerPud, ptrsPerPmd, pmdSize] at *
    omega
  refine ⟨_, by rw [hv, Option.map_some, if_pos hrange], ?_⟩
  exact hu.table ha (fun j hj => hentry j (by omega)) ⟨((hentry t ht).table h0 hb).1, rfl⟩
    hpgd hfreed htab

/-! ## The first table -/

/-- `p` is the table of entry `i`, or one below it. -/
def TableOf (s : Tables) (i p : Nat) : Prop := PmdAt s i p ∨ ∃ j < ptrsPerPmd, PteAt s i j p

theorem WellFormed.role_tableOf (h : WellFormed src s role) (hi : i < ptrsPerPud)
    (hp : TableOf s i p) : role p = .pmd i ∨ ∃ j, role p = .pte i j := by
  obtain hp | ⟨j, hj, hp⟩ := hp
  · exact .inl (h.role_pmd hi hp)
  · exact .inr ⟨j, h.role_pte hi hj hp⟩

/-- `u` is `s` after the entries below `t` of the first table. -/
structure Swept (s : Tables) (t : Nat) (u : Tables) : Prop where
  cleared : ∀ i, i < t → u.pgd i = 0
  rest : ∀ i, t ≤ i → u.pgd i = s.pgd i
  tab : ∀ i a, t ≤ i → i < ptrsPerPud → PmdAt s i a → u.tab a = s.tab a
  frees : Frees s u fun p => ∃ i < t, TableOf s i p

theorem pmdAt_zero (h0 : s.pgd i = 0) : ¬ PmdAt s i a := fun ha => zero_ne_table (h0 ▸ ha.1)

theorem Swept.empty (h : Swept s t u) (h0 : s.pgd t = 0) :
    Swept s (t + 1) u where
  cleared := by
    intro i hi
    obtain hlt | rfl := Nat.lt_succ_iff_lt_or_eq.mp hi
    · exact h.cleared i hlt
    · rw [h.rest i (Nat.le_refl i), h0]
  rest := fun i hi => h.rest i (by omega)
  tab := fun i a hi => h.tab i a (by omega)
  frees := h.frees.congr rfl fun q => by
    rw [Nat.exists_lt_succ_right, or_iff_left]
    rintro (hq | ⟨j, -, a, ha, -⟩)
    · exact pmdAt_zero h0 hq
    · exact pmdAt_zero h0 ha

/-- A table, and all tables below it. -/
theorem Swept.table (hwf : WellFormed src s role) (h : Swept s t u)
    (ht : t < ptrsPerPud) (ha : PmdAt s t a) (hv : PmdSwept role t a u ptrsPerPmd v) :
    Swept s (t + 1) ((v.setPgd t 0).freePages a) := by
  have hsame : u.tab a = s.tab a := h.tab t a (Nat.le_refl t) ht ha
  have hbelow (q : Nat) : (∃ j < ptrsPerPmd, TableAt u a j q) ↔
      ∃ j < ptrsPerPmd, PteAt s t j q := by
    refine exists_congr fun j => and_congr_right fun _ => ?_
    rw [TableAt, hsame]
    refine ⟨fun hq => ⟨a, ha, hq⟩, ?_⟩
    rintro ⟨a', ha', hq⟩
    rwa [← ha.2, ha'.2]
  have hrole (q : Nat) (hq : ∃ i < t, TableOf s i q) :
      ∃ i < t, role q = .pmd i ∨ ∃ j, role q = .pte i j := by
    obtain ⟨i, hi, hq⟩ := hq
    exact ⟨i, hi, hwf.role_tableOf (by omega) hq⟩
  refine ⟨fun i hi => ?_, fun i hi => ?_, fun i b hi hlt hb => ?_, ?_⟩
  · show (v.setPgd t 0).pgd i = 0
    by_cases hit : i = t
    · rw [hit, setPgd_self]
    · rw [setPgd_of_ne hit, hv.pgd, h.cleared i (by omega)]
  · show (v.setPgd t 0).pgd i = _
    rw [setPgd_of_ne (by omega), hv.pgd, h.rest i (by omega)]
  · -- the table of a later entry has another role
    have hbrole := hwf.role_pmd hlt hb
    refine (hv.other b ?_ fun j hj => ?_).trans (h.tab i b (by omega) hlt hb)
    · rintro rfl
      rw [hwf.role_pmd ht ha] at hbrole
      cases hbrole
      omega
    · rw [hj] at hbrole
      cases hbrole
  · have hfrees : Frees s v fun q =>
        (∃ i < t, TableOf s i q) ∨ ∃ j < ptrsPerPmd, TableAt u a j q := by
      refine h.frees.trans hv.frees (fun q hq hq' => ?_) fun _ => Iff.rfl
      obtain ⟨i, hi, hold⟩ := hrole q hq
      obtain ⟨j, hj, hat⟩ := (hbelow q).mp hq'
      rw [hwf.role_pte ht hj hat] at hold
      obtain hold | ⟨j', hold⟩ := hold
      · cases hold
      · cases hold
        exact Nat.lt_irrefl _ hi
    have hfrees' : Frees s (v.setPgd t 0) _ := hfrees.congr rfl fun _ => Iff.rfl
    refine hfrees'.freePages ?_ fun q => ?_
    · have harole := hwf.role_pmd ht ha
      rintro (hq | hq)
      · obtain ⟨i, hi, hold⟩ := hrole a hq
        rw [harole] at hold
        obtain hold | ⟨j', hold⟩ := hold
        · cases hold
          exact Nat.lt_irrefl _ hi
        · cases hold
      · obtain ⟨j, hj, hat⟩ := (hbelow a).mp hq
        rw [hwf.role_pte ht hj hat] at harole
        cases harole
    · rw [Nat.exists_lt_succ_right, hbelow, or_assoc]
      refine or_congr_right ?_
      rw [TableOf, or_comm]
      refine or_congr_right ⟨fun hq => hq.2.symm.trans ha.2, ?_⟩
      rintro rfl
      exact ha

theorem unmapPud_whole (hwf : WellFormed src s role) (hsmall : Small s) :
    ∃ s', unmapPudRange s 0 vmmVirtMax = some s' ∧ Swept s ptrsPerPud s' := by
  -- the index of `end` is that of `start`
  have hindex : pudIndex vmmVirtMax = 0 := rfl
  have hinit : Swept s 0 s := by
    refine ⟨fun i hi => absurd hi (Nat.not_lt_zero i), fun _ _ => rfl, fun _ _ _ _ _ => rfl,
      .refl s fun p hp => ?_⟩
    obtain ⟨j, hj, -⟩ := hp
    exact Nat.not_lt_zero j hj
  rw [unmapPudRange, hindex]
  refine unmapLoop_whole pudSize 0 ptrsPerPud (Swept s) (by decide)
    (fun t ht => addrEnd_whole (by decide) (by decide) ht (by decide)) ?_ (ptrsPerPud - 0) 0 s
    (by decide) (by decide) hinit
  intro t u ht hu
  rw [unmapPudEntry, hu.rest t (Nat.le_refl t), Nat.zero_add]
  by_cases h0 : s.pgd t = 0
  · rw [if_pos h0]
    exact ⟨u, rfl, hu.empty h0⟩
  have hb := hsmall.noBlock t
  obtain ⟨htable, -⟩ := (hwf.pud t ht).table h0 hb
  have ha : PmdAt s t (tableAddr (s.pgd t)) := ⟨htable, rfl⟩
  obtain ⟨v, hv, hswept⟩ := unmapPmd_whole (s := u) ht (hwf.role_pmd ht ha) fun j hj => by
    rw [hu.tab t _ (Nat.le_refl t) ht ha]
    exact hwf.pmd t _ ht ha j hj
  have hrange : isRange pudSize (t * pudSize) ((t + 1) * pudSize) := by
    refine isRange_whole ?_
    simp only [ptrsPerPud, pudSize] at *
    omega
  rw [if_neg h0, if_neg hb, hv]
  exact ⟨_, by rw [Option.map_some, if_pos hrange], hu.table hwf ht ha hswept⟩

/-- **Releasing a guest.** For every table built by maps without 1GB blocks
the unmap of the whole range comes to an end, leaves the first table empty,
and gives back every table below it exactly once. -/
theorem release_frees_tables (hb : BuiltSmall src s) :
    ∃ s', releaseMappings s = some (none, s') ∧ (∀ i, i < ptrsPerPud → s'.pgd i = 0) ∧
      s'.freed.Nodup ∧ ∀ p, p ∈ s'.freed ↔ ∃ i < ptrsPerPud, TableOf s i p := by
  obtain ⟨role, hwf⟩ := hb.built.tablesOk
  obtain ⟨s', hs', hswept⟩ := unmapPud_whole hwf hb.small
  obtain ⟨new, hfreed, hnodup, hmem⟩ := hswept.frees
  rw [hb.small.freed, List.append_nil] at hfreed
  have hrun : releaseMappings s = (unmapPudRange s 0 vmmVirtMax).map fun s => (none, s) := rfl
  refine ⟨s', by rw [hrun, hs', Option.map_some], hswept.cleared, hfreed ▸ hnodup, fun p => ?_⟩
  rw [hfreed]
  exact hmem p

/-- A page, a 2MB block and a page have three tables. -/
theorem release_frees_tables_mixed :
    ∃ s s', BuiltSmall pagePool s ∧ releaseMappings s = some (none, s') ∧
      (∀ i, i < ptrsPerPud → s'.pgd i = 0) ∧ s'.freed.Nodup ∧
      2 ^ 28 ∈ s'.freed ∧ 2 ^ 28 + pageSize ∈ s'.freed ∧ 2 ^ 28 + 2 * pageSize ∈ s'.freed := by
  obtain ⟨s, hmap, hpgd, hfirst, hlast⟩ : ∃ s, archGuestMap pagePool noTables 0x1ff000 0x401000
      0x801ff000 guestRam = some (none, s) ∧ s.pgd 0 = 0x10000003 ∧
        s.tab (2 ^ 28) 0 = 0x10001003 ∧ s.tab (2 ^ 28) 2 = 0x10002003 := by
    decide +kernel
  have hsmall : BuiltSmall pagePool s := BuiltSmall.map (.init _) (by decide) hmap
  obtain ⟨s', hs', hclear, hnodup, hmem⟩ := release_frees_tables hsmall
  have hpmd : PmdAt s 0 (2 ^ 28) := by
    rw [PmdAt, hpgd]
    decide
  have hpte (j p : Nat) (hj : j < ptrsPerPmd) (hat : TableAt s (2 ^ 28) j p) : p ∈ s'.freed :=
    (hmem p).mpr ⟨0, by decide, .inr ⟨j, hj, 2 ^ 28, hpmd, hat⟩⟩
  refine ⟨s, s', hsmall, hs', hclear, hnodup, (hmem _).mpr ⟨0, by decide, .inl hpmd⟩,
    hpte 0 _ (by decide) ?_, hpte 2 _ (by decide) ?_⟩
  · rw [TableAt, hfirst]
    decide
  · rw [TableAt, hlast]
    decide

end Minos.Stage2
