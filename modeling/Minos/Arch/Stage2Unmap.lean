import Minos.Arch.Stage2Map

/-!
# Unmapping guest memory

`arch_guest_unmap` clears descriptors: a page that lies in the range it
walks, and a 2MB block that meets it, whole. The range it walks is that of its
arguments moved to the 1GB of `end`, where `stage2_unmap_pud_range` starts:
the entries of the first level are those from `stage2_pud_offset(end)` on, and
the lower levels take their indices from the address.

So what an unmap removes is stated on the moved range, `Unmaps`, and compared
with the range asked for at the end.
-/

namespace Minos.Stage2

open Minos.Lib

variable {src : PageSource} {K : Tables → (Nat → Role) → Prop} {s s' t : Tables}
  {role : Nat → Role} {i j a p ipa lo hi size m : Nat} {l : Leaf}
  {body : Tables → Nat → Nat → Nat → Option Tables}

/-! ## What a range removes -/

/-- The page or block that maps `ipa` has a part in `[lo, hi)`. -/
def hit (lo hi ipa : Nat) (l : Leaf) : Prop :=
  ipa / l.size * l.size < hi ∧ lo < ipa / l.size * l.size + l.size

instance (lo hi ipa : Nat) (l : Leaf) : Decidable (hit lo hi ipa l) :=
  inferInstanceAs (Decidable (_ ∧ _))

/-- `s'` is `s` without what has a part in `[lo, hi)`. -/
def Unmaps (s s' : Tables) (lo hi : Nat) : Prop :=
  ∀ ipa, walk s' ipa = (walk s ipa).filter fun l => ¬ hit lo hi ipa l

theorem hit_of_mem (hsize : 0 < l.size) (hlo : lo ≤ ipa) (hhi : ipa < hi) : hit lo hi ipa l := by
  have hbelow : ipa / l.size * l.size ≤ ipa := Nat.div_mul_le_self ..
  have habove : ipa < ipa / l.size * l.size + l.size := Nat.lt_div_mul_add hsize
  exact ⟨by omega, by omega⟩

/-- A page or block inside an entry has no part in another entry. -/
theorem not_hit_of_entry (hdvd : l.size ∣ size) (hsize : 0 < size)
    (hne : ipa / size ≠ m) (hlo : m * size ≤ lo) (hhi : hi ≤ m * size + size) :
    ¬ hit lo hi ipa l := by
  obtain ⟨c, rfl⟩ := hdvd
  have hpos : 0 < l.size := Nat.pos_of_mul_pos_right hsize
  -- the entry of `ipa` starts and ends at multiples of the leaf's size
  have hbelow : ipa / (l.size * c) * (l.size * c) ≤ ipa / l.size * l.size := by
    rw [Nat.mul_comm l.size c, ← Nat.mul_assoc]
    apply Nat.mul_le_mul_right
    rw [Nat.le_div_iff_mul_le hpos, Nat.mul_assoc]
    exact Nat.div_mul_le_self ..
  have habove : ipa / l.size * l.size + l.size ≤
      ipa / (l.size * c) * (l.size * c) + l.size * c := by
    rw [← Nat.succ_mul, ← Nat.succ_mul, Nat.mul_comm l.size c, ← Nat.mul_assoc]
    apply Nat.mul_le_mul_right
    rw [Nat.succ_le_iff, Nat.div_lt_iff_lt_mul hpos, Nat.mul_assoc, Nat.succ_mul]
    exact Nat.lt_div_mul_add (by rw [Nat.mul_comm]; exact hsize)
  rintro ⟨h1, h2⟩
  rcases Nat.lt_or_gt_of_ne hne with hlt | hgt
  · have hle := Nat.mul_le_mul_right (l.size * c) hlt
    rw [Nat.succ_mul] at hle
    omega
  · have hle := Nat.mul_le_mul_right (l.size * c) hgt
    rw [Nat.succ_mul] at hle
    omega

theorem hit_split {mid : Nat} (hsize : 0 < l.size) (h1 : lo < mid) (h2 : mid < hi) :
    hit lo hi ipa l ↔ hit lo mid ipa l ∨ hit mid hi ipa l := by
  simp only [hit]
  omega

/-! ## The sizes of leaves -/

theorem pteWalk_size {t : Nat → Entry} (h : pteWalk t ipa = some l) : l.size = pageSize := by
  rw [pteWalk] at h
  split at h
  · cases h
    rfl
  · cases h

theorem pmdWalk_size {t : Nat → Entry} (h : pmdWalk s t ipa = some l) : l.size ∣ pmdSize := by
  rw [pmdWalk] at h
  split at h
  · cases h
    exact Nat.dvd_refl _
  split at h
  · rw [pteWalk_size h]
    decide
  · cases h

theorem walk_lt (h : walk s ipa = some l) : ipa < vmmVirtMax := by
  rw [walk] at h
  split at h
  · assumption
  · cases h

theorem walk_size (h : walk s ipa = some l) : l.size ∣ pudSize := by
  have hlt := walk_lt h
  rw [walk, if_pos hlt, pudWalk] at h
  split at h
  · cases h
    exact Nat.dvd_refl _
  split at h
  · exact Nat.dvd_trans (pmdWalk_size h) (by decide)
  · cases h

theorem walk_size_pos (h : walk s ipa = some l) : 0 < l.size :=
  Nat.pos_of_dvd_of_pos (walk_size h) (by decide)

theorem walk_size_of_pmdAt (ha : PmdAt s (pudIndex ipa) a) (h : walk s ipa = some l) :
    l.size ∣ pmdSize := by
  rw [walk_of_pmdAt (walk_lt h) ha] at h
  exact pmdWalk_size h

theorem walk_size_of_pteAt (hp : PteAt s (pudIndex ipa) (pmdIndex ipa) p)
    (h : walk s ipa = some l) : l.size = pageSize := by
  rw [walk_of_pteAt (walk_lt h) hp] at h
  exact pteWalk_size h

theorem pmd_in_pud (hj : j < ptrsPerPmd) :
    i * pudSize ≤ (i * ptrsPerPmd + j) * pmdSize ∧
      (i * ptrsPerPmd + j) * pmdSize + pmdSize ≤ i * pudSize + pudSize := by
  simp only [pudSize, pmdSize, ptrsPerPmd] at *
  omega

theorem pte_in_pmd {k m : Nat} (hk : k < ptrsPerPte) :
    m * pmdSize ≤ (m * ptrsPerPte + k) * pageSize ∧
      (m * ptrsPerPte + k) * pageSize + pageSize ≤ m * pmdSize + pmdSize := by
  simp only [pmdSize, pageSize, ptrsPerPte] at *
  omega

theorem not_hit_pud (hl : walk s ipa = some l) (hne : ipa / pudSize ≠ i)
    (hlo : i * pudSize ≤ lo) (hhi : hi ≤ i * pudSize + pudSize) : ¬ hit lo hi ipa l :=
  not_hit_of_entry (walk_size hl) (by decide) hne hlo hhi

theorem not_hit_pmd (hj : j < ptrsPerPmd) (ha : PmdAt s i a) (hl : walk s ipa = some l)
    (hne : ipa / pmdSize ≠ i * ptrsPerPmd + j) (hlo : (i * ptrsPerPmd + j) * pmdSize ≤ lo)
    (hhi : hi ≤ (i * ptrsPerPmd + j) * pmdSize + pmdSize) : ¬ hit lo hi ipa l := by
  by_cases hpud : ipa / pudSize = i
  · obtain rfl := (pud_entry_iff (walk_lt hl)).mpr hpud
    exact not_hit_of_entry (walk_size_of_pmdAt ha hl) (by decide) hne hlo hhi
  · obtain ⟨h1, h2⟩ := pmd_in_pud (i := i) hj
    exact not_hit_pud hl hpud (Nat.le_trans h1 hlo) (Nat.le_trans hhi h2)

theorem not_hit_pte {k : Nat} (hj : j < ptrsPerPmd) (hk : k < ptrsPerPte) (hp : PteAt s i j p)
    (hl : walk s ipa = some l)
    (hne : ipa / pageSize ≠ (i * ptrsPerPmd + j) * ptrsPerPte + k)
    (hlo : ((i * ptrsPerPmd + j) * ptrsPerPte + k) * pageSize ≤ lo)
    (hhi : hi ≤ ((i * ptrsPerPmd + j) * ptrsPerPte + k) * pageSize + pageSize) :
    ¬ hit lo hi ipa l := by
  by_cases hpmd : ipa / pmdSize = i * ptrsPerPmd + j
  · obtain ⟨rfl, rfl⟩ := (pmd_entry_iff (walk_lt hl) hj).mpr hpmd
    have hdvd : l.size ∣ pageSize := ⟨1, by rw [walk_size_of_pteAt hp hl, Nat.mul_one]⟩
    exact not_hit_of_entry hdvd (by decide) hne hlo hhi
  · obtain ⟨a, ha, -⟩ := hp
    obtain ⟨h1, h2⟩ := pte_in_pmd (m := i * ptrsPerPmd + j) hk
    exact not_hit_pmd hj ha hl hpmd (Nat.le_trans h1 hlo) (Nat.le_trans hhi h2)

/-! ## Range after range -/

theorem Unmaps.trans {mid : Nat} (h1 : Unmaps s t lo mid) (h2 : Unmaps t s' mid hi)
    (hlt1 : lo < mid) (hlt2 : mid < hi) : Unmaps s s' lo hi := by
  intro ipa
  rw [h2 ipa, h1 ipa]
  cases hl : walk s ipa with
  | none => rfl
  | some l =>
    have hsplit : hit lo hi ipa l ↔ _ := hit_split (walk_size_pos hl) hlt1 hlt2
    by_cases ha : hit lo mid ipa l <;> by_cases hb : hit mid hi ipa l <;>
      simp [Option.filter, ha, hb, hsplit]

theorem Unmaps.congr (h : Unmaps s t lo hi) (hwalk : ∀ ipa, walk s' ipa = walk t ipa) :
    Unmaps s s' lo hi := fun ipa => (hwalk ipa).trans (h ipa)

/-- Clearing one entry, all of which has a part in the range. -/
theorem unmaps_entry (size m : Nat) (hself : ∀ ipa, ipa < vmmVirtMax → ipa / size = m →
      walk s' ipa = none ∧ ∀ l, walk s ipa = some l → hit lo hi ipa l)
    (hother : ∀ ipa, ipa < vmmVirtMax → ipa / size ≠ m →
      walk s' ipa = walk s ipa ∧ ∀ l, walk s ipa = some l → ¬ hit lo hi ipa l) :
    Unmaps s s' lo hi := by
  intro ipa
  by_cases hlt : ipa < vmmVirtMax
  · by_cases hm : ipa / size = m
    · obtain ⟨hnone, hhit⟩ := hself ipa hlt hm
      rw [hnone]
      cases hl : walk s ipa with
      | none => rfl
      | some l => simp [Option.filter, hhit l hl]
    · obtain ⟨hsame, hmiss⟩ := hother ipa hlt hm
      rw [hsame]
      cases hl : walk s ipa with
      | none => rfl
      | some l => simp [Option.filter, hmiss l hl]
  · rw [walk_of_ge hlt, walk_of_ge hlt]
    rfl

section Loop

variable {size big e q m addr next stop : Nat}

theorem Piece.zero (h : Piece size e addr stop m) : Piece size e addr stop 0 :=
  ⟨h.lt, h.entry, h.le, h.stop_le, h.start_page, h.stop_page, rfl, by
    have := h.physical_lt
    omega⟩

/-- The address at the place of `addr` in entry `m` of `size` bytes. -/
def moved (size m addr : Nat) : Nat := m * size + addr % size

theorem Piece.moved (h : Piece size q addr next 0) (m : Nat) :
    m * size ≤ moved size m addr ∧ moved size m addr < moved size m addr + (next - addr) ∧
      moved size m addr + (next - addr) ≤ m * size + size := by
  have hlt := h.lt
  have hle := h.le
  have hdiv := Nat.div_add_mod' addr size
  rw [h.entry] at hdiv
  rw [Stage2.moved]
  omega

/-- `s'` is `s` without what has a part in `[addr, next)`, moved to entry `m`. -/
def UnmapsAt (s s' : Tables) (size m addr next : Nat) : Prop :=
  Unmaps s s' (Stage2.moved size m addr) (Stage2.moved size m addr + (next - addr))

/-- The number of entries that a range has a part in, less one. -/
def moreEntries (size addr stop : Nat) : Nat := (stop - 1) / size - addr / size

theorem moreEntries_rest (hlt : pieceEnd size addr stop < stop)
    (hsucc : pieceEnd size addr stop / size = addr / size + 1) :
    moreEntries size addr stop = moreEntries size (pieceEnd size addr stop) stop + 1 := by
  have hle : pieceEnd size addr stop / size ≤ (stop - 1) / size :=
    Nat.div_le_div_right (by omega)
  rw [moreEntries, moreEntries]
  omega

/-- A loop over entries `idx` and on removes its range, moved to these
entries, if each of its bodies does. -/
theorem unmapLoop_unmaps {nextEnd : Nat → Nat → Nat} (P : Tables → Prop) (Q : Nat → Prop)
    (base : Nat) (hcut : Cuts nextEnd size big e)
    (hbody : ∀ s idx q addr next, Q idx → P s → Piece size q addr next 0 →
      ∃ s', body s idx addr next = some s' ∧ P s' ∧ UnmapsAt s s' size (base + idx) addr next) :
    ∀ (left : Nat) (s : Tables) (idx addr stop : Nat), P s → Piece big e addr stop 0 →
      moreEntries size addr stop < left → (∀ t, t ≤ moreEntries size addr stop → Q (idx + t)) →
      ∃ s', unmapLoop nextEnd body left s idx addr stop = some s' ∧ P s' ∧
        UnmapsAt s s' size (base + idx) addr stop := by
  intro left
  induction left with
  | zero =>
    intro s idx addr stop _ _ hleft
    omega
  | succ left ih =>
    intro s idx addr stop hs hpiece hleft hQ
    have hfirst := hpiece.first hcut.pos hcut.page
    obtain ⟨t, hbody, ht, hunmaps⟩ := hbody s idx _ _ _ (hQ 0 (by omega)) hs hfirst
    rw [unmapLoop, hcut.next _ _ _ hpiece, hbody, Option.bind_some]
    by_cases hlast : pieceEnd size addr stop = stop
    · rw [if_pos hlast]
      rw [hlast] at hunmaps
      exact ⟨t, rfl, ht, hunmaps⟩
    · rw [if_neg hlast]
      obtain ⟨hrest, hsucc⟩ := hpiece.rest hcut.pos hcut.page hlast
      have hmore := moreEntries_rest hrest.lt hsucc
      obtain ⟨s', hloop, hs', hunmaps'⟩ := ih t (idx + 1) _ stop ht hrest.zero (by omega) (by
        intro k hk
        have := hQ (k + 1) (by omega)
        rwa [Nat.add_right_comm idx 1 k])
      refine ⟨s', hloop, hs', ?_⟩
      -- the rest starts where the first piece ends
      have hend := pieceEnd_of_ne hlast
      have hdiv := Nat.div_add_mod' addr size
      have hmoved : moved size (base + (idx + 1)) (pieceEnd size addr stop) =
          moved size (base + idx) addr + (pieceEnd size addr stop - addr) := by
        have hlt := hfirst.lt
        rw [moved, moved, hend, Nat.mul_mod_left, ← Nat.add_assoc base idx 1, Nat.succ_mul]
        rw [Nat.succ_mul] at hend ⊢
        omega
      rw [UnmapsAt, hmoved] at hunmaps'
      have hlt1 := hfirst.lt
      have hlt2 := hrest.lt
      have hhi : moved size (base + idx) addr + (pieceEnd size addr stop - addr) +
          (stop - pieceEnd size addr stop) = moved size (base + idx) addr + (stop - addr) := by
        omega
      rw [hhi] at hunmaps'
      exact hunmaps.trans hunmaps' (by omega) (by omega)

end Loop

/-! ## The three levels -/

theorem Piece.page_len {q addr next : Nat} (h : Piece pageSize q addr next 0) :
    next - addr = pageSize := by
  obtain ⟨h1, h2, h3, -, h5, h6, -, -⟩ := h
  simp only [pageSize] at *
  omega

section Levels

variable {idx q addr next stop : Nat}

theorem setTab_same {k : Nat} {e : Entry} (h : s.tab p k = e) : s.setTab p k e = s := by
  rw [Tables.setTab, ← h, Function.update_eq_self, Function.update_eq_self]

theorem unmapPte_entry (hK : Kept K) (hi : i < ptrsPerPud) (hj : j < ptrsPerPmd)
    (hk : idx < ptrsPerPte) (hs : UnderPte src K i a j p s)
    (hpiece : Piece pageSize q addr next 0) :
    ∃ s', (if s.tab p idx ≠ 0 then some (s.setTab p idx 0) else some s) = some s' ∧
      UnderPte src K i a j p s' ∧
      UnmapsAt s s' pageSize ((i * ptrsPerPmd + j) * ptrsPerPte + idx) addr next := by
  obtain ⟨hlo, -, hhi⟩ := hpiece.moved ((i * ptrsPerPmd + j) * ptrsPerPte + idx)
  have hs0 := hs
  obtain ⟨role, hwf, -, ha, htable⟩ := hs0
  have hpte : PteAt s i j p := ⟨a, ha, htable⟩
  refine ⟨s.setTab p idx 0, ?_, hs.setPte hK hi hj (.inl rfl) _,
    unmaps_entry pageSize ((i * ptrsPerPmd + j) * ptrsPerPte + idx) ?_ ?_⟩
  · split
    · rfl
    · rename_i h0
      rw [setTab_same (not_not.mp h0)]
  · intro ipa hlt hat
    refine ⟨?_, fun l hl => ?_⟩
    · obtain ⟨rfl, rfl, rfl⟩ := (pte_entry_iff hlt hj hk).mpr hat
      rw [walk_setPte_self hwf hlt hpte, if_neg zero_ne_page]
    · have hbelow : ipa / pageSize * pageSize ≤ ipa := Nat.div_mul_le_self ..
      have habove : ipa < ipa / pageSize * pageSize + pageSize := Nat.lt_div_mul_add (by decide)
      rw [moved, hpiece.start_page, ← hat, hpiece.page_len, Nat.add_zero]
      exact hit_of_mem (walk_size_pos hl) hbelow habove
  · intro ipa hlt hat
    refine ⟨?_, fun l hl => not_hit_pte hj hk hpte hl hat hlo hhi⟩
    exact walk_setPte_of_ne hwf (hwf.role_pte hi hj hpte) fun h =>
      hat ((pte_entry_iff hlt hj hk).mp h)

theorem unmapPteRange_unmaps (hK : Kept K) (hi : i < ptrsPerPud) (hj : j < ptrsPerPmd)
    (hs : UnderPte src K i a j p s) (hpiece : Piece pmdSize m addr stop 0) :
    ∃ s', unmapPteRange p s addr stop = some s' ∧ UnderPte src K i a j p s' ∧
      UnmapsAt s s' pmdSize (i * ptrsPerPmd + j) addr stop := by
  have hmore : pteIndex addr + moreEntries pageSize addr stop < ptrsPerPte := by
    obtain ⟨h1, h2, h3, -, -, -, -, -⟩ := hpiece
    simp only [pteIndex, moreEntries, pmdSize, pageSize, ptrsPerPte] at *
    omega
  have hbase : moved pmdSize (i * ptrsPerPmd + j) addr =
      moved pageSize ((i * ptrsPerPmd + j) * ptrsPerPte + pteIndex addr) addr := by
    simp only [moved, pteIndex, pmdSize, pageSize, ptrsPerPte]
    omega
  unfold UnmapsAt
  rw [hbase]
  exact unmapLoop_unmaps (UnderPte src K i a j p) (· < ptrsPerPte)
    ((i * ptrsPerPmd + j) * ptrsPerPte) cuts_pages
    (fun _ _ _ _ _ hk hs hpiece => unmapPte_entry hK hi hj hk hs hpiece) _ _ _ _ _ hs hpiece
    (by omega) fun t ht => by omega

theorem WellFormed.freePages (h : WellFormed src s role) :
    WellFormed src (s.freePages p) role := ⟨h.pud, h.pmd, h.fresh⟩

theorem walk_freePages : walk (s.freePages p) ipa = walk s ipa :=
  walk_congr rfl (fun _ _ => rfl) fun _ _ => rfl

/-- After a range that is a whole entry, nothing is left in the entry. -/
theorem UnmapsAt.whole (h : UnmapsAt s t size m addr next)
    (hsize : 0 < size) (hrange : isRange size addr next) (hlt : addr < next)
    (hnext : next ≤ vmmVirtMax) (hat : ipa / size = m) : walk t ipa = none := by
  obtain ⟨hstart, hlen⟩ := hrange
  have hvirt : vmmVirtMax = 2 ^ 40 := rfl
  rw [sub64_of_le (by omega) (by omega)] at hlen
  have hbelow : ipa / size * size ≤ ipa := Nat.div_mul_le_self ..
  have habove : ipa < ipa / size * size + size := Nat.lt_div_mul_add hsize
  rw [h ipa, moved, hstart, hlen, ← hat, Nat.add_zero]
  cases hl : walk s ipa with
  | none => rfl
  | some l =>
    have hhit := hit_of_mem (walk_size_pos hl) hbelow habove
    simp [Option.filter, hhit]

theorem walk_clear_pmd (hwf : WellFormed src s role) (hi : i < ptrsPerPud)
    (hj : idx < ptrsPerPmd) (ha : PmdAt s i a)
    (hnone : ∀ ipa, ipa / pmdSize = i * ptrsPerPmd + idx → walk s ipa = none) (ipa : Nat) :
    walk (s.setTab a idx 0) ipa = walk s ipa := by
  by_cases hlt : ipa < vmmVirtMax
  · by_cases hat : ipa / pmdSize = i * ptrsPerPmd + idx
    · rw [hnone ipa hat]
      obtain ⟨rfl, rfl⟩ := (pmd_entry_iff hlt hj).mpr hat
      rw [walk_setPmd_self hlt ha, if_neg zero_ne_block, if_neg zero_ne_table]
    · exact walk_setPmd_of_ne hwf (hwf.role_pmd hi ha) fun h => hat ((pmd_entry_iff hlt hj).mp h)
  · rw [walk_of_ge hlt, walk_of_ge hlt]

theorem walk_clear_pud (hnone : ∀ ipa, ipa / pudSize = idx → walk s ipa = none) (ipa : Nat) :
    walk (s.setPgd idx 0) ipa = walk s ipa := by
  by_cases hlt : ipa < vmmVirtMax
  · by_cases hat : ipa / pudSize = idx
    · rw [hnone ipa hat]
      obtain rfl := (pud_entry_iff hlt).mpr hat
      rw [walk_setPud_self hlt, if_neg zero_ne_block, if_neg zero_ne_table]
    · exact walk_setPud_of_ne fun h => hat ((pud_entry_iff hlt).mp h)
  · rw [walk_of_ge hlt, walk_of_ge hlt]

theorem walk_of_pmd_block (hlt : ipa < vmmVirtMax) (ha : PmdAt s (pudIndex ipa) a)
    (hb : s.tab a (pmdIndex ipa) &&& 3 = desBlock) :
    walk s ipa = some (leafAt (s.tab a (pmdIndex ipa)) pmdSize ipa) := by
  rw [walk_of_pmdAt hlt ha, pmdWalk, if_pos hb]

theorem unmaps_pmd_empty (hj : idx < ptrsPerPmd) (ha : PmdAt s i a) (h0 : s.tab a idx = 0)
    (hpiece : Piece pmdSize q addr next 0) :
    UnmapsAt s s pmdSize (i * ptrsPerPmd + idx) addr next := by
  obtain ⟨hlo, -, hhi⟩ := hpiece.moved (i * ptrsPerPmd + idx)
  refine unmaps_entry pmdSize (i * ptrsPerPmd + idx) ?_ ?_
  · intro ipa hlt hat
    obtain ⟨rfl, rfl⟩ := (pmd_entry_iff hlt hj).mpr hat
    rw [walk_of_pmd_zero ha h0]
    exact ⟨rfl, fun l hl => absurd hl (by simp)⟩
  · intro ipa _ hat
    exact ⟨rfl, fun l hl => not_hit_pmd hj ha hl hat hlo hhi⟩

/-- A block goes as a whole. -/
theorem unmaps_pmd_block (hwf : WellFormed src s role) (hi : i < ptrsPerPud)
    (hj : idx < ptrsPerPmd) (ha : PmdAt s i a) (hb : s.tab a idx &&& 3 = desBlock)
    (hpiece : Piece pmdSize q addr next 0) :
    UnmapsAt s (s.setTab a idx 0) pmdSize (i * ptrsPerPmd + idx) addr next := by
  obtain ⟨hlo, hlohi, hhi⟩ := hpiece.moved (i * ptrsPerPmd + idx)
  refine unmaps_entry pmdSize (i * ptrsPerPmd + idx) ?_ ?_
  · intro ipa hlt hat
    obtain ⟨rfl, rfl⟩ := (pmd_entry_iff hlt hj).mpr hat
    rw [walk_setPmd_self hlt ha, if_neg zero_ne_block, if_neg zero_ne_table,
      walk_of_pmd_block hlt ha hb]
    refine ⟨rfl, ?_⟩
    rintro l hl
    cases hl
    -- the block is the whole entry, and the piece is inside
    refine ⟨?_, ?_⟩
    · show ipa / pmdSize * pmdSize < _
      rw [hat]
      exact Nat.lt_of_le_of_lt hlo hlohi
    · show _ < ipa / pmdSize * pmdSize + pmdSize
      rw [hat]
      exact Nat.lt_of_lt_of_le hlohi hhi
  · intro ipa hlt hat
    refine ⟨?_, fun l hl => not_hit_pmd hj ha hl hat hlo hhi⟩
    exact walk_setPmd_of_ne hwf (hwf.role_pmd hi ha) fun h => hat ((pmd_entry_iff hlt hj).mp h)

theorem not_huge_zero : ¬ huge 0 := fun h => h.1 rfl

theorem UnderPmd.clear (hK : Kept K) (hi : i < ptrsPerPud) (hs : UnderPmd src K i a s) :
    UnderPmd src K i a (s.setTab a idx 0) := by
  obtain ⟨role, hwf, hk, ha⟩ := hs
  have hrole := hwf.role_pmd hi ha
  exact ⟨role, hwf.setPmd hrole (EntryOk.zero ..),
    hK.setPmd hk hrole (fun hb => absurd hb not_huge_zero) idx, ha⟩

theorem UnderPmd.freePages (hK : Kept K) (hs : UnderPmd src K i a s) :
    UnderPmd src K i a (s.freePages p) := by
  obtain ⟨role, hwf, hk, ha⟩ := hs
  exact ⟨role, hwf.freePages, hK.tab hk rfl, ha⟩

theorem unmapPmd_entry (hK : Kept K) (hi : i < ptrsPerPud) (hj : idx < ptrsPerPmd)
    (hs : UnderPmd src K i a s) (hpiece : Piece pmdSize q addr next 0) :
    ∃ s', unmapPmdEntry a s idx addr next = some s' ∧ UnderPmd src K i a s' ∧
      UnmapsAt s s' pmdSize (i * ptrsPerPmd + idx) addr next := by
  have hs0 := hs
  obtain ⟨role, hwf, hk, ha⟩ := hs0
  rw [unmapPmdEntry]
  by_cases h0 : s.tab a idx = 0
  · rw [if_pos h0]
    exact ⟨s, rfl, hs, unmaps_pmd_empty hj ha h0 hpiece⟩
  rw [if_neg h0]
  by_cases hb : huge (s.tab a idx)
  · rw [if_pos hb]
    exact ⟨_, rfl, hs.clear hK hi, unmaps_pmd_block hwf hi hj ha (huge_iff.mp hb) hpiece⟩
  rw [if_neg hb]
  obtain ⟨htable, -⟩ := (hwf.pmd i a hi ha idx hj).table h0 hb
  obtain ⟨t, ht, htok, hunmaps⟩ :=
    unmapPteRange_unmaps hK hi hj ⟨role, hwf, hk, ha, htable, rfl⟩ hpiece
  rw [ht]
  by_cases hrange : isRange pmdSize addr next
  · refine ⟨_, by rw [Option.map_some, if_pos hrange],
      (htok.underPmd.clear hK hi).freePages hK, Unmaps.congr hunmaps ?_⟩
    obtain ⟨role', hwf', -, ha', -⟩ := htok
    intro ipa
    rw [walk_freePages]
    exact walk_clear_pmd hwf' hi hj ha'
      (fun _ => hunmaps.whole (by decide) hrange hpiece.lt hpiece.stop_le) ipa
  · exact ⟨t, by rw [Option.map_some, if_neg hrange], htok.underPmd, hunmaps⟩

theorem Piece.pmd_more (h : Piece pudSize m addr stop 0) :
    pmdIndex addr + moreEntries pmdSize addr stop < ptrsPerPmd := by
  obtain ⟨h1, h2, h3, -, -, -, -, -⟩ := h
  simp only [pmdIndex, moreEntries, pudSize, pmdSize, ptrsPerPmd] at *
  omega

theorem moved_pmd :
    moved pudSize i addr = moved pmdSize (i * ptrsPerPmd + pmdIndex addr) addr := by
  simp only [moved, pmdIndex, pudSize, pmdSize, ptrsPerPmd]
  omega

theorem unmapPmdRange_unmaps (hK : Kept K) (hi : i < ptrsPerPud)
    (hs : UnderPmd src K i a s) (hpiece : Piece pudSize m addr stop 0) :
    ∃ s', unmapPmdRange a s addr stop = some s' ∧ UnderPmd src K i a s' ∧
      UnmapsAt s s' pudSize i addr stop := by
  have hmore := hpiece.pmd_more
  unfold UnmapsAt
  rw [moved_pmd]
  exact unmapLoop_unmaps (UnderPmd src K i a) (· < ptrsPerPmd) (i * ptrsPerPmd) cuts_pmd
    (fun _ _ _ _ _ hj hs hpiece => unmapPmd_entry hK hi hj hs hpiece) _ _ _ _ _ hs hpiece
    (by omega) fun t ht => by omega

/-! The lower levels leave the first table alone. -/

theorem unmapLoop_keeps {next : Nat → Nat → Nat} {P : Tables → Prop}
    (hbody : ∀ s idx addr next s', P s → body s idx addr next = some s' → P s') :
    ∀ (left : Nat) (s s' : Tables) (idx addr stop : Nat), P s →
      unmapLoop next body left s idx addr stop = some s' → P s' := by
  intro left
  induction left with
  | zero =>
    intro s s' idx addr stop _ h
    cases h
  | succ left ih =>
    intro s s' idx addr stop hs h
    rw [unmapLoop, Option.bind_eq_some_iff] at h
    obtain ⟨t, ht, h⟩ := h
    have hP := hbody _ _ _ _ _ hs ht
    split at h
    · cases h
      exact hP
    · exact ih _ _ _ _ _ hP h

theorem unmapPteRange_pgd (h : unmapPteRange p s addr stop = some s') : s'.pgd = s.pgd := by
  refine unmapLoop_keeps (P := fun t => t.pgd = s.pgd) ?_ _ _ _ _ _ _ rfl h
  intro t idx addr next t' ht h
  split at h
  · cases h
    exact ht
  · cases h
    exact ht

theorem unmapPmdRange_pgd (h : unmapPmdRange a s addr stop = some s') : s'.pgd = s.pgd := by
  refine unmapLoop_keeps (P := fun t => t.pgd = s.pgd) ?_ _ _ _ _ _ _ rfl h
  intro t idx addr next t' ht h
  rw [unmapPmdEntry] at h
  split at h
  · cases h
    exact ht
  split at h
  · cases h
    exact ht
  obtain ⟨u, hu, rfl⟩ := Option.map_eq_some_iff.mp h
  have hpgd := (unmapPteRange_pgd hu).trans ht
  split
  · exact hpgd
  · exact hpgd

/-- **What `stage2_unmap_pud_range` does with one entry**: it must not be a
block, afterwards it is none, and no other entry changes. -/
theorem unmapPudEntry_pgd (h : unmapPudEntry s idx addr next = some s') :
    ¬ huge (s.pgd idx) ∧ ¬ huge (s'.pgd idx) ∧ ∀ k, k ≠ idx → s'.pgd k = s.pgd k := by
  rw [unmapPudEntry] at h
  split at h
  · rename_i h0
    cases h
    rw [h0]
    exact ⟨not_huge_zero, not_huge_zero, fun _ _ => rfl⟩
  split at h
  · cases h
  rename_i hb
  obtain ⟨u, hu, rfl⟩ := Option.map_eq_some_iff.mp h
  have hpgd := unmapPmdRange_pgd hu
  split
  · refine ⟨hb, ?_, ?_⟩
    · show ¬ huge ((u.setPgd idx 0).pgd idx)
      rw [setPgd_self]
      exact not_huge_zero
    · intro k hk
      show (u.setPgd idx 0).pgd k = _
      rw [setPgd_of_ne hk, hpgd]
  · rw [hpgd]
    exact ⟨hb, hb, fun _ _ => rfl⟩

theorem unmaps_pud_empty (h0 : s.pgd idx = 0) (hpiece : Piece pudSize q addr next 0) :
    UnmapsAt s s pudSize idx addr next := by
  obtain ⟨hlo, -, hhi⟩ := hpiece.moved idx
  refine unmaps_entry pudSize idx ?_ ?_
  · intro ipa hlt hat
    obtain rfl := (pud_entry_iff hlt).mpr hat
    rw [walk_of_pud_zero h0]
    exact ⟨rfl, fun l hl => absurd hl (by simp)⟩
  · intro ipa _ hat
    exact ⟨rfl, fun l hl => not_hit_pud hl hat hlo hhi⟩

theorem unmapPud_entry (hi : idx < ptrsPerPud) (hs : TablesOk src s) (hb : ¬ huge (s.pgd idx))
    (hpiece : Piece pudSize q addr next 0) :
    ∃ s', unmapPudEntry s idx addr next = some s' ∧ TablesOk src s' ∧
      UnmapsAt s s' pudSize idx addr next := by
  obtain ⟨role, hwf⟩ := hs
  rw [unmapPudEntry]
  by_cases h0 : s.pgd idx = 0
  · rw [if_pos h0]
    exact ⟨s, rfl, ⟨role, hwf⟩, unmaps_pud_empty h0 hpiece⟩
  rw [if_neg h0, if_neg hb]
  obtain ⟨htable, -⟩ := (hwf.pud idx hi).table h0 hb
  obtain ⟨t, ht, htok, hunmaps⟩ :=
    unmapPmdRange_unmaps kept_true hi ⟨role, hwf, trivial, htable, rfl⟩ hpiece
  rw [ht]
  by_cases hrange : isRange pudSize addr next
  · obtain ⟨role', hwf', -⟩ := htok
    have hclear := hwf'.setPud (EntryOk.zero role' (.pmd idx)) fun h => absurd h zero_ne_table
    refine ⟨_, by rw [Option.map_some, if_pos hrange], ⟨role', hclear.freePages⟩,
      Unmaps.congr hunmaps ?_⟩
    intro ipa
    rw [walk_freePages]
    exact walk_clear_pud
      (fun _ => hunmaps.whole (by decide) hrange hpiece.lt hpiece.stop_le) ipa
  · exact ⟨t, by rw [Option.map_some, if_neg hrange], htok.sound.tablesOk, hunmaps⟩

end Levels

/-! ## The range walked and the range asked for -/

section Walked

variable {start stop : Nat}

/-- The first-level entries that `stage2_unmap_pud_range` goes through, from
that of `end` on, are in the table, and none is a 1GB block. -/
def EntriesOk (s : Tables) (start stop : Nat) : Prop :=
  ∀ t, t ≤ moreEntries pudSize start stop →
    pudIndex stop + t < ptrsPerPud ∧ ¬ huge (s.pgd (pudIndex stop + t))

/-- Where the walked range starts: `start`, moved to the 1GB of `end`. -/
def walkedFrom (start stop : Nat) : Nat := moved pudSize (pudIndex stop) start

theorem piece_of_range (hlt : start < stop) (hstop : stop ≤ vmmVirtMax)
    (h1 : start % pageSize = 0) (h2 : stop % pageSize = 0) : Piece vmmVirtMax 0 start stop 0 := by
  refine ⟨hlt, Nat.div_eq_of_lt (by omega), by omega, hstop, h1, h2, rfl, ?_⟩
  simp only [vmmVirtMax] at hstop
  omega

theorem unmapPudRange_unmaps (hs : TablesOk src s) (hpiece : Piece vmmVirtMax 0 start stop 0)
    (hok : EntriesOk s start stop) :
    ∃ s', unmapPudRange s start stop = some s' ∧
      Unmaps s s' (walkedFrom start stop) (walkedFrom start stop + (stop - start)) := by
  have hlast := (hok _ (Nat.le_refl _)).1
  have hmain : ∃ s', unmapPudRange s start stop = some s' ∧
      (TablesOk src s' ∧ ∀ k, k ≤ moreEntries pudSize start stop →
        ¬ huge (s'.pgd (pudIndex stop + k))) ∧
      UnmapsAt s s' pudSize (0 + pudIndex stop) start stop := by
    refine unmapLoop_unmaps
      (fun t => TablesOk src t ∧ ∀ k, k ≤ moreEntries pudSize start stop →
        ¬ huge (t.pgd (pudIndex stop + k)))
      (fun idx => idx < ptrsPerPud ∧ ∃ k, k ≤ moreEntries pudSize start stop ∧
        idx = pudIndex stop + k)
      0 cuts_pud ?_ _ _ _ _ _ ⟨hs, fun k hk => (hok k hk).2⟩ hpiece
      (by omega) fun t ht => ⟨(hok t ht).1, t, ht, rfl⟩
    rintro t idx q addr next ⟨hi, k0, hk0, rfl⟩ ⟨ht, hb⟩ hpiece
    obtain ⟨t', hentry, ht', hunmaps⟩ := unmapPud_entry hi ht (hb k0 hk0) hpiece
    obtain ⟨-, hself, hother⟩ := unmapPudEntry_pgd hentry
    rw [Nat.zero_add]
    refine ⟨t', hentry, ⟨ht', ?_⟩, hunmaps⟩
    intro k hk
    by_cases hkk : k = k0
    · subst hkk
      exact hself
    · rw [hother _ (by omega)]
      exact hb k hk
  rw [Nat.zero_add] at hmain
  obtain ⟨s', hrun, -, hunmaps⟩ := hmain
  exact ⟨s', hrun, hunmaps⟩

theorem moreEntries_last {size addr : Nat} (hsize : 0 < size) (hlt : addr < stop)
    (hlast : pieceEnd size addr stop = stop) : moreEntries size addr stop = 0 := by
  have hle : stop ≤ addr / size * size + size := by
    rw [pieceEnd] at hlast
    omega
  have hdiv : (stop - 1) / size < addr / size + 1 := by
    rw [Nat.div_lt_iff_lt_mul hsize, Nat.succ_mul]
    omega
  rw [moreEntries]
  omega

/-- A loop that comes to an end has not left its table, and its entries have been
what each body needs its own to be. -/
theorem unmapLoop_more {nextEnd : Nat → Nat → Nat} {size big e : Nat} (B : Tables → Nat → Prop)
    (hcut : Cuts nextEnd size big e)
    (hbody : ∀ s s' idx addr next, body s idx addr next = some s' →
      B s idx ∧ ∀ k, k ≠ idx → B s' k → B s k) :
    ∀ (left : Nat) (s s' : Tables) (idx addr stop : Nat), Piece big e addr stop 0 →
      unmapLoop nextEnd body left s idx addr stop = some s' →
      moreEntries size addr stop < left ∧
        ∀ t, t ≤ moreEntries size addr stop → B s (idx + t) := by
  intro left
  induction left with
  | zero =>
    intro s s' idx addr stop _ h
    cases h
  | succ left ih =>
    intro s s' idx addr stop hpiece h
    rw [unmapLoop, Option.bind_eq_some_iff, hcut.next _ _ _ hpiece] at h
    obtain ⟨u, hu, h⟩ := h
    obtain ⟨hB, hother⟩ := hbody _ _ _ _ _ hu
    by_cases hlast : pieceEnd size addr stop = stop
    · rw [moreEntries_last hcut.pos hpiece.lt hlast]
      refine ⟨Nat.succ_pos _, fun t ht => ?_⟩
      rw [Nat.le_zero.mp ht]
      exact hB
    · rw [if_neg hlast] at h
      obtain ⟨hrest, hsucc⟩ := hpiece.rest hcut.pos hcut.page hlast
      obtain ⟨hlt, hB'⟩ := ih _ _ _ _ _ hrest.zero h
      rw [moreEntries_rest hrest.lt hsucc]
      refine ⟨Nat.succ_lt_succ hlt, fun t ht => ?_⟩
      cases t with
      | zero => exact hB
      | succ t =>
        refine hother _ (by omega) ?_
        have hnext := hB' t (by omega)
        rwa [Nat.add_right_comm, Nat.add_assoc] at hnext

theorem unmapPudRange_entriesOk (hpiece : Piece vmmVirtMax 0 start stop 0)
    (h : unmapPudRange s start stop = some s') : EntriesOk s start stop := by
  obtain ⟨hlt, hb⟩ := unmapLoop_more (fun s k => ¬ huge (s.pgd k)) cuts_pud
    (fun s s' idx addr next h => by
      obtain ⟨hb, -, hother⟩ := unmapPudEntry_pgd h
      exact ⟨hb, fun k hk hb' => hother k hk ▸ hb'⟩) _ _ _ _ _ _ hpiece h
  exact fun t ht => ⟨by omega, hb t ht⟩

/-- What `arch_guest_unmap` is for: nothing in `[start, stop)` translates, and
all else translates as before. -/
def UnmapsRange (s s' : Tables) (start stop : Nat) : Prop :=
  (∀ ipa, start ≤ ipa → ipa < stop → translate s' ipa = none) ∧
  ∀ ipa, ¬ (start ≤ ipa ∧ ipa < stop) → translate s' ipa = translate s ipa

/-- The addresses of `[start, stop)` that translate are those whose page or
block has a part in `[lo, hi)`. -/
def SameMapped (s : Tables) (start stop lo hi : Nat) : Prop :=
  ∀ ipa l, translate s ipa = some l → (start ≤ ipa ∧ ipa < stop ↔ hit lo hi ipa l)

theorem Unmaps.translate (h : Unmaps s s' lo hi) (ipa : Nat) :
    translate s' ipa = (Stage2.translate s ipa).filter fun l => ¬ hit lo hi ipa l := by
  rw [Stage2.translate, Stage2.translate, h ipa]
  cases walk s ipa with
  | none => rfl
  | some l =>
    by_cases hhit : hit lo hi ipa l <;> by_cases hpa : l.pa < physicalMax <;>
      simp [Option.filter, hhit, hpa]

/-- Removing what meets `H` removes a range if what it maps is what meets `H`. -/
theorem filter_range_iff {β : Type*} {f f' : Nat → Option β} {H : Nat → β → Prop}
    [∀ a l, Decidable (H a l)] (h : ∀ a, f' a = (f a).filter fun l => ¬ H a l) :
    ((∀ a, start ≤ a → a < stop → f' a = none) ∧
      ∀ a, ¬ (start ≤ a ∧ a < stop) → f' a = f a) ↔
      ∀ a l, f a = some l → (start ≤ a ∧ a < stop ↔ H a l) := by
  constructor
  · rintro ⟨hin, hout⟩ a l hl
    have hfilter := h a
    rw [hl] at hfilter
    by_cases hmem : start ≤ a ∧ a < stop
    · rw [hin a hmem.1 hmem.2] at hfilter
      by_cases hhit : H a l
      · exact iff_of_true hmem hhit
      · simp [Option.filter, hhit] at hfilter
    · rw [hout a hmem, hl] at hfilter
      refine iff_of_false hmem fun hhit => ?_
      simp [Option.filter, hhit] at hfilter
  · intro hsame
    constructor
    · intro a hge hlt
      rw [h a]
      cases hl : f a with
      | none => rfl
      | some l => simp [Option.filter, (hsame a l hl).mp ⟨hge, hlt⟩]
    · intro a hout
      rw [h a]
      cases hl : f a with
      | none => rfl
      | some l =>
        have hmiss : ¬ H a l := fun hhit => hout ((hsame a l hl).mpr hhit)
        simp [Option.filter, hmiss]

theorem Unmaps.unmapsRange_iff (h : Unmaps s s' lo hi) :
    UnmapsRange s s' start stop ↔ SameMapped s start stop lo hi :=
  filter_range_iff h.translate

/-- **An unmap does what it is for exactly if** its range is empty, or the
first-level entries from that of `end` on are tables or empty, as many as the
range needs, and the mapped addresses of the range are those of the range
moved to the 1GB of `end`, with all of each 2MB block that it meets. -/
theorem arch_guest_unmap_iff (hb : Built src s) (hle : start ≤ stop) (hstop : stop ≤ vmmVirtMax)
    (h1 : start % pageSize = 0) (h2 : stop % pageSize = 0) :
    (∃ r, archGuestUnmap s start stop = some r ∧ UnmapsRange s r.2 start stop) ↔
      start = stop ∨ (EntriesOk s start stop ∧
        SameMapped s start stop (walkedFrom start stop)
          (walkedFrom start stop + (stop - start))) := by
  by_cases heq : stop = start
  · refine iff_of_true ⟨(some .einval, s), if_pos heq, ?_, fun _ _ => rfl⟩ (Or.inl heq.symm)
    intro ipa hge hlt
    omega
  have hpiece := piece_of_range (by omega) hstop h1 h2
  have hrun : archGuestUnmap s start stop =
      (unmapPudRange s start stop).map fun s => (none, s) := by
    rw [archGuestUnmap, if_neg heq, if_neg (not_not.mpr ⟨by omega, hstop⟩)]
  rw [hrun, or_iff_right (fun h => heq h.symm)]
  constructor
  · rintro ⟨r, hr, hrange⟩
    obtain ⟨s', hs', rfl⟩ := Option.map_eq_some_iff.mp hr
    have hok := unmapPudRange_entriesOk hpiece hs'
    obtain ⟨t, ht, hunmaps⟩ := unmapPudRange_unmaps hb.tablesOk hpiece hok
    rw [hs'] at ht
    cases ht
    exact ⟨hok, hunmaps.unmapsRange_iff.mp hrange⟩
  · rintro ⟨hok, hsame⟩
    obtain ⟨s', hs', hunmaps⟩ := unmapPudRange_unmaps hb.tablesOk hpiece hok
    exact ⟨(none, s'), by rw [hs', Option.map_some], hunmaps.unmapsRange_iff.mpr hsame⟩

end Walked

/-- A page, a 2MB block and a page, mapped and unmapped. -/
theorem arch_guest_unmap_mixed :
    ∃ s r, Built pagePool s ∧ (translate s 0x200000).isSome ∧
      archGuestUnmap s 0x1ff000 0x401000 = some r ∧ UnmapsRange s r.2 0x1ff000 0x401000 := by
  obtain ⟨s, hmap, hsome, hb⟩ : ∃ s, archGuestMap pagePool noTables 0x1ff000 0x401000 0x801ff000
      guestRam = some (none, s) ∧ (translate s 0x200000).isSome ∧ ¬ huge (s.pgd 0) := by
    decide +kernel
  have hbuilt : Built pagePool s := Built.map (.init _) hmap
  have hmaps := archGuestMap_maps (Built.init _).tablesOk (by decide) hmap
  have hok : EntriesOk s 0x1ff000 0x401000 := by
    intro t ht
    have ht0 : t = 0 := Nat.le_zero.mp ht
    subst ht0
    exact ⟨by decide, hb⟩
  have hsame : SameMapped s 0x1ff000 0x401000 0x1ff000 0x401000 := by
    intro ipa l hl
    have hwalk := (translate_eq_some.mp hl).1
    have hmem : 0x1ff000 ≤ ipa ∧ ipa < 0x401000 := by
      by_contra hout
      rw [hmaps.outside ipa hout, walk_of_pud_zero rfl] at hwalk
      cases hwalk
    exact iff_of_true hmem (hit_of_mem (walk_size_pos hwalk) hmem.1 hmem.2)
  obtain ⟨r, hr, hrange⟩ := (arch_guest_unmap_iff hbuilt (by decide) (by decide) (by decide)
    (by decide)).mpr (Or.inr ⟨hok, hsame⟩)
  exact ⟨s, r, hbuilt, hsome, hr, hrange⟩

/-- The page at 0 survives the unmap of the first 1GB, which walks the second;
and the unmap of the first page of a 2MB block takes the next with it. -/
theorem arch_guest_unmap_moved :
    (∃ s r, Built pagePool s ∧ archGuestUnmap s 0 0x40000000 = some r ∧
      (translate r.2 0).isSome ∧ ¬ UnmapsRange s r.2 0 0x40000000) ∧
    ∃ s r, Built pagePool s ∧ archGuestUnmap s 0 0x1000 = some r ∧
      (translate s 0x1000).isSome ∧ translate r.2 0x1000 = none ∧
      ¬ UnmapsRange s r.2 0 0x1000 := by
  constructor
  · obtain ⟨s, hmap, r, hunmap, hsome⟩ : ∃ s, archGuestMap pagePool noTables 0 0x1000 0x80000000
        guestRam = some (none, s) ∧ ∃ r, archGuestUnmap s 0 0x40000000 = some r ∧
          (translate r.2 0).isSome := by
      decide +kernel
    refine ⟨s, r, .map (.init _) hmap, hunmap, hsome, ?_⟩
    rintro ⟨hin, -⟩
    rw [hin 0 (by decide) (by decide)] at hsome
    cases hsome
  · obtain ⟨s, hmap, r, hunmap, hsome, hnone⟩ : ∃ s, archGuestMap pagePool noTables 0 0x200000
        0x80000000 guestRam = some (none, s) ∧ ∃ r, archGuestUnmap s 0 0x1000 = some r ∧
          (translate s 0x1000).isSome ∧ translate r.2 0x1000 = none := by
      decide +kernel
    refine ⟨s, r, .map (.init _) hmap, hunmap, hsome, hnone, ?_⟩
    rintro ⟨-, hout⟩
    rw [← hout 0x1000 (by decide), hnone] at hsome
    cases hsome

end Minos.Stage2
