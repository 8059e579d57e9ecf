import Minos.Arch.Stage2Unmap
import Minos.Lib.Run

/-!
# Mappings of the host

`create_host_mapping` and `destroy_host_mapping` over the tables of
`arch/aarch64/core/stage1.c`: three levels as for guests, with 512 entries in
the first table, no 1GB blocks, and tables that are never given back. The
descriptor formats and the walk through the two lower levels are those of
`Minos.Stage2`, and so are the loops.

Three things are not checked: a page mapped into a 2MB block is written into
the memory that the block leads to, an unmap takes all of a block that it
meets, and it starts at the first-level entry of `end`.
-/

namespace Minos.Stage1

open Minos.Lib Minos.Stage2

/-! ## Descriptors -/

def s1VirtMax : Nat := 2 ^ 39
def s1PhysicalMax : Nat := 2 ^ 40
def ptrsPerS1Pud : Nat := 512

def s1Ns : Entry := 1 <<< 5
def s1Af : Entry := 1 <<< 10
def s1Pxn : Entry := 1 <<< 53
def s1Xn : Entry := 1 <<< 54
def s1Pfnmap : Entry := 1 <<< 55
def s1Devmap : Entry := 1 <<< 56
def s1Shared : Entry := 1 <<< 57
def s1ApRw : Entry := 0
def s1ApRo : Entry := 2 <<< 6
def s1ShInner : Entry := 3 <<< 8
def mtDeviceNGnRE : Entry := 1
def mtNormalNc : Entry := 3
def mtNormal : Entry := 4
def mtNormalWt : Entry := 5

/-- `S1_PAGE_*` and `S1_BLOCK_*`: the type and the memory attribute. -/
def s1Leaf (ty mt : Entry) : Entry := ty ||| s1Af ||| s1Ns ||| s1ShInner ||| (mt &&& 0xf) <<< 2

def vmHost : Entry := 0x2000

/-- What `stage1_pmd_attr` and `stage1_pte_attr` make of the flags. -/
def s1LeafAttr (ty flags : Entry) : Entry :=
  let kind :=
    if flags &&& vmTypeMask = vmNormalNc then s1Leaf ty mtNormalNc
    else if flags &&& vmTypeMask = vmIo then s1Leaf ty mtDeviceNGnRE
    else if flags &&& vmTypeMask = vmWt then s1Leaf ty mtNormalWt
    else s1Leaf ty mtNormal
  let ap := if flags &&& vmRwMask = vmRead then s1ApRo else s1ApRw
  let ap := if flags &&& vmExec ≠ 0 then ap else ap ||| (s1Xn ||| s1Pxn)
  let ap := if flags &&& vmPfnmap = 0 then ap else ap ||| s1Pfnmap
  let ap := if flags &&& vmDevmap = 0 then ap else ap ||| s1Devmap
  kind ||| if flags &&& vmShared = 0 then ap else ap ||| s1Shared

/-- `stage1_pmd_attr`. -/
def stage1PmdAttr (phy : Nat) (flags : Entry) : Entry :=
  s1LeafAttr desBlock flags ||| BitVec.ofNat 64 (phy / pmdSize * pmdSize)

/-- `stage1_pte_attr(0, flags)`. -/
def stage1PteAttr (flags : Entry) : Entry := s1LeafAttr desPage flags

def s1PudIndex (a : Nat) : Nat := a / pudSize % ptrsPerS1Pud

/-! ## Mapping -/

/-- `stage1_map_pte_range`. An entry that is in use is written over. -/
def mapPteRange (ptep : Nat) (flags : Entry) (s : Tables) (start stop physical : Nat) :
    Option Ret :=
  mapLoop (fun start _ => u64 (start + pageSize))
    (fun s idx _ _ physical =>
      some (none, s.setTab ptep idx (stage1PteAttr flags ||| BitVec.ofNat 64 physical)))
    (ptrsPerPte - pteIndex start) s (pteIndex start) start stop physical

/-- `stage1_pmd_huge_page`. -/
def pmdHugePage (oldPmd : Entry) (start phy size : Nat) (flags : Entry) : Prop :=
  ¬ (flags &&& vmHuge2M = 0 ∨ oldPmd ≠ 0) ∧
    start % pmdSize = 0 ∧ phy % pmdSize = 0 ∧ size % pmdSize = 0

instance (oldPmd : Entry) (start phy size : Nat) (flags : Entry) :
    Decidable (pmdHugePage oldPmd start phy size flags) :=
  inferInstanceAs (Decidable (_ ∧ _))

/-- The loop body of `stage1_map_pmd_range`. A block is taken for a table. -/
def mapPmdEntry (src : PageSource) (pmdp : Nat) (flags : Entry) (s : Tables)
    (idx start next physical : Nat) : Option Ret :=
  let oldPmd := s.tab pmdp idx
  if pmdHugePage oldPmd start physical (sub64 next start) flags then
    some (none, s.setTab pmdp idx (stage1PmdAttr physical flags))
  else if oldPmd = 0 then
    match src.get s.got with
    | none => some (some .enomem, { s with got := s.got + 1 })
    | some ptep =>
      mapPteRange ptep flags
        ((s.newTable ptep).setTab pmdp idx (BitVec.ofNat 64 ptep ||| desTable))
        start next physical
  else mapPteRange (tableAddr oldPmd) flags s start next physical

/-- `stage1_map_pmd_range`. -/
def mapPmdRange (src : PageSource) (pmdp : Nat) (flags : Entry) (s : Tables)
    (start stop physical : Nat) : Option Ret :=
  mapLoop (addrEnd pmdSize) (mapPmdEntry src pmdp flags)
    (ptrsPerPmd - pmdIndex start) s (pmdIndex start) start stop physical

/-- The loop body of `stage1_map_pud_range`. -/
def mapPudEntry (src : PageSource) (flags : Entry) (s : Tables)
    (idx start next physical : Nat) : Option Ret :=
  if s.pgd idx = 0 then
    match src.get s.got with
    | none => some (some .enomem, { s with got := s.got + 1 })
    | some pmdp =>
      mapPmdRange src pmdp flags
        ((s.newTable pmdp).setPgd idx (BitVec.ofNat 64 pmdp ||| desTable))
        start next physical
  else mapPmdRange src (tableAddr (s.pgd idx)) flags s start next physical

/-- `stage1_map_pud_range`. -/
def mapPudRange (src : PageSource) (flags : Entry) (s : Tables)
    (start stop physical : Nat) : Option Ret :=
  mapLoop (addrEnd pudSize) (mapPudEntry src flags)
    (ptrsPerS1Pud - s1PudIndex start) s (s1PudIndex start) start stop physical

/-- `arch_host_map`. -/
def archHostMap (src : PageSource) (s : Tables) (start stop physical : Nat) (flags : Entry) :
    Option Ret :=
  if stop = start then some (some .einval, s)
  else if ¬ (start < s1VirtMax ∧ stop ≤ s1VirtMax) then none
  else if ¬ physical < s1PhysicalMax then none
  else if ¬ (start % pageSize = 0 ∧ stop % pageSize = 0 ∧ physical % pageSize = 0) then none
  else mapPudRange src flags s start stop physical

/-- `__va`: with `CONFIG_ARM_ADDRESS_TAGGING` the low 39 bits. -/
def va (tagging : Bool) (a : Nat) : Nat := if tagging then a % s1VirtMax else a

/-- `create_host_mapping`. -/
def createHostMapping (src : PageSource) (tagging : Bool) (s : Tables) (vir phy size : Nat)
    (flags : Entry) : Option Ret :=
  if ¬ (vir % pageSize = 0 ∧ phy % pageSize = 0 ∧ size % pageSize = 0) then
    some (some .einval, s)
  else archHostMap src s (va tagging vir) (va tagging (u64 (vir + size))) phy
    (flags ||| vmHost ||| vmHuge2M)

/-! ## Unmapping -/

/-- `stage1_unmap_pte_range`, the same loop as for guests. -/
def unmapPteRange (ptep : Nat) (s : Tables) (addr stop : Nat) : Option Tables :=
  Stage2.unmapPteRange ptep s addr stop

/-- The loop body of `stage1_unmap_pmd_range`. -/
def unmapPmdEntry (pmdp : Nat) (s : Tables) (idx addr next : Nat) : Option Tables :=
  let pmd := s.tab pmdp idx
  if pmd = 0 then some s
  else if huge pmd then some (s.setTab pmdp idx 0)
  else unmapPteRange (tableAddr pmd) s addr next

/-- `stage1_unmap_pmd_range`. -/
def unmapPmdRange (pmdp : Nat) (s : Tables) (addr stop : Nat) : Option Tables :=
  unmapLoop (addrEnd pmdSize) (unmapPmdEntry pmdp)
    (ptrsPerPmd - pmdIndex addr) s (pmdIndex addr) addr stop

/-- The loop body of `stage1_unmap_pud_range`. -/
def unmapPudEntry (s : Tables) (idx addr next : Nat) : Option Tables :=
  if s.pgd idx = 0 then some s else unmapPmdRange (tableAddr (s.pgd idx)) s addr next

/-- `stage1_unmap_pud_range`: the first entry is that of `end`. -/
def unmapPudRange (s : Tables) (addr stop : Nat) : Option Tables :=
  unmapLoop (addrEnd pudSize) unmapPudEntry
    (ptrsPerS1Pud - s1PudIndex stop) s (s1PudIndex stop) addr stop

/-- `arch_host_unmap`. -/
def archHostUnmap (s : Tables) (start stop : Nat) : Option Ret :=
  if ¬ (start < s1VirtMax ∧ stop ≤ s1VirtMax) then none
  else (unmapPudRange s start stop).map fun s => (none, s)

/-- `destroy_host_mapping`. -/
def destroyHostMapping (tagging : Bool) (s : Tables) (vir size : Nat) : Option Ret :=
  if ¬ (vir % pageSize = 0 ∧ size % pageSize = 0) then some (some .einval, s)
  else archHostUnmap s (va tagging vir) (va tagging (u64 (vir + size)))

/-! ## Calls and what they are for -/

inductive Event
  | map (vir phy size : Nat) (flags : Entry)
  | unmap (vir size : Nat)
  deriving DecidableEq, Repr

/-- A call that returns 0. -/
def succeeds (r : Ret) : Option Tables := if r.1 = none then some r.2 else none

def hostStep (src : PageSource) (tagging : Bool) (s : Tables) : Event → Option Tables
  | .map vir phy size flags => (createHostMapping src tagging s vir phy size flags).bind succeeds
  | .unmap vir size => (destroyHostMapping tagging s vir size).bind succeeds

/-- The stage-1 walk of an address of 39 bits: a first table of 512 entries,
blocks of 1GB and 2MB, pages of 4KB. -/
def walk (s : Tables) (a : Nat) : Option Leaf :=
  if a < s1VirtMax then
    let e := s.pgd (s1PudIndex a)
    if e &&& 3 = desBlock then some (leafAt e pudSize a)
    else if e &&& 3 = desTable then pmdWalk s (s.tab (tableAddr e)) a
    else none
  else none

/-- `[start, stop)` leads to `phy` and on, and all else where it did. -/
def MapsTo (s s' : Tables) (start stop phy : Nat) : Prop :=
  (∀ a, start ≤ a → a < stop → (walk s' a).map Leaf.pa = some (phy + (a - start))) ∧
    ∀ a, ¬ (start ≤ a ∧ a < stop) → walk s' a = walk s a

/-- `[start, stop)` leads nowhere, and all else where it did. -/
def Removes (s s' : Tables) (start stop : Nat) : Prop :=
  (∀ a, start ≤ a → a < stop → walk s' a = none) ∧
    ∀ a, ¬ (start ≤ a ∧ a < stop) → walk s' a = walk s a

/-- What a call is for. -/
def Serves (tagging : Bool) (s : Tables) : Event → Tables → Prop
  | .map vir phy size _, s' => MapsTo s s' (va tagging vir) (va tagging (u64 (vir + size))) phy
  | .unmap vir size, s' => Removes s s' (va tagging vir) (va tagging (u64 (vir + size)))

/-- No 2MB block has a part in the range. -/
def NoBlock (s : Tables) (start stop : Nat) : Prop :=
  ∀ a l, start ≤ a → a < stop → walk s a = some l → l.size = pageSize

/-- The addresses of `[start, stop)` that lead somewhere are those whose page or
block has a part in the range moved to the 1GB of `stop`. -/
def SameMapped (s : Tables) (start stop : Nat) : Prop :=
  ∀ a l, walk s a = some l →
    (start ≤ a ∧ a < stop ↔
      hit (moved pudSize (s1PudIndex stop) start)
        (moved pudSize (s1PudIndex stop) start + (stop - start)) a l)

/-- A range that does not wrap, without a block where pages go, and an unmap
whose moved range has the same mapped addresses. -/
def CallOk (tagging : Bool) (s : Tables) : Event → Prop
  | .map vir _ size _ =>
    va tagging vir < va tagging (u64 (vir + size)) ∧
      NoBlock s (va tagging vir) (va tagging (u64 (vir + size)))
  | .unmap vir size =>
    va tagging vir < va tagging (u64 (vir + size)) ∧
      SameMapped s (va tagging vir) (va tagging (u64 (vir + size)))

/-- Tables of the host: what the boot code builds, and the calls keep. -/
structure HostOk (src : PageSource) (s : Tables) : Prop where
  tables : TablesOk src s
  noBlock : ∀ i, i < ptrsPerS1Pud → ¬ huge (s.pgd i)

/-! ## The walk -/

variable {src : PageSource} {K : Tables → (Nat → Role) → Prop} {s s' : Tables} {flags : Entry}
  {r : Ret} {i a idx start stop next physical : Nat}

theorem s1PudIndex_lt (a : Nat) : s1PudIndex a < ptrsPerS1Pud := Nat.mod_lt _ (by decide)

theorem pudIndex_eq (h : a < s1VirtMax) : pudIndex a = s1PudIndex a := by
  simp only [pudIndex, s1PudIndex, s1VirtMax, pudSize, ptrsPerPud, ptrsPerS1Pud] at *
  omega

theorem walk_eq (h : a < s1VirtMax) : walk s a = Stage2.walk s a := by
  have hlt : a < vmmVirtMax := Nat.lt_trans h (by decide)
  rw [walk, if_pos h, Stage2.walk, if_pos hlt, pudWalk, pudIndex_eq h]

theorem walk_of_ge (h : ¬ a < s1VirtMax) : walk s a = none := if_neg h

theorem walk_lt {l : Leaf} (h : walk s a = some l) : a < s1VirtMax := by
  by_contra hge
  rw [walk_of_ge hge] at h
  cases h

theorem walk_congr (h : Stage2.walk s' a = Stage2.walk s a) : walk s' a = walk s a := by
  by_cases hlt : a < s1VirtMax
  · rw [walk_eq hlt, walk_eq hlt, h]
  · rw [walk_of_ge hlt, walk_of_ge hlt]

theorem pudEntry_lt (h : idx < ptrsPerS1Pud) : idx < ptrsPerPud :=
  Nat.lt_trans h (by decide)

/-! ## Bits -/

theorem s1LeafAttr_spec {ty : Entry} (hty : ty = desBlock ∨ ty = desPage) (flags : Entry) :
    s1LeafAttr ty flags &&& physicalMask = 0 ∧ s1LeafAttr ty flags &&& 3 = ty := by
  refine attr_or_spec ?_ ?_
  · rcases hty with rfl | rfl
    · split_ifs <;> decide
    · split_ifs <;> decide
  · refine clear_ite _ (clear_ite _ (clear_ite _ (clear_ite _ ?_ (by decide)) (by decide))
      (by decide)) (by decide)
    split <;> decide

def stage1Descs (flags : Entry) : Descs :=
  ⟨stage1PteAttr flags, s1LeafAttr desBlock flags, s1LeafAttr_spec (.inr rfl) flags,
    s1LeafAttr_spec (.inl rfl) flags⟩

/-! ## What a map does -/

/-- No block of the 40-bit walk has a part in the range. -/
abbrev Pages : Tables → Nat → Nat → Prop := Leads fun l => l.size = pageSize

theorem Pages.not_huge (hpages : Pages s start next) (hj : idx < ptrsPerPmd) (ha : PmdAt s i a)
    (hpiece : Piece pmdSize (i * ptrsPerPmd + idx) start next physical) :
    ¬ huge (s.tab a idx) := by
  intro hb
  have hlt : start < vmmVirtMax := Nat.lt_of_lt_of_le hpiece.lt hpiece.stop_le
  obtain ⟨rfl, rfl⟩ := (pmd_entry_iff hlt hj).mpr hpiece.entry
  have hsize : pmdSize = pageSize := hpages start _ (Nat.le_refl _) hpiece.lt
    (walk_of_pmd_block hlt ha (huge_iff.mp hb))
  exact absurd hsize (by decide)

/-- One entry of the middle level, in a range without blocks. -/
theorem mapPmdEntry_step (hK : Kept K) (hi : i < ptrsPerPud) (hj : idx < ptrsPerPmd)
    (hs : UnderPmd src K i a s) (hpages : Pages s start next)
    (hpiece : Piece pmdSize (i * ptrsPerPmd + idx) start next physical)
    (h : mapPmdEntry src a flags s idx start next physical = some r) :
    PmdStep src K (stage1Descs flags) i a idx s start next physical r := by
  rw [mapPmdEntry] at h
  split at h
  · rename_i hhuge
    cases h
    exact .block hhuge.2.1 hhuge.2.2.1 hhuge.2.2.2 rfl
  · refine pmdStep_below hK hi hj hs (fun _ => ?_) h
    obtain ⟨-, -, -, ha⟩ := hs
    exact hpages.not_huge hj ha hpiece

/-- Sound tables with no block in the first level. -/
def HostSound (src : PageSource) (K : Tables → (Nat → Role) → Prop) (s : Tables) : Prop :=
  Sound src K s ∧ ∀ i, i < ptrsPerS1Pud → ¬ huge (s.pgd i)

/-- **One entry of the first level.** -/
theorem mapPudEntry_till (hK : Kept K) (hi : idx < ptrsPerS1Pud) (hs : HostSound src K s)
    (hpages : Pages s start next) (hpiece : Piece pudSize idx start next physical)
    (h : mapPudEntry src flags s idx start next physical = some r) :
    HostSound src K r.2 ∧ MapsTill (stage1Descs flags) pmdSize s r start next physical := by
  have hi' := pudEntry_lt hi
  have hstep : PudStep src K (stage1Descs flags) False
      (fun a s => mapPmdRange src a flags s start next physical) idx s start next physical r :=
    pudStep_below hK hi' hs.1 (fun _ => hs.2 idx hi) h
  obtain ⟨⟨hs', htop⟩, htill⟩ := hstep.till hK hs.1 hpiece fun a s1 hs1 hwalk h =>
    pmdLoop_till hK hi'
      (fun _ _ _ _ _ _ hj hs hpages hpiece h => mapPmdEntry_step hK hi' hj hs hpages hpiece h) hs1
      (fun ipa l hge hlt hl => hpages ipa l hge hlt (hwalk ipa ▸ hl)) hpiece h
  exact ⟨⟨hs', fun i hi hb => hs.2 i hi ((htop id).1 i hb)⟩, htill⟩

theorem mapPudRange_till (hK : Kept K) (hs : HostSound src K s) (hpages : Pages s start stop)
    (hpiece : Piece vmmVirtMax 0 start stop physical) (hlt : start < s1VirtMax)
    (h : mapPudRange src flags s start stop physical = some r) :
    HostSound src K r.2 ∧ MapsTill (stage1Descs flags) pmdSize s r start stop physical := by
  have hindex := s1PudIndex_lt start
  have hentry : start / pudSize = 0 + s1PudIndex start := by
    simp only [s1PudIndex, s1VirtMax, pudSize, ptrsPerS1Pud] at *
    omega
  refine mapLoop_till (HostSound src K) ptrsPerS1Pud 0 cuts_pud (by decide) ?_ _ _ _ _ _ _ r
    (by omega) hs hpages hpiece hentry h
  intro s idx start next physical r hi hs hpages hpiece h
  rw [Nat.zero_add] at hpiece
  exact mapPudEntry_till hK hi hs hpages hpiece h

/-- The arguments `arch_host_map` accepts. -/
theorem archHostMap_piece (hlt : start < stop)
    (h : archHostMap src s start stop physical flags = some r) :
    Piece vmmVirtMax 0 start stop physical ∧ start < s1VirtMax ∧ stop ≤ s1VirtMax ∧
      mapPudRange src flags s start stop physical = some r := by
  rw [archHostMap, if_neg (by omega)] at h
  split at h
  · cases h
  rename_i hvirt
  split at h
  · cases h
  rename_i hphys
  split at h
  · cases h
  rename_i halign
  rw [not_not] at hvirt hphys halign
  have h39 : s1VirtMax ≤ vmmVirtMax := by decide
  refine ⟨?_, hvirt.1, hvirt.2, h⟩
  refine ⟨hlt, Nat.div_eq_of_lt (by omega), by omega, by omega, halign.1, halign.2.1,
    halign.2.2, ?_⟩
  simp only [s1VirtMax, s1PhysicalMax] at hvirt hphys
  omega

theorem NoBlock.pages (h : NoBlock s start stop) (hle : stop ≤ s1VirtMax) : Pages s start stop := by
  intro a l hge hlt hl
  refine h a l hge hlt ?_
  rw [walk_eq (by omega)]
  exact hl

theorem HostOk.sound (h : HostOk src s) : HostSound src (fun _ _ => True) s :=
  ⟨h.tables.sound, h.noBlock⟩

theorem archHostMap_maps (hs : HostOk src s) (hlt : start < stop) (hpages : NoBlock s start stop)
    (h : archHostMap src s start stop physical flags = some (none, s')) :
    HostOk src s' ∧ MapsTo s s' start stop physical := by
  obtain ⟨hpiece, hstart, hstop, h⟩ := archHostMap_piece hlt h
  obtain ⟨⟨hs', hpgd⟩, htill⟩ :=
    mapPudRange_till kept_true hs.sound (hpages.pages hstop) hpiece hstart h
  have hmaps := htill.maps rfl
  refine ⟨⟨hs'.tablesOk, hpgd⟩, fun a hge hlt' => ?_,
    fun a hout => walk_congr (hmaps.outside a hout)⟩
  obtain ⟨l, hl, hpa, -⟩ := hmaps.inside a hge hlt'
  rw [walk_eq (by omega), hl, Option.map_some, hpa]

/-! ## What an unmap does -/

section Unmap

variable {q addr : Nat}

theorem unmapPmd_entry (hK : Kept K) (hi : i < ptrsPerPud) (hj : idx < ptrsPerPmd)
    (hs : UnderPmd src K i a s) (hpiece : Piece pmdSize q addr next 0) :
    ∃ s', unmapPmdEntry a s idx addr next = some s' ∧
      (UnderPmd src K i a s' ∧ s'.pgd = s.pgd) ∧
      UnmapsAt s s' pmdSize (i * ptrsPerPmd + idx) addr next := by
  have hs0 := hs
  obtain ⟨role, hwf, hk, ha⟩ := hs0
  rw [unmapPmdEntry]
  by_cases h0 : s.tab a idx = 0
  · rw [if_pos h0]
    exact ⟨s, rfl, ⟨hs, rfl⟩, unmaps_pmd_empty hj ha h0 hpiece⟩
  rw [if_neg h0]
  by_cases hb : huge (s.tab a idx)
  · rw [if_pos hb]
    exact ⟨_, rfl, ⟨hs.clear hK hi, rfl⟩, unmaps_pmd_block hwf hi hj ha (huge_iff.mp hb) hpiece⟩
  rw [if_neg hb]
  obtain ⟨htable, -⟩ := (hwf.pmd i a hi ha idx hj).table h0 hb
  obtain ⟨t, ht, htok, hunmaps⟩ :=
    unmapPteRange_unmaps hK hi hj ⟨role, hwf, hk, ha, htable, rfl⟩ hpiece
  exact ⟨t, ht, ⟨htok.underPmd, unmapPteRange_pgd ht⟩, hunmaps⟩

theorem unmapPmdRange_unmaps {m : Nat} (hK : Kept K) (hi : i < ptrsPerPud)
    (hs : UnderPmd src K i a s) (hpiece : Piece pudSize m addr stop 0) :
    ∃ s', unmapPmdRange a s addr stop = some s' ∧ (UnderPmd src K i a s' ∧ s'.pgd = s.pgd) ∧
      UnmapsAt s s' pudSize i addr stop := by
  have hmore := hpiece.pmd_more
  unfold UnmapsAt
  rw [moved_pmd]
  refine unmapLoop_unmaps (fun t => UnderPmd src K i a t ∧ t.pgd = s.pgd) (· < ptrsPerPmd)
    (i * ptrsPerPmd) cuts_pmd ?_ _ _ _ _ _ ⟨hs, rfl⟩ hpiece (by omega) fun t ht => by omega
  intro t idx q addr next hj ht hpiece
  obtain ⟨t', ht', ⟨hs', hpgd⟩, hunmaps⟩ := unmapPmd_entry hK hi hj ht.1 hpiece
  exact ⟨t', ht', ⟨hs', hpgd.trans ht.2⟩, hunmaps⟩

theorem unmapPud_entry (hi : idx < ptrsPerS1Pud) (hs : HostOk src s)
    (hpiece : Piece pudSize q addr next 0) :
    ∃ s', unmapPudEntry s idx addr next = some s' ∧ HostOk src s' ∧
      UnmapsAt s s' pudSize idx addr next := by
  have hi' := pudEntry_lt hi
  obtain ⟨role, hwf⟩ := hs.tables
  rw [unmapPudEntry]
  by_cases h0 : s.pgd idx = 0
  · rw [if_pos h0]
    exact ⟨s, rfl, hs, unmaps_pud_empty h0 hpiece⟩
  rw [if_neg h0]
  obtain ⟨htable, -⟩ := (hwf.pud idx hi').table h0 (hs.noBlock idx hi)
  obtain ⟨t, ht, ⟨htok, hpgd⟩, hunmaps⟩ :=
    unmapPmdRange_unmaps kept_true hi' ⟨role, hwf, trivial, htable, rfl⟩ hpiece
  exact ⟨t, ht, ⟨htok.sound.tablesOk, hpgd ▸ hs.noBlock⟩, hunmaps⟩

/-- **An unmap that comes to an end** has removed its range, moved to the 1GB of
`stop`. -/
theorem unmapPudRange_unmaps (hs : HostOk src s) (hpiece : Piece vmmVirtMax 0 start stop 0)
    (h : unmapPudRange s start stop = some s') :
    HostOk src s' ∧ UnmapsAt s s' pudSize (s1PudIndex stop) start stop := by
  obtain ⟨hleft, -⟩ := unmapLoop_more (fun _ _ => True) cuts_pud
    (fun _ _ _ _ _ _ => ⟨trivial, fun _ _ _ => trivial⟩) _ _ _ _ _ _ hpiece h
  obtain ⟨t, ht, hok, hunmaps⟩ := unmapLoop_unmaps (HostOk src) (· < ptrsPerS1Pud) 0 cuts_pud
    (fun s idx q addr next hi hs hpiece => by
      rw [Nat.zero_add]
      exact unmapPud_entry hi hs hpiece)
    _ s (s1PudIndex stop) start stop hs hpiece hleft (fun t ht => by omega)
  rw [unmapPudRange, ht] at h
  cases h
  rw [Nat.zero_add] at hunmaps
  exact ⟨hok, hunmaps⟩

end Unmap

/-- The unmap of one range is that of another with the same mapped addresses. -/
theorem removes_iff (h : UnmapsAt s s' pudSize (s1PudIndex stop) start stop) :
    Removes s s' start stop ↔ SameMapped s start stop := by
  have hwalk : ∀ a, walk s' a = (walk s a).filter fun l =>
      ¬ hit (moved pudSize (s1PudIndex stop) start)
        (moved pudSize (s1PudIndex stop) start + (stop - start)) a l := by
    intro a
    by_cases hlt : a < s1VirtMax
    · rw [walk_eq hlt, walk_eq hlt]
      exact h a
    · rw [walk_of_ge hlt, walk_of_ge hlt]
      rfl
  exact filter_range_iff hwalk

theorem va_page (tagging : Bool) (h : a % pageSize = 0) : va tagging a % pageSize = 0 := by
  rw [va]
  split
  · simp only [s1VirtMax, pageSize] at *
    omega
  · exact h

theorem u64_page {b : Nat} (h1 : a % pageSize = 0) (h2 : b % pageSize = 0) :
    u64 (a + b) % pageSize = 0 := by
  simp only [u64, pageSize] at *
  omega

theorem sameMapped_of_inside (hlt : start < stop) (hstop : stop ≤ s1VirtMax)
    (hpud : start / pudSize = stop / pudSize)
    (h : ∀ a l, walk s a = some l → hit start stop a l → start ≤ a ∧ a < stop) :
    SameMapped s start stop := by
  have hmoved : moved pudSize (s1PudIndex stop) start = start := by
    simp only [moved, s1PudIndex, s1VirtMax, pudSize, ptrsPerS1Pud] at *
    omega
  intro a l hl
  rw [hmoved, Nat.add_sub_cancel' (Nat.le_of_lt hlt)]
  refine ⟨fun hmem => hit_of_mem ?_ hmem.1 hmem.2, h a l hl⟩
  rw [walk_eq (walk_lt hl)] at hl
  exact walk_size_pos hl

/-- **A call does what it is for**, and leaves the tables well formed. -/
theorem HostOk.step {tagging : Bool} {e : Event} (hs : HostOk src s) (hok : CallOk tagging s e)
    (hs' : hostStep src tagging s e = some s') : HostOk src s' ∧ Serves tagging s e s' := by
  cases e with
  | map vir phy size flags =>
    obtain ⟨r, hr, hsucc⟩ := Option.bind_eq_some_iff.mp hs'
    obtain ⟨hnone, hsucc⟩ := Option.ite_none_right_eq_some.mp hsucc
    cases hsucc
    obtain ⟨err, t⟩ := r
    cases hnone
    rw [createHostMapping] at hr
    split at hr
    · cases hr
    · exact archHostMap_maps hs hok.1 hok.2 hr
  | unmap vir size =>
    obtain ⟨r, hr, hsucc⟩ := Option.bind_eq_some_iff.mp hs'
    obtain ⟨hnone, hsucc⟩ := Option.ite_none_right_eq_some.mp hsucc
    cases hsucc
    rw [destroyHostMapping] at hr
    split at hr
    · cases hr
      cases hnone
    rename_i halign
    rw [not_not] at halign
    rw [archHostUnmap] at hr
    split at hr
    · cases hr
    rename_i hvirt
    rw [not_not] at hvirt
    obtain ⟨t, ht, rfl⟩ := Option.map_eq_some_iff.mp hr
    have hpiece := piece_of_range hok.1 (Nat.le_trans hvirt.2 (by decide))
      (va_page tagging halign.1) (va_page tagging (u64_page halign.1 halign.2))
    obtain ⟨hs', hunmaps⟩ := unmapPudRange_unmaps hs hpiece ht
    exact ⟨hs', (removes_iff hunmaps).mpr hok.2⟩

/-- **Host mappings.** In a run whose calls meet `CallOk` each successful call
does what it is for. -/
theorem host_mappings_ok (src : PageSource) (tagging : Bool) (s₀ : Tables) (l : List Event)
    (h₀ : HostOk src s₀) (hl : Along (hostStep src tagging) (CallOk tagging) s₀ l) :
    Along (hostStep src tagging)
      (fun s e => ∀ s', hostStep src tagging s e = some s' → Serves tagging s e s') s₀ l :=
  along_of_invariant (I := HostOk src) (fun _ _ _ hs hok hs' => (hs.step hok hs').1)
    (fun _ _ hs hok _ hs' => (hs.step hok hs').2) h₀ hl

theorem hostOk_noTables (src : PageSource) : HostOk src noTables where
  tables := ⟨_, wellFormed_init _⟩
  noBlock _ _ := not_huge_zero

theorem walk_noTables (a : Nat) : walk noTables a = none := by
  by_cases hlt : a < s1VirtMax
  · rw [walk_eq hlt]
    exact walk_of_pud_zero rfl
  · exact walk_of_ge hlt

theorem noBlock_noTables (start stop : Nat) : NoBlock noTables start stop := by
  intro a l _ _ hl
  rw [walk_noTables] at hl
  cases hl

/-- A 2MB block and a page, mapped and unmapped. -/
theorem host_mappings_ok_mixed :
    HostOk pagePool noTables ∧
      (run (hostStep pagePool false) noTables
        [.map 0x40000000 0x80000000 0x201000 vmNormal, .unmap 0x40000000 0x201000]).isSome ∧
      Along (hostStep pagePool false)
        (fun s e => ∀ s', hostStep pagePool false s e = some s' → Serves false s e s') noTables
        [.map 0x40000000 0x80000000 0x201000 vmNormal, .unmap 0x40000000 0x201000] := by
  have hempty : CallOk false noTables (.map 0x40000000 0x80000000 0x201000 vmNormal) :=
    ⟨by decide, noBlock_noTables _ _⟩
  refine ⟨hostOk_noTables _, by decide +kernel, ?_⟩
  refine host_mappings_ok _ _ _ _ (hostOk_noTables _)
    ⟨hempty, fun s hs => ⟨⟨by decide, ?_⟩, fun _ _ => trivial⟩⟩
  refine sameMapped_of_inside (by decide) (by decide) (by decide) ?_
  -- nothing but the range is mapped
  have hmaps := ((hostOk_noTables pagePool).step hempty hs).2
  intro a l hl _
  by_contra hout
  rw [hmaps.2 a hout, walk_noTables] at hl
  cases hl

/-- A 2MB block below 1GB survives its unmap; a page mapped over a block leaves
it in place; and the unmap of a page of a block takes the next page with it. -/
theorem host_mappings_broken :
    (∃ s s', run (hostStep pagePool false) noTables
          [.map 0x3fe00000 0x80000000 0x200000 vmNormal] = some s ∧
        hostStep pagePool false s (.unmap 0x3fe00000 0x200000) = some s' ∧
        (walk s' 0x3fe00000).isSome ∧ ¬ Serves false s (.unmap 0x3fe00000 0x200000) s') ∧
    (∃ s s', run (hostStep pagePool false) noTables
          [.map 0x40000000 0x80000000 0x200000 vmNormal] = some s ∧
        hostStep pagePool false s (.map 0x40000000 0x90000000 0x1000 vmNormal) = some s' ∧
        (walk s' 0x40000000).map Leaf.pa = some 0x80000000 ∧
        ¬ Serves false s (.map 0x40000000 0x90000000 0x1000 vmNormal) s') ∧
    ∃ s s', run (hostStep pagePool false) noTables
          [.map 0x40000000 0x80000000 0x200000 vmNormal] = some s ∧
        hostStep pagePool false s (.unmap 0x40000000 0x1000) = some s' ∧
        (walk s 0x40001000).isSome ∧ walk s' 0x40001000 = none ∧
        ¬ Serves false s (.unmap 0x40000000 0x1000) s' := by
  refine ⟨?_, ?_, ?_⟩
  · refine exists_found_two (P := fun _ s' => (walk s' 0x3fe00000).isSome)
      (fun s s' _ _ hsome => ⟨hsome, ?_⟩) (by decide +kernel)
    rintro ⟨hin, -⟩
    rw [hin 0x3fe00000 (by decide) (by decide)] at hsome
    cases hsome
  · refine exists_found_two (P := fun _ s' => (walk s' 0x40000000).map Leaf.pa = some 0x80000000)
      (fun s s' _ _ hpa => ⟨hpa, ?_⟩) (by decide +kernel)
    rintro ⟨hin, -⟩
    have hpa' := hin 0x40000000 (by decide) (by decide)
    rw [hpa] at hpa'
    cases hpa'
  · refine exists_found_two
      (P := fun s s' => (walk s 0x40001000).isSome ∧ walk s' 0x40001000 = none)
      (fun s s' _ _ ⟨hsome, hnone⟩ => ⟨hsome, hnone, ?_⟩) (by decide +kernel)
    rintro ⟨-, hout⟩
    rw [← hout 0x40001000 (by decide), hnone] at hsome
    cases hsome

end Minos.Stage1
