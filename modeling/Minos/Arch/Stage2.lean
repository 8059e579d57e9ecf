import Minos.Core.Errno
import Minos.Lib.Word
import Mathlib.Logic.Function.Basic

/-!
# Stage-2 translation tables

The tables of `arch/aarch64/virt/stage2.c`: a first table of 1024 entries
(two concatenated pages), tables of 512 entries below it, 1GB and 2MB blocks
and 4KB pages. Host memory that holds tables is a function from page
addresses to their 512 entries; `get_free_page` is a source of pages.

A map or unmap that would read memory which is no table (an entry past the
end of one, the output of a block taken for a table) is not followed.
-/

namespace Minos.Stage2

open Minos.Lib

/-! ## Descriptors -/

abbrev Entry := BitVec 64

def pageSize : Nat := 2 ^ 12
def pmdSize : Nat := 2 ^ 21
def pudSize : Nat := 2 ^ 30
def vmmVirtMax : Nat := 2 ^ 40
def physicalMax : Nat := 2 ^ 40
def ptrsPerPud : Nat := 1024
def ptrsPerPmd : Nat := 512
def ptrsPerPte : Nat := 512

/-- `S2_PHYSICAL_MASK` -/
def physicalMask : Entry := 0x0000fffffffff000
/-- What is neither address nor type. -/
def attrMask : Entry := 0xffff000000000ffc

def desBlock : Entry := 1
def desTable : Entry := 3
def desPage : Entry := 3
def s2Af : Entry := 1 <<< 10
def s2Xn : Entry := 1 <<< 54
def s2Pfnmap : Entry := 1 <<< 55
def s2Devmap : Entry := 1 <<< 56
def s2Shared : Entry := 1 <<< 57
def shOuter : Entry := 2 <<< 8
def shInner : Entry := 3 <<< 8
def apNon : Entry := 0
def apRo : Entry := 1 <<< 6
def apWo : Entry := 2 <<< 6
def apRw : Entry := 3 <<< 6
def memattrDevNGnRE : Entry := 1 <<< 2
def memattrNormalWb : Entry := 15 <<< 2
def memattrNormalNc : Entry := 5 <<< 2
def memattrNormalWt : Entry := 10 <<< 2

def s2PageNormal : Entry := desPage ||| s2Af ||| shInner ||| memattrNormalWb
def s2PageNormalNc : Entry := desPage ||| s2Af ||| shInner ||| memattrNormalNc
def s2PageWt : Entry := desPage ||| s2Af ||| shInner ||| memattrNormalWt
def s2PageDevice : Entry := desPage ||| s2Af ||| shOuter ||| memattrDevNGnRE ||| s2Xn
def s2BlockNormal : Entry := desBlock ||| s2Af ||| shInner ||| memattrNormalWb
def s2BlockNormalNc : Entry := desBlock ||| s2Af ||| shInner ||| memattrNormalNc
def s2BlockDevice : Entry := desBlock ||| s2Af ||| shOuter ||| memattrDevNGnRE ||| s2Xn
def s2BlockWt : Entry := desBlock ||| s2Af ||| shOuter ||| memattrNormalWt

/-! ## Flags of a mapping -/

def vmIo : Entry := 0x1
def vmNormal : Entry := 0x2
def vmNormalNc : Entry := 0x4
def vmWt : Entry := 0x8
def vmPfnmap : Entry := 0x100
def vmHuge2M : Entry := 0x200
def vmHuge1G : Entry := 0x400
def vmDevmap : Entry := 0x800
def vmShared : Entry := 0x1000
def vmRead : Entry := 0x100000
def vmWrite : Entry := 0x200000
def vmExec : Entry := 0x400000
def vmTypeMask : Entry := vmIo ||| vmNormal ||| vmNormalNc ||| vmWt
def vmRwMask : Entry := vmRead ||| vmWrite

/-- The part that `stage2_block_attr` and `stage2_page_attr` have in common. -/
def rightsAttr (flags : Entry) : Entry :=
  let ap :=
    if flags &&& vmRwMask = vmRead then apRo
    else if flags &&& vmRwMask = vmRead ||| vmWrite then apRw
    else if flags &&& vmRwMask = vmWrite then apWo
    else apNon
  let ap := if flags &&& vmExec = 0 then ap ||| s2Xn else ap
  let ap := if flags &&& vmPfnmap = 0 then ap else ap ||| s2Pfnmap
  let ap := if flags &&& vmDevmap = 0 then ap else ap ||| s2Devmap
  if flags &&& vmShared = 0 then ap else ap ||| s2Shared

/-- The memory type of a mapping, and its rights. -/
def leafAttr (nc device wt normal flags : Entry) : Entry :=
  (if flags &&& vmTypeMask = vmNormalNc then nc
    else if flags &&& vmTypeMask = vmIo then device
    else if flags &&& vmTypeMask = vmWt then wt
    else normal) ||| rightsAttr flags

/-- `stage2_block_attr`. -/
def stage2BlockAttr : Entry → Entry :=
  leafAttr s2BlockNormalNc s2BlockDevice s2BlockWt s2BlockNormal

/-- `stage2_page_attr`. -/
def stage2PageAttr : Entry → Entry :=
  leafAttr s2PageNormalNc s2PageDevice s2PageWt s2PageNormal

/-! ## State -/

/-- The tables of a VM. `got` counts its calls of `get_free_page`, `freed`
lists the pages it gave back. -/
structure Tables where
  pgd : Nat → Entry
  tab : Nat → Nat → Entry
  got : Nat
  freed : List Nat

/-- `get_free_page`, call by call. What it hands out is page aligned host
memory below 2^40, and no page twice, as long as none is given back. -/
structure PageSource where
  get : Nat → Option Nat
  aligned : ∀ k a, get k = some a → a % pageSize = 0
  lt : ∀ k a, get k = some a → a < 2 ^ 40
  inj : ∀ i j a, get i = some a → get j = some a → i = j

def Tables.setPgd (s : Tables) (i : Nat) (e : Entry) : Tables :=
  { s with pgd := Function.update s.pgd i e }

def Tables.setTab (s : Tables) (p k : Nat) (e : Entry) : Tables :=
  { s with tab := Function.update s.tab p (Function.update (s.tab p) k e) }

/-- The page `p` of `stage2_get_free_page`, after `memset(p, 0, PAGE_SIZE)`. -/
def Tables.newTable (s : Tables) (p : Nat) : Tables :=
  { s with got := s.got + 1, tab := Function.update s.tab p fun _ => 0 }

def pudIndex (a : Nat) : Nat := a / pudSize % ptrsPerPud
def pmdIndex (a : Nat) : Nat := a / pmdSize % ptrsPerPmd
def pteIndex (a : Nat) : Nat := a / pageSize % ptrsPerPte

/-- `stage2_pmd_table_addr`, `stage2_pte_table_addr`. -/
def tableAddr (e : Entry) : Nat := (e &&& physicalMask).toNat

/-- `stage2_pud_huge`, `stage2_pmd_huge`. -/
def huge (e : Entry) : Prop := e ≠ 0 ∧ e &&& 3 = desBlock

instance (e : Entry) : Decidable (huge e) := inferInstanceAs (Decidable (_ ∧ _))

/-- `stage2_xxx_addr_end`. -/
def addrEnd (mapSize start stop : Nat) : Nat :=
  let boundary := u64 (start + mapSize) / mapSize * mapSize
  if sub64 boundary 1 < sub64 stop 1 then boundary else stop

/-! ## Mapping -/

/-- What a mapping function returns: `none` for 0. -/
abbrev Ret := Option Errno × Tables

/-- `do { .. } while (entry++, physical += size, start = next, start != end)`
over the entries of one table, with `left` of them to its end: a loop that
leaves the table is not followed. -/
def mapLoop (next : Nat → Nat → Nat)
    (body : Tables → Nat → Nat → Nat → Nat → Option Ret) :
    Nat → Tables → Nat → Nat → Nat → Nat → Option Ret
  | 0, _, _, _, _, _ => none
  | left + 1, s, idx, start, stop, physical =>
    (body s idx start (next start stop) physical).bind fun r =>
      match r.1 with
      | some _ => some r
      | none =>
        if next start stop = stop then some r
        else mapLoop next body left r.2 (idx + 1) (next start stop) stop
          (u64 (physical + sub64 (next start stop) start))

/-- `stage2_map_pte_range`. -/
def mapPteRange (ptep : Nat) (flags : Entry) (s : Tables) (start stop physical : Nat) :
    Option Ret :=
  mapLoop (fun start _ => u64 (start + pageSize))
    (fun s idx _ _ physical =>
      some (none, s.setTab ptep idx (stage2PageAttr flags ||| BitVec.ofNat 64 physical)))
    (ptrsPerPte - pteIndex start) s (pteIndex start) start stop physical

/-- `stage2_pmd_huge_page`. -/
def pmdHugePage (oldPmd : Entry) (start phy size : Nat) (flags : Entry) : Prop :=
  ¬ (flags &&& (vmHuge2M ||| vmHuge1G) = 0 ∨ oldPmd ≠ 0) ∧
    start % pmdSize = 0 ∧ phy % pmdSize = 0 ∧ size % pmdSize = 0

instance (oldPmd : Entry) (start phy size : Nat) (flags : Entry) :
    Decidable (pmdHugePage oldPmd start phy size flags) :=
  inferInstanceAs (Decidable (_ ∧ _))

/-- The loop body of `stage2_map_pmd_range`. -/
def mapPmdEntry (src : PageSource) (pmdp : Nat) (flags : Entry) (s : Tables)
    (idx start next physical : Nat) : Option Ret :=
  let oldPmd := s.tab pmdp idx
  if pmdHugePage oldPmd start physical (sub64 next start) flags then
    some (none, s.setTab pmdp idx
      (stage2BlockAttr flags ||| BitVec.ofNat 64 (physical / pmdSize * pmdSize)))
  else if oldPmd ≠ 0 ∧ huge oldPmd then some (some .einval, s)
  else if oldPmd = 0 then
    match src.get s.got with
    | none => some (some .enomem, { s with got := s.got + 1 })
    | some ptep =>
      mapPteRange ptep flags
        ((s.newTable ptep).setTab pmdp idx (BitVec.ofNat 64 ptep ||| desTable))
        start next physical
  else mapPteRange (tableAddr oldPmd) flags s start next physical

/-- `stage2_map_pmd_range`. -/
def mapPmdRange (src : PageSource) (pmdp : Nat) (flags : Entry) (s : Tables)
    (start stop physical : Nat) : Option Ret :=
  mapLoop (addrEnd pmdSize) (mapPmdEntry src pmdp flags)
    (ptrsPerPmd - pmdIndex start) s (pmdIndex start) start stop physical

/-- `stage2_pud_huge_page`. -/
def pudHugePage (oldPud : Entry) (start phy size : Nat) (flags : Entry) : Prop :=
  ¬ (flags &&& vmHuge1G = 0 ∨ oldPud ≠ 0) ∧
    start % pudSize = 0 ∧ phy % pudSize = 0 ∧ size % pudSize = 0

instance (oldPud : Entry) (start phy size : Nat) (flags : Entry) :
    Decidable (pudHugePage oldPud start phy size flags) :=
  inferInstanceAs (Decidable (_ ∧ _))

/-- The loop body of `stage2_map_pud_range`. -/
def mapPudEntry (src : PageSource) (flags : Entry) (s : Tables)
    (idx start next physical : Nat) : Option Ret :=
  let oldPud := s.pgd idx
  if pudHugePage oldPud start physical (sub64 next start) flags then
    some (none, s.setPgd idx
      (stage2BlockAttr flags ||| BitVec.ofNat 64 (physical / pudSize * pudSize)))
  else if oldPud ≠ 0 ∧ huge oldPud then some (some .einval, s)
  else if oldPud = 0 then
    match src.get s.got with
    | none => some (some .enomem, { s with got := s.got + 1 })
    | some pmdp =>
      mapPmdRange src pmdp flags
        ((s.newTable pmdp).setPgd idx (BitVec.ofNat 64 pmdp ||| desTable))
        start next physical
  else mapPmdRange src (tableAddr oldPud) flags s start next physical

/-- `stage2_map_pud_range`. -/
def mapPudRange (src : PageSource) (flags : Entry) (s : Tables)
    (start stop physical : Nat) : Option Ret :=
  mapLoop (addrEnd pudSize) (mapPudEntry src flags)
    (ptrsPerPud - pudIndex start) s (pudIndex start) start stop physical

/-- `arch_guest_map`. -/
def archGuestMap (src : PageSource) (s : Tables) (start stop physical : Nat) (flags : Entry) :
    Option Ret :=
  if stop = start then some (some .einval, s)
  else if ¬ (start < vmmVirtMax ∧ stop ≤ vmmVirtMax) then none
  else if ¬ physical < physicalMax then none
  else if ¬ (start % pageSize = 0 ∧ stop % pageSize = 0 ∧ physical % pageSize = 0) then none
  else mapPudRange src flags s start stop physical

/-- `stage2_ipa_to_pa`, behind `translate_guest_ipa`: `none` is `-EFAULT`. A first-level
entry is taken for a table whatever it is, and an output page 0 for no page. -/
def stage2IpaToPa (s : Tables) (va : Nat) : Option Nat :=
  let pud := s.pgd (pudIndex va)
  let pmd := s.tab (tableAddr pud) (pmdIndex va)
  let phy := tableAddr (s.tab (tableAddr pmd) (pteIndex va))
  if pud = 0 then none
  else if pmd = 0 then none
  else if huge pmd then some (tableAddr pmd + va % pmdSize)
  else if phy = 0 then none
  else some (phy + va % pageSize)

/-! ## Unmapping -/

/-- `do { .. } while (entry++, addr = next, addr != end)`. -/
def unmapLoop (next : Nat → Nat → Nat) (body : Tables → Nat → Nat → Nat → Option Tables) :
    Nat → Tables → Nat → Nat → Nat → Option Tables
  | 0, _, _, _, _ => none
  | left + 1, s, idx, addr, stop =>
    (body s idx addr (next addr stop)).bind fun s =>
      if next addr stop = stop then some s
      else unmapLoop next body left s (idx + 1) (next addr stop) stop

/-- `stage2_unmap_pte_range`. -/
def unmapPteRange (ptep : Nat) (s : Tables) (addr stop : Nat) : Option Tables :=
  unmapLoop (fun addr _ => u64 (addr + pageSize))
    (fun s idx _ _ => if s.tab ptep idx ≠ 0 then some (s.setTab ptep idx 0) else some s)
    (ptrsPerPte - pteIndex addr) s (pteIndex addr) addr stop

/-- `is_pmd_range`, `is_pud_range`. -/
def isRange (size start stop : Nat) : Prop :=
  start % size = 0 ∧ sub64 stop start = size

instance (size start stop : Nat) : Decidable (isRange size start stop) :=
  inferInstanceAs (Decidable (_ ∧ _))

/-- `free_pages`: the page is no longer used as a table. -/
def Tables.freePages (s : Tables) (p : Nat) : Tables := { s with freed := p :: s.freed }

/-- The loop body of `stage2_unmap_pmd_range`. -/
def unmapPmdEntry (pmdp : Nat) (s : Tables) (idx addr next : Nat) : Option Tables :=
  let pmd := s.tab pmdp idx
  if pmd = 0 then some s
  else if huge pmd then some (s.setTab pmdp idx 0)
  else
    (unmapPteRange (tableAddr pmd) s addr next).map fun s =>
      if isRange pmdSize addr next then (s.setTab pmdp idx 0).freePages (tableAddr pmd) else s

/-- `stage2_unmap_pmd_range`. -/
def unmapPmdRange (pmdp : Nat) (s : Tables) (addr stop : Nat) : Option Tables :=
  unmapLoop (addrEnd pmdSize) (unmapPmdEntry pmdp)
    (ptrsPerPmd - pmdIndex addr) s (pmdIndex addr) addr stop

/-- The loop body of `stage2_unmap_pud_range`. It takes every entry for a
table: the output address of a 1GB block is guest memory, and what following
it does is not followed. -/
def unmapPudEntry (s : Tables) (idx addr next : Nat) : Option Tables :=
  let pud := s.pgd idx
  if pud = 0 then some s
  else if huge pud then none
  else
    (unmapPmdRange (tableAddr pud) s addr next).map fun s =>
      if isRange pudSize addr next then (s.setPgd idx 0).freePages (tableAddr pud) else s

/-- `stage2_unmap_pud_range`: the first entry is that of `end`. -/
def unmapPudRange (s : Tables) (addr stop : Nat) : Option Tables :=
  unmapLoop (addrEnd pudSize) unmapPudEntry
    (ptrsPerPud - pudIndex stop) s (pudIndex stop) addr stop

/-- `arch_guest_unmap`. -/
def archGuestUnmap (s : Tables) (start stop : Nat) : Option Ret :=
  if stop = start then some (some .einval, s)
  else if ¬ (start < vmmVirtMax ∧ stop ≤ vmmVirtMax) then none
  else (unmapPudRange s start stop).map fun s => (none, s)

end Minos.Stage2
