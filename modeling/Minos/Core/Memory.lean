import Minos.Lib.Cover
import Minos.Lib.Run
import Minos.Lib.Word
import Mathlib.Logic.Function.Basic

/-!
# The host heap

The two allocators of `core/memory.c`. Slabs are carved upwards from
`slab_base`, a header of 16 bytes before each; freed slabs wait in a hash
table of slab types. Pages are cut downwards from `page_base`; each run is
described by a `struct page`, which is itself a slab. Slab types are slabs,
too. Addresses are numbers and the linked lists are lists; what the
allocators read from memory (the header of a slab) is a function of the
address.

A failed `ASSERT` and a write through `NULL` stop the machine.
-/

namespace Minos.Memory

open Minos.Lib

/-! ## State -/

def pageSize : Nat := 4096
def hashTableSize : Nat := 8
def slabMinDataSize : Nat := 16
def slabHeaderSize : Nat := 16
/-- `sizeof(struct slab_type)` -/
def slabTypeSize : Nat := 32
/-- `sizeof(struct page)` -/
def structPageSize : Nat := 16

/-- `struct slab_header`. A slab in the hash table has `next` where the magic
number was. -/
structure SlabHeader where
  size : Nat
  magic : Bool
  deriving DecidableEq, Repr

/-- `struct slab_type` at `addr`; `head` holds the addresses of headers. -/
structure SlabType where
  addr : Nat
  size : Nat
  head : List Nat
  deriving DecidableEq, Repr

/-- `struct page` at `addr`. -/
structure Page where
  addr : Nat
  pfn : Nat
  cnt : Nat
  align : Nat
  deriving DecidableEq, Repr

structure Heap where
  slabBase : Nat
  pageBase : Nat
  header : Nat → SlabHeader
  slabHashTable : Nat → List SlabType
  freePageHead : List Page
  usedPageHead : List Page

def hashId (size : Nat) : Nat := size / 2 ^ 4 % hashTableSize

/-- `BALIGN(size, 16)` on `size_t`. -/
def getSlabAllocSize (size : Nat) : Nat :=
  let up := u64 (size + (slabMinDataSize - 1))
  up - up % slabMinDataSize

/-! ## Slabs -/

/-- The loop of `malloc_from_hash_table`: the header taken, and the list. -/
def takeSlab (size : Nat) : List SlabType → Option (Nat × List SlabType)
  | [] => none
  | st :: l =>
    if st.size ≠ size then (takeSlab size l).map fun r => (r.1, st :: r.2)
    else
      match st.head with
      | [] => none
      | sh :: next => some (sh, { st with head := next } :: l)

/-- `malloc_from_hash_table`. -/
def mallocFromHashTable (h : Heap) (size : Nat) : Option (Nat × Heap) :=
  (takeSlab size (h.slabHashTable (hashId size))).map fun r =>
    (r.1 + slabHeaderSize,
      { h with
        slabHashTable := Function.update h.slabHashTable (hashId size) r.2
        header := Function.update h.header r.1 { h.header r.1 with magic := true } })

/-- `malloc_from_slab_heap`. -/
def mallocFromSlabHeap (h : Heap) (size : Nat) : Option (Nat × Heap) :=
  if h.slabBase ≥ h.pageBase then none
  else
    let slabSize := h.pageBase - h.slabBase
    let size := u64 (size + slabHeaderSize)
    if slabSize < size then none
    else some (h.slabBase + slabHeaderSize,
      { h with
        header := Function.update h.header h.slabBase ⟨sub64 size slabHeaderSize, true⟩
        slabBase := u64 (h.slabBase + size) })

/-- The loop of `free_slab`, when it finds the slab type. -/
def putSlab (size sh : Nat) : List SlabType → Option (List SlabType)
  | [] => none
  | st :: l =>
    if st.size ≠ size then (putSlab size sh l).map (st :: ·)
    else some ({ st with head := sh :: st.head } :: l)

/-- `free_slab`. -/
def freeSlab (h : Heap) (addr : Nat) : Option Heap :=
  let sh := addr - slabHeaderSize
  if ¬ addr < h.slabBase then none
  else if (h.header sh).magic = false then none
  else
    let size := (h.header sh).size
    let id := hashId size
    match putSlab size sh (h.slabHashTable id) with
    | some l => some { h with
        slabHashTable := Function.update h.slabHashTable id l
        header := Function.update h.header sh ⟨size, false⟩ }
    | none =>
      match mallocFromSlabHeap h slabTypeSize with
      -- the slab is lost
      | none => some h
      | some (st, h) => some { h with
          slabHashTable := Function.update h.slabHashTable id
            (h.slabHashTable id ++ [⟨st, u32 size, [sh]⟩])
          header := Function.update h.header sh ⟨size, false⟩ }

/-- `__malloc`. -/
def mallocBlock (h : Heap) (size : Nat) : Option (Nat × Heap) :=
  match mallocFromHashTable h size with
  | some r => some r
  | none => mallocFromSlabHeap h size

/-! ## Pages -/

/-- The product of two `int`s. -/
def mulInt (a b : Int) : Int := (a * b + 2 ^ 31) % 2 ^ 32 - 2 ^ 31

/-- An `int` where an `unsigned long` is needed. -/
def ulong (a : Int) : Nat := (a % 2 ^ 64).toNat

/-- `pages * PAGE_SIZE`: an `int` before it meets an address. -/
def pagesSize (pages : Int) : Nat := ulong (mulInt pages pageSize)

/-- `ALIGN(tmp - pages * PAGE_SIZE, align)`. -/
def newPageBase (h : Heap) (pages : Int) (align : Nat) : Nat :=
  let base := sub64 h.pageBase (pagesSize pages)
  base - base % align

/-- The end of `alloc_new_pages`: the node of the pages themselves. -/
def newPage (h : Heap) (base : Nat) (pages : Int) (align : Nat) : Option (Page × Heap) :=
  (mallocBlock h structPageSize).map fun r =>
    (⟨r.1, u32 (base / pageSize), (pages % 2 ^ 16).toNat, align / pageSize % 2 ^ 8⟩,
      { r.2 with pageBase := base })

/-- `alloc_new_pages`: `none` for `NULL`, with what it left behind. -/
def allocNewPages (h : Heap) (pages : Int) (align : Nat) : Option Page × Heap :=
  let tmp := h.pageBase
  let base := newPageBase h pages align
  if base < h.slabBase then (none, h)
  else
    let rbase := u64 (base + pagesSize pages)
    if rbase ≠ tmp then
      match mallocBlock h structPageSize with
      | none => (none, h)
      | some (addr, h) =>
        let recycle : Page :=
          ⟨addr, u32 (rbase / pageSize), sub64 tmp rbase / pageSize % 2 ^ 16, 1⟩
        let h := { h with freePageHead := recycle :: h.freePageHead }
        match newPage h base pages align with
        | some (page, h) => (some page, h)
        | none => (none, (freeSlab h addr).getD h)
    else
      match newPage h base pages align with
      | some (page, h) => (some page, h)
      | none => (none, h)

/-- What the free list is searched for. -/
def Page.Fits (pages align : Int) (p : Page) : Prop :=
  (p.cnt : Int) = pages ∧ (p.align : Int) = align

instance (pages align : Int) (p : Page) : Decidable (p.Fits pages align) :=
  inferInstanceAs (Decidable (_ ∧ _))

/-- The search of the free list once there is a `prev`: the page is unlinked. -/
def takeAfter (pages align : Int) : List Page → Option (Page × List Page)
  | [] => none
  | p :: l =>
    if p.Fits pages align then some (p, l)
    else (takeAfter pages align l).map fun r => (r.1, p :: r.2)

/-- The search of the free list. For its first page the code sets the head to
`NULL`, which loses the rest. -/
def takeFree (pages align : Int) : List Page → Option (Page × List Page)
  | [] => none
  | p :: l =>
    if p.Fits pages align then some (p, [])
    else (takeAfter pages align l).map fun r => (r.1, p :: r.2)

def addUsedPage (h : Heap) (page : Page) : Heap :=
  { h with usedPageHead := page :: h.usedPageHead }

/-- `__get_free_pages`: the pages' address, `none` inside for `NULL`. When
`alloc_new_pages` fails, `add_used_page` writes through `NULL`. -/
def getFreePages (h : Heap) (pages align : Int) : Option (Option Nat × Heap) :=
  if align ∈ [1, 2, 4, 8] then
    match takeFree pages align h.freePageHead with
    | some (page, rest) =>
      some (some (page.pfn * pageSize), addUsedPage { h with freePageHead := rest } page)
    | none =>
      match allocNewPages h pages (pagesSize align) with
      | (none, _) => none
      | (some page, h) => some (some (page.pfn * pageSize), addUsedPage h page)
  else some (none, h)

/-- `find_used_page`. -/
def findUsedPage (addr : Nat) : List Page → Option (Page × List Page)
  | [] => none
  | p :: l =>
    if p.pfn = addr / pageSize then some (p, l)
    else (findUsedPage addr l).map fun r => (r.1, p :: r.2)

/-- `free_pages`. -/
def freePages (h : Heap) (addr : Nat) : Heap :=
  match findUsedPage addr h.usedPageHead with
  | none => h
  | some (page, rest) =>
    { h with usedPageHead := rest, freePageHead := page :: h.freePageHead }

/-! ## The system

The heap, and what its callers hold: the objects and the page runs they were
given and have not given back, with the sizes they asked for. -/

structure Sys where
  heap : Heap
  objs : List (Nat × Nat)
  runs : List (Nat × Nat)

inductive HeapCall
  | malloc (size : Nat)
  | free (addr : Nat)
  | getPages (pages align : Int)
  | freePages (addr : Nat)
  deriving DecidableEq, Repr

/-- The memory the heap starts with: from `minos_end` to the end of the host's
RAM, which lies in the 39 bits that the host's translation tables cover. -/
structure HostMem where
  minosEnd : Nat
  ramEnd : Nat
  ramEnd_aligned : ramEnd % pageSize = 0
  ramEnd_le : ramEnd ≤ 2 ^ 39
  /-- `ASSERT(page_base > slab_base)` -/
  room : (minosEnd + 15) / 16 * 16 < ramEnd

def HostMem.slabStart (m : HostMem) : Nat := (m.minosEnd + 15) / 16 * 16

/-- The heap after `memory_init` and `slab_init`. -/
def memoryInit (m : HostMem) : Sys where
  heap :=
    { slabBase := m.slabStart
      pageBase := m.ramEnd
      header := fun _ => ⟨0, false⟩
      slabHashTable := fun _ => []
      freePageHead := []
      usedPageHead := [] }
  objs := []
  runs := []

/-! ## What the heap is for -/

def Heap.slabTypes (h : Heap) : List SlabType :=
  (List.range hashTableSize).flatMap h.slabHashTable

/-- All `struct page` nodes. -/
def Heap.pages (h : Heap) : List Page := h.freePageHead ++ h.usedPageHead

def Page.range (p : Page) : Nat × Nat :=
  (p.pfn * pageSize, p.pfn * pageSize + p.cnt * pageSize)

/-- The nodes that `alloc_new_pages` allocates: one for the pages, and one for
what alignment leaves over. -/
def nodesNeeded (h : Heap) (pages : Int) (align : Nat) : Nat :=
  if u64 (newPageBase h pages align + pagesSize pages) ≠ h.pageBase then 2 else 1

section Joint

variable {a addr k : Nat} {p page : Page} {rest : List Page} {align pages : Int}

/-! ### `free_pages` -/

theorem findUsedPage_spec {l : List Page}
    (hf : findUsedPage addr l = some (p, rest)) :
    p.pfn = addr / pageSize ∧ l.Perm (p :: rest) ∧
      rest = l.eraseP fun q => q.pfn = addr / pageSize := by
  induction l generalizing rest with
  | nil => cases hf
  | cons q l ih =>
    rw [findUsedPage] at hf
    split at hf
    · rename_i hq
      cases hf
      exact ⟨hq, List.Perm.refl _, by rw [List.eraseP_cons_of_pos (by simpa using hq)]⟩
    · rename_i hq
      obtain ⟨⟨p', l'⟩, hrec, heq⟩ := Option.map_eq_some_iff.mp hf
      cases heq
      obtain ⟨hpfn, hperm, herase⟩ := ih hrec
      refine ⟨hpfn, (hperm.cons q).trans (List.Perm.swap _ _ _), ?_⟩
      rw [List.eraseP_cons_of_neg (by simpa using hq), ← herase]

/-! ### Pages from the free list -/

theorem takeAfter_spec {l : List Page}
    (ht : takeAfter pages align l = some (p, rest)) :
    p.Fits pages align ∧ (p :: rest).Perm l := by
  induction l generalizing rest with
  | nil => cases ht
  | cons q l ih =>
    rw [takeAfter] at ht
    split at ht
    · rename_i hq
      cases ht
      exact ⟨hq, List.Perm.refl _⟩
    · obtain ⟨⟨p', l'⟩, hrec, heq⟩ := Option.map_eq_some_iff.mp ht
      cases heq
      obtain ⟨hfit, hperm⟩ := ih hrec
      exact ⟨hfit, (List.Perm.swap _ _ _).trans (hperm.cons q)⟩

/-! ### New pages -/

theorem pagesSize_of_lt (hpos : 0 ≤ pages) (hlt : pages < 2 ^ 19) :
    pagesSize pages = pages.toNat * pageSize := by
  simp only [pagesSize, ulong, mulInt, pageSize]
  omega

theorem align_spec (h : align ∈ [1, 2, 4, 8]) :
    0 < align.toNat ∧ align.toNat ≤ 8 ∧ pagesSize align = align.toNat * pageSize := by
  simp only [List.mem_cons, List.not_mem_nil, or_false] at h
  rcases h with rfl | rfl | rfl | rfl <;> decide

structure NewPages (b n : Nat) (align base rbase : Nat) : Prop where
  rbase_eq : rbase = base + n * pageSize
  le : rbase ≤ b
  aligned : base % pageSize = 0
  left : b - rbase < align

theorem newPages_spec {h : Heap} {align : Nat} (hpos : 0 ≤ pages)
    (hlt : pages < 2 ^ 19) (hle : pages * pageSize ≤ h.pageBase) (hb : h.pageBase < 2 ^ 64)
    (haligned : h.pageBase % pageSize = 0) (hk : 0 < k) (halign : align = k * pageSize) :
    NewPages h.pageBase pages.toNat align (newPageBase h pages align)
      (u64 (newPageBase h pages align + pagesSize pages)) := by
  have hsize := pagesSize_of_lt hpos hlt
  have hle' : pages.toNat * pageSize ≤ h.pageBase := by
    simp only [pageSize] at hle ⊢
    omega
  have hbase : newPageBase h pages align =
      (h.pageBase - pages.toNat * pageSize) - (h.pageBase - pages.toNat * pageSize) % align := by
    simp only [newPageBase, hsize]
    rw [sub64_of_le hle' hb]
  -- what lies above the pages is a whole number of pages, too
  have hdvd : pageSize ∣ h.pageBase - pages.toNat * pageSize :=
    Nat.dvd_sub (Nat.dvd_of_mod_eq_zero haligned) (Nat.dvd_mul_left _ _)
  have hdvd' : pageSize ∣ (h.pageBase - pages.toNat * pageSize) % align := by
    refine (Nat.dvd_mod_iff ?_).mpr hdvd
    rw [halign]
    exact Nat.dvd_mul_left _ _
  have hpos' : 0 < align := by
    rw [halign]
    exact Nat.mul_pos hk (by decide)
  have hmod := Nat.mod_lt (h.pageBase - pages.toNat * pageSize) hpos'
  have hmodle := Nat.mod_le (h.pageBase - pages.toNat * pageSize) align
  have hrbase : u64 (newPageBase h pages align + pagesSize pages) =
      newPageBase h pages align + pages.toNat * pageSize := by
    rw [hsize]
    exact u64_of_lt (by omega)
  refine ⟨hrbase, by omega, ?_, by omega⟩
  rw [hbase]
  exact Nat.mod_eq_zero_of_dvd (Nat.dvd_sub hdvd hdvd')

theorem pfn_mul (ha : a ≤ 2 ^ 39) (haligned : a % pageSize = 0) :
    u32 (a / pageSize) * pageSize = a := by
  rw [u32_of_lt (by simp only [pageSize]; omega)]
  exact Nat.div_mul_cancel (Nat.dvd_of_mod_eq_zero haligned)

/-- What alignment leaves over is one free run. -/
theorem recycle_range (addr : Nat) {b rbase align : Nat} (hk : k ≤ 8)
    (halign : align = k * pageSize)
    (hle : rbase ≤ b) (hb : b ≤ 2 ^ 39) (hleft : b - rbase < align) (hb0 : b % pageSize = 0)
    (hr0 : rbase % pageSize = 0) :
    Page.range ⟨addr, u32 (rbase / pageSize), sub64 b rbase / pageSize % 2 ^ 16, 1⟩ =
      (rbase, b) := by
  have hpfn := pfn_mul (Nat.le_trans hle hb) hr0
  have hdvd : pageSize ∣ b - rbase :=
    Nat.dvd_sub (Nat.dvd_of_mod_eq_zero hb0) (Nat.dvd_of_mod_eq_zero hr0)
  have hcnt : sub64 b rbase / pageSize % 2 ^ 16 = (b - rbase) / pageSize := by
    rw [sub64_of_le hle (by omega)]
    refine Nat.mod_eq_of_lt ?_
    simp only [pageSize] at *
    omega
  simp only [Page.range, hpfn, hcnt, Nat.div_mul_cancel hdvd]
  exact congrArg _ (by omega)

end Joint

/-- 31MB of host memory. -/
def hostMem : HostMem where
  minosEnd := 0x40100000
  ramEnd := 0x42000000
  ramEnd_aligned := by decide
  ramEnd_le := by decide
  room := by decide

end Minos.Memory
