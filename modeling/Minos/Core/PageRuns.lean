import Minos.Core.Memory

/-!
# The page lists of the host heap

Every run of pages that was ever cut from `page_base` has a node, and the node is on the used or on
the free list: so the runs of the two lists cover the memory from `page_base` up, each page once.
Two things break this. `__alloc_pages` sets the head of the free list to `NULL` when its first run
is the one it takes, and the rest of the list is lost; and the length of a run is kept in 16 bits.

When there are no pages to be had, `alloc_new_pages` returns `NULL` and `__alloc_pages` puts that on
the used list.
-/

namespace Minos.Memory

open Minos.Lib

variable {h h' : Heap} {pages align : Int}

/-! ## Calls -/

/-- A call on the heap alone, with any address for `free_pages`. What is freed as an object is not a
node of the lists. -/
def pagesStep (h : Heap) : HeapCall → Option Heap
  | .malloc size =>
    if size = 0 then none
    else some (((mallocBlock h (getSlabAllocSize size)).map Prod.snd).getD h)
  | .free addr => if addr ∈ h.pages.map Page.addr then none else freeSlab h addr
  | .getPages pages align => (getFreePages h pages align).map Prod.snd
  | .freePages addr => some (freePages h addr)

/-- A run taken from the head of the free list is alone on it; and a run that is new has a length of
16 bits, and does not reach below address 0. -/
def PagesOk (h : Heap) : HeapCall → Prop
  | .getPages pages align =>
    align ∈ [1, 2, 4, 8] →
      (∀ p ∈ h.freePageHead.head?, p.Fits pages align → h.freePageHead.length = 1) ∧
      (takeFree pages align h.freePageHead = none →
        0 ≤ pages ∧ pages < 2 ^ 16 ∧ pages * pageSize ≤ h.pageBase)
  | _ => True

instance (h : Heap) : ∀ c, Decidable (PagesOk h c)
  | .malloc _ => isTrue trivial
  | .free _ => isTrue trivial
  | .getPages pages align => inferInstanceAs (Decidable (align ∈ [1, 2, 4, 8] →
      (∀ p ∈ h.freePageHead.head?, p.Fits pages align → h.freePageHead.length = 1) ∧
      (takeFree pages align h.freePageHead = none →
        0 ≤ pages ∧ pages < 2 ^ 16 ∧ pages * pageSize ≤ h.pageBase)))
  | .freePages _ => isTrue trivial

/-! ## What keeps the lists -/

/-- `page_base` and the two lists are the same. -/
structure SamePages (h h' : Heap) : Prop where
  pageBase : h'.pageBase = h.pageBase
  freePageHead : h'.freePageHead = h.freePageHead
  usedPageHead : h'.usedPageHead = h.usedPageHead

theorem mallocFromSlabHeap_samePages {size d : Nat}
    (hm : mallocFromSlabHeap h size = some (d, h')) : SamePages h h' := by
  rw [mallocFromSlabHeap] at hm
  split at hm
  · cases hm
  simp only at hm
  split at hm
  · cases hm
  cases hm
  exact ⟨rfl, rfl, rfl⟩

theorem mallocBlock_samePages {size d : Nat} (hm : mallocBlock h size = some (d, h')) :
    SamePages h h' := by
  rw [mallocBlock] at hm
  split at hm
  · rename_i r htable
    cases hm
    obtain ⟨r', -, heq⟩ := Option.map_eq_some_iff.mp htable
    cases heq
    exact ⟨rfl, rfl, rfl⟩
  · exact mallocFromSlabHeap_samePages hm

theorem freeSlab_samePages {addr : Nat} (hf : freeSlab h addr = some h') : SamePages h h' := by
  rw [freeSlab] at hf
  simp only at hf
  split at hf
  · cases hf
  split at hf
  · cases hf
  split at hf
  · cases hf
    exact ⟨rfl, rfl, rfl⟩
  split at hf
  · cases hf
    exact ⟨rfl, rfl, rfl⟩
  · rename_i st h₁ hm
    cases hf
    obtain ⟨h1, h2, h3⟩ := mallocFromSlabHeap_samePages hm
    exact ⟨h1, h2, h3⟩

/-! ## New runs -/

/-- The node of what alignment leaves over. -/
def recycled (addr rbase top : Nat) : Page :=
  ⟨addr, u32 (rbase / pageSize), sub64 top rbase / pageSize % 2 ^ 16, 1⟩

variable {page : Page}

/-- **What new pages add to the lists.** -/
theorem allocNewPages_some {align : Nat}
    (ha : allocNewPages h pages align = (some page, h')) :
    h'.pageBase = newPageBase h pages align ∧ h'.usedPageHead = h.usedPageHead ∧
      (page.pfn = u32 (newPageBase h pages align / pageSize) ∧
        page.cnt = (pages % 2 ^ 16).toNat) ∧
      ∃ rest, h'.freePageHead = rest ++ h.freePageHead ∧
        if u64 (newPageBase h pages align + pagesSize pages) = h.pageBase then rest = []
        else ∃ addr,
          rest =
            [recycled addr (u64 (newPageBase h pages align + pagesSize pages)) h.pageBase] := by
  rw [allocNewPages] at ha
  generalize newPageBase h pages align = base at *
  simp only at ha
  split at ha
  · cases ha
  split at ha
  · rename_i hne
    split at ha
    · cases ha
    rename_i addr h₁ hm
    split at ha
    swap
    · cases ha
    rename_i page' h₂ hn
    cases ha
    obtain ⟨⟨addr', h₃⟩, hm', heq⟩ := Option.map_eq_some_iff.mp hn
    cases heq
    obtain ⟨-, hfree, hused⟩ := mallocBlock_samePages hm
    obtain ⟨-, hfree', hused'⟩ := mallocBlock_samePages hm'
    refine ⟨rfl, hused'.trans hused, ⟨rfl, rfl⟩,
      [recycled addr (u64 (base + pagesSize pages)) h.pageBase], ?_, ?_⟩
    · exact hfree'.trans (congrArg _ hfree)
    · rw [if_neg hne]
      exact ⟨addr, rfl⟩
  · rename_i heq
    split at ha
    swap
    · cases ha
    rename_i page' h₂ hn
    cases ha
    obtain ⟨⟨addr', h₃⟩, hm', heq'⟩ := Option.map_eq_some_iff.mp hn
    cases heq'
    obtain ⟨-, hfree', hused'⟩ := mallocBlock_samePages hm'
    refine ⟨rfl, hused', ⟨rfl, rfl⟩, [], hfree', ?_⟩
    rw [if_pos (not_not.mp heq)]

/-! ## The runs of the two lists -/

/-- The runs cover the memory from `page_base` up to `top` once, and nothing else. -/
structure RunsInv (top : Nat) (h : Heap) : Prop where
  le : h.pageBase ≤ top
  aligned : h.pageBase % pageSize = 0
  covers : ∀ x, cover (h.pages.map Page.range) x = hits x (h.pageBase, top)

namespace RunsInv

variable {top : Nat}

theorem same (hi : RunsInv top h) (hs : SamePages h h') : RunsInv top h' := by
  obtain ⟨h1, h2, h3⟩ := hs
  refine ⟨h1 ▸ hi.le, h1 ▸ hi.aligned, fun x => ?_⟩
  rw [Heap.pages, h1, h2, h3]
  exact hi.covers x

theorem perm (hi : RunsInv top h) (hbase : h'.pageBase = h.pageBase)
    (hperm : h'.pages.Perm h.pages) : RunsInv top h' := by
  refine ⟨hbase ▸ hi.le, hbase ▸ hi.aligned, fun x => ?_⟩
  rw [cover_perm (hperm.map _) x, hi.covers x, hbase]

theorem freePages (hi : RunsInv top h) (addr : Nat) : RunsInv top (freePages h addr) := by
  rw [Memory.freePages]
  split
  · exact hi
  · rename_i page rest hf
    obtain ⟨-, hperm, -⟩ := findUsedPage_spec hf
    refine hi.perm rfl ?_
    exact (List.perm_middle.symm).trans (hperm.symm.append_left _)

/-- A run from the free list, when nothing is lost. -/
theorem getFree (hi : RunsInv top h) {rest : List Page}
    (hlone : ∀ p ∈ h.freePageHead.head?, p.Fits pages align → h.freePageHead.length = 1)
    (ht : takeFree pages align h.freePageHead = some (page, rest)) :
    RunsInv top (addUsedPage { h with freePageHead := rest } page) := by
  have hperm : (page :: rest).Perm h.freePageHead := by
    cases hl : h.freePageHead with
    | nil =>
      rw [hl] at ht
      cases ht
    | cons q l =>
      rw [hl] at ht hlone
      rw [takeFree] at ht
      split at ht
      · rename_i hq
        cases ht
        have hlen : l = [] := by simpa using hlone page rfl hq
        rw [hlen]
      · obtain ⟨⟨p', l'⟩, hrec, heq⟩ := Option.map_eq_some_iff.mp ht
        cases heq
        obtain ⟨-, hperm⟩ := takeAfter_spec hrec
        exact (List.Perm.swap _ _ _).trans (hperm.cons q)
  refine hi.perm rfl ?_
  exact List.perm_middle.trans (hperm.append_right _)

/-- A new run, and what alignment leaves over. -/
theorem getNew (hi : RunsInv top h) (htop : top ≤ 2 ^ 39)
    (halign : align ∈ [1, 2, 4, 8]) (hpos : 0 ≤ pages) (hlt : pages < 2 ^ 16)
    (hle : pages * pageSize ≤ h.pageBase)
    (ha : allocNewPages h pages (pagesSize align) = (some page, h')) :
    RunsInv top (addUsedPage h' page) := by
  obtain ⟨hk, hk8, hsize⟩ := align_spec halign
  have hbase := hi.le
  have hnew := newPages_spec hpos (by omega) hle (by omega) hi.aligned hk hsize
  obtain ⟨hb', hused, ⟨hpfn, hcnt⟩, rest, hfree, hrest⟩ := allocNewPages_some ha
  generalize newPageBase h pages (pagesSize align) = base at *
  generalize u64 (base + pagesSize pages) = rbase at *
  obtain ⟨hrbase, hrle, hbase0, hleft⟩ := hnew
  have hrange : page.range = (base, rbase) := by
    have hmul := pfn_mul (show base ≤ 2 ^ 39 by omega) hbase0
    rw [Page.range, hpfn, hmul, hcnt, hrbase]
    have : (pages % 2 ^ 16).toNat = pages.toNat := by omega
    rw [this]
  have hcover : ∀ x, cover (rest.map Page.range) x = hits x (rbase, h.pageBase) := by
    intro x
    split at hrest
    · rename_i heq
      rw [hrest, heq]
      simp [hits]
    · obtain ⟨addr, rfl⟩ := hrest
      have hr0 : rbase % pageSize = 0 := by
        rw [hrbase, Nat.add_mul_mod_self_right]
        exact hbase0
      have hrecycle := recycle_range addr hk8 hsize hrle (by omega) hleft hi.aligned hr0
      rw [List.map_singleton, recycled, hrecycle, cover_cons, cover_nil, Nat.add_zero]
  refine ⟨?_, ?_, fun x => ?_⟩
  · simp only [addUsedPage, hb']
    omega
  · simp only [addUsedPage, hb']
    exact hbase0
  · have hx := hi.covers x
    have hcut := hits_cut (show base ≤ h.pageBase by omega) hbase x
    have hcut' := hits_cut (show base ≤ rbase by omega) hrle x
    simp only [Heap.pages, addUsedPage, hfree, hused, hb', List.map_append, List.map_cons,
      cover_append, cover_cons, hrange, hcover] at hx ⊢
    omega

theorem step {c : HeapCall} (hi : RunsInv top h) (htop : top ≤ 2 ^ 39) (hok : PagesOk h c)
    (hs : pagesStep h c = some h') : RunsInv top h' := by
  cases c with
  | malloc size =>
    rw [pagesStep] at hs
    split at hs
    · cases hs
    cases hm : mallocBlock h (getSlabAllocSize size) with
    | none =>
      rw [hm] at hs
      cases hs
      exact hi
    | some r =>
      rw [hm] at hs
      cases hs
      exact hi.same (mallocBlock_samePages hm)
  | free addr =>
    rw [pagesStep] at hs
    split at hs
    · cases hs
    exact hi.same (freeSlab_samePages hs)
  | getPages pages align =>
    obtain ⟨⟨res, h₁⟩, hget, rfl⟩ := Option.map_eq_some_iff.mp hs
    rw [getFreePages] at hget
    split at hget
    swap
    · cases hget
      exact hi
    rename_i halign
    obtain ⟨hlone, hnew⟩ := hok halign
    split at hget
    · rename_i page rest ht
      cases hget
      exact hi.getFree hlone ht
    · rename_i ht
      obtain ⟨hpos, hlt, hle⟩ := hnew ht
      split at hget
      · cases hget
      · rename_i page h₂ ha
        cases hget
        exact hi.getNew htop halign hpos hlt hle ha
  | freePages addr =>
    cases hs
    exact hi.freePages addr

theorem init (m : HostMem) : RunsInv m.ramEnd (memoryInit m).heap where
  le := Nat.le_refl _
  aligned := m.ramEnd_aligned
  covers _ := (if_neg fun hx => Nat.not_lt.mpr hx.1 hx.2).symm

end RunsInv

/-- **No page is lost**: over every sequence of calls that meet the condition, in every state
reached each address from `page_base` to the end of memory is in exactly one run of the two
lists. -/
theorem pages_on_one_list (m : HostMem) (calls : List HeapCall)
    (hok : Along pagesStep PagesOk (memoryInit m).heap calls) :
    ∀ pre, pre <+: calls → ∀ h, run pagesStep (memoryInit m).heap pre = some h →
      ∀ x, h.pageBase ≤ x → x < m.ramEnd → cover (h.pages.map Page.range) x = 1 := by
  intro pre hpre h hrun x hge hlt
  have hi := run_invariant (fun _ _ _ hi hc hs => RunsInv.step hi m.ramEnd_le hc hs)
    (RunsInv.init m) (along_of_pre hpre hok) hrun
  rw [hi.covers x]
  exact hits_eq_one ⟨hge, hlt⟩

/-- Runs of several lengths, taken from the middle of the free list and, alone, from its head. -/
def listCalls : List HeapCall :=
  [.getPages 1 1, .getPages 3 4, .freePages 0x41fff000, .freePages 0x41ffc000, .getPages 1 1,
    .freePages 0x12345000, .getPages 3 4]

theorem pages_on_one_list_middle :
    (run pagesStep (memoryInit hostMem).heap listCalls).isSome ∧
      ∀ pre, pre <+: listCalls → ∀ h, run pagesStep (memoryInit hostMem).heap pre = some h →
        ∀ x, h.pageBase ≤ x → x < hostMem.ramEnd → cover (h.pages.map Page.range) x = 1 :=
  ⟨by decide +kernel, pages_on_one_list hostMem listCalls (by decide +kernel)⟩

/-- Two single pages, given back and one of them taken again: the other is on no list. -/
theorem pages_on_no_list :
    ∃ h, run pagesStep (memoryInit hostMem).heap
        [.getPages 1 1, .getPages 1 1, .freePages 0x41fff000, .freePages 0x41ffe000,
          .getPages 1 1] = some h ∧
      h.pageBase ≤ 0x41fff000 ∧ 0x41fff000 < hostMem.ramEnd ∧
      cover (h.pages.map Page.range) 0x41fff000 = 0 := by
  decide +kernel

/-! ## When there are no pages to be had -/

/-- How `__alloc_pages` ends, with the heap it leaves: in a return, or in the write of
`add_used_page` through `NULL`. -/
inductive AllocOut
  | returned (page : Option Page) (h : Heap)
  | nullWrite (h : Heap)

/-- `__alloc_pages`. -/
def allocPages (h : Heap) (pages align : Int) : AllocOut :=
  if align ∈ [1, 2, 4, 8] then
    match takeFree pages align h.freePageHead with
    | some (page, rest) => .returned (some page) (addUsedPage { h with freePageHead := rest } page)
    | none =>
      match allocNewPages h pages (pagesSize align) with
      | (none, h) => .nullWrite h
      | (some page, h) => .returned (some page) (addUsedPage h page)
  else .returned none h

/-- `__get_free_pages` is `__alloc_pages` and the address of what it returns. -/
theorem getFreePages_eq (h : Heap) (pages align : Int) :
    getFreePages h pages align =
      match allocPages h pages align with
      | .returned page h => some (page.map fun p => p.pfn * pageSize, h)
      | .nullWrite _ => none := by
  rw [getFreePages, allocPages]
  split
  · cases takeFree pages align h.freePageHead with
    | some r => rfl
    | none =>
      rcases allocNewPages h pages (pagesSize align) with ⟨_ | page, h₁⟩
      · rfl
      · rfl
  · rfl

/-- Slabs for nodes, one after another. -/
def mallocNodes : Nat → Heap → Option Heap
  | 0, h => some h
  | n + 1, h => (mallocBlock h structPageSize).bind fun r => mallocNodes n r.2

/-- No run on the free list, and no gap between `slab_base` and `page_base`, or no memory for the
nodes. -/
def CannotSatisfy (h : Heap) (pages align : Int) : Prop :=
  takeFree pages align h.freePageHead = none ∧
    (newPageBase h pages (pagesSize align) < h.slabBase ∨
      mallocNodes (nodesNeeded h pages (pagesSize align)) h = none)

/-- No node of a list is the data of a slab that waits in the hash table. -/
def Heap.NodesInUse (h : Heap) : Prop :=
  ∀ p ∈ h.pages, p.addr - slabHeaderSize ∉ h.slabTypes.flatMap SlabType.head

/-- A request that ends in `NULL`, with the heap as it was as far as pages go and no node up for
reuse. -/
def FailsClean (h : Heap) (pages align : Int) : Prop :=
  ∃ h', allocPages h pages align = .returned none h' ∧ SamePages h h' ∧
    (h.NodesInUse → h'.NodesInUse)

theorem mallocBlock_eq_none (l : List Page) (size : Nat) :
    mallocBlock { h with freePageHead := l } size = none ↔ mallocBlock h size = none := by
  simp only [mallocBlock, mallocFromHashTable, mallocFromSlabHeap]
  cases takeSlab size (h.slabHashTable (hashId size)) with
  | some r => simp
  | none =>
    simp only [Option.map_none]
    split
    · simp
    · split <;> simp

theorem mallocNodes_one : mallocNodes 1 h = none ↔ mallocBlock h structPageSize = none := by
  rw [mallocNodes]
  cases mallocBlock h structPageSize <;> simp [mallocNodes]

theorem newPage_eq_none (h : Heap) (base : Nat) (pages : Int) (align : Nat) :
    newPage h base pages align = none ↔ mallocBlock h structPageSize = none :=
  Option.map_eq_none_iff

/-- **Where `alloc_new_pages` fails**: at the gap, or at a node. -/
theorem allocNewPages_eq_none (h : Heap) (pages : Int) (align : Nat) :
    (allocNewPages h pages align).1 = none ↔
      newPageBase h pages align < h.slabBase ∨
        mallocNodes (nodesNeeded h pages align) h = none := by
  rw [allocNewPages, nodesNeeded]
  generalize newPageBase h pages align = base
  by_cases hroom : base < h.slabBase
  · simp [hroom]
  rw [if_neg hroom, or_iff_right hroom]
  simp only
  by_cases hne : u64 (base + pagesSize pages) ≠ h.pageBase
  · rw [if_pos hne, if_pos hne, mallocNodes]
    cases hm : mallocBlock h structPageSize with
    | none => simp
    | some r =>
      obtain ⟨addr, h₁⟩ := r
      rw [Option.bind_some, mallocNodes_one, ← mallocBlock_eq_none
        (recycled addr (u64 (base + pagesSize pages)) h.pageBase :: h₁.freePageHead),
        ← newPage_eq_none _ base pages align]
      simp only [recycled]
      split
      · rename_i hn
        exact iff_of_false (by simp) (by rw [hn]; simp)
      · rename_i hn
        exact iff_of_true rfl hn
  · rw [if_neg hne, if_neg hne, mallocNodes_one, ← newPage_eq_none h base pages align]
    split
    · rename_i hn
      simp [hn]
    · rename_i hn
      simp [hn]

/-- **A request that cannot be satisfied** never comes back: `alloc_new_pages` returns `NULL`, and
`add_used_page` writes through it. -/
theorem allocPages_nullWrite (halign : align ∈ [1, 2, 4, 8]) (hno : CannotSatisfy h pages align) :
    allocPages h pages align = .nullWrite (allocNewPages h pages (pagesSize align)).2 := by
  obtain ⟨htake, hno⟩ := hno
  have hnull := (allocNewPages_eq_none h pages (pagesSize align)).mpr hno
  rw [allocPages, if_pos halign, htake]
  simp only
  split
  · rename_i h₁ ha
    rw [ha]
  · rename_i page h₁ ha
    rw [ha] at hnull
    cases hnull

/-- No request fails as it should. -/
theorem get_free_pages_never_fails_clean (h : Heap) (pages align : Int)
    (halign : align ∈ [1, 2, 4, 8]) (hno : CannotSatisfy h pages align) :
    ¬ FailsClean h pages align := by
  rintro ⟨h', hret, -⟩
  rw [allocPages_nullWrite halign hno] at hret
  cases hret

/-- More pages than there are. -/
theorem get_free_pages_never_fails_clean_all :
    CannotSatisfy (memoryInit hostMem).heap 0x1f01 1 ∧
      ¬ FailsClean (memoryInit hostMem).heap 0x1f01 1 := by
  have hno : CannotSatisfy (memoryInit hostMem).heap 0x1f01 1 :=
    ⟨by decide, .inl (by decide)⟩
  exact ⟨hno, get_free_pages_never_fails_clean _ _ _ (by decide) hno⟩

/-- One page more than there are ends in a write through `NULL`. So does a request that finds a
slab for the node of the gap and none for its own, and then the node of the gap is on the free list
and waits in the hash table. -/
theorem get_free_pages_null_write :
    (∃ h', allocPages (memoryInit hostMem).heap 0x1f01 1 = .nullWrite h') ∧
    ∃ h h', run pagesStep (memoryInit hostMem).heap
        [.malloc 16, .free 0x40100010, .getPages 0x1eff 1, .malloc 3968] = some h ∧
      allocPages h 0x50000 8 = .nullWrite h' ∧ ∃ p ∈ h'.freePageHead,
        p.addr - slabHeaderSize ∈ h'.slabTypes.flatMap SlabType.head := by
  have hno : CannotSatisfy (memoryInit hostMem).heap 0x1f01 1 :=
    ⟨by decide, .inl (by decide)⟩
  refine ⟨⟨_, allocPages_nullWrite (by decide) hno⟩, ?_⟩
  have hrun : (run pagesStep (memoryInit hostMem).heap
      [.malloc 16, .free 0x40100010, .getPages 0x1eff 1, .malloc 3968]).map (fun h =>
        match allocPages h 0x50000 8 with
        | .returned _ _ => (false, false)
        | .nullWrite h' => (true, h'.freePageHead.any fun p =>
          p.addr - slabHeaderSize ∈ h'.slabTypes.flatMap SlabType.head)) = some (true, true) := by
    decide +kernel
  obtain ⟨h, hrun, heq⟩ := Option.map_eq_some_iff.mp hrun
  split at heq
  · cases heq
  · rename_i h' halloc
    obtain ⟨-, hany⟩ := Prod.mk.inj heq
    obtain ⟨p, hp, hmem⟩ := List.any_eq_true.mp hany
    exact ⟨h, h', hrun, halloc, p, hp, of_decide_eq_true hmem⟩

end Minos.Memory
