import Minos.Core.FindBit
import Minos.Lib.Count
import Minos.Lib.Run
import Minos.Lib.Word

/-!
# Guest memory blocks

The 2MB block allocator of `virt/vmm.c`: a list of block sections, each
with a bitmap, a search cursor and a count of free blocks, and one global
count. Guest memory is handed out as `mem_block`s that carry a 32-bit
block frame number; freeing goes from that number back to an address.

The two halves of an allocation are `take` (a clear bit is found and set)
and `release` (the bit of an address is cleared); every operation is one
of them, or both when there is no memory for the `mem_block`. `Isolated`
is what they keep.
-/

namespace Minos.Vmm

open Minos.Lib

/-- `MEM_BLOCK_SIZE`. -/
def memBlockSize : Nat := 0x200000

/-- `BFN2PHY`. -/
def bfn2phy (bfn : Nat) : Nat := bfn * memBlockSize

/-- `struct block_section`, without the link to the next one. -/
structure BlockSection where
  start : Nat
  size : Nat
  end_ : Nat
  freeBlocks : Nat
  totalBlocks : Nat
  currentIndex : Nat
  bitmap : Bitmap
  deriving DecidableEq, Repr

/-- `bs_head` and the global `free_blocks`. -/
structure BlockPool where
  sections : List BlockSection
  freeBlocks : Nat
  deriving DecidableEq, Repr

/-- The section `vmm_init` builds for a block aligned region. -/
def newSection (r : Nat × Nat) : BlockSection where
  start := r.1
  end_ := r.2
  size := r.2 - r.1
  totalBlocks := (r.2 - r.1) / memBlockSize
  freeBlocks := (r.2 - r.1) / memBlockSize
  currentIndex := 0
  bitmap := List.replicate (bitsToLongs ((r.2 - r.1) / memBlockSize)) 0

/-- The pool over a list of block aligned regions. -/
def newPool (l : List (Nat × Nat)) : BlockPool where
  sections := l.map newSection
  freeBlocks := u64 (l.map fun r => (newSection r).totalBlocks).sum

/-- The body of the loop of `__vmm_free_memblock` on the section found. -/
def BlockSection.release (bs : BlockSection) (base : Nat) : BlockSection :=
  { bs with
    bitmap := clearBit (u32 ((base - bs.start) / memBlockSize)) bs.bitmap
    freeBlocks := u64 (bs.freeBlocks + 1) }

/-- The walk of `__vmm_free_memblock`; `none` is the exit at the end of the
list. -/
def releaseIn (base : Nat) : List BlockSection → Option (List BlockSection)
  | [] => none
  | bs :: rest =>
    if bs.start ≤ base ∧ base < bs.end_ then some (bs.release base :: rest)
    else (releaseIn base rest).map (bs :: ·)

/-- `__vmm_free_memblock`. `bfn` is a `uint32_t`, and so is `bfn << 21`: the
shift drops the high bits before the result becomes an `unsigned long`. -/
def vmmFreeMemblock (pool : BlockPool) (bfn : Nat) : BlockPool :=
  match releaseIn (u32 (bfn * memBlockSize)) pool.sections with
  | some sections =>
    { sections := sections, freeBlocks := u64 (pool.freeBlocks + 1) }
  | none => pool

/-- `get_memblock_from_section`: the section after the allocation and the
block frame number, or `none` for `-ENOSPC`. -/
def getMemblockFromSection (bs : BlockSection) : Option (BlockSection × Nat) :=
  let id := u32 (findNextZeroBitLoop bs.bitmap bs.totalBlocks bs.currentIndex)
  if bs.totalBlocks ≤ id then none
  else some
    ({ bs with
       bitmap := setBit id bs.bitmap
       currentIndex := u64 (id + 1)
       freeBlocks := sub64 bs.freeBlocks 1 },
     u32 (bs.start / memBlockSize + id))

/-- The section loop of `vmm_alloc_memblock`. -/
def takeIn : List BlockSection → Option (List BlockSection × Nat)
  | [] => none
  | bs :: rest =>
    let next := (takeIn rest).map fun r => (bs :: r.1, r.2)
    if bs.freeBlocks = 0 then next
    else match getMemblockFromSection bs with
      | some (bs', bfn) => some (bs' :: rest, bfn)
      | none => next

/-- `vmm_alloc_memblock`; `mallocOk` is whether there is memory for the
`mem_block`. -/
def vmmAllocMemblock (pool : BlockPool) (mallocOk : Bool) :
    BlockPool × Option Nat :=
  match takeIn pool.sections with
  | none => (pool, none)
  | some (sections, bfn) =>
    let pool' : BlockPool :=
      { sections := sections, freeBlocks := sub64 pool.freeBlocks 1 }
    if mallocOk then (pool', some bfn)
    else (vmmFreeMemblock pool' bfn, none)

/-- The pool with the `mem_block`s its clients hold. -/
structure PoolState where
  pool : BlockPool
  live : List Nat
  deriving DecidableEq, Repr

inductive PoolCall
  | alloc (mallocOk : Bool)
  | free (bfn : Nat)
  deriving DecidableEq, Repr

/-- One call. A client only frees a `mem_block` it holds. -/
def poolStep (s : PoolState) : PoolCall → Option PoolState
  | .alloc mallocOk =>
    match vmmAllocMemblock s.pool mallocOk with
    | (pool, some bfn) => some ⟨pool, bfn :: s.live⟩
    | (pool, none) => some ⟨pool, s.live⟩
  | .free bfn =>
    if bfn ∈ s.live then
      some ⟨vmmFreeMemblock s.pool bfn, s.live.erase bfn⟩
    else none

/-- The state after `vmm_init`. -/
def poolInit (l : List (Nat × Nat)) : PoolState := ⟨newPool l, []⟩

/-! ## Well-formed pools -/

/-- Where a section lies. -/
def BlockSection.extent (bs : BlockSection) : Nat × Nat := (bs.start, bs.end_)

/-- The address of block `i` of a section. -/
def BlockSection.addr (bs : BlockSection) (i : Nat) : Nat :=
  bs.start + i * memBlockSize

/-- The number of clear bits of a section. -/
def BlockSection.clearBits (bs : BlockSection) : Nat :=
  Nat.count (fun i => testBit i bs.bitmap = false) bs.totalBlocks

/-- What never changes about a section. -/
structure SectionWf (bs : BlockSection) : Prop where
  aligned : bs.start % memBlockSize = 0
  size : bs.end_ = bs.start + bs.totalBlocks * memBlockSize
  bound : bs.end_ ≤ 2 ^ 53
  room : bs.totalBlocks ≤ 64 * bs.bitmap.length

structure PoolWf (pool : BlockPool) : Prop where
  section_ : ∀ bs ∈ pool.sections, SectionWf bs
  apart : (pool.sections.map BlockSection.extent).Pairwise Apart

/-- The property of the allocator: the blocks its clients hold are
pairwise different, the set bits of every section are the held blocks in
it, and the counters count the clear bits. -/
structure Isolated (s : PoolState) : Prop where
  nodup : s.live.Nodup
  owned : ∀ bfn ∈ s.live, ∃ bs ∈ s.pool.sections,
    bs.start ≤ bfn2phy bfn ∧ bfn2phy bfn < bs.end_
  bits : ∀ bs ∈ s.pool.sections, ∀ i, i < bs.totalBlocks →
    (testBit i bs.bitmap = true ↔ ∃ bfn ∈ s.live, bfn2phy bfn = bs.addr i)
  sectionFree : ∀ bs ∈ s.pool.sections, bs.freeBlocks = bs.clearBits
  totalFree : s.pool.freeBlocks
    = (s.pool.sections.map BlockSection.freeBlocks).sum

theorem bfn2phy_inj {a b : Nat} (h : bfn2phy a = bfn2phy b) : a = b := by
  unfold bfn2phy memBlockSize at h
  omega

variable {bs : BlockSection} {i : Nat}

theorem SectionWf.addr_lt (h : SectionWf bs)
    (hi : i < bs.totalBlocks) : bs.addr i < bs.end_ := by
  rw [h.size, BlockSection.addr]
  have hmul : i * memBlockSize < bs.totalBlocks * memBlockSize :=
    Nat.mul_lt_mul_of_pos_right hi (by decide)
  omega

variable {bfn : Nat}

theorem SectionWf.exists_index (h : SectionWf bs) (h1 : bs.start ≤ bfn2phy bfn)
    (h2 : bfn2phy bfn < bs.end_) :
    (bfn2phy bfn - bs.start) / memBlockSize < bs.totalBlocks ∧
      bs.addr ((bfn2phy bfn - bs.start) / memBlockSize) = bfn2phy bfn := by
  have hal := h.aligned
  have hs := h.size
  unfold BlockSection.addr bfn2phy memBlockSize at *
  omega

variable {l post pre : List BlockSection}

/-- The sections beside one of the list lie apart from it. -/
theorem apart_of_split (h : (l.map BlockSection.extent).Pairwise Apart)
    (hl : l = pre ++ bs :: post) :
    ∀ x, x ∈ pre ∨ x ∈ post → Apart x.extent bs.extent := by
  subst hl
  rw [List.map_append, List.map_cons, List.pairwise_append,
    List.pairwise_cons] at h
  obtain ⟨-, ⟨hpost, -⟩, hpre⟩ := h
  intro x hx
  rcases hx with hx | hx
  · exact hpre _ (List.mem_map_of_mem hx) _ List.mem_cons_self
  · rcases hpost _ (List.mem_map_of_mem hx) with h | h
    · exact Or.inr h
    · exact Or.inl h

theorem addr_ne_of_apart {x : BlockSection} (hx : SectionWf x)
    (hbs : SectionWf bs) (h : Apart x.extent bs.extent) {j : Nat}
    (hi : i < x.totalBlocks) (hj : j < bs.totalBlocks) :
    x.addr i ≠ bs.addr j := by
  have h1 := hx.addr_lt hi
  have h2 := hbs.addr_lt hj
  have h3 : x.start ≤ x.addr i := Nat.le_add_right _ _
  have h4 : bs.start ≤ bs.addr j := Nat.le_add_right _ _
  rcases h with h | h <;> simp only [BlockSection.extent] at h <;> omega

variable {pool : BlockPool}

variable {bs' : BlockSection} {s : PoolState}

/-- A property of sections that the changed one keeps. -/
theorem forall_replace {P : BlockSection → Prop} (hl : l = pre ++ bs :: post)
    (h : ∀ x ∈ l, P x) (hbs' : P bs') : ∀ x ∈ pre ++ bs' :: post, P x := by
  intro x hx
  rcases List.mem_append.mp hx with hx | hx
  · exact h x (by rw [hl]; simp [hx])
  · rcases List.mem_cons.mp hx with rfl | hx
    · exact hbs'
    · exact h x (by rw [hl]; simp [hx])

/-- Changing the bitmap, cursor and counter of one section keeps the pool
well-formed. -/
theorem PoolWf.replace (h : PoolWf pool)
    (hl : pool.sections = pre ++ bs :: post) (hwf : SectionWf bs')
    (hext : bs'.extent = bs.extent) (n : Nat) :
    PoolWf ⟨pre ++ bs' :: post, n⟩ := by
  refine ⟨forall_replace hl h.section_ hwf, ?_⟩
  have hap := h.apart
  rw [hl] at hap
  simpa [hext] using hap

/-- One block changes hands: bit `i` of one section follows the new set of
held blocks, everything else is as before. -/
structure Handed (s : PoolState) (bs bs' : BlockSection) (i : Nat) (live' : List Nat) : Prop where
  extent : bs'.extent = bs.extent
  total : bs'.totalBlocks = bs.totalBlocks
  length : bs'.bitmap.length = bs.bitmap.length
  lt : i < bs.totalBlocks
  live : ∀ a, a ≠ bs.addr i → ((∃ b ∈ live', bfn2phy b = a) ↔ ∃ b ∈ s.live, bfn2phy b = a)
  bits : ∀ j, j ≠ i → testBit j bs'.bitmap = testBit j bs.bitmap
  bit : testBit i bs'.bitmap = true ↔ ∃ b ∈ live', bfn2phy b = bs.addr i

variable {live' : List Nat}

theorem Isolated.bits_replace (hs : Isolated s) (hwf : PoolWf s.pool)
    (hl : s.pool.sections = pre ++ bs :: post) (h : Handed s bs bs' i live') :
    ∀ x ∈ pre ++ bs' :: post, ∀ j, j < x.totalBlocks →
      (testBit j x.bitmap = true ↔ ∃ b ∈ live', bfn2phy b = x.addr j) := by
  have hbs : bs ∈ s.pool.sections := by rw [hl]; simp
  have hother : ∀ x, x ∈ pre ∨ x ∈ post → ∀ j, j < x.totalBlocks →
      (testBit j x.bitmap = true ↔ ∃ b ∈ live', bfn2phy b = x.addr j) := by
    intro x hx j hj
    have hxm : x ∈ s.pool.sections := by
      rw [hl]
      rcases hx with hx | hx <;> simp [hx]
    have hne : x.addr j ≠ bs.addr i :=
      addr_ne_of_apart (hwf.section_ x hxm) (hwf.section_ bs hbs)
        (apart_of_split hwf.apart hl x hx) hj h.lt
    rw [h.live _ hne]
    exact hs.bits x hxm j hj
  intro x hx j hj
  rcases List.mem_append.mp hx with hx | hx
  · exact hother x (Or.inl hx) j hj
  · rcases List.mem_cons.mp hx with rfl | hx
    · have haddr : x.addr j = bs.addr j := by
        rw [BlockSection.addr, BlockSection.addr, (Prod.mk.inj h.extent).1]
      rw [haddr]
      by_cases hji : j = i
      · subst hji
        exact h.bit
      · have hne : bs.addr j ≠ bs.addr i := by
          unfold BlockSection.addr memBlockSize
          omega
        rw [h.bits j hji, h.live _ hne]
        exact hs.bits bs hbs j (h.total ▸ hj)
    · exact hother x (Or.inr hx) j hj

/-- An address stays in a section when one is replaced by one of its extent. -/
theorem owned_replace {addr : Nat}
    (hl : l = pre ++ bs :: post) (hstart : bs'.start = bs.start) (hend : bs'.end_ = bs.end_)
    (h : ∃ x ∈ l, x.start ≤ addr ∧ addr < x.end_) :
    ∃ x ∈ pre ++ bs' :: post, x.start ≤ addr ∧ addr < x.end_ := by
  obtain ⟨x, hx, hin⟩ := h
  rw [hl] at hx
  rcases List.mem_append.mp hx with hx | hx
  · exact ⟨x, List.mem_append_left _ hx, hin⟩
  rcases List.mem_cons.mp hx with rfl | hx
  · refine ⟨bs', List.mem_append_right _ List.mem_cons_self, ?_⟩
    rw [hstart, hend]
    exact hin
  · exact ⟨x, List.mem_append_right _ (List.mem_cons_of_mem _ hx), hin⟩

/-- One block of a section changes hands, and the counters with it. -/
theorem Isolated.replace {n : Nat} (hs : Isolated s) (hwf : PoolWf s.pool)
    (hl : s.pool.sections = pre ++ bs :: post) (h : Handed s bs bs' i live')
    (hnodup : live'.Nodup) (hfree : bs'.freeBlocks = bs'.clearBits)
    (hsum : n = ((pre ++ bs' :: post).map BlockSection.freeBlocks).sum) :
    PoolWf ⟨pre ++ bs' :: post, n⟩ ∧ Isolated ⟨⟨pre ++ bs' :: post, n⟩, live'⟩ := by
  obtain ⟨hstart, hend⟩ := Prod.mk.inj h.extent
  have hswf := hwf.section_ bs (by rw [hl]; simp)
  have hswf' : SectionWf bs' :=
    ⟨hstart ▸ hswf.aligned, by rw [hend, hstart, h.total, hswf.size], hend ▸ hswf.bound,
      by rw [h.total, h.length]; exact hswf.room⟩
  refine ⟨hwf.replace hl hswf' h.extent n, hnodup, fun b hb => ?_, hs.bits_replace hwf hl h,
    forall_replace hl hs.sectionFree hfree, hsum⟩
  by_cases hba : bfn2phy b = bs.addr i
  · refine ⟨bs', List.mem_append_right _ List.mem_cons_self, ?_⟩
    rw [hba, hstart, hend]
    exact ⟨Nat.le_add_right _ _, hswf.addr_lt h.lt⟩
  · -- another block lies where it was
    obtain ⟨b', hb', heq⟩ := (h.live _ hba).mp ⟨b, hb, rfl⟩
    rw [← heq]
    exact owned_replace hl hstart hend (hs.owned b' hb')

/-- The counters never come near the end of their range. -/
theorem sum_freeBlocks_lt (hwf : PoolWf pool)
    (hfree : ∀ bs ∈ pool.sections, bs.freeBlocks = bs.clearBits) :
    (pool.sections.map BlockSection.freeBlocks).sum < 2 ^ 53 + 1 := by
  have h1 : (pool.sections.map BlockSection.freeBlocks).sum
      ≤ (pool.sections.map fun bs => bs.end_ - bs.start).sum := by
    apply List.sum_le_sum
    intro bs hbs
    have hc : bs.clearBits ≤ bs.totalBlocks := Nat.count_le _
    have hs := (hwf.section_ bs hbs).size
    unfold memBlockSize at hs
    rw [hfree bs hbs]
    omega
  have h2 := sum_length_le (N := 2 ^ 53) (l := pool.sections.map BlockSection.extent)
    (fun a ha => by
      obtain ⟨bs, hbs, rfl⟩ := List.mem_map.mp ha
      exact (hwf.section_ bs hbs).bound) hwf.apart
  rw [List.map_map] at h2
  exact Nat.lt_succ_of_le (Nat.le_trans h1 h2)

/-! ## Taking a block -/

/-- The block the next allocation hands out: the first clear bit, from the
cursor on, of the first section that has a free block. -/
def NextBlock (pool : BlockPool) (addr : Nat) : Prop :=
  ∃ bs i, pool.sections.find? (fun bs => bs.freeBlocks != 0) = some bs ∧
    CircFirst (fun j => !testBit j bs.bitmap) bs.currentIndex bs.totalBlocks i ∧
    addr = bs.addr i

theorem NextBlock.unique {a b : Nat} (ha : NextBlock pool a)
    (hb : NextBlock pool b) : a = b := by
  obtain ⟨bs, i, hbs, hi, rfl⟩ := ha
  obtain ⟨bs', i', hbs', hi', rfl⟩ := hb
  rw [hbs] at hbs'
  cases hbs'
  rw [hi.unique hi']

/-- In a section with a free block the search succeeds. -/
theorem getMemblockFromSection_eq (hwf : SectionWf bs)
    (hfree : bs.freeBlocks = bs.clearBits) (hne : bs.freeBlocks ≠ 0) :
    ∃ i, CircFirst (fun j => !testBit j bs.bitmap) bs.currentIndex
        bs.totalBlocks i ∧
      getMemblockFromSection bs = some
        ({ bs with
           bitmap := setBit i bs.bitmap
           currentIndex := i + 1
           freeBlocks := bs.freeBlocks - 1 },
         bs.start / memBlockSize + i) ∧
      bfn2phy (bs.start / memBlockSize + i) = bs.addr i := by
  have hclear : ∃ j, j < bs.totalBlocks ∧ testBit j bs.bitmap = false :=
    count_pos.mp (by rw [hfree] at hne; unfold BlockSection.clearBits at hne; omega)
  have hfirst := findNextZeroBitLoop_spec bs.currentIndex hclear
  have hcount : bs.clearBits ≤ bs.totalBlocks := Nat.count_le _
  have hlt := hfirst.lt
  have hal := hwf.aligned
  have hsize := hwf.size
  have hbound := hwf.bound
  unfold memBlockSize at hal hsize
  refine ⟨_, hfirst, ?_, ?_⟩
  · unfold getMemblockFromSection memBlockSize
    simp only
    rw [u32_of_lt (by omega), if_neg (by omega), u64_of_lt (by omega),
      sub64_of_le (by omega) (by omega), u32_of_lt (by omega)]
  · unfold bfn2phy BlockSection.addr memBlockSize
    omega

variable {l' : List BlockSection}

/-- The section loop takes a block of the first section with a free one, and gives up only when no
section has one. -/
theorem takeIn_cases (hl : ∀ bs ∈ l, SectionWf bs ∧ bs.freeBlocks = bs.clearBits) :
    (takeIn l = none ∧ ∀ bs ∈ l, bs.freeBlocks = 0) ∨
      ∃ pre bs post i bfn, l = pre ++ bs :: post ∧ (∀ x ∈ pre, x.freeBlocks = 0) ∧
        bs.freeBlocks ≠ 0 ∧
        CircFirst (fun j => !testBit j bs.bitmap) bs.currentIndex bs.totalBlocks i ∧
        takeIn l = some (pre ++ { bs with
          bitmap := setBit i bs.bitmap
          currentIndex := i + 1
          freeBlocks := bs.freeBlocks - 1 } :: post, bfn) ∧
        bfn2phy bfn = bs.addr i := by
  induction l with
  | nil => exact Or.inl ⟨rfl, by simp⟩
  | cons bs rest ih =>
    obtain ⟨⟨hwf, hfree⟩, hrest⟩ := List.forall_mem_cons.mp hl
    unfold takeIn
    simp only
    split
    · rename_i h0
      refine (ih hrest).imp (fun ⟨hnone, hall⟩ => ⟨by rw [hnone]; rfl,
        List.forall_mem_cons.mpr ⟨h0, hall⟩⟩) ?_
      rintro ⟨pre, bs1, post, i, bfn, rfl, hpre, hne, hfirst, htake, haddr⟩
      exact ⟨bs :: pre, bs1, post, i, bfn, rfl, List.forall_mem_cons.mpr ⟨h0, hpre⟩, hne, hfirst,
        by rw [htake]; rfl, haddr⟩
    · rename_i h0
      obtain ⟨i, hfirst, hget, haddr⟩ := getMemblockFromSection_eq hwf hfree h0
      exact Or.inr ⟨[], bs, rest, i, _, rfl, by simp, h0, hfirst, by rw [hget]; rfl, haddr⟩

/-- **Taking a block** keeps the pool isolated, with the block among the
held ones. -/
theorem Isolated.take (hs : Isolated s) (hwf : PoolWf s.pool)
    (h : takeIn s.pool.sections = some (l', bfn)) :
    let pool' : BlockPool := ⟨l', sub64 s.pool.freeBlocks 1⟩
    NextBlock s.pool (bfn2phy bfn) ∧ PoolWf pool' ∧
      Isolated ⟨pool', bfn :: s.live⟩ := by
  obtain ⟨hnone, -⟩ | ⟨pre, bs, post, i, bfn', hl, hpre, hne, hfirst, htake, haddr⟩ :=
    takeIn_cases fun bs hbs => ⟨hwf.section_ bs hbs, hs.sectionFree bs hbs⟩
  · cases hnone.symm.trans h
  cases htake.symm.trans h
  have hbs : bs ∈ s.pool.sections := by rw [hl]; simp
  have hswf := hwf.section_ bs hbs
  have hi := hfirst.lt
  have hclear : testBit i bs.bitmap = false := by simpa using hfirst.hit
  have hset := testBit_setBit (Nat.lt_of_lt_of_le hi hswf.room)
  have hnew : ∀ b ∈ s.live, bfn2phy b ≠ bs.addr i := by
    intro b hb hba
    have := (hs.bits bs hbs i hi).mpr ⟨b, hb, hba⟩
    rw [hclear] at this
    exact absurd this (by decide)
  have hcount : Nat.count (fun j => testBit j bs.bitmap = false) bs.totalBlocks
      = Nat.count (fun j => testBit j (setBit i bs.bitmap) = false)
        bs.totalBlocks + 1 :=
    count_insert hi (by simp [hset]) hclear fun j hj => by
      simp [hset, Ne.symm hj]
  have hfree := hs.sectionFree bs hbs
  unfold BlockSection.clearBits at hfree
  have hlt := sum_freeBlocks_lt hwf hs.sectionFree
  have hfind : s.pool.sections.find? (fun bs => bs.freeBlocks != 0) = some bs := by
    have hnone : pre.find? (fun bs => bs.freeBlocks != 0) = none :=
      List.find?_eq_none.mpr fun x hx => by simp [hpre x hx]
    rw [hl, List.find?_append, hnone, List.find?_cons_of_pos (by simpa using hne)]
    rfl
  refine ⟨⟨bs, i, hfind, hfirst, haddr⟩, ?_⟩
  refine hs.replace hwf hl
    ⟨rfl, rfl, by simp, hi, fun a ha => ?_, fun j hj => ?_, ?_⟩ ?_ ?_ ?_
  · simp [haddr, Ne.symm ha]
  · simp [hset, Ne.symm hj]
  · simp [hset, haddr]
  · exact List.nodup_cons.mpr ⟨fun hb => hnew bfn hb haddr, hs.nodup⟩
  · simp only [BlockSection.clearBits]
    omega
  · have hsum := hs.totalFree
    rw [hl, List.map_append, List.map_cons, List.sum_append, List.sum_cons] at hsum hlt
    rw [sub64_of_le (by omega) (by omega), List.map_append, List.map_cons,
      List.sum_append, List.sum_cons]
    simp only
    omega

/-! ## Releasing a block -/

/-- The walk of `__vmm_free_memblock` changes the first section that contains the address, if one
does. -/
theorem releaseIn_cases (base : Nat) (l : List BlockSection) :
    (releaseIn base l = none ∧ ∀ bs ∈ l, ¬ (bs.start ≤ base ∧ base < bs.end_)) ∨
      ∃ pre bs post, l = pre ++ bs :: post ∧ bs.start ≤ base ∧ base < bs.end_ ∧
        releaseIn base l = some (pre ++ bs.release base :: post) := by
  induction l with
  | nil => exact Or.inl ⟨rfl, by simp⟩
  | cons bs rest ih =>
    unfold releaseIn
    split
    · rename_i hin
      exact Or.inr ⟨[], bs, rest, rfl, hin.1, hin.2, rfl⟩
    · rename_i hnot
      refine ih.imp (fun ⟨hnone, hall⟩ => ⟨by rw [hnone]; rfl,
        List.forall_mem_cons.mpr ⟨hnot, hall⟩⟩) ?_
      rintro ⟨pre, bs1, post, rfl, h1, h2, hrel⟩
      exact ⟨bs :: pre, bs1, post, rfl, h1, h2, by rw [hrel]; rfl⟩

/-- **Releasing a block below 4GiB** takes it from the held ones and keeps
the pool isolated. -/
theorem Isolated.release (hs : Isolated s)
    (hwf : PoolWf s.pool) (hb : bfn ∈ s.live)
    (hlow : bfn2phy bfn < 2 ^ 32) :
    PoolWf (vmmFreeMemblock s.pool bfn) ∧
      Isolated ⟨vmmFreeMemblock s.pool bfn, s.live.erase bfn⟩ := by
  have hbase : u32 (bfn * memBlockSize) = bfn2phy bfn := u32_of_lt hlow
  obtain ⟨-, hnot⟩ | ⟨pre, bs, post, hl, h1, h2, hrel⟩ :=
    releaseIn_cases (bfn2phy bfn) s.pool.sections
  · obtain ⟨bs, hbs, hin⟩ := hs.owned bfn hb
    exact absurd hin (hnot bs hbs)
  have hbs : bs ∈ s.pool.sections := by rw [hl]; simp
  have hswf := hwf.section_ bs hbs
  obtain ⟨hi, haddr⟩ := hswf.exists_index h1 h2
  have hfree := hs.sectionFree bs hbs
  generalize hidx : (bfn2phy bfn - bs.start) / memBlockSize = i at hi haddr
  have hidx' : u32 i = i := u32_of_lt (by
    rw [← hidx]
    exact Nat.lt_of_le_of_lt (Nat.div_le_self _ _) (by omega))
  have hset : testBit i bs.bitmap = true :=
    (hs.bits bs hbs i hi).mpr ⟨bfn, hb, haddr.symm⟩
  have hclr := testBit_clearBit i bs.bitmap
  have hcount : Nat.count (fun j => testBit j (clearBit i bs.bitmap) = false)
      bs.totalBlocks
      = Nat.count (fun j => testBit j bs.bitmap = false) bs.totalBlocks + 1 :=
    count_insert hi (by simp [hset]) (by simp [hclr]) fun j hj => by
      simp [hclr, Ne.symm hj]
  have hle : Nat.count (fun j => testBit j (clearBit i bs.bitmap) = false)
      bs.totalBlocks ≤ bs.totalBlocks := Nat.count_le _
  have hsize := hswf.size
  have hbound := hswf.bound
  unfold memBlockSize at hsize
  unfold BlockSection.clearBits at hfree
  have hnew : bs.release (bfn2phy bfn) = { bs with
      bitmap := clearBit i bs.bitmap
      freeBlocks := bs.freeBlocks + 1 } := by
    unfold BlockSection.release
    rw [hidx, hidx', u64_of_lt (by omega)]
  rw [hnew] at hrel
  have hpool : vmmFreeMemblock s.pool bfn = ⟨pre ++ { bs with
      bitmap := clearBit i bs.bitmap
      freeBlocks := bs.freeBlocks + 1 } :: post,
      u64 (s.pool.freeBlocks + 1)⟩ := by
    unfold vmmFreeMemblock
    rw [hbase, hrel]
  have hlt := sum_freeBlocks_lt hwf hs.sectionFree
  rw [hpool]
  refine hs.replace hwf hl ⟨rfl, rfl, by simp, hi, fun a ha => ?_, fun j hj => ?_, ?_⟩
    (hs.nodup.erase _) ?_ ?_
  · -- another address is held before if and only if it is held after
    constructor
    · rintro ⟨b, hb', rfl⟩
      exact ⟨b, List.mem_of_mem_erase hb', rfl⟩
    · rintro ⟨b, hb', rfl⟩
      refine ⟨b, (hs.nodup.mem_erase_iff).mpr ⟨fun he => ha ?_, hb'⟩, rfl⟩
      rw [he, haddr]
  · simp [hclr, Ne.symm hj]
  · simp only [hclr, ne_eq, not_true_eq_false, decide_false, Bool.and_false,
      Bool.false_eq_true, false_iff]
    rintro ⟨b, hb', hba⟩
    obtain ⟨hne, -⟩ := (hs.nodup.mem_erase_iff).mp hb'
    exact hne (bfn2phy_inj (hba.trans haddr))
  · simp only [BlockSection.clearBits]
    omega
  · have hsum := hs.totalFree
    rw [u64_of_lt (by omega), hsum, hl]
    simp only [List.map_append, List.map_cons, List.sum_append, List.sum_cons]
    omega

/-- **Releasing a block from 4GiB on** never clears its bit: the address is
computed in 32 bits, so the walk looks for another block. -/
theorem not_isolated_release_high (hs : Isolated s)
    (hwf : PoolWf s.pool) (hb : bfn ∈ s.live)
    (hhigh : 2 ^ 32 ≤ bfn2phy bfn) :
    ¬ Isolated ⟨vmmFreeMemblock s.pool bfn, s.live.erase bfn⟩ := by
  intro hnew
  obtain ⟨bs0, hbs0, h1, h2⟩ := hs.owned bfn hb
  have hswf := hwf.section_ bs0 hbs0
  obtain ⟨hi, haddr⟩ := hswf.exists_index h1 h2
  generalize hidx : (bfn2phy bfn - bs0.start) / memBlockSize = i at hi haddr
  have hset : testBit i bs0.bitmap = true :=
    (hs.bits bs0 hbs0 i hi).mpr ⟨bfn, hb, haddr.symm⟩
  -- the bit of the block is still set afterwards
  have hkept : ∃ x ∈ (vmmFreeMemblock s.pool bfn).sections,
      x.start = bs0.start ∧ x.totalBlocks = bs0.totalBlocks ∧
        testBit i x.bitmap = true := by
    unfold vmmFreeMemblock
    obtain ⟨hnone, -⟩ | ⟨pre, bs, post, hl, h3, h4, hrel⟩ :=
      releaseIn_cases (u32 (bfn * memBlockSize)) s.pool.sections
    · rw [hnone]
      exact ⟨bs0, hbs0, rfl, rfl, hset⟩
    · rw [hrel]
      rw [hl] at hbs0
      rcases List.mem_append.mp hbs0 with hm | hm
      · exact ⟨bs0, List.mem_append_left _ hm, rfl, rfl, hset⟩
      · rcases List.mem_cons.mp hm with rfl | hm
        · refine ⟨_, List.mem_append_right _ List.mem_cons_self, rfl, rfl, ?_⟩
          have hal := hswf.aligned
          rw [BlockSection.release, testBit_clearBit, hset]
          simp only [Bool.true_and, decide_eq_true_eq]
          have hbase := u32_lt (bfn * memBlockSize)
          have hle : (u32 (bfn * memBlockSize) - bs0.start) / memBlockSize
              ≤ u32 (bfn * memBlockSize) := Nat.le_trans (Nat.div_le_self _ _)
            (Nat.sub_le _ _)
          rw [u32_of_lt (by omega), ← hidx]
          unfold u32 bfn2phy memBlockSize at *
          omega
        · exact ⟨bs0, List.mem_append_right _ (List.mem_cons_of_mem _ hm), rfl,
            rfl, hset⟩
  obtain ⟨x, hx, hstart, htot, hbit⟩ := hkept
  obtain ⟨b, hb', hba⟩ := (hnew.bits x hx i (htot ▸ hi)).mp hbit
  have hbb : b = bfn := bfn2phy_inj (by
    rw [hba, BlockSection.addr, hstart]
    exact haddr)
  exact ((hs.nodup.mem_erase_iff).mp hb').1 hbb

/-! ## Whole runs -/

/-- Pairwise disjoint, block aligned, nonempty regions of the 64-bit
physical address space. -/
structure RegionsOk (l : List (Nat × Nat)) : Prop where
  aligned : ∀ r ∈ l, r.1 % memBlockSize = 0 ∧ r.2 % memBlockSize = 0
  nonempty : ∀ r ∈ l, r.1 < r.2 ∧ r.2 < 2 ^ 64
  apart : l.Pairwise Apart

/-- When a call does what it should: no block from 4GiB on is given back,
neither by its client nor because there is no memory for the
`mem_block`. -/
def CallOk (s : PoolState) : PoolCall → Prop
  | .alloc true => True
  | .alloc false => ∀ addr, NextBlock s.pool addr → addr < 2 ^ 32
  | .free bfn => bfn ∈ s.live → bfn2phy bfn < 2 ^ 32

theorem poolInit_wf {l : List (Nat × Nat)} (hl : RegionsOk l)
    (hb : ∀ r ∈ l, r.2 ≤ 2 ^ 53) : PoolWf (newPool l) := by
  refine ⟨fun bs hbs => ?_, ?_⟩
  · obtain ⟨r, hr, rfl⟩ := List.mem_map.mp hbs
    obtain ⟨ha1, ha2⟩ := hl.aligned r hr
    obtain ⟨hlt, -⟩ := hl.nonempty r hr
    have hbound := hb r hr
    refine ⟨ha1, ?_, hbound, ?_⟩
    · unfold newSection memBlockSize at *
      simp only
      omega
    · unfold newSection bitsToLongs
      simp only [List.length_replicate]
      omega
  · have hmap : (newPool l).sections.map BlockSection.extent = l := by
      simp [newPool, newSection, BlockSection.extent, Function.comp_def]
    rw [hmap]
    exact hl.apart

theorem poolInit_isolated {l : List (Nat × Nat)} (hl : RegionsOk l)
    (hb : ∀ r ∈ l, r.2 ≤ 2 ^ 53) : Isolated (poolInit l) := by
  have hclear : ∀ bs ∈ (newPool l).sections, bs.freeBlocks = bs.clearBits := by
    intro bs hbs
    obtain ⟨r, hr, rfl⟩ := List.mem_map.mp hbs
    simp [newSection, BlockSection.clearBits]
  have hlt := sum_freeBlocks_lt (poolInit_wf hl hb) hclear
  refine ⟨List.nodup_nil, by simp [poolInit], ?_, hclear, ?_⟩
  · intro bs hbs i hi
    obtain ⟨r, hr, rfl⟩ := List.mem_map.mp hbs
    simp [newSection, poolInit]
  · have heq : (newPool l).sections.map BlockSection.freeBlocks
        = l.map fun r => (newSection r).totalBlocks := by
      simp [newPool, newSection, Function.comp_def]
    rw [heq] at hlt
    change u64 _ = ((newPool l).sections.map BlockSection.freeBlocks).sum
    rw [heq]
    exact u64_of_lt (Nat.lt_of_lt_of_le hlt (by decide))

/-- What `vmm_alloc_memblock` does to an isolated pool. -/
theorem Isolated.alloc (hs : Isolated s) (hwf : PoolWf s.pool)
    (mallocOk : Bool) :
    (poolStep s (.alloc mallocOk) = some s ∧ ∀ addr, ¬ NextBlock s.pool addr) ∨
      ∃ pool' bfn, NextBlock s.pool (bfn2phy bfn) ∧ PoolWf pool' ∧
        Isolated ⟨pool', bfn :: s.live⟩ ∧
        poolStep s (.alloc mallocOk) = some (if mallocOk
          then ⟨pool', bfn :: s.live⟩
          else ⟨vmmFreeMemblock pool' bfn, s.live⟩) := by
  unfold poolStep vmmAllocMemblock
  obtain ⟨hnone, hall⟩ | ⟨_, _, _, _, bfn, -, -, -, -, htake, -⟩ :=
    takeIn_cases fun bs hbs => ⟨hwf.section_ bs hbs, hs.sectionFree bs hbs⟩
  · rw [hnone]
    refine Or.inl ⟨rfl, ?_⟩
    rintro addr ⟨bs, -, hbs, -⟩
    have hne := List.find?_some hbs
    simp [hall bs (List.mem_of_find?_eq_some hbs)] at hne
  · rw [htake]
    obtain ⟨hnext, hwf', hiso⟩ := hs.take hwf htake
    refine Or.inr ⟨_, bfn, hnext, hwf', hiso, ?_⟩
    cases mallocOk <;> rfl

/-- A call that meets the condition keeps the pool isolated. -/
theorem poolStep_isolated {s' : PoolState} {c : PoolCall}
    (h : PoolWf s.pool ∧ Isolated s) (hok : CallOk s c)
    (hstep : poolStep s c = some s') : PoolWf s'.pool ∧ Isolated s' := by
  obtain ⟨hwf, hs⟩ := h
  cases c with
  | alloc mallocOk =>
    rcases hs.alloc hwf mallocOk with ⟨heq, -⟩ | ⟨pool', bfn, hnext, hwf', hiso, heq⟩
    · rw [heq] at hstep
      cases hstep
      exact ⟨hwf, hs⟩
    · rw [heq] at hstep
      cases hstep
      cases mallocOk with
      | true => exact ⟨hwf', hiso⟩
      | false =>
        -- no memory for the `mem_block`: the block goes straight back
        have hrel := hiso.release hwf' List.mem_cons_self (hok _ hnext)
        rwa [List.erase_cons_head] at hrel
  | free bfn =>
    simp only [poolStep] at hstep
    split at hstep
    · rename_i hmem
      cases hstep
      exact hs.release hwf hmem (hok hmem)
    · cases hstep

/-- A call that does not meet the condition breaks the pool. -/
theorem callOk_of_isolated {c : PoolCall}
    (h : PoolWf s.pool ∧ Isolated s)
    (hgood : ∀ s', poolStep s c = some s' → Isolated s') : CallOk s c := by
  obtain ⟨hwf, hs⟩ := h
  cases c with
  | alloc mallocOk =>
    cases mallocOk with
    | true => trivial
    | false =>
      intro addr haddr
      rcases hs.alloc hwf false with ⟨-, hno⟩ | ⟨pool', bfn, hnext, hwf', hiso, heq⟩
      · exact absurd haddr (hno addr)
      · by_contra hhigh
        rw [haddr.unique hnext] at hhigh
        refine not_isolated_release_high hiso hwf' List.mem_cons_self
          (Nat.le_of_not_lt hhigh) ?_
        rw [List.erase_cons_head]
        exact hgood _ heq
  | free bfn =>
    intro hmem
    by_contra hhigh
    simp only [poolStep, if_pos hmem] at hgood
    exact not_isolated_release_high hs hwf hmem (Nat.le_of_not_lt hhigh)
      (hgood _ rfl)

/-- **Block isolation**: over sections whose block numbers fit in 32 bits,
every state a run reaches is isolated exactly when no call of the run gives
a block from 4GiB on back. -/
theorem memblock_isolated_iff (l : List (Nat × Nat)) (hl : RegionsOk l)
    (hb : ∀ r ∈ l, r.2 ≤ 2 ^ 53) (calls : List PoolCall) :
    (∀ pre, pre <+: calls → ∀ s, run poolStep (poolInit l) pre = some s →
      Isolated s) ↔ Along poolStep CallOk (poolInit l) calls := by
  have hinit : PoolWf (poolInit l).pool ∧ Isolated (poolInit l) :=
    ⟨poolInit_wf hl hb, poolInit_isolated hl hb⟩
  rw [forall_prefix_iff_along]
  have hcongr : Along poolStep (fun s c => ∀ s', poolStep s c = some s' → Isolated s')
      (poolInit l) calls ↔ Along poolStep CallOk (poolInit l) calls :=
    along_congr (I := fun s => PoolWf s.pool ∧ Isolated s)
    (fun s c s' h hok hstep => poolStep_isolated h hok hstep)
    (fun s c h => ⟨fun hgood => callOk_of_isolated h hgood,
      fun hok s' hstep => (poolStep_isolated h hok hstep).2⟩)
    hinit calls
  rw [← hcongr]
  exact ⟨fun h => h.2, fun h => ⟨hinit.2, h⟩⟩

/-- Two blocks, allocated, one freed and allocated again. -/
def twoBlocks : List PoolCall := [.alloc true, .alloc true, .free 1, .alloc true]

/-- Below 4GiB they are isolated throughout. -/
theorem memblock_isolated_low :
    (run poolStep (poolInit [(0, 0x400000)]) twoBlocks).isSome ∧
      ∀ pre, pre <+: twoBlocks →
        ∀ s, run poolStep (poolInit [(0, 0x400000)]) pre = some s → Isolated s := by
  refine ⟨by decide +kernel, ?_⟩
  refine (memblock_isolated_iff [(0, 0x400000)] ⟨by decide, by decide, by decide⟩ (by decide)
    twoBlocks).mpr ?_
  exact ⟨trivial, fun _ _ => ⟨trivial, fun _ _ => ⟨fun _ => by decide,
    fun _ _ => ⟨trivial, fun _ _ => trivial⟩⟩⟩⟩

/-- One block at 4GiB and one at 0: freeing the first clears the bit of the
second, which is then handed out a second time. -/
theorem memblock_shared_block :
    RegionsOk [(0x100000000, 0x100200000), (0, 0x200000)] ∧
      ∃ s, run poolStep (poolInit [(0x100000000, 0x100200000), (0, 0x200000)])
          [.alloc true, .alloc true, .free 2048, .alloc true] = some s ∧
        s.live = [0, 0] ∧ ¬ Isolated s := by
  refine ⟨⟨by decide, by decide, by decide⟩, ?_⟩
  refine exists_found_more (fun s _ hl h => ?_) (by decide +kernel)
  have hnodup := h.nodup
  rw [hl] at hnodup
  exact absurd hnodup (by decide)

end Minos.Vmm
