import Minos.Arch.Stage1
import Minos.Core.Bitmap
import Minos.Virt.Memblock

/-!
# Shared memory pages

`virt/shmem.c`: memory that is shared with or between guests is taken by the
page from 2MB blocks of the guest pool. A block has a bitmap of its 512 pages;
beside the bitmaps there is one list of records of what is in use, through
which an address is given back. Blocks are never given back, except when there
is no memory for the `mem_block` of a new one.

What there is memory for comes with each call.
The ranges that callers hold are kept in `live`, as physical address and number
of pages.
-/

namespace Minos.Shmem

open Minos.Lib Minos.Vmm
open Minos.Stage1 (va s1VirtMax s1PhysicalMax)

/-! ## State -/

/-- `PAGES_IN_BLOCK`. -/
def pagesInBlock : Nat := 512

/-- `MAX_SHMEM_ID`. -/
def maxShmemId : Nat := 32

/-- `pfn2phy`. -/
def pfn2phy (pfn : Nat) : Nat := u64 (pfn * 4096)

/-- `phy2pfn`. -/
def phy2pfn (addr : Nat) : Nat := addr / 4096

/-- `ptov`: with tagging the high bits are set. -/
def ptov (tagging : Bool) (addr : Nat) : Nat :=
  if tagging then addr ||| 0xffffff8000000000 else addr

/-- `vtop`, which is `__va`. -/
def vtop (tagging : Bool) (addr : Nat) : Nat := va tagging addr

/-- `struct shmem_block`. -/
structure Block where
  bfn : Nat
  phyBase : Nat
  id : Nat
  freePages : Nat
  bitmap : Bitmap
  deriving DecidableEq, Repr

/-- `struct shmem`. -/
structure Record where
  pages : Nat
  id : Nat
  pfn : Nat
  deriving DecidableEq, Repr

/-- `shmem_blocks` up to `sbid`, and `shmem_head`. -/
structure Sys where
  pool : PoolState
  blocks : List Block
  head : List Record
  live : List (Nat × Nat)

/-- What a call of `alloc_shmem` meets: memory for a `shmem_block`, for its
`mem_block`, for the tables that map the block, and for the `shmem` of block `i`. -/
structure Env where
  sbOk : Bool
  mbOk : Bool
  mapOk : Bool
  shmemOk : Nat → Bool

/-! ## Code -/

/-- `__alloc_shmem`: the record, the block and the address. -/
def allocInBlock (tagging : Bool) (sb : Block) (pages : Nat) (ok : Bool) :
    Option (Record × Block × Nat) :=
  let bits := bitmapFindNextZeroAreaAlign sb.bitmap pagesInBlock 0 pages 1
  if pagesInBlock ≤ bits then none
  else if ok then
    let addr := u64 (sb.phyBase + pfn2phy bits)
    some (⟨pages, sb.id, u32 (phy2pfn addr)⟩,
      { sb with bitmap := bitmapSet sb.bitmap bits pages }, ptov tagging addr)
  else none

/-- The loop of `alloc_shmem` over the blocks from number `i` on. `free_pages`
is never lowered. -/
def allocLoop (tagging : Bool) (pages : Nat) (ok : Nat → Bool) :
    Nat → List Block → Option (Record × List Block × Nat)
  | _, [] => none
  | i, sb :: rest =>
    let next := (allocLoop tagging pages ok (i + 1) rest).map fun x => (x.1, sb :: x.2.1, x.2.2)
    if pages ≤ sb.freePages then
      match allocInBlock tagging sb pages (ok i) with
      | some (r, sb', addr) => some (r, sb' :: rest, addr)
      | none => next
    else next

/-- The `ASSERT`s of `create_host_mapping(ptov(phy), phy, MEM_BLOCK_SIZE, ..)`. -/
def mapAsserts (tagging : Bool) (phy : Nat) : Prop :=
  va tagging (ptov tagging phy) < s1VirtMax ∧
    va tagging (u64 (ptov tagging phy + memBlockSize)) ≤ s1VirtMax ∧ phy < s1PhysicalMax

instance (tagging : Bool) (phy : Nat) : Decidable (mapAsserts tagging phy) :=
  inferInstanceAs (Decidable (_ ∧ _ ∧ _))

/-- `alloc_shmem_block`: the pool and the block. `none` is a failed `ASSERT`, or the want of
a page for the tables: `create_host_mapping` has no other error for these addresses, and
`__alloc_pages` writes through NULL before it could report one, so the branch that gives the
block back is not reached. -/
def allocShmemBlock (tagging : Bool) (s : Sys) (env : Env) : Option (PoolState × Option Block) :=
  if env.sbOk then
    match vmmAllocMemblock s.pool.pool env.mbOk with
    | (pool, none) => some (⟨pool, s.pool.live⟩, none)
    | (pool, some bfn) =>
      if mapAsserts tagging (bfn2phy bfn) then
        if env.mapOk then
          some (⟨pool, bfn :: s.pool.live⟩,
            some ⟨bfn, bfn2phy bfn, s.blocks.length, pagesInBlock, List.replicate 8 0⟩)
        else none
      else none
  else some (s.pool, none)

/-- `alloc_shmem`: the address it returns, if any. -/
def allocShmem (tagging : Bool) (s : Sys) (pages : Nat) (env : Env) : Option (Sys × Option Nat) :=
  if pagesInBlock < pages then some (s, none)
  else
    match allocLoop tagging pages env.shmemOk 0 s.blocks with
    | some (r, blocks, addr) => some ({ s with blocks := blocks, head := r :: s.head }, some addr)
    | none =>
      if maxShmemId ≤ s.blocks.length then some (s, none)
      else
        match allocShmemBlock tagging s env with
        | none => none
        | some (pool, none) => some ({ s with pool := pool }, none)
        | some (pool, some sb) =>
          match allocInBlock tagging sb pages (env.shmemOk s.blocks.length) with
          | some (r, sb', addr) =>
            some ({ s with
              pool := pool
              blocks := s.blocks ++ [sb']
              head := r :: s.head }, some addr)
          | none => some ({ s with pool := pool, blocks := s.blocks ++ [sb] }, none)

/-- `free_shmem_in_block`. -/
def freeInBlock (sb : Block) (r : Record) : Block :=
  { sb with
    bitmap := bitmapClear sb.bitmap (u32 (phy2pfn (sub64 (pfn2phy r.pfn) sb.phyBase))) r.pages
    freePages := u16 (sb.freePages + r.pages) }

/-- `free_shmem`. `none` is a failed `ASSERT` or a use of a block there is not. -/
def freeShmem (tagging : Bool) (s : Sys) (addr : Nat) : Option Sys :=
  if addr % 4096 ≠ 0 then none
  else
    match s.head.find? fun r => r.pfn == phy2pfn (vtop tagging addr) with
    | none => some s
    | some r =>
      if maxShmemId ≤ r.id then none
      else
        match s.blocks[r.id]? with
        | none => none
        | some sb =>
          some { s with
            blocks := s.blocks.set r.id (freeInBlock sb r)
            head := s.head.eraseP fun r => r.pfn == phy2pfn (vtop tagging addr) }

inductive Event
  | alloc (pages : Nat) (env : Env)
  | free (addr : Nat)
  /-- a call of another client of the pool -/
  | pool (c : PoolCall)

/-- One call, with the ranges that are held after it. Another client does not
free a block of the shared memory. -/
def step (tagging : Bool) (s : Sys) : Event → Option Sys
  | .alloc pages env =>
    (allocShmem tagging s pages env).map fun r =>
      { r.1 with live := (r.2.map fun addr => (vtop tagging addr, pages)).toList ++ s.live }
  | .free addr =>
    (freeShmem tagging s addr).map fun s' =>
      { s' with live := s.live.eraseP fun x => x.1 == vtop tagging addr }
  | .pool c =>
    if ∃ sb ∈ s.blocks, c = .free sb.bfn then none
    else (poolStep s.pool c).map fun pool => { s with pool := pool }

/-- No block and no record yet, and a pool that others may have taken from. -/
def init (pool : PoolState) : Sys := ⟨pool, [], [], []⟩

/-! ## Statements -/

/-- The bytes of a range. -/
def extent (r : Nat × Nat) : Nat × Nat := (r.1, r.1 + r.2 * 4096)

structure ShmemOk (tagging : Bool) (s : Sys) : Prop where
  disjoint : (s.live.map extent).Pairwise Apart
  inBlock : ∀ r ∈ s.live, ∃ sb ∈ s.blocks,
    sb.phyBase ≤ r.1 ∧ r.1 + r.2 * 4096 ≤ sb.phyBase + memBlockSize
  bitmap : ∀ sb ∈ s.blocks, ∀ j, j < pagesInBlock →
    (testBit j sb.bitmap = true ↔ ∃ r ∈ s.live,
      (extent r).1 ≤ sb.phyBase + j * 4096 ∧ sb.phyBase + j * 4096 < (extent r).2)
  idle : ∀ addr, (∀ r ∈ s.live, r.1 ≠ vtop tagging addr) →
    ∀ s', freeShmem tagging s addr = some s' → s' = s

/-- From one page to a whole block is asked for. -/
def Event.InRange : Event → Prop
  | .alloc pages _ => 1 ≤ pages ∧ pages ≤ pagesInBlock
  | _ => True

instance : (e : Event) → Decidable e.InRange
  | .alloc _ _ => inferInstanceAs (Decidable (_ ∧ _))
  | .free _ => isTrue trivial
  | .pool _ => isTrue trivial

/-- A block that goes back at once, because there is no memory for its
`mem_block`, is one below 4GiB; with tagging a block lies below what the tag
leaves of an address. -/
def CallOk (tagging : Bool) (s : Sys) : Event → Prop
  | .alloc _ env =>
    (env.mbOk = false → ∀ addr, NextBlock s.pool.pool addr → addr < 2 ^ 32) ∧
    (tagging = true → ∀ addr, NextBlock s.pool.pool addr → addr < s1VirtMax)
  | .free _ => True
  | .pool c => Vmm.CallOk s.pool c

/-! ## One block -/

variable {tagging : Bool} {s s' : Sys} {sb sb' : Block} {r : Record} {i pages addr : Nat}

/-- The number of the first page. -/
def Block.pfn (sb : Block) : Nat := sb.bfn * 512

/-- The numbers of the pages. -/
def Record.extent (r : Record) : Nat × Nat := (r.pfn, r.pfn + r.pages)

def Record.Holds (r : Record) (p : Nat) : Prop := r.pfn ≤ p ∧ p < r.pfn + r.pages

/-- What never changes about block number `i`. -/
structure BlockOk (i : Nat) (sb : Block) : Prop where
  id : sb.id = i
  base : sb.phyBase = bfn2phy sb.bfn
  low : bfn2phy sb.bfn < s1VirtMax
  words : sb.bitmap.length = 8

structure RecordOk (s : Sys) (r : Record) : Prop where
  pos : 0 < r.pages
  inBlock : ∃ sb, s.blocks[r.id]? = some sb ∧ sb.pfn ≤ r.pfn ∧
    r.pfn + r.pages ≤ sb.pfn + pagesInBlock

variable {a : Nat}

theorem vtop_ptov (tagging : Bool) (h : a < s1VirtMax) :
    vtop tagging (ptov tagging a) = a := by
  unfold vtop ptov va
  cases tagging with
  | false => rfl
  | true =>
    have hpow : s1VirtMax = 2 ^ 39 := rfl
    simp only [if_true]
    rw [hpow] at h ⊢
    rw [Nat.or_mod_two_pow, Nat.mod_eq_of_lt h]
    exact Nat.or_zero a

theorem BlockOk.pfn_add (hb : BlockOk i sb) (n : Nat) :
    sb.phyBase + n * 4096 = (sb.pfn + n) * 4096 := by
  rw [hb.base]
  unfold bfn2phy Block.pfn memBlockSize
  omega

theorem BlockOk.pfn_lt (hb : BlockOk i sb) {n : Nat} (hn : n < pagesInBlock) :
    (sb.pfn + n) * 4096 < s1VirtMax := by
  have hbfn : sb.bfn < 262144 := by
    have hlow := hb.low
    unfold bfn2phy memBlockSize s1VirtMax at hlow
    omega
  have hpfn : sb.pfn + n < 2 ^ 27 := by
    unfold Block.pfn pagesInBlock at *
    omega
  calc (sb.pfn + n) * 4096 < 2 ^ 27 * 4096 := Nat.mul_lt_mul_of_pos_right hpfn (by decide)
    _ = s1VirtMax := rfl

/-- `__alloc_shmem` takes a run of clear bits. -/
theorem allocInBlock_spec {ok : Bool} (hb : BlockOk i sb) (hpos : 0 < pages)
    (h : allocInBlock tagging sb pages ok = some (r, sb', addr)) :
    ∃ b, b + pages ≤ pagesInBlock ∧
      (∀ j, b ≤ j → j < b + pages → testBit j sb.bitmap = false) ∧
      r = ⟨pages, sb.id, sb.pfn + b⟩ ∧
      sb' = { sb with bitmap := bitmapSet sb.bitmap b pages } ∧
      vtop tagging addr = (sb.pfn + b) * 4096 := by
  rw [allocInBlock] at h
  simp only at h
  split at h
  · cases h
  rename_i hlt
  split at h
  swap
  · cases h
  have hspec := bitmapFindNextZeroAreaAlign_spec hpos (Nat.lt_of_not_le hlt)
  generalize bitmapFindNextZeroAreaAlign sb.bitmap pagesInBlock 0 pages 1 = b at h hspec hlt
  have hvirt : (sb.pfn + b) * 4096 < s1VirtMax := hb.pfn_lt (Nat.lt_of_not_le hlt)
  have haddr : u64 (sb.phyBase + pfn2phy b) = (sb.pfn + b) * 4096 := by
    have hsmall : b * 4096 < 2 ^ 64 :=
      Nat.lt_trans (Nat.mul_lt_mul_of_pos_right (Nat.lt_of_not_le hlt) (by decide)) (by decide)
    have hsum : sb.phyBase + b * 4096 < 2 ^ 64 := by
      rw [hb.pfn_add]
      exact Nat.lt_trans hvirt (by decide)
    rw [pfn2phy, u64_of_lt hsmall, u64_of_lt hsum, hb.pfn_add]
  have hpfn : u32 (phy2pfn ((sb.pfn + b) * 4096)) = sb.pfn + b := by
    unfold u32 phy2pfn s1VirtMax at *
    omega
  rw [haddr] at h
  cases h
  refine ⟨b, hspec.1, hspec.2, ?_, rfl, vtop_ptov tagging hvirt⟩
  rw [hpfn]

theorem freeInBlock_eq (hb : BlockOk i sb) (hle : sb.pfn ≤ r.pfn)
    (hend : r.pfn + r.pages ≤ sb.pfn + pagesInBlock) :
    freeInBlock sb r = { sb with
      bitmap := bitmapClear sb.bitmap (r.pfn - sb.pfn) r.pages
      freePages := u16 (sb.freePages + r.pages) } := by
  have hlow := hb.low
  have hidx : u32 (phy2pfn (sub64 (pfn2phy r.pfn) sb.phyBase)) = r.pfn - sb.pfn := by
    rw [hb.base]
    unfold u32 phy2pfn sub64 pfn2phy u64 bfn2phy Block.pfn memBlockSize pagesInBlock s1VirtMax at *
    omega
  rw [freeInBlock, hidx]

variable {env : Env}

theorem pages_le_of_alloc (h : allocShmem tagging s pages env = some (s', some addr)) :
    pages ≤ pagesInBlock := by
  rw [allocShmem] at h
  split at h
  · cases h
  · exact Nat.le_of_not_lt ‹_›

/-! ## The invariant -/

structure Inv (s : Sys) : Prop where
  wf : PoolWf s.pool.pool
  isolated : Isolated s.pool
  held : ∀ sb ∈ s.blocks, sb.bfn ∈ s.pool.live
  blocks : ∀ i sb, s.blocks[i]? = some sb → BlockOk i sb
  different : (s.blocks.map Block.bfn).Nodup
  few : s.blocks.length ≤ maxShmemId
  records : ∀ r ∈ s.head, RecordOk s r
  apart : (s.head.map Record.extent).Pairwise Apart
  bits : ∀ sb ∈ s.blocks, ∀ j, j < pagesInBlock →
    (testBit j sb.bitmap = true ↔ ∃ r ∈ s.head, r.Holds (sb.pfn + j))
  live : s.live = s.head.map fun r => (r.pfn * 4096, r.pages)

variable {pool : PoolState}

theorem Inv.init (hwf : PoolWf pool.pool) (hiso : Isolated pool) :
    Inv (init pool) where
  wf := hwf
  isolated := hiso
  held := by simp [Shmem.init]
  blocks := by simp [Shmem.init]
  different := List.nodup_nil
  few := Nat.zero_le _
  records := by simp [Shmem.init]
  apart := List.Pairwise.nil
  bits := by simp [Shmem.init]
  live := rfl

theorem Inv.eq_of_page (h : Inv s) {i' : Nat} (hi : s.blocks[i]? = some sb)
    (hi' : s.blocks[i']? = some sb') {p : Nat} (hp : sb.pfn ≤ p ∧ p < sb.pfn + pagesInBlock)
    (hp' : sb'.pfn ≤ p ∧ p < sb'.pfn + pagesInBlock) : i = i' := by
  have hbfn : sb.bfn = sb'.bfn := by
    unfold Block.pfn pagesInBlock at *
    omega
  have hmap : (s.blocks.map Block.bfn)[i]? = (s.blocks.map Block.bfn)[i']? := by
    rw [List.getElem?_map, List.getElem?_map, hi, hi', Option.map_some, Option.map_some, hbfn]
  refine (List.getElem?_inj ?_ h.different).mp hmap
  rw [List.length_map]
  exact (List.getElem?_eq_some_iff.mp hi).1

/-- Block `i` gets a new bitmap, with the records to match. -/
theorem Inv.replace (h : Inv s) (hi : s.blocks[i]? = some sb) (hb' : BlockOk i sb')
    (hbfn : sb'.bfn = sb.bfn) {head : List Record} {live : List (Nat × Nat)}
    (hrec : ∀ r ∈ head, RecordOk s r) (hapart : (head.map Record.extent).Pairwise Apart)
    (hbits : ∀ j, j < pagesInBlock →
      (testBit j sb'.bitmap = true ↔ ∃ r ∈ head, r.Holds (sb.pfn + j)))
    (hother : ∀ p, ¬ (sb.pfn ≤ p ∧ p < sb.pfn + pagesInBlock) →
      ((∃ r ∈ head, r.Holds p) ↔ ∃ r ∈ s.head, r.Holds p))
    (hlive : live = head.map fun r => (r.pfn * 4096, r.pages)) :
    Inv { s with blocks := s.blocks.set i sb', head := head, live := live } := by
  obtain ⟨hlt, hsb⟩ := List.getElem?_eq_some_iff.mp hi
  have hmem := List.mem_of_getElem? hi
  have hpfn : sb'.pfn = sb.pfn := by rw [Block.pfn, Block.pfn, hbfn]
  have hget : ∀ k sb₁, (s.blocks.set i sb')[k]? = some sb₁ →
      k = i ∧ sb₁ = sb' ∨ k ≠ i ∧ s.blocks[k]? = some sb₁ := by
    intro k sb₁ hk
    by_cases hki : k = i
    · subst hki
      rw [List.getElem?_set_self hlt] at hk
      cases hk
      exact Or.inl ⟨rfl, rfl⟩
    · rw [List.getElem?_set_ne (Ne.symm hki)] at hk
      exact Or.inr ⟨hki, hk⟩
  refine ⟨h.wf, h.isolated, ?_, ?_, ?_, ?_, ?_, hapart, ?_, hlive⟩
  · intro sb₁ hsb₁
    rcases List.mem_or_eq_of_mem_set hsb₁ with hold | rfl
    · exact h.held sb₁ hold
    · rw [hbfn]
      exact h.held sb hmem
  · intro k sb₁ hk
    rcases hget k sb₁ hk with ⟨rfl, rfl⟩ | ⟨-, hold⟩
    · exact hb'
    · exact h.blocks k sb₁ hold
  · rw [List.map_set, hbfn, ← hsb, ← List.map_set, List.set_getElem_self]
    exact h.different
  · rw [List.length_set]
    exact h.few
  · intro r hr
    obtain ⟨hpos, sb₁, hsb₁, hle, hend⟩ := hrec r hr
    refine ⟨hpos, ?_⟩
    by_cases hki : i = r.id
    · subst hki
      rw [hi] at hsb₁
      cases hsb₁
      refine ⟨sb', List.getElem?_set_self hlt, ?_⟩
      rw [hpfn]
      exact ⟨hle, hend⟩
    · exact ⟨sb₁, (List.getElem?_set_ne hki).trans hsb₁, hle, hend⟩
  · intro sb₁ hsb₁ j hj
    obtain ⟨k, hk⟩ := List.mem_iff_getElem?.mp hsb₁
    rcases hget k sb₁ hk with ⟨-, rfl⟩ | ⟨hki, hold⟩
    · rw [hpfn]
      exact hbits j hj
    · rw [hother]
      · exact h.bits sb₁ (List.mem_of_getElem? hold) j hj
      · intro hp
        exact hki (h.eq_of_page hold hi ⟨Nat.le_add_right _ _, Nat.add_lt_add_left hj _⟩ hp)

theorem apart_of_holds {r r' : Record} (hpos : 0 < r.pages) (hpos' : 0 < r'.pages)
    (h : ∀ p, r.Holds p → ¬ r'.Holds p) : Apart r.extent r'.extent := by
  by_contra hno
  unfold Apart Record.extent at hno
  refine h (max r.pfn r'.pfn) ?_ ?_
  · constructor <;> omega
  · constructor <;> omega

/-- The record that `__alloc_shmem` makes. -/
theorem Inv.addRecord {ok : Bool} (h : Inv s) (hi : s.blocks[i]? = some sb) (hpos : 0 < pages)
    (ha : allocInBlock tagging sb pages ok = some (r, sb', addr)) :
    Inv { s with
      blocks := s.blocks.set i sb'
      head := r :: s.head
      live := (vtop tagging addr, pages) :: s.live } := by
  have hb := h.blocks i sb hi
  have hmem := List.mem_of_getElem? hi
  obtain ⟨b, hfit, hclear, rfl, rfl, haddr⟩ := allocInBlock_spec hb hpos ha
  have hin : ∀ p, Record.Holds ⟨pages, sb.id, sb.pfn + b⟩ p →
      ∃ j, p = sb.pfn + j ∧ b ≤ j ∧ j < b + pages := by
    rintro p ⟨hle, hlt⟩
    simp only at hle hlt
    exact ⟨p - sb.pfn, by omega, by omega, by omega⟩
  have hb' : BlockOk i { sb with bitmap := bitmapSet sb.bitmap b pages } :=
    { hb with words := by rw [length_bitmapSet]; exact hb.words }
  refine h.replace hi hb' rfl ?_ ?_ ?_ ?_ ?_
  · intro r hr
    rcases List.mem_cons.mp hr with rfl | hr
    · refine ⟨hpos, sb, ?_, Nat.le_add_right _ _, ?_⟩
      · rw [hb.id]
        exact hi
      · rw [Nat.add_assoc]
        exact Nat.add_le_add_left hfit _
    · exact h.records r hr
  · refine List.Pairwise.cons ?_ h.apart
    intro e he
    obtain ⟨r', hr', rfl⟩ := List.mem_map.mp he
    refine apart_of_holds hpos (h.records r' hr').pos fun p hp hp' => ?_
    obtain ⟨j, rfl, hbj, hjb⟩ := hin p hp
    -- a page of `r'` has its bit set, and the run found has none
    have hset := (h.bits sb hmem j (Nat.lt_of_lt_of_le hjb hfit)).mpr ⟨r', hr', hp'⟩
    rw [hclear j hbj hjb] at hset
    cases hset
  · intro j hj
    have hwords : b + pages ≤ 64 * sb.bitmap.length := by
      rw [hb.words]
      exact hfit
    rw [testBit_bitmapSet hwords, Bool.or_eq_true, decide_eq_true_eq, h.bits sb hmem j hj,
      or_comm, List.exists_mem_cons_iff]
    refine or_congr_left ?_
    unfold Record.Holds
    simp only
    omega
  · intro p hp
    rw [List.exists_mem_cons_iff]
    refine or_iff_right ?_
    intro hold
    obtain ⟨j, rfl, -, hjb⟩ := hin p hold
    exact hp ⟨Nat.le_add_right _ _, Nat.add_lt_add_left (Nat.lt_of_lt_of_le hjb hfit) _⟩
  · rw [List.map_cons, haddr, h.live]

theorem allocLoop_eq {ok : Nat → Bool} {l l' : List Block}
    (h : allocLoop tagging pages ok i l = some (r, l', addr)) :
    ∃ k sb sb', l[k]? = some sb ∧
      allocInBlock tagging sb pages (ok (i + k)) = some (r, sb', addr) ∧ l' = l.set k sb' := by
  induction l generalizing i l' with
  | nil => cases h
  | cons sb rest ih =>
    have hnext : (allocLoop tagging pages ok (i + 1) rest).map
          (fun x => (x.1, sb :: x.2.1, x.2.2)) = some (r, l', addr) →
        ∃ k sb₁ sb', (sb :: rest)[k]? = some sb₁ ∧
          allocInBlock tagging sb₁ pages (ok (i + k)) = some (r, sb', addr) ∧
          l' = (sb :: rest).set k sb' := by
      intro hn
      obtain ⟨⟨r', l'', addr'⟩, hx, heq⟩ := Option.map_eq_some_iff.mp hn
      cases heq
      obtain ⟨k, sb₁, sb', hk, ha, rfl⟩ := ih hx
      rw [Nat.add_right_comm] at ha
      exact ⟨k + 1, sb₁, sb', hk, ha, rfl⟩
    rw [allocLoop] at h
    split at h
    · split at h
      · rename_i hsome
        cases h
        exact ⟨0, sb, _, rfl, hsome, rfl⟩
      · exact hnext h
    · exact hnext h

/-- A new block, of which no page is in use. -/
theorem Inv.addBlock (h : Inv s) {bfn : Nat} (hwf : PoolWf pool.pool)
    (hiso : Isolated pool) (hlive : pool.live = bfn :: s.pool.live)
    (hlow : bfn2phy bfn < s1VirtMax) (hroom : s.blocks.length < maxShmemId) :
    Inv { s with
      pool := pool
      blocks := s.blocks ++
        [⟨bfn, bfn2phy bfn, s.blocks.length, pagesInBlock, List.replicate 8 0⟩] } := by
  have hnew : bfn ∉ s.pool.live := (List.nodup_cons.mp (hlive ▸ hiso.nodup)).1
  refine ⟨hwf, hiso, ?_, ?_, ?_, ?_, ?_, h.apart, ?_, h.live⟩
  · intro sb hsb
    rw [hlive]
    rcases List.mem_append.mp hsb with hold | hlast
    · exact List.mem_cons_of_mem _ (h.held sb hold)
    · rw [List.mem_singleton.mp hlast]
      exact List.mem_cons_self
  · intro i sb hi
    rcases Nat.lt_trichotomy i s.blocks.length with hlt | rfl | hgt
    · exact h.blocks i sb ((List.getElem?_append_left hlt).symm.trans hi)
    · rw [List.getElem?_concat_length] at hi
      cases hi
      exact ⟨rfl, rfl, hlow, List.length_replicate⟩
    · have hlen := (List.getElem?_eq_some_iff.mp hi).1
      rw [List.length_append, List.length_singleton] at hlen
      omega
  · rw [List.map_append, List.map_singleton]
    refine List.Nodup.append h.different (List.nodup_singleton _) ?_
    intro b hb hb'
    obtain ⟨sb, hsb, rfl⟩ := List.mem_map.mp hb
    have hsame : sb.bfn = bfn := List.mem_singleton.mp hb'
    exact hnew (hsame ▸ h.held sb hsb)
  · rw [List.length_append]
    exact hroom
  · intro r hr
    obtain ⟨hpos, sb, hsb, hin⟩ := h.records r hr
    exact ⟨hpos, sb, by rw [List.getElem?_append_left (List.getElem?_eq_some_iff.mp hsb).1, hsb],
      hin⟩
  · intro sb hsb j hj
    rcases List.mem_append.mp hsb with hold | hlast
    · exact h.bits sb hold j hj
    · obtain rfl := List.mem_singleton.mp hlast
      refine iff_of_false ?_ ?_
      · exact Bool.eq_false_iff.mp (testBit_replicate_zero 8 j)
      rintro ⟨r, hr, hle, hlt⟩
      -- the block of `r` is held already
      obtain ⟨-, sb', hsb', hle', hend⟩ := h.records r hr
      have hsame : sb'.bfn = bfn := by
        unfold Block.pfn pagesInBlock at *
        simp only at hle hlt
        omega
      exact hnew (hsame ▸ h.held sb' (List.mem_of_getElem? hsb'))

/-! ## Giving back -/

theorem vtop_mod (tagging : Bool) (h : a % 4096 = 0) : vtop tagging a % 4096 = 0 := by
  unfold vtop va
  cases tagging with
  | false => exact h
  | true => rw [if_pos rfl, Nat.mod_mod_of_dvd _ (by decide : 4096 ∣ s1VirtMax), h]

theorem pfn_eq_iff (tagging : Bool) (h : a % 4096 = 0) (p : Nat) :
    p = phy2pfn (vtop tagging a) ↔ p * 4096 = vtop tagging a := by
  have hmod := vtop_mod tagging h
  unfold phy2pfn
  omega

theorem Inv.live_of_find (h : Inv s) (ha : addr % 4096 = 0)
    (hf : s.head.find? (fun r => r.pfn == phy2pfn (vtop tagging addr)) = some r) :
    (vtop tagging addr, r.pages) ∈ s.live := by
  have hmatch := List.find?_some hf
  have hp := (pfn_eq_iff tagging ha r.pfn).mp (beq_iff_eq.mp hmatch)
  rw [h.live, ← hp]
  exact List.mem_map_of_mem (List.mem_of_find?_eq_some hf)

theorem Inv.live_eraseP (h : Inv s) (tagging : Bool) (ha : addr % 4096 = 0) :
    s.live.eraseP (fun x => x.1 == vtop tagging addr) =
      (s.head.eraseP fun r => r.pfn == phy2pfn (vtop tagging addr)).map
        fun r => (r.pfn * 4096, r.pages) := by
  rw [h.live, List.eraseP_map]
  congr 2
  funext r
  exact decide_eq_decide.mpr (pfn_eq_iff tagging ha r.pfn).symm

theorem Inv.removeRecord (h : Inv s) {pre post : List Record} (hhead : s.head = pre ++ r :: post)
    (hi : s.blocks[r.id]? = some sb) :
    Inv { s with
      blocks := s.blocks.set r.id (freeInBlock sb r)
      head := pre ++ post
      live := (pre ++ post).map fun r => (r.pfn * 4096, r.pages) } := by
  have hperm : s.head.Perm (r :: (pre ++ post)) := hhead ▸ List.perm_middle
  have hmem : ∀ p, (∃ r' ∈ s.head, r'.Holds p) ↔ r.Holds p ∨ ∃ r' ∈ pre ++ post, r'.Holds p := by
    intro p
    rw [← List.exists_mem_cons_iff (p := fun r' : Record => r'.Holds p)]
    exact exists_congr fun r' => and_congr_left' hperm.mem_iff
  have hapart : ((r :: (pre ++ post)).map Record.extent).Pairwise Apart :=
    ((hperm.map _).pairwise_iff Apart.symm).mp h.apart
  obtain ⟨hfirst, hrest⟩ := List.pairwise_cons.mp hapart
  have hb := h.blocks _ sb hi
  obtain ⟨-, sb₁, hsb₁, hle, hend⟩ := h.records r (hperm.mem_iff.mpr List.mem_cons_self)
  rw [hi] at hsb₁
  cases hsb₁
  rw [freeInBlock_eq hb hle hend]
  have hwords : r.pfn - sb.pfn + r.pages ≤ 64 * sb.bitmap.length := by
    rw [hb.words]
    unfold pagesInBlock at hend
    omega
  have hb' : BlockOk r.id { sb with
      bitmap := bitmapClear sb.bitmap (r.pfn - sb.pfn) r.pages
      freePages := u16 (sb.freePages + r.pages) } :=
    { hb with words := by rw [length_bitmapClear]; exact hb.words }
  refine h.replace hi hb' rfl ?_ hrest ?_ ?_ rfl
  · intro r' hr'
    exact h.records r' (hperm.mem_iff.mpr (List.mem_cons_of_mem _ hr'))
  · intro j hj
    have hhold : r.Holds (sb.pfn + j) ↔ r.pfn - sb.pfn ≤ j ∧ j < r.pfn - sb.pfn + r.pages := by
      unfold Record.Holds
      omega
    rw [testBit_bitmapClear hwords, Bool.and_eq_true, h.bits sb (List.mem_of_getElem? hi) j hj,
      hmem, Bool.not_eq_true', decide_eq_false_iff_not, ← hhold]
    constructor
    · rintro ⟨hr | hothers, hno⟩
      · exact absurd hr hno
      · exact hothers
    · rintro ⟨r', hr', hp⟩
      refine ⟨Or.inr ⟨r', hr', hp⟩, fun hr => ?_⟩
      have hap := hfirst _ (List.mem_map_of_mem hr')
      unfold Apart Record.extent at hap
      unfold Record.Holds at hr hp
      omega
  · intro p hp
    rw [hmem]
    refine (or_iff_right ?_).symm
    rintro ⟨hle', hlt'⟩
    exact hp ⟨Nat.le_trans hle hle', Nat.lt_of_lt_of_le hlt' hend⟩

/-- `free_shmem` takes the record of the address out and clears its pages. -/
theorem Inv.free (h : Inv s) (hs : step tagging s (.free addr) = some s') : Inv s' := by
  rw [step, freeShmem] at hs
  split at hs
  · cases hs
  rename_i ha
  have ha := Decidable.not_not.mp ha
  have hlive := h.live_eraseP tagging ha
  cases hfind : s.head.find? (fun r => r.pfn == phy2pfn (vtop tagging addr)) with
  | none =>
    rw [hfind] at hs
    cases hs
    rw [List.eraseP_of_forall_not (List.find?_eq_none.mp hfind), ← h.live] at hlive
    simp only [hlive]
    exact h
  | some r =>
    obtain ⟨hmatch, pre, post, hhead, hpre⟩ := List.find?_eq_some_iff_append.mp hfind
    obtain ⟨-, sb, hsb, -⟩ := h.records r (List.mem_of_find?_eq_some hfind)
    have hid : ¬ maxShmemId ≤ r.id := by
      have hlt := (List.getElem?_eq_some_iff.mp hsb).1
      exact Nat.not_le_of_lt (Nat.lt_of_lt_of_le hlt h.few)
    have herase : (s.head.eraseP fun r => r.pfn == phy2pfn (vtop tagging addr)) = pre ++ post := by
      rw [hhead, List.eraseP_append_right _ (fun x hx => by simpa using hpre x hx)]
      exact congrArg (pre ++ ·) (List.eraseP_cons_of_pos (p := fun r : Record => _) hmatch)
    rw [herase] at hlive
    rw [hfind] at hs
    simp only [if_neg hid, hsb, herase] at hs
    cases hs
    rw [hlive]
    exact h.removeRecord hhead hsb

/-! ## Runs -/

theorem Inv.setPool (h : Inv s) (hwf : PoolWf pool.pool) (hiso : Isolated pool)
    (hheld : ∀ sb ∈ s.blocks, sb.bfn ∈ pool.live) : Inv { s with pool := pool } :=
  ⟨hwf, hiso, hheld, h.blocks, h.different, h.few, fun r hr => ⟨(h.records r hr).pos,
    (h.records r hr).inBlock⟩, h.apart, h.bits, h.live⟩

/-- `alloc_shmem_block` adds a block of its own to the pool's, or leaves the
blocks that are held as they are. -/
def Granted (s : Sys) (pool : PoolState) (b : Option Block) : Prop :=
  b = none ∧ pool.live = s.pool.live ∨
    ∃ bfn, b = some ⟨bfn, bfn2phy bfn, s.blocks.length, pagesInBlock, List.replicate 8 0⟩ ∧
      pool.live = bfn :: s.pool.live ∧ bfn2phy bfn < s1VirtMax

theorem allocShmemBlock_spec {b : Option Block} (h : Inv s)
    (hback : env.mbOk = false → ∀ addr, NextBlock s.pool.pool addr → addr < 2 ^ 32)
    (htag : tagging = true → ∀ addr, NextBlock s.pool.pool addr → addr < s1VirtMax)
    (ha : allocShmemBlock tagging s env = some (pool, b)) :
    PoolWf pool.pool ∧ Isolated pool ∧ Granted s pool b := by
  have hsame : PoolWf s.pool.pool ∧ Isolated s.pool ∧ Granted s s.pool none :=
    ⟨h.wf, h.isolated, Or.inl ⟨rfl, rfl⟩⟩
  rw [allocShmemBlock] at ha
  split at ha
  swap
  · cases ha
    exact hsame
  rw [vmmAllocMemblock] at ha
  cases htake : takeIn s.pool.pool.sections with
  | none =>
    rw [htake] at ha
    cases ha
    exact hsame
  | some x =>
    obtain ⟨sections, bfn⟩ := x
    obtain ⟨hnext, hwf, hiso⟩ := h.isolated.take h.wf htake
    rw [htake] at ha
    cases hmb : env.mbOk with
    | false =>
      -- a block that goes back leaves the pool's blocks as they were
      obtain ⟨hwf', hiso'⟩ := hiso.release hwf List.mem_cons_self (hback hmb _ hnext)
      rw [List.erase_cons_head] at hiso'
      rw [hmb] at ha
      cases ha
      exact ⟨hwf', hiso', Or.inl ⟨rfl, rfl⟩⟩
    | true =>
      rw [hmb] at ha
      simp only [if_true] at ha
      split at ha
      swap
      · cases ha
      rename_i hassert
      cases hmap : env.mapOk with
      | false =>
        rw [hmap] at ha
        cases ha
      | true =>
        rw [hmap] at ha
        cases ha
        refine ⟨hwf, hiso, Or.inr ⟨bfn, rfl, rfl, ?_⟩⟩
        cases tagging with
        | true => exact htag rfl _ hnext
        | false => exact hassert.1

theorem Inv.alloc (h : Inv s) (hrange : Event.InRange (.alloc pages env))
    (hok : CallOk tagging s (.alloc pages env))
    (hs : step tagging s (.alloc pages env) = some s') : Inv s' := by
  obtain ⟨hpos, hle⟩ := hrange
  obtain ⟨hback, htag⟩ := hok
  rw [step, allocShmem, if_neg (Nat.not_lt_of_le hle)] at hs
  cases hloop : allocLoop tagging pages env.shmemOk 0 s.blocks with
  | some x =>
    obtain ⟨r, l', addr⟩ := x
    obtain ⟨k, sb, sb', hk, ha, rfl⟩ := allocLoop_eq hloop
    rw [hloop] at hs
    cases hs
    exact h.addRecord hk hpos ha
  | none =>
    rw [hloop] at hs
    simp only at hs
    split at hs
    · cases hs
      exact h
    rename_i hroom
    cases hblock : allocShmemBlock tagging s env with
    | none =>
      rw [hblock] at hs
      cases hs
    | some x =>
      obtain ⟨pool, b⟩ := x
      rw [hblock] at hs
      obtain ⟨hwf, hiso, ⟨rfl, hlive⟩ | ⟨bfn, rfl, hlive, hlow⟩⟩ :=
        allocShmemBlock_spec h hback htag hblock
      · cases hs
        exact h.setPool hwf hiso (hlive ▸ h.held)
      · have hadd := h.addBlock hwf hiso hlive hlow (Nat.lt_of_not_le hroom)
        simp only at hs
        split at hs
        · rename_i ha
          cases hs
          have hrec := hadd.addRecord List.getElem?_concat_length hpos ha
          rw [List.set_append_right _ _ (Nat.le_refl _), Nat.sub_self] at hrec
          exact hrec
        · cases hs
          exact hadd

theorem mem_live_of_poolStep {pool' : PoolState} {c : PoolCall} {bfn : Nat}
    (hs : poolStep pool c = some pool') (hbfn : bfn ∈ pool.live) (hc : c ≠ .free bfn) :
    bfn ∈ pool'.live := by
  cases c with
  | alloc mallocOk =>
    rw [poolStep] at hs
    split at hs
    · cases hs
      exact List.mem_cons_of_mem _ hbfn
    · cases hs
      exact hbfn
  | free b =>
    rw [poolStep] at hs
    split at hs
    · cases hs
      exact (List.mem_erase_of_ne fun hb => hc (congrArg PoolCall.free hb.symm)).mpr hbfn
    · cases hs

theorem Inv.step {e : Event} (h : Inv s) (hrange : e.InRange) (hok : CallOk tagging s e)
    (hs : step tagging s e = some s') : Inv s' := by
  cases e with
  | alloc pages env => exact h.alloc hrange hok hs
  | free addr => exact h.free hs
  | pool c =>
    rw [Shmem.step] at hs
    split at hs
    · cases hs
    rename_i hmine
    obtain ⟨pool, hstep, rfl⟩ := Option.map_eq_some_iff.mp hs
    obtain ⟨hwf, hiso⟩ := poolStep_isolated ⟨h.wf, h.isolated⟩ hok hstep
    refine h.setPool hwf hiso fun sb hsb => ?_
    exact mem_live_of_poolStep hstep (h.held sb hsb) fun hc => hmine ⟨sb, hsb, hc⟩

theorem Inv.ok (h : Inv s) : ShmemOk tagging s where
  disjoint := by
    rw [h.live, List.map_map, List.pairwise_map]
    refine (List.pairwise_map.mp h.apart).imp ?_
    intro r r' hap
    unfold Apart Record.extent at hap
    unfold Apart extent
    simp only [Function.comp]
    omega
  inBlock := by
    intro x hx
    rw [h.live] at hx
    obtain ⟨r, hr, rfl⟩ := List.mem_map.mp hx
    obtain ⟨-, sb, hsb, hle, hend⟩ := h.records r hr
    refine ⟨sb, List.mem_of_getElem? hsb, ?_⟩
    rw [(h.blocks _ _ hsb).base]
    unfold Block.pfn pagesInBlock at *
    unfold bfn2phy memBlockSize
    omega
  bitmap := by
    intro sb hsb j hj
    obtain ⟨i, hi⟩ := List.mem_iff_getElem?.mp hsb
    rw [h.bits sb hsb j hj, (h.blocks i sb hi).pfn_add, h.live]
    simp only [List.mem_map, exists_exists_and_eq_and]
    refine exists_congr fun r => and_congr_right fun _ => ?_
    unfold Record.Holds extent
    simp only
    omega
  idle := by
    intro addr hno s' hfree
    rw [freeShmem] at hfree
    split at hfree
    · cases hfree
    rename_i ha
    cases hfind : s.head.find? (fun r => r.pfn == phy2pfn (vtop tagging addr)) with
    | none =>
      rw [hfind] at hfree
      cases hfree
      rfl
    | some r => exact absurd rfl (hno _ (h.live_of_find (Decidable.not_not.mp ha) hfind))

/-- **Shared memory**: in every run in which no block from 4GiB on goes back to
the pool, the ranges in use are apart, each in one block, and what the bitmaps
say; giving back anything else does nothing. -/
theorem shmem_ok (tagging : Bool) {pool : PoolState} (hwf : PoolWf pool.pool)
    (hiso : Isolated pool) (l : List Event) (hrange : ∀ e ∈ l, e.InRange)
    (hl : Along (step tagging) (CallOk tagging) (init pool) l) :
    ∀ pre, pre <+: l → ∀ s, run (step tagging) (init pool) pre = some s → ShmemOk tagging s := by
  intro pre hpre s hrun
  have hboth := (along_and (init pool) l).mpr ⟨along_of_forall hrange (init pool), hl⟩
  exact (run_invariant (fun s e s' h hok hs => h.step hok.1 hok.2 hs) (Inv.init hwf hiso)
    (along_of_pre hpre hboth) hrun).ok

/-- There is memory for everything. -/
def Env.ready : Env := ⟨true, true, true, fun _ => true⟩

/-- Two ranges of a block, of which the first goes back, and a whole block. -/
theorem shmem_ok_low :
    (run (step false) (init (poolInit [(0x40000000, 0x40400000)]))
      [.alloc 3 .ready, .alloc 5 .ready, .free 0x40000000, .alloc 512 .ready]).map Sys.live
        = some [(0x40200000, 512), (0x40003000, 5)] ∧
    ∀ pre, pre <+: [.alloc 3 .ready, .alloc 5 .ready, .free 0x40000000, .alloc 512 .ready] →
      ∀ s, run (step false) (init (poolInit [(0x40000000, 0x40400000)])) pre = some s →
        ShmemOk false s := by
  have hregions : RegionsOk [(0x40000000, 0x40400000)] := ⟨by decide, by decide, by decide⟩
  refine ⟨by decide +kernel, ?_⟩
  refine shmem_ok false (poolInit_wf hregions (by decide)) (poolInit_isolated hregions (by decide))
    _ ?_ ?_
  · decide
  · have hready : ∀ s pages, CallOk false s (.alloc pages .ready) := by
      intro s pages
      refine ⟨?_, ?_⟩ <;> nofun
    exact ⟨hready _ _, fun _ _ => ⟨hready _ _, fun _ _ => ⟨trivial, fun _ _ =>
      ⟨hready _ _, fun _ _ => trivial⟩⟩⟩⟩

/-- A block at 5GiB for whose `mem_block` there is no memory goes back as the one at 1GiB,
which is then given out a second time. -/
theorem shmem_shared_block :
    ∃ s, run (step false)
        (init (poolInit [(0x40000000, 0x40200000), (0x140000000, 0x140200000)]))
        [.alloc 512 .ready, .alloc 512 { Env.ready with mbOk := false }, .alloc 512 .ready]
          = some s ∧
      s.live = [(0x40000000, 512), (0x40000000, 512)] ∧ ¬ ShmemOk false s := by
  refine exists_found_more (fun s _ hl h => ?_) (by decide +kernel)
  have hdisjoint := h.disjoint
  rw [hl] at hdisjoint
  exact absurd hdisjoint (by decide)

end Minos.Shmem
