import Minos.Lib.Count
import Minos.Virt.Shmem

/-!
# Free pages of the shared memory

Beside its bitmap a block of `Shmem` has a counter `free_pages`, by which
`alloc_shmem` passes over blocks without looking at the bitmap. `free_shmem`
raises the counter, in 16 bits; nothing lowers it.
-/

namespace Minos.Shmem

open Minos.Lib Minos.Vmm

variable {tagging : Bool} {s s' : Sys} {sb sb' : Block} {pages addr : Nat} {env : Env}

/-- The number of clear bits of the bitmap. -/
def Block.clearPages (sb : Block) : Nat :=
  Nat.count (fun j => testBit j sb.bitmap = false) pagesInBlock

/-- There is a run of free pages. -/
def Block.Fits (sb : Block) (pages : Nat) : Prop :=
  ∃ start, start + pages ≤ pagesInBlock ∧ ∀ j, j < pages → testBit (start + j) sb.bitmap = false

/-- The counters are those of the bitmaps, and a block that is passed over has
no room. -/
def Accounted (s : Sys) : Prop :=
  ∀ sb ∈ s.blocks, sb.freePages = sb.clearPages ∧
    ∀ pages, sb.freePages < pages → ¬ sb.Fits pages

/-- There are pages to be had: in a block with a run of free ones and memory for the record,
or in a new block, for which there is a number, memory, a block of the pool that can be
mapped, and memory for the record. -/
def Available (tagging : Bool) (s : Sys) (pages : Nat) (env : Env) : Prop :=
  (∃ (i : Nat) (sb : Block), s.blocks[i]? = some sb ∧ sb.Fits pages ∧ env.shmemOk i = true) ∨
    (s.blocks.length < maxShmemId ∧ env.sbOk = true ∧ env.mbOk = true ∧ env.mapOk = true ∧
      env.shmemOk s.blocks.length = true ∧
      ∃ x, takeIn s.pool.pool.sections = some x ∧ mapAsserts tagging (bfn2phy x.2))

/-- No page, too many or such as cannot be had are asked for. -/
def AsksInVain (tagging : Bool) (s : Sys) : Event → Prop
  | .alloc pages env => pages ≠ 0 → pages ≤ pagesInBlock → ¬ Available tagging s pages env
  | _ => True

/-! ## One block -/

theorem bitmapApply_zero (op : Word → Word → Word) (map : Bitmap) (start : Nat) :
    bitmapApply op map start 0 = map := by
  have hbits : ¬ 64 - start % 64 ≤ 0 := by omega
  simp [bitmapApply, bitmapLoop, hbits]

/-- No page of the block is in use. -/
structure Block.Good (sb : Block) : Prop where
  free : sb.freePages = pagesInBlock
  bitmap : sb.bitmap = List.replicate 8 0

theorem Block.Good.clear (hb : sb.Good) (j : Nat) : testBit j sb.bitmap = false := by
  rw [hb.bitmap]
  exact testBit_replicate_zero 8 j

theorem Block.Good.clearPages_eq (hb : sb.Good) : sb.clearPages = pagesInBlock := by
  simp only [Block.clearPages, hb.clear, Nat.count_true]

theorem Block.Good.fits (hb : sb.Good) (h : pages ≤ pagesInBlock) : sb.Fits pages :=
  ⟨0, by omega, fun j _ => hb.clear (0 + j)⟩

/-- In an empty bitmap the search takes the first place. -/
theorem Block.Good.find_eq (hb : sb.Good) (h : pages ≤ pagesInBlock) :
    bitmapFindNextZeroAreaAlign sb.bitmap pagesInBlock 0 pages 1 = 0 := by
  have hfirst : findNextZeroBit sb.bitmap pagesInBlock 0 = 0 := by
    rw [hb.bitmap]
    decide +kernel
  have hrun : ¬ findNextBit sb.bitmap (0 + pages) 0 < 0 + pages := by
    intro hlt
    have hhit := (findNextBit_spec sb.bitmap (0 + pages) 0).hit hlt
    rw [hb.clear] at hhit
    cases hhit
  rw [bitmapFindNextZeroAreaAlign, zeroAreaLoop, hfirst, if_neg (by omega), if_neg (by decide),
    if_neg hrun]

/-- What a range taken from a block leaves: unless it is empty, a counter that says too
much. -/
structure Taken (pages : Nat) (r : Record) (sb : Block) : Prop where
  record : r.pages = pages
  good : pages = 0 → sb.Good
  spoilt : pages ≠ 0 → sb.freePages ≠ sb.clearPages

/-- A range is taken when there is memory for the record. -/
theorem Block.Good.alloc (hb : sb.Good) (h : pages ≤ pagesInBlock) (tagging ok : Bool) :
    (ok = false ∧ allocInBlock tagging sb pages ok = none) ∨
      ok = true ∧ ∃ r sb' addr, allocInBlock tagging sb pages ok = some (r, sb', addr) ∧
        Taken pages r sb' := by
  have hroom : ¬ pagesInBlock ≤ 0 := by decide
  simp only [allocInBlock, hb.find_eq h, if_neg hroom]
  cases ok with
  | false => exact Or.inl ⟨rfl, rfl⟩
  | true =>
    refine Or.inr ⟨rfl, _, _, _, rfl, rfl, ?_, fun hpos => ?_⟩
    · rintro rfl
      rw [bitmapSet, bitmapApply_zero]
      exact hb
    · -- the first page of the range was clear
      have hbit : ∀ j, testBit j (bitmapSet sb.bitmap 0 pages)
          = (testBit j sb.bitmap || decide (0 ≤ j ∧ j < 0 + pages)) :=
        testBit_bitmapSet (by rw [hb.bitmap, Nat.zero_add]; exact h)
      refine Nat.ne_of_gt ?_
      calc Nat.count (fun j => testBit j (bitmapSet sb.bitmap 0 pages) = false) pagesInBlock
          < sb.clearPages := ?_
        _ = sb.freePages := hb.clearPages_eq.trans hb.free.symm
      refine count_lt_of_drop (i := 0) (fun j _ => hb.clear j) (by decide) (hb.clear 0) ?_
      rw [hbit]
      simp [Nat.pos_of_ne_zero hpos]

/-- Nothing changes when a record of no pages goes back. -/
theorem freeInBlock_good {r : Record} (hb : sb.Good) (hr : r.pages = 0) :
    freeInBlock sb r = sb := by
  have hfree : u16 (sb.freePages + 0) = sb.freePages := by
    rw [hb.free]
    rfl
  rw [freeInBlock, hr, bitmapClear, bitmapApply_zero, hfree]

/-! ## Calls -/

/-- No page is in use. -/
structure Sys.Good (s : Sys) : Prop where
  blocks : ∀ sb ∈ s.blocks, sb.Good
  head : ∀ r ∈ s.head, r.pages = 0

theorem Sys.Good.accounted (h : s.Good) : Accounted s := by
  intro sb hsb
  have hb := h.blocks sb hsb
  refine ⟨hb.free.trans hb.clearPages_eq.symm, ?_⟩
  rintro pages hlt ⟨start, hend, -⟩
  rw [hb.free] at hlt
  omega

/-- The block `alloc_shmem_block` makes. -/
theorem allocShmemBlock_good {pool : PoolState}
    (h : allocShmemBlock tagging s env = some (pool, some sb)) : sb.Good := by
  unfold allocShmemBlock at h
  split at h
  · split at h
    · cases h
    · split at h
      · split at h
        · cases h
          exact ⟨rfl, rfl⟩
        · cases h
      · cases h
  · cases h

/-- There is a new block for memory, a block of the pool and a mapping. -/
theorem allocShmemBlock_some_iff :
    (∃ pool sb, allocShmemBlock tagging s env = some (pool, some sb)) ↔
      env.sbOk = true ∧ env.mbOk = true ∧ env.mapOk = true ∧
        ∃ x, takeIn s.pool.pool.sections = some x ∧ mapAsserts tagging (bfn2phy x.2) := by
  unfold allocShmemBlock vmmAllocMemblock
  cases takeIn s.pool.pool.sections <;> cases env.sbOk <;> cases env.mbOk <;> cases env.mapOk <;>
    simp

theorem allocLoop_none {l : List Block} {ok : Nat → Bool} {i : Nat} (hl : ∀ sb ∈ l, sb.Good)
    (hp : pages ≤ pagesInBlock) (h : allocLoop tagging pages ok i l = none) :
    ∀ k, k < l.length → ok (i + k) = false := by
  induction l generalizing i with
  | nil => exact fun k hk => absurd hk (Nat.not_lt_zero k)
  | cons sb rest ih =>
    have hb := hl sb List.mem_cons_self
    rw [allocLoop, if_pos (hb.free ▸ hp)] at h
    rcases hb.alloc hp tagging (ok i) with ⟨hok, hnone⟩ | ⟨-, r, sb', addr, hsome, -⟩
    · rw [hnone] at h
      have hrest := ih (fun b hb => hl b (List.mem_cons_of_mem _ hb)) (Option.map_eq_none_iff.mp h)
      rintro (_ | k) hk
      · exact hok
      · rw [← Nat.add_assoc, Nat.add_right_comm]
        exact hrest k (Nat.lt_of_succ_lt_succ hk)
    · rw [hsome] at h
      cases h

/-- A range was taken from one block. -/
theorem Sys.Good.taken {r : Record} (hs : s.Good) (ht : Taken pages r sb')
    (hblocks : ∀ b ∈ s'.blocks, b.Good ∨ b = sb') (hmem : sb' ∈ s'.blocks)
    (hhead : s'.head = r :: s.head) :
    (pages = 0 → s'.Good) ∧ (pages ≠ 0 → ¬ Accounted s') := by
  refine ⟨fun hzero => ⟨fun b hb => ?_, fun r' hr' => ?_⟩,
    fun hpos hacc => ht.spoilt hpos (hacc sb' hmem).1⟩
  · rcases hblocks b hb with hgood | rfl
    · exact hgood
    · exact ht.good hzero
  · rw [hhead] at hr'
    rcases List.mem_cons.mp hr' with rfl | hr'
    · exact ht.record.trans hzero
    · exact hs.head r' hr'

/-- Pages that can be had are handed out, and then a counter is wrong; else the call changes
nothing but the number of empty blocks. -/
theorem Sys.Good.allocShmem_cases (hs : s.Good) (hp : pages ≤ pagesInBlock) (tagging : Bool)
    (env : Env) :
    (Available tagging s pages env ∧ ∃ s' o, allocShmem tagging s pages env = some (s', o) ∧
      (pages = 0 → s'.Good) ∧ (pages ≠ 0 → ¬ Accounted s')) ∨
    (¬ Available tagging s pages env ∧
      ∀ s' o, allocShmem tagging s pages env = some (s', o) → s'.Good) := by
  rw [allocShmem, if_neg (Nat.not_lt_of_le hp)]
  cases hloop : allocLoop tagging pages env.shmemOk 0 s.blocks with
  | some x =>
    obtain ⟨r, l', addr⟩ := x
    obtain ⟨k, sb, sb', hk, ha, rfl⟩ := allocLoop_eq hloop
    have hb := hs.blocks sb (List.mem_of_getElem? hk)
    rcases hb.alloc hp tagging (env.shmemOk (0 + k)) with
      ⟨-, hnone⟩ | ⟨hok, r, sb', addr, hsome, ht⟩
    · rw [ha] at hnone
      cases hnone
    · rw [ha] at hsome
      cases hsome
      rw [Nat.zero_add] at hok
      refine Or.inl ⟨Or.inl ⟨k, sb, hk, hb.fits hp, hok⟩, _, _, rfl, hs.taken ht ?_ ?_ rfl⟩
      · intro b hb
        exact (List.mem_or_eq_of_mem_set hb).imp_left (hs.blocks b)
      · exact List.mem_set (List.getElem?_eq_some_iff.mp hk).1 sb'
  | none =>
    have hnone := allocLoop_none hs.blocks hp hloop
    have hold : ¬ ∃ (i : Nat) (sb : Block), s.blocks[i]? = some sb ∧ sb.Fits pages ∧
        env.shmemOk i = true := by
      rintro ⟨i, sb, hi, -, hok⟩
      have hno := hnone i (List.getElem?_eq_some_iff.mp hi).1
      rw [Nat.zero_add, hok] at hno
      cases hno
    rw [Available, or_iff_right hold]
    by_cases hfull : maxShmemId ≤ s.blocks.length
    · refine Or.inr ⟨fun hav => absurd hav.1 (Nat.not_lt_of_le hfull), fun s' o h => ?_⟩
      simp only [if_pos hfull] at h
      cases h
      exact hs
    · simp only [if_neg hfull]
      by_cases hnew : ∃ pool sb, allocShmemBlock tagging s env = some (pool, some sb)
      swap
      · refine Or.inr ⟨fun hav => hnew (allocShmemBlock_some_iff.mpr
          ⟨hav.2.1, hav.2.2.1, hav.2.2.2.1, hav.2.2.2.2.2⟩), fun s' o h => ?_⟩
        split at h
        · cases h
        · cases h
          exact ⟨hs.blocks, hs.head⟩
        · exact absurd ⟨_, _, ‹_›⟩ hnew
      · obtain ⟨pool, sb, hblock⟩ := hnew
        obtain ⟨hsb, hmb, hmap, htake⟩ := allocShmemBlock_some_iff.mp ⟨pool, sb, hblock⟩
        have hb := allocShmemBlock_good hblock
        simp only [hblock]
        rcases hb.alloc hp tagging (env.shmemOk s.blocks.length) with
          ⟨hok, hin⟩ | ⟨hok, r, sb', addr, hin, ht⟩
        · refine Or.inr ⟨fun hav => ?_, fun s' o h => ?_⟩
          · rw [hok] at hav
            cases hav.2.2.2.2.1
          · simp only [hin] at h
            cases h
            exact ⟨List.forall_mem_append.2 ⟨hs.blocks, List.forall_mem_singleton.2 hb⟩, hs.head⟩
        · simp only [hin]
          refine Or.inl ⟨⟨Nat.lt_of_not_le hfull, hsb, hmb, hmap, hok, htake⟩, _, _, rfl,
            hs.taken ht (List.forall_mem_append.2 ⟨fun b hb' => Or.inl (hs.blocks b hb'), ?_⟩)
              (by simp) rfl⟩
          exact List.forall_mem_singleton.2 (Or.inr rfl)

/-- A call in vain keeps the counters right, one that is not spoils that of a block. -/
theorem Sys.Good.alloc (hs : s.Good) (tagging : Bool) (pages : Nat) (env : Env) :
    (AsksInVain tagging s (.alloc pages env) ∧
      ∀ s', step tagging s (.alloc pages env) = some s' → s'.Good) ∨
    (¬ AsksInVain tagging s (.alloc pages env) ∧
      ∃ s', step tagging s (.alloc pages env) = some s' ∧ ¬ Accounted s') := by
  by_cases hp : pages ≤ pagesInBlock
  swap
  · refine Or.inl ⟨fun _ hle => absurd hle hp, fun s' h => ?_⟩
    rw [step, allocShmem, if_pos (Nat.lt_of_not_le hp)] at h
    cases h
    exact ⟨hs.blocks, hs.head⟩
  rcases hs.allocShmem_cases hp tagging env with ⟨hav, s₁, o, halloc, hgood, hspoil⟩ | ⟨hno, hgood⟩
  · by_cases hzero : pages = 0
    · refine Or.inl ⟨fun hpos => absurd hzero hpos, fun s' h => ?_⟩
      rw [step, halloc] at h
      cases h
      exact ⟨(hgood hzero).blocks, (hgood hzero).head⟩
    · refine Or.inr ⟨fun h => h hzero hp hav, _, by rw [step, halloc, Option.map_some], ?_⟩
      exact hspoil hzero
  · refine Or.inl ⟨fun _ _ => hno, fun s' h => ?_⟩
    obtain ⟨⟨s₁, o⟩, halloc, rfl⟩ := Option.map_eq_some_iff.mp h
    have hs₁ := hgood s₁ o halloc
    exact ⟨hs₁.blocks, hs₁.head⟩

theorem Sys.Good.free (hs : s.Good) (h : step tagging s (.free addr) = some s') : s'.Good := by
  obtain ⟨s₁, hfree, rfl⟩ := Option.map_eq_some_iff.mp h
  simp only [freeShmem] at hfree
  split_ifs at hfree
  split at hfree
  · cases hfree
    exact ⟨hs.blocks, hs.head⟩
  · rename_i r hfind
    split_ifs at hfree
    split at hfree
    · cases hfree
    · rename_i sb hsb
      cases hfree
      have hmem : sb ∈ s.blocks := List.mem_of_getElem? hsb
      rw [freeInBlock_good (hs.blocks sb hmem) (hs.head r (List.mem_of_find?_eq_some hfind))]
      constructor
      · intro b hb
        rcases List.mem_or_eq_of_mem_set hb with hb | rfl
        · exact hs.blocks b hb
        · exact hs.blocks _ hmem
      · exact fun r' hr' => hs.head r' (List.mem_of_mem_eraseP hr')

theorem Sys.Good.pool {c : PoolCall} (hs : s.Good) (h : step tagging s (.pool c) = some s') :
    s'.Good := by
  simp only [step] at h
  split_ifs at h
  obtain ⟨pool, -, rfl⟩ := Option.map_eq_some_iff.mp h
  exact ⟨hs.blocks, hs.head⟩

theorem Sys.Good.step {e : Event} (hs : s.Good) (hvain : AsksInVain tagging s e)
    (h : step tagging s e = some s') : s'.Good := by
  cases e with
  | alloc pages env =>
    rcases hs.alloc tagging pages env with ⟨-, hgood⟩ | ⟨hno, -⟩
    · exact hgood s' h
    · exact absurd hvain hno
  | free addr => exact hs.free h
  | pool c => exact hs.pool h

/-- The counters stay right in a call exactly when it asks in vain. -/
theorem Sys.Good.step_iff (hs : s.Good) (e : Event) :
    (∀ s', Shmem.step tagging s e = some s' → Accounted s') ↔ AsksInVain tagging s e := by
  refine ⟨fun h => ?_, fun hvain s' h => (hs.step hvain h).accounted⟩
  cases e with
  | alloc pages env =>
    rcases hs.alloc tagging pages env with ⟨hvain, -⟩ | ⟨-, s', hstep, hno⟩
    · exact hvain
    · exact absurd (h s' hstep) hno
  | free | pool => trivial

/-- **Accounting**: from every pool, the counters are right after every call of a run
exactly when every call asks for no page, for more than a block has, or for pages that are
not to be had. -/
theorem shmem_accounted_iff (tagging : Bool) (pool : PoolState) (l : List Event) :
    (∀ pre, pre <+: l → ∀ s, run (step tagging) (init pool) pre = some s → Accounted s) ↔
      Along (step tagging) (AsksInVain tagging) (init pool) l := by
  have hinit : (init pool).Good := ⟨nofun, nofun⟩
  rw [forall_prefix_iff_along, and_iff_right hinit.accounted]
  exact along_congr (fun s e s' hs hvain hstep => hs.step hvain hstep)
    (fun s e hs => hs.step_iff e) hinit l

/-- One page is taken: 511 are left, and the counter says 512. -/
theorem shmem_not_accounted :
    ∃ s, run (step false) (init (poolInit [(0x40000000, 0x40400000)])) [.alloc 1 .ready]
        = some s ∧ s.blocks.map (fun sb => (sb.freePages, sb.clearPages)) = [(512, 511)] ∧
      ¬ Accounted s := by
  refine exists_found_more (fun s _ hcounts h => ?_) (by decide +kernel)
  have hmem : (512, 511) ∈ s.blocks.map (fun sb => (sb.freePages, sb.clearPages)) := by
    rw [hcounts]
    exact List.mem_singleton.mpr rfl
  obtain ⟨sb, hsb, heq⟩ := List.mem_map.mp hmem
  have hfree := (h sb hsb).1
  rw [Prod.mk.injEq] at heq
  omega

end Minos.Shmem
