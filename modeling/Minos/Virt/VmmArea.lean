import Minos.Lib.Cover
import Minos.Lib.Run
import Minos.Lib.Word
import Mathlib.Data.List.Nodup
import Mathlib.Data.List.Perm.Basic

/-!
# Areas of the guest address space

The lists `vmm_area_free` and `vmm_area_used` of `virt/vmm.c`. A VM starts
with one free area over its whole IPA space. Requests cut an area out of a
free one, leaving up to two free pieces whose entries must be allocated;
releases put it back and join it with free neighbours.

An entry is a value with the identity `id` of its allocation, so that two
entries of equal bounds are still two. Every allocation of an entry may
fail: `mem n` says whether the `n`-th one gets its memory.
-/

namespace Minos.Vmm

open Minos.Lib

def pageSize : Nat := 4096
def pageMask : Nat := 0xfff
def blockMask : Nat := 0x1fffff
def vmNormal : Nat := 0x2
def badAddress : Nat := 2 ^ 64 - 1

/-- `struct vmm_area`, without the list of memory blocks. -/
structure VmmArea where
  id : Nat
  start : Nat
  stop : Nat
  pstart : Nat
  flags : Nat
  vmid : Nat
  deriving DecidableEq, Repr

/-- `struct mm_struct`, and the number of entries allocated so far. -/
structure MmStruct where
  free : List VmmArea
  used : List VmmArea
  nalloc : Nat
  deriving DecidableEq, Repr

/-- `__alloc_vmm_area_entry`. -/
def allocVmmAreaEntry (mem : Nat → Bool) (mm : MmStruct) (base size : Nat) :
    Option VmmArea × MmStruct :=
  let mm' := { mm with nalloc := mm.nalloc + 1 }
  if mem mm.nalloc then
    (some { id := mm.nalloc, start := base, stop := u64 (base + size),
            pstart := badAddress, flags := 0, vmid := 0 }, mm')
  else (none, mm')

/-- `list_del` of the entry `id`. -/
def listDel (id : Nat) (l : List VmmArea) : List VmmArea := l.filter (·.id ≠ id)

/-! ## Giving an area back -/

/-- One pass of the loop of `__add_free_vmm_area` over the free list. Either
an entry that touches `va` is taken out and its range added to `va`
(`inl`, after which the loop starts again), or `va` is put into the list. -/
def addFreePass (va : VmmArea) (size : Nat) :
    List VmmArea → (VmmArea × List VmmArea) ⊕ List VmmArea
  | [] => .inr [va]
  | tmp :: rest =>
    if va.start = tmp.stop then .inl ({ va with start := tmp.start }, rest)
    else if va.stop = tmp.start then .inl ({ va with stop := tmp.stop }, rest)
    else if size ≤ tmp.stop - tmp.start then .inr (va :: tmp :: rest)
    else
      match addFreePass va size rest with
      | .inl (va', l) => .inl (va', tmp :: l)
      | .inr l => .inr (tmp :: l)

/-- The passes: each `goto repeat` leaves one entry less in the list. -/
def addFreeLoop (size : Nat) : Nat → VmmArea → List VmmArea → List VmmArea
  | 0, va, free => free ++ [va]
  | fuel + 1, va, free =>
    match addFreePass va size free with
    | .inl (va', l) => addFreeLoop size fuel va' l
    | .inr l => l

/-- `__add_free_vmm_area`: `size` is that of the area before any merge. -/
def addFreeVmmArea (mm : MmStruct) (area : VmmArea) : MmStruct :=
  let va := { area with flags := 0, vmid := 0, pstart := 0 }
  { mm with
    free := addFreeLoop (va.stop - va.start) mm.free.length va mm.free }

/-- `release_vmm_area` of the used area `va`. What `release_vmm_area_memory`
does to the memory behind the area does not touch the lists. -/
def releaseVmmArea (mm : MmStruct) (va : VmmArea) : MmStruct :=
  addFreeVmmArea { mm with used := listDel va.id mm.used } va

/-! ## Cutting an area out -/

/-- The label `out` of `__split_vmm_area`. -/
def takeVmmArea (mm : MmStruct) (vma : VmmArea) (base stop flags : Nat) :
    VmmArea × MmStruct :=
  let vma' := { vma with start := base, stop := stop, flags := flags }
  (vma', { mm with
    free := listDel vma.id mm.free
    used := mm.used ++ [vma'] })

/-- The entry for the piece `[base, base + size)` that is left over, put at
the head of the free list; no entry is needed when nothing is left. -/
def allocPiece (mem : Nat → Bool) (mm : MmStruct) (base size : Nat) :
    Option (List VmmArea) × MmStruct :=
  if size = 0 then (some [], mm)
  else
    match allocVmmAreaEntry mem mm base size with
    | (none, mm) => (none, mm)
    | (some a, mm) => (some [a], { mm with free := a :: mm.free })

/-- `__split_vmm_area`. -/
def splitArea (mem : Nat → Bool) (mm : MmStruct) (vma : VmmArea)
    (base stop flags : Nat) : Option VmmArea × MmStruct :=
  match allocPiece mem mm vma.start (base - vma.start) with
  | (none, mm) => (none, mm)
  | (some left, mm) =>
    match allocPiece mem mm stop (vma.stop - stop) with
    | (none, mm) =>
      -- `out_err_right`: the entry for the left piece is taken back
      (none, { mm with free := left.foldl (fun l a => listDel a.id l) mm.free })
    | (some _, mm) =>
      let r := takeVmmArea mm vma base stop flags
      (some r.1, r.2)

/-- `__alloc_free_vmm_area`. -/
def allocInArea (mem : Nat → Bool) (mm : MmStruct) (vma : VmmArea)
    (size mask flags : Nat) : Option VmmArea × MmStruct :=
  let base := u64 (vma.start + mask) - u64 (vma.start + mask) % (mask + 1)
  let stop := u64 (base + size)
  if vma.start ≤ base ∧ stop ≤ vma.stop then splitArea mem mm vma base stop flags
  else (none, mm)

/-- The loop of `alloc_free_vmm_area`: an area in which the attempt fails,
for want of room or of an entry, is passed over. -/
def allocFreeScan (mem : Nat → Bool) (size mask flags : Nat) :
    List VmmArea → MmStruct → Option VmmArea × MmStruct
  | [], mm => (none, mm)
  | va :: rest, mm =>
    if va.stop - va.start < size then allocFreeScan mem size mask flags rest mm
    else
      match allocInArea mem mm va size mask flags with
      | (some new, mm') => (some new, mm')
      | (none, mm') => allocFreeScan mem size mask flags rest mm'

/-- The alignment `alloc_free_vmm_area` uses: any mask but `BLOCK_MASK`
stands for a page. -/
def areaMask (mask : Nat) : Nat := if mask = blockMask then blockMask else pageMask

/-- `BALIGN(size, PAGE_SIZE)`. -/
def pageBalign (size : Nat) : Nat :=
  u64 (size + (pageSize - 1)) - u64 (size + (pageSize - 1)) % pageSize

/-- `alloc_free_vmm_area`. -/
def allocFreeVmmArea (mem : Nat → Bool) (mm : MmStruct) (size mask flags : Nat) :
    Option VmmArea × MmStruct :=
  allocFreeScan mem (pageBalign size) (areaMask mask) flags mm.free mm

/-- `split_vmm_area`. -/
def splitVmmArea (mem : Nat → Bool) (mm : MmStruct) (base size flags : Nat) :
    Option VmmArea × MmStruct :=
  let stop := u64 (base + size)
  if flags &&& vmNormal ≠ 0 ∧ (base % pageSize ≠ 0 ∨ size % pageSize ≠ 0) then (none, mm)
  else
    match mm.free.find? fun va => va.start ≤ base ∧ stop ≤ va.stop with
    | none => (none, mm)
    | some va => splitArea mem mm va base stop flags

/-- `request_vmm_area`: the area it returns is the one on the list, with
`pstart` set. -/
def requestVmmArea (mem : Nat → Bool) (mm : MmStruct) (base pbase size flags : Nat) :
    Option VmmArea × MmStruct :=
  match splitVmmArea mem mm base size flags with
  | (none, mm) => (none, mm)
  | (some va, mm) =>
    (some { va with pstart := pbase },
      { mm with used := mm.used.map fun a =>
          if a.id = va.id then { a with pstart := pbase } else a })

/-- The size of the IPA space `vmm_area_init` sets up. -/
def vmIpaSize (bit64 : Bool) : Nat := if bit64 then 2 ^ 40 else 0x100000000

/-- `vmm_area_init`. -/
def vmmAreaInit (mem : Nat → Bool) (bit64 : Bool) : MmStruct :=
  match allocVmmAreaEntry mem ⟨[], [], 0⟩ 0 (vmIpaSize bit64) with
  | (none, mm) => mm
  | (some va, mm) => { mm with free := mm.free ++ [va] }

/-! ## Histories of calls -/

inductive AreaCall
  | split (base size flags : Nat)
  | request (base pbase size flags : Nat)
  | alloc (size mask flags : Nat)
  | release (id : Nat)
  deriving DecidableEq, Repr

/-- A call with its result. `release_vmm_area` is given an area that is in
use. -/
def areaCall (mem : Nat → Bool) (mm : MmStruct) :
    AreaCall → Option (Option VmmArea × MmStruct)
  | .split base size flags => some (splitVmmArea mem mm base size flags)
  | .request base pbase size flags => some (requestVmmArea mem mm base pbase size flags)
  | .alloc size mask flags => some (allocFreeVmmArea mem mm size mask flags)
  | .release id =>
    (mm.used.find? (·.id = id)).map fun va => (none, releaseVmmArea mm va)

def areaStep (mem : Nat → Bool) (mm : MmStruct) (c : AreaCall) : Option MmStruct :=
  (areaCall mem mm c).map (·.2)

/-! ## Tilings

The invariant is about the entries of both lists together, in any order. -/

def VmmArea.span (a : VmmArea) : Nat × Nat := (a.start, a.stop)

def MmStruct.areas (mm : MmStruct) : List VmmArea := mm.free ++ mm.used

/-- The entries cover every address below `limit` once and no other, and
are allocations of their own, all of them older than `n`. -/
structure Tiled (limit : Nat) (l : List VmmArea) (n : Nat) : Prop where
  le : ∀ a ∈ l, a.start ≤ a.stop ∧ a.stop ≤ limit
  once : ∀ x, cover (l.map VmmArea.span) x = if x < limit then 1 else 0
  nodup : (l.map VmmArea.id).Nodup
  fresh : ∀ a ∈ l, a.id < n

variable {b : Nat}

section Tilings

variable {limit n : Nat} {l l' rest : List VmmArea} {va tmp : VmmArea}

theorem Tiled.perm (h : Tiled limit l n) (hp : l'.Perm l) : Tiled limit l' n where
  le a ha := h.le a (hp.subset ha)
  once x := by
    rw [cover_perm (hp.map _) x]
    exact h.once x
  nodup := (hp.map _).nodup_iff.mpr h.nodup
  fresh a ha := h.fresh a (hp.subset ha)

theorem Tiled.mono (h : Tiled limit l n) {m : Nat} (hm : n ≤ m) : Tiled limit l m :=
  { h with fresh := fun a ha => Nat.lt_of_lt_of_le (h.fresh a ha) hm }

/-- Entries give way to others that cover the same addresses, each of them one of the old ones or
a new allocation. -/
theorem Tiled.replace (old new : List VmmArea) {m : Nat} (h : Tiled limit (old ++ rest) n)
    (hm : n ≤ m) (hle : ∀ a ∈ new, a.start ≤ a.stop ∧ a.stop ≤ limit)
    (honce : ∀ x, cover (new.map VmmArea.span) x = cover (old.map VmmArea.span) x)
    (hnodup : (new.map VmmArea.id).Nodup)
    (hid : ∀ a ∈ new, a.id ∈ old.map VmmArea.id ∨ n ≤ a.id ∧ a.id < m) :
    Tiled limit (new ++ rest) m := by
  obtain ⟨hold, hfresh⟩ := List.forall_mem_append.mp h.fresh
  have hids := h.nodup
  rw [List.map_append, List.nodup_append] at hids
  obtain ⟨-, hrest, hapart⟩ := hids
  refine ⟨List.forall_mem_append.mpr ⟨hle, (List.forall_mem_append.mp h.le).2⟩, fun x => ?_, ?_,
    List.forall_mem_append.mpr ⟨fun a ha => ?_, fun a ha => Nat.lt_of_lt_of_le (hfresh a ha) hm⟩⟩
  · rw [List.map_append, cover_append, honce, ← cover_append, ← List.map_append]
    exact h.once x
  · rw [List.map_append, List.nodup_append]
    refine ⟨hnodup, hrest, ?_⟩
    rintro _ ha _ hb rfl
    obtain ⟨a, hnew, rfl⟩ := List.mem_map.mp ha
    rcases hid a hnew with hmem | ⟨hge, -⟩
    · exact hapart _ hmem _ hb rfl
    · obtain ⟨b, hb, heq⟩ := List.mem_map.mp hb
      have := hfresh b hb
      omega
  · rcases hid a ha with hmem | ⟨-, hlt⟩
    · obtain ⟨b, hb, heq⟩ := List.mem_map.mp hmem
      have := hold b hb
      omega
    · exact hlt

/-- An entry may change in anything but its identity and bounds. -/
theorem Tiled.relabel (h : Tiled limit (va :: rest) n) (va' : VmmArea)
    (hid : va'.id = va.id) (hspan : va'.span = va.span) :
    Tiled limit (va' :: rest) n := by
  have hbounds : va'.start = va.start ∧ va'.stop = va.stop := Prod.mk.inj hspan
  have hle := h.le va List.mem_cons_self
  exact h.replace [va] [va'] (Nat.le_refl n) (List.forall_mem_singleton.mpr (by omega))
    (fun x => by simp [hspan]) (List.nodup_singleton _) (by simp [hid])

/-- An entry is cut at `b`: a new entry takes one of the two parts. -/
theorem Tiled.cut (h : Tiled limit (va :: rest) n) {p q : VmmArea} (h1 : va.start ≤ b)
    (h2 : b ≤ va.stop) (hp : p.span = (va.start, b)) (hq : q.span = (b, va.stop))
    (hid : p.id = n ∧ q.id = va.id ∨ p.id = va.id ∧ q.id = n) :
    Tiled limit (p :: q :: rest) (n + 1) := by
  have hle := h.le va List.mem_cons_self
  have hfresh := h.fresh va List.mem_cons_self
  have hbp : p.start = va.start ∧ p.stop = b := Prod.mk.inj hp
  have hbq : q.start = b ∧ q.stop = va.stop := Prod.mk.inj hq
  refine h.replace [va] [p, q] (Nat.le_succ n) ?_ (fun x => ?_) ?_ ?_
  · exact List.forall_mem_cons.mpr ⟨by omega, List.forall_mem_singleton.mpr (by omega)⟩
  · simp [hp, hq, hits_cut h1 h2 x, show va.span = (va.start, va.stop) from rfl]
  · exact List.nodup_cons.mpr ⟨by simp; omega, List.nodup_singleton _⟩
  · exact List.forall_mem_cons.mpr ⟨by simp; omega, List.forall_mem_singleton.mpr (by simp; omega)⟩

/-- Two entries that touch become one. -/
theorem Tiled.join (h : Tiled limit (va :: tmp :: rest) n) {va' : VmmArea}
    (hid : va'.id = va.id)
    (hspan : (va.start = tmp.stop ∧ va'.span = (tmp.start, va.stop)) ∨
      (va.stop = tmp.start ∧ va'.span = (va.start, tmp.stop))) :
    Tiled limit (va' :: rest) n := by
  obtain ⟨hva, hrest⟩ := List.forall_mem_cons.mp h.le
  have htmp := hrest tmp List.mem_cons_self
  have hbounds : (va'.start ≤ va'.stop ∧ va'.stop ≤ limit) ∧
      ∀ x, hits x va'.span = hits x va.span + hits x tmp.span := by
    rcases hspan with ⟨heq, hspan⟩ | ⟨heq, hspan⟩
    · have hb : va'.start = tmp.start ∧ va'.stop = va.stop := Prod.mk.inj hspan
      refine ⟨by omega, fun x => ?_⟩
      have hcut := hits_cut (show tmp.start ≤ va.start by omega) hva.1 x
      simp only [VmmArea.span, ← heq, hb.1, hb.2]
      omega
    · have hb : va'.start = va.start ∧ va'.stop = tmp.stop := Prod.mk.inj hspan
      refine ⟨by omega, fun x => ?_⟩
      have hcut := hits_cut hva.1 (show va.stop ≤ tmp.stop by omega) x
      simp only [VmmArea.span, ← heq, hb.1, hb.2]
      omega
  exact h.replace [va, tmp] [va'] (Nat.le_refl n) (List.forall_mem_singleton.mpr hbounds.1)
    (fun x => by simp [hbounds.2 x]) (List.nodup_singleton _) (by simp [hid])

/-- Taking an entry out of a list of entries with keys of their own. -/
theorem perm_cons_filter {α : Type*} {key : α → Nat} {l : List α} {a : α}
    (hnodup : (l.map key).Nodup) (ha : a ∈ l) : l.Perm (a :: l.filter (key · ≠ key a)) := by
  induction l with
  | nil => cases ha
  | cons b l ih =>
    rw [List.map_cons] at hnodup
    obtain ⟨hb, hl⟩ := List.nodup_cons.mp hnodup
    rcases List.mem_cons.mp ha with rfl | ha
    · have hsame : l.filter (key · ≠ key a) = l := by
        refine List.filter_eq_self.mpr fun c hc => ?_
        simp only [decide_eq_true_eq]
        rintro heq
        exact hb (heq ▸ List.mem_map_of_mem hc)
      rw [List.filter_cons_of_neg (by simp), hsame]
    · have hne : key b ≠ key a := fun heq => hb (heq ▸ List.mem_map_of_mem ha)
      rw [List.filter_cons_of_pos (by simpa using hne)]
      exact ((ih hl ha).cons b).trans (List.Perm.swap _ _ _)

theorem perm_cons_listDel (hnodup : (l.map VmmArea.id).Nodup) (ha : va ∈ l) :
    l.Perm (va :: listDel va.id l) := perm_cons_filter hnodup ha

theorem listDel_fresh {k : Nat} (h : ∀ a ∈ l, a.id ≠ k) : listDel k l = l :=
  List.filter_eq_self.mpr fun a ha => by simpa using h a ha

end Tilings

/-! ## What the operations do to a tiling -/

/-- Both lists together tile the space. -/
def AreaInv (limit : Nat) (mm : MmStruct) : Prop := Tiled limit mm.areas mm.nalloc

/-- What an attempt to cut out `[base, stop)` may do: nothing to the lists,
or move an entry of exactly these bounds to the used list. -/
structure CutOut (limit : Nat) (mm : MmStruct) (base stop : Nat)
    (r : Option VmmArea × MmStruct) : Prop where
  inv : AreaInv limit r.2
  fail : r.1 = none → r.2.free = mm.free ∧ r.2.used = mm.used
  ok : ∀ va, r.1 = some va → va.start = base ∧ va.stop = stop ∧ va ∈ r.2.used

variable {n : Nat} {ps : List VmmArea} {vma : VmmArea}
variable {size : Nat}
variable {base stop : Nat}
variable {flags : Nat} {va : VmmArea}
variable {mask : Nat}

section Operations

variable {mem : Nat → Bool} {limit : Nat} {mm : MmStruct}

/-- What is left over of an area, `size` bytes from `b` on: no entry if it is empty, and else one
with the number `n`. -/
def LeftOver (n b size : Nat) (ps : List VmmArea) : Prop :=
  ps = [] ∧ size = 0 ∨ ∃ a, ps = [a] ∧ 0 < size ∧ a.id = n ∧ a.span = (b, u64 (b + size))

/-- What `allocPiece` adds to the lists. -/
theorem allocPiece_spec (mem : Nat → Bool) (mm : MmStruct) (base size : Nat) :
    allocPiece mem mm base size = (none, { mm with nalloc := mm.nalloc + 1 }) ∨
      ∃ ps, allocPiece mem mm base size
          = (some ps, ⟨ps ++ mm.free, mm.used, mm.nalloc + ps.length⟩) ∧
        LeftOver mm.nalloc base size ps := by
  unfold allocPiece allocVmmAreaEntry
  by_cases hsize : size = 0
  · rw [if_pos hsize]
    exact Or.inr ⟨[], rfl, Or.inl ⟨rfl, hsize⟩⟩
  · rw [if_neg hsize]
    by_cases hmem : mem mm.nalloc = true
    · simp only [if_pos hmem]
      exact Or.inr ⟨_, rfl, Or.inr ⟨_, rfl, Nat.pos_of_ne_zero hsize, rfl, rfl⟩⟩
    · simp only [if_neg hmem]
      exact Or.inl trivial

theorem Tiled.pieceLeft {rest : List VmmArea}
    (h : Tiled limit (vma :: rest) n) (hlimit : limit < 2 ^ 64) (h1 : vma.start ≤ b)
    (h2 : b ≤ vma.stop)
    (hps : LeftOver n vma.start (b - vma.start) ps) :
    Tiled limit (ps ++ { vma with start := b } :: rest) (n + ps.length) := by
  have hstop := (h.le vma List.mem_cons_self).2
  rcases hps with ⟨rfl, hzero⟩ | ⟨a, rfl, -, hid, hspan⟩
  · have hb : b = vma.start := by omega
    exact h.relabel _ rfl (by rw [hb])
  · rw [u64_of_lt (by omega), Nat.add_sub_cancel' h1] at hspan
    exact h.cut h1 h2 hspan rfl (Or.inl ⟨hid, rfl⟩)

theorem Tiled.pieceRight {e : Nat} {rest : List VmmArea}
    (h : Tiled limit (vma :: rest) n) (hlimit : limit < 2 ^ 64) (h1 : vma.start ≤ e)
    (h2 : e ≤ vma.stop)
    (hps : LeftOver n e (vma.stop - e) ps) :
    Tiled limit (ps ++ { vma with stop := e } :: rest) (n + ps.length) := by
  have hstop := (h.le vma List.mem_cons_self).2
  rcases hps with ⟨rfl, hzero⟩ | ⟨a, rfl, -, hid, hspan⟩
  · have he : e = vma.stop := by omega
    exact h.relabel _ rfl (by rw [he])
  · rw [u64_of_lt (by omega), Nat.add_sub_cancel' h2] at hspan
    exact (h.cut (p := { vma with stop := e }) h1 h2 rfl hspan (Or.inr ⟨rfl, hid⟩)).perm
      (List.Perm.swap _ _ _)

theorem LeftOver.id (h : LeftOver n b size ps) :
    ∀ a ∈ ps, a.id = n := by
  rcases h with ⟨rfl, -⟩ | ⟨a, rfl, -, hid, -⟩
  · simp
  · simpa using hid

/-- What `__split_vmm_area` does: nothing to the lists, if an entry cannot be allocated, or it
puts the pieces in the place of `vma`, which is handed out. -/
theorem splitArea_cases (mem : Nat → Bool) (vma : VmmArea) (base stop flags : Nat)
    (hold : ∀ a ∈ mm.free, a.id < mm.nalloc) (hvma : vma ∈ mm.free) :
    (∃ n, mm.nalloc ≤ n ∧ splitArea mem mm vma base stop flags = (none, ⟨mm.free, mm.used, n⟩)) ∨
      ∃ left right, LeftOver mm.nalloc vma.start (base - vma.start) left ∧
        LeftOver (mm.nalloc + left.length) stop (vma.stop - stop) right ∧
        splitArea mem mm vma base stop flags =
          (some { vma with start := base, stop := stop, flags := flags },
            ⟨right ++ (left ++ listDel vma.id mm.free),
              mm.used ++ [{ vma with start := base, stop := stop, flags := flags }],
              mm.nalloc + left.length + right.length⟩) := by
  unfold splitArea
  rcases allocPiece_spec mem mm vma.start (base - vma.start) with
    hnone | ⟨left, hleft, hps⟩
  · -- no entry for the left piece
    rw [hnone]
    exact Or.inl ⟨_, Nat.le_succ _, rfl⟩
  rw [hleft]
  dsimp only
  have hleftId := hps.id
  rcases allocPiece_spec mem ⟨left ++ mm.free, mm.used, mm.nalloc + left.length⟩ stop
    (vma.stop - stop) with hnone | ⟨right, hright, hps'⟩
  · -- no entry for the right piece: the left one is taken back
    rw [hnone]
    have hback : left.foldl (fun l a => listDel a.id l) (left ++ mm.free) = mm.free := by
      rcases hps with ⟨rfl, -⟩ | ⟨a, rfl, -, hid, -⟩
      · rfl
      · have hdel : listDel a.id mm.free = mm.free :=
          listDel_fresh fun b hb => by have := hold b hb; omega
        rw [List.foldl_cons, List.foldl_nil, listDel, List.filter_append]
        simp only [listDel] at hdel
        simp only [hdel]
        simp
    refine Or.inl ⟨mm.nalloc + left.length + 1, by omega, ?_⟩
    dsimp only
    rw [hback]
  · rw [hright]
    have hrightId := hps'.id
    have hne : ∀ a ∈ right ++ left, a.id ≠ vma.id := by
      intro a ha
      have hlt := hold vma hvma
      rcases List.mem_append.mp ha with ha | ha
      · have := hrightId a ha
        simp only at this
        omega
      · have := hleftId a ha
        omega
    have hdel : listDel vma.id (right ++ (left ++ mm.free))
        = right ++ (left ++ listDel vma.id mm.free) := by
      have := listDel_fresh hne
      rw [listDel, List.filter_append] at this
      rw [← List.append_assoc, ← List.append_assoc]
      rw [listDel, List.filter_append, List.filter_append, this, listDel]
    refine Or.inr ⟨left, right, hps, hps', ?_⟩
    simp only [takeVmmArea, hdel]

theorem AreaInv.old (h : AreaInv limit mm) : ∀ a ∈ mm.free, a.id < mm.nalloc :=
  fun a ha => h.fresh a (List.mem_append_left _ ha)

/-- A free entry, and the rest of the entries. -/
theorem AreaInv.tiled_cons (h : AreaInv limit mm) (hvma : vma ∈ mm.free) :
    Tiled limit (vma :: (listDel vma.id mm.free ++ mm.used)) mm.nalloc := by
  have hnodup : (mm.free.map VmmArea.id).Nodup := by
    have := h.nodup
    rw [MmStruct.areas, List.map_append] at this
    exact (List.nodup_append.mp this).1
  exact h.perm ((perm_cons_listDel hnodup hvma).append_right _).symm

theorem splitArea_spec (mem : Nat → Bool) (flags : Nat)
    (h : AreaInv limit mm) (hlimit : limit < 2 ^ 64) (hvma : vma ∈ mm.free)
    (h1 : vma.start ≤ base) (h2 : base ≤ stop) (h3 : stop ≤ vma.stop) :
    CutOut limit mm base stop (splitArea mem mm vma base stop flags) := by
  rcases splitArea_cases mem vma base stop flags h.old hvma with
    ⟨n, hn, hnone⟩ | ⟨left, right, hleft, hright, hsome⟩
  · rw [hnone]
    exact ⟨h.mono hn, fun _ => ⟨rfl, rfl⟩, by simp⟩
  · rw [hsome]
    refine ⟨?_, by simp, ?_⟩
    · -- the right piece is cut from what the left one left over
      have hsecond := (h.tiled_cons hvma).pieceLeft hlimit h1 (by omega) hleft
      have hthird := (hsecond.perm (List.perm_middle).symm).pieceRight hlimit h2 h3 hright
      have hfinal := (hthird.perm (List.perm_middle).symm).relabel
        { vma with start := base, stop := stop, flags := flags } rfl rfl
      refine hfinal.perm ?_
      simp only [MmStruct.areas]
      rw [List.perm_iff_count]
      intro a
      simp only [List.count_append, List.count_cons, List.count_nil]
      omega
    · intro va hva
      cases hva
      exact ⟨rfl, rfl, List.mem_append_right _ List.mem_cons_self⟩

theorem allocPiece_cases (mem : Nat → Bool) (mm : MmStruct) (base size : Nat) :
    ((allocPiece mem mm base size).1.isSome ↔ (0 < size → mem mm.nalloc)) ∧
      ((allocPiece mem mm base size).1.isSome →
        (allocPiece mem mm base size).2.nalloc = mm.nalloc + if 0 < size then 1 else 0) := by
  unfold allocPiece allocVmmAreaEntry
  by_cases hsize : size = 0
  · simp [hsize]
  · have hpos : 0 < size := Nat.pos_of_ne_zero hsize
    cases mem mm.nalloc <;> simp [hsize, hpos]

/-- An area is cut as soon as there is memory for the entries of what is left of it. -/
theorem splitArea_isSome {addr : Nat} :
    (splitArea mem mm va addr stop flags).1.isSome ↔
      (va.start < addr → mem mm.nalloc) ∧
      (stop < va.stop → mem (mm.nalloc + if va.start < addr then 1 else 0)) := by
  obtain ⟨hleft, hn⟩ := allocPiece_cases mem mm va.start (addr - va.start)
  simp only [Nat.sub_pos_iff_lt] at hleft hn
  unfold splitArea
  rcases hl : allocPiece mem mm va.start (addr - va.start) with ⟨_ | left, mm1⟩
  · rw [hl] at hleft
    simp only [Option.isSome_none, Bool.false_eq_true, false_iff] at hleft ⊢
    exact fun h => hleft h.1
  · rw [hl] at hleft hn
    simp only [Option.isSome_some, true_iff, forall_const] at hleft hn
    have hright := (allocPiece_cases mem mm1 stop (va.stop - stop)).1
    rw [Nat.sub_pos_iff_lt, hn] at hright
    rw [and_iff_right hleft, ← hright]
    rcases hr : allocPiece mem mm1 stop (va.stop - stop) with ⟨_ | right, mm2⟩ <;> simp [hr]

theorem CutOut.none (h : AreaInv limit mm) (base stop : Nat) :
    CutOut limit mm base stop (none, mm) :=
  ⟨h, fun _ => ⟨rfl, rfl⟩, by simp⟩

theorem splitVmmArea_spec (mem : Nat → Bool) (flags : Nat) (h : AreaInv limit mm)
    (hlimit : limit < 2 ^ 64) (hwrap : base + size < 2 ^ 64) :
    CutOut limit mm base (base + size) (splitVmmArea mem mm base size flags) := by
  unfold splitVmmArea
  simp only [u64_of_lt hwrap]
  split
  · exact CutOut.none h _ _
  · split
    · exact CutOut.none h _ _
    · rename_i va hfind
      have hva := List.find?_some hfind
      simp only [decide_eq_true_eq] at hva
      exact splitArea_spec mem flags h hlimit (List.mem_of_find?_eq_some hfind) hva.1 (by omega)
        hva.2

/-- An area that was cut out has the bounds and the flags asked for, and is the last of the
used list. -/
theorem splitArea_used (h : (splitArea mem mm vma base stop flags).1 = some va) :
    (splitArea mem mm vma base stop flags).2.used = mm.used ++ [va] ∧ va.span = (base, stop) ∧
      va.flags = flags := by
  unfold splitArea at h ⊢
  rcases allocPiece_spec mem mm vma.start (base - vma.start) with hl | ⟨ps, hl, -⟩
  · rw [hl] at h
    cases h
  · rw [hl] at h ⊢
    dsimp only at h ⊢
    rcases allocPiece_spec mem ⟨ps ++ mm.free, mm.used, mm.nalloc + ps.length⟩ stop
      (vma.stop - stop) with hr | ⟨ps', hr, -⟩
    · rw [hr] at h
      cases h
    · rw [hr] at h ⊢
      cases h
      exact ⟨rfl, rfl, rfl⟩

theorem splitVmmArea_used (h : (splitVmmArea mem mm base size flags).1 = some va) :
    (splitVmmArea mem mm base size flags).2.used = mm.used ++ [va] ∧
      va.span = (base, u64 (base + size)) ∧ va.flags = flags := by
  unfold splitVmmArea at h ⊢
  dsimp only at h ⊢
  split at h
  · cases h
  · split at h
    · cases h
    · rw [if_neg ‹_›]
      exact splitArea_used h

/-- Entries of the used list change what is neither their identity nor their range. -/
theorem AreaInv.relabelUsed {f : VmmArea → VmmArea}
    (hsame : ∀ a, (f a).id = a.id ∧ (f a).span = a.span) (h : AreaInv limit mm) :
    AreaInv limit { mm with used := mm.used.map f } := by
  have hmem : ∀ a ∈ mm.free ++ mm.used.map f, ∃ b ∈ mm.areas, a.id = b.id ∧ a.span = b.span := by
    intro a ha
    rcases List.mem_append.mp ha with ha | ha
    · exact ⟨a, List.mem_append_left _ ha, rfl, rfl⟩
    · obtain ⟨b, hb, rfl⟩ := List.mem_map.mp ha
      exact ⟨b, List.mem_append_right _ hb, hsame b⟩
  refine ⟨fun a ha => ?_, fun x => ?_, ?_, fun a ha => ?_⟩
  · obtain ⟨b, hb, -, hspan⟩ := hmem a ha
    obtain ⟨hs, he⟩ := Prod.mk.inj hspan
    rw [hs, he]
    exact h.le b hb
  · have hx := h.once x
    simp only [MmStruct.areas, List.map_append, List.map_map] at hx ⊢
    rw [show VmmArea.span ∘ f = VmmArea.span from funext fun a => (hsame a).2]
    exact hx
  · have hnodup := h.nodup
    simp only [MmStruct.areas, List.map_append, List.map_map] at hnodup ⊢
    rw [show VmmArea.id ∘ f = VmmArea.id from funext fun a => (hsame a).1]
    exact hnodup
  · obtain ⟨b, hb, hid, -⟩ := hmem a ha
    rw [hid]
    exact h.fresh b hb

theorem AreaInv.setPstart {id pbase : Nat} (h : AreaInv limit mm) :
    AreaInv limit { mm with used := mm.used.map fun a =>
      if a.id = id then { a with pstart := pbase } else a } := by
  refine h.relabelUsed fun a => ?_
  split <;> exact ⟨rfl, rfl⟩

theorem requestVmmArea_spec (mem : Nat → Bool) (pbase flags : Nat)
    (h : AreaInv limit mm)
    (hlimit : limit < 2 ^ 64) (hwrap : base + size < 2 ^ 64) :
    CutOut limit mm base (base + size) (requestVmmArea mem mm base pbase size flags) := by
  have hcut := splitVmmArea_spec mem flags h hlimit hwrap
  unfold requestVmmArea
  cases hres : splitVmmArea mem mm base size flags with
  | mk r mm' =>
    rw [hres] at hcut
    cases r with
    | none => exact hcut
    | some va =>
      obtain ⟨hs, he, hused⟩ := hcut.ok va rfl
      refine ⟨hcut.inv.setPstart, by simp, fun a ha => ?_⟩
      cases ha
      exact ⟨hs, he, List.mem_map.mpr ⟨va, hused, by simp⟩⟩

/-! ### Allocation -/

/-- What `alloc_free_vmm_area` returns: an area of `size` bytes at a multiple
of `mask + 1`. -/
structure Allocated (limit : Nat) (mm : MmStruct) (size mask : Nat)
    (r : Option VmmArea × MmStruct) : Prop where
  inv : AreaInv limit r.2
  fail : r.1 = none → r.2.free = mm.free ∧ r.2.used = mm.used
  ok : ∀ va, r.1 = some va →
    va.stop = va.start + size ∧ va.start % (mask + 1) = 0 ∧ va ∈ r.2.used

theorem allocInArea_spec (mem : Nat → Bool) (flags : Nat)
    (h : AreaInv limit mm) (hlimit : limit ≤ 2 ^ 40) (hmask : mask < 2 ^ 40)
    (hvma : vma ∈ mm.free) (hsize : size ≤ vma.stop - vma.start) :
    Allocated limit mm size mask (allocInArea mem mm vma size mask flags) := by
  obtain ⟨hle, hstop⟩ := h.le vma (List.mem_append_left _ hvma)
  have hsum : u64 (vma.start + mask) = vma.start + mask := u64_of_lt (by omega)
  unfold allocInArea
  simp only [hsum]
  -- the start rounded up, which is in the area when the test passes
  obtain ⟨base, hbase⟩ : ∃ base, vma.start + mask - (vma.start + mask) % (mask + 1) = base :=
    ⟨_, rfl⟩
  have halign : base % (mask + 1) = 0 := by
    rw [← hbase]
    exact Nat.mod_eq_zero_of_dvd (Nat.dvd_sub_mod _)
  have hend : u64 (base + size) = base + size := u64_of_lt (by omega)
  rw [hbase, hend]
  split
  · rename_i hfit
    have hcut := splitArea_spec mem flags h (show limit < 2 ^ 64 by omega) hvma hfit.1
      (Nat.le_add_right base size) hfit.2
    refine ⟨hcut.inv, hcut.fail, fun va hva => ?_⟩
    obtain ⟨hs, he, hused⟩ := hcut.ok va hva
    exact ⟨by rw [hs, he], by rw [hs]; exact halign, hused⟩
  · exact ⟨h, fun _ => ⟨rfl, rfl⟩, by simp⟩

/-- The scan: a failed attempt leaves the lists, and so the entries still to
be looked at, as they were. -/
theorem allocFreeScan_spec (flags : Nat) (hlimit : limit ≤ 2 ^ 40)
    (hmask : mask < 2 ^ 40) (l : List VmmArea) :
    ∀ {mm : MmStruct}, AreaInv limit mm → (∀ va ∈ l, va ∈ mm.free) →
      Allocated limit mm size mask (allocFreeScan mem size mask flags l mm) := by
  induction l with
  | nil =>
    intro mm h _
    exact ⟨h, fun _ => ⟨rfl, rfl⟩, by simp [allocFreeScan]⟩
  | cons va rest ih =>
    intro mm h hl
    obtain ⟨hva, hrest⟩ := List.forall_mem_cons.mp hl
    rw [allocFreeScan]
    split
    · exact ih h hrest
    · rename_i hsize
      have hin := allocInArea_spec mem flags h hlimit hmask hva
        (show size ≤ va.stop - va.start by omega)
      cases hres : allocInArea mem mm va size mask flags with
      | mk r mm' =>
        rw [hres] at hin
        cases r with
        | some new => exact hin
        | none =>
          obtain ⟨hfree, hused⟩ := hin.fail rfl
          have hnext := ih hin.inv (by rw [hfree]; exact hrest)
          exact ⟨hnext.inv, fun hn => by rw [← hfree, ← hused]; exact hnext.fail hn, hnext.ok⟩

theorem areaMask_lt (mask : Nat) : areaMask mask < 2 ^ 40 := by
  unfold areaMask blockMask pageMask
  split <;> decide

theorem allocFreeVmmArea_spec (mem : Nat → Bool) (size mask flags : Nat) (h : AreaInv limit mm)
    (hlimit : limit ≤ 2 ^ 40) :
    Allocated limit mm (pageBalign size) (areaMask mask)
      (allocFreeVmmArea mem mm size mask flags) :=
  allocFreeScan_spec flags hlimit (areaMask_lt mask) mm.free h fun _ h => h

/-- As for `splitVmmArea_used`: the attempts before the last one changed
neither list. -/
theorem allocFreeScan_used (hlimit : limit ≤ 2 ^ 40)
    (hmask : mask < 2 ^ 40) (l : List VmmArea) :
    ∀ {mm : MmStruct}, AreaInv limit mm → (∀ va ∈ l, va ∈ mm.free) →
      ∀ {new : VmmArea}, (allocFreeScan mem size mask flags l mm).1 = some new →
        (allocFreeScan mem size mask flags l mm).2.used = mm.used ++ [new] := by
  induction l with
  | nil => exact fun _ _ _ h => by cases h
  | cons va rest ih =>
    intro mm hinv hl new h
    obtain ⟨hva, hrest⟩ := List.forall_mem_cons.mp hl
    rw [allocFreeScan] at h ⊢
    split at h
    · rename_i hsmall
      rw [if_pos hsmall]
      exact ih hinv hrest h
    · rename_i hsize
      rw [if_neg hsize]
      have hin := allocInArea_spec mem flags hinv hlimit hmask hva
        (show size ≤ va.stop - va.start by omega)
      cases hres : allocInArea mem mm va size mask flags with
      | mk r mm' =>
        rw [hres] at hin h
        cases r with
        | some new' =>
          cases h
          unfold allocInArea at hres
          dsimp only at hres
          split at hres
          · have hused := (splitArea_used (congrArg Prod.fst hres)).1
            rw [hres] at hused
            exact hused
          · cases hres
        | none =>
          obtain ⟨hfree, hused⟩ := hin.fail rfl
          have hnext := ih hin.inv (by rw [hfree]; exact hrest) h
          rw [hused] at hnext
          exact hnext

theorem allocFreeVmmArea_used (h : AreaInv limit mm)
    (hlimit : limit ≤ 2 ^ 40) (hva : (allocFreeVmmArea mem mm size mask flags).1 = some va) :
    (allocFreeVmmArea mem mm size mask flags).2.used = mm.used ++ [va] :=
  allocFreeScan_used hlimit (areaMask_lt mask) mm.free h (fun _ h => h) hva

/-! ### Release -/

/-- The two ranges touch. -/
def Touches (va tmp : VmmArea) : Prop := va.start = tmp.stop ∨ va.stop = tmp.start

instance (va tmp : VmmArea) : Decidable (Touches va tmp) :=
  inferInstanceAs (Decidable (_ ∨ _))

/-- `va'` is `va` with the range of `tmp`, which touches it, added. -/
def Joined (va tmp va' : VmmArea) : Prop :=
  va'.id = va.id ∧
    ((va.start = tmp.stop ∧ va'.span = (tmp.start, va.stop)) ∨
      (va.stop = tmp.start ∧ va'.span = (va.start, tmp.stop)))

/-- A pass goes over entries that do not touch `va` and are smaller than `size`. It stops at the
first other one: an entry that touches `va` is taken out, before a larger one `va` is put into
the list. -/
theorem addFreePass_cases (va : VmmArea) (size : Nat) (free : List VmmArea) :
    ∃ pre, (∀ p ∈ pre, ¬ Touches va p ∧ p.stop - p.start < size) ∧
      ((∃ post, free = pre ++ post ∧ addFreePass va size free = .inr (pre ++ va :: post) ∧
          ∀ t ∈ post.head?, ¬ Touches va t ∧ size ≤ t.stop - t.start) ∨
        ∃ t post va', free = pre ++ t :: post ∧
          addFreePass va size free = .inl (va', pre ++ post) ∧ Joined va t va') := by
  induction free with
  | nil => exact ⟨[], by simp, Or.inl ⟨[], rfl, rfl, by simp⟩⟩
  | cons tmp rest ih =>
    rw [addFreePass]
    split_ifs with h1 h2 h3
    · exact ⟨[], by simp, Or.inr ⟨tmp, rest, _, rfl, rfl, rfl, Or.inl ⟨h1, rfl⟩⟩⟩
    · exact ⟨[], by simp, Or.inr ⟨tmp, rest, _, rfl, rfl, rfl, Or.inr ⟨h2, rfl⟩⟩⟩
    · refine ⟨[], by simp, Or.inl ⟨tmp :: rest, rfl, rfl, ?_⟩⟩
      rintro t ⟨rfl⟩
      exact ⟨not_or.mpr ⟨h1, h2⟩, h3⟩
    · obtain ⟨pre, hpre, hcases⟩ := ih
      refine ⟨tmp :: pre, ?_, ?_⟩
      · exact List.forall_mem_cons.mpr ⟨⟨not_or.mpr ⟨h1, h2⟩, by omega⟩, hpre⟩
      · rcases hcases with ⟨post, rfl, hpass, hhead⟩ | ⟨t, post, va', rfl, hpass, hjoin⟩
        · rw [hpass]
          exact Or.inl ⟨post, rfl, rfl, hhead⟩
        · rw [hpass]
          exact Or.inr ⟨t, post, va', rfl, rfl, hjoin⟩

theorem addFreePass_spec (va : VmmArea) (size : Nat) (free : List VmmArea) :
    (∃ l, addFreePass va size free = .inr l ∧ l.Perm (va :: free)) ∨
      ∃ va' l tmp, addFreePass va size free = .inl (va', l) ∧ free.Perm (tmp :: l) ∧
        Joined va tmp va' := by
  obtain ⟨pre, -, ⟨post, rfl, hpass, -⟩ | ⟨t, post, va', rfl, hpass, hjoin⟩⟩ :=
    addFreePass_cases va size free
  · exact Or.inl ⟨_, hpass, List.perm_middle⟩
  · exact Or.inr ⟨va', _, t, hpass, List.perm_middle, hjoin⟩

/-- As many passes as there are free entries are enough. -/
theorem addFreeLoop_fuel (size fuel : Nat) :
    ∀ (va : VmmArea) (free : List VmmArea), free.length ≤ fuel →
      addFreeLoop size (fuel + 1) va free = addFreeLoop size fuel va free := by
  induction fuel with
  | zero =>
    intro va free hlen
    rw [List.length_eq_zero_iff.mp (Nat.le_zero.mp hlen)]
    rfl
  | succ fuel ih =>
    intro va free hlen
    rw [addFreeLoop, addFreeLoop]
    rcases addFreePass_spec va size free with ⟨l, hl, -⟩ | ⟨va', l, tmp, hl, hperm, -⟩
    · rw [hl]
    · rw [hl]
      have hlen' := hperm.length_eq
      rw [List.length_cons] at hlen'
      exact ih va' l (by omega)

theorem Tiled.addFreeLoop {used : List VmmArea} (fuel : Nat) :
    ∀ {va : VmmArea} {free : List VmmArea}, Tiled limit (va :: (free ++ used)) n →
      Tiled limit (Vmm.addFreeLoop size fuel va free ++ used) n := by
  induction fuel with
  | zero =>
    intro va free h
    rw [Vmm.addFreeLoop]
    refine h.perm ?_
    rw [List.append_assoc]
    exact List.perm_middle
  | succ fuel ih =>
    intro va free h
    rw [Vmm.addFreeLoop]
    rcases addFreePass_spec va size free with
      ⟨l, hl, hperm⟩ | ⟨va', l, tmp, hl, hperm, hid, hspan⟩
    · rw [hl]
      exact h.perm (hperm.append_right used)
    · rw [hl]
      have hjoin : Tiled limit (va :: tmp :: (l ++ used)) n :=
        h.perm (((hperm.append_right used).cons va).symm)
      exact ih (hjoin.join hid hspan)

theorem AreaInv.release (h : AreaInv limit mm) (hva : va ∈ mm.used) :
    AreaInv limit (releaseVmmArea mm va) := by
  have hnodup : (mm.used.map VmmArea.id).Nodup := by
    have := h.nodup
    rw [MmStruct.areas, List.map_append] at this
    exact (List.nodup_append.mp this).2.1
  have hfirst : Tiled limit (va :: (mm.free ++ listDel va.id mm.used)) mm.nalloc := by
    refine h.perm ?_
    have hperm := (perm_cons_listDel hnodup hva).append_left mm.free
    exact (List.perm_middle.symm.trans hperm.symm)
  exact (hfirst.relabel { va with flags := 0, vmid := 0, pstart := 0 } rfl
    rfl).addFreeLoop _

end Operations

/-! ## The address space over a history of calls -/

/-- The entries of both lists are pairwise disjoint and cover exactly
`[0, limit)`, and every entry is on one list, once. -/
structure Partition (limit : Nat) (mm : MmStruct) : Prop where
  disjoint : (mm.areas.map VmmArea.span).Pairwise fun a b =>
    ∀ x, ¬ ((a.1 ≤ x ∧ x < a.2) ∧ b.1 ≤ x ∧ x < b.2)
  covers : ∀ x, (∃ a ∈ mm.areas, a.start ≤ x ∧ x < a.stop) ↔ x < limit
  oneList : (mm.areas.map VmmArea.id).Nodup

theorem AreaInv.partition {limit : Nat} {mm : MmStruct} (h : AreaInv limit mm) :
    Partition limit mm where
  disjoint := by
    refine pairwise_of_cover_le_one fun x => ?_
    rw [h.once x]
    split <;> omega
  covers x := by
    have hx : (∃ a ∈ mm.areas, a.start ≤ x ∧ x < a.stop) ↔
        0 < cover (mm.areas.map VmmArea.span) x := by
      rw [cover_pos_iff]
      simp [VmmArea.span]
    rw [hx, h.once x]
    split <;> simp_all
  oneList := h.nodup

/-- `base + size` does not wrap, and for `alloc_free_vmm_area` rounding the
size does not. -/
def AreaCall.NoWrap : AreaCall → Prop
  | .split base size _ => base + size < 2 ^ 64
  | .request base _ size _ => base + size < 2 ^ 64
  | .alloc size _ _ => size + pageSize ≤ 2 ^ 64
  | .release _ => True

/-- What a caller is promised. An area that is asked for by its bounds has
them; one that is asked for by its size has that size, rounded up to pages,
and starts at a multiple of 2MB when `BLOCK_MASK` is given and of a page
otherwise. It is on the used list. A call that fails leaves both lists as
they were. -/
def Promise (mem : Nat → Bool) (mm : MmStruct) (c : AreaCall) : Prop :=
  ∀ r, areaCall mem mm c = some r → match c with
  | .split base size _ | .request base _ size _ =>
    (∀ va, r.1 = some va → va.start = base ∧ va.stop = base + size ∧ va ∈ r.2.used) ∧
      (r.1 = none → r.2.free = mm.free ∧ r.2.used = mm.used)
  | .alloc size mask _ =>
    (∀ va, r.1 = some va → va.stop - va.start = (size + 4095) / 4096 * 4096 ∧
      va.start % (if mask = blockMask then 0x200000 else 0x1000) = 0 ∧ va ∈ r.2.used) ∧
      (r.1 = none → r.2.free = mm.free ∧ r.2.used = mm.used)
  | .release _ => True

theorem pageBalign_eq (h : size + pageSize ≤ 2 ^ 64) :
    pageBalign size = (size + 4095) / 4096 * 4096 := by
  unfold pageBalign
  unfold pageSize at h ⊢
  rw [u64_of_lt (by omega)]
  omega

theorem vmIpaSize_le (bit64 : Bool) : vmIpaSize bit64 ≤ 2 ^ 40 := by
  cases bit64 <;> decide

/-- One call keeps the partition and its promise. -/
theorem areaCall_spec {mem : Nat → Bool} {limit : Nat} {mm : MmStruct} (h : AreaInv limit mm)
    (hlimit : limit ≤ 2 ^ 40) (c : AreaCall) (hc : c.NoWrap) :
    Promise mem mm c ∧ ∀ mm', areaStep mem mm c = some mm' → AreaInv limit mm' := by
  unfold Promise areaStep
  cases c with
  | split base size flags =>
    have hcut := splitVmmArea_spec mem flags h (by omega) hc
    simp only [areaCall, Option.some.injEq, Option.map_some, forall_eq']
    exact ⟨⟨hcut.ok, hcut.fail⟩, hcut.inv⟩
  | request base pbase size flags =>
    have hcut := requestVmmArea_spec mem pbase flags h (by omega) hc
    simp only [areaCall, Option.some.injEq, Option.map_some, forall_eq']
    exact ⟨⟨hcut.ok, hcut.fail⟩, hcut.inv⟩
  | alloc size mask flags =>
    have hall := allocFreeVmmArea_spec mem size mask flags h hlimit
    simp only [areaCall, Option.some.injEq, Option.map_some, forall_eq']
    refine ⟨⟨fun va hva => ?_, hall.fail⟩, hall.inv⟩
    obtain ⟨hsize, halign, hused⟩ := hall.ok va hva
    refine ⟨?_, ?_, hused⟩
    · rw [hsize, Nat.add_sub_cancel_left, pageBalign_eq hc]
    · unfold areaMask at halign
      split at halign <;> simp_all [blockMask, pageMask]
  | release id =>
    refine ⟨fun _ _ => trivial, fun mm' hmm' => ?_⟩
    simp only [areaCall, Option.map_map, Option.map_eq_some_iff] at hmm'
    obtain ⟨va, hva, rfl⟩ := hmm'
    exact h.release (List.mem_of_find?_eq_some hva)

theorem AreaInv.init {mem : Nat → Bool} (hmem : mem 0 = true) (bit64 : Bool) :
    AreaInv (vmIpaSize bit64) (vmmAreaInit mem bit64) := by
  have hlt : u64 (0 + vmIpaSize bit64) = vmIpaSize bit64 := by cases bit64 <;> decide
  unfold vmmAreaInit allocVmmAreaEntry
  simp only [hmem, if_true, hlt]
  refine ⟨?_, fun x => ?_, ?_, ?_⟩
  · simp [MmStruct.areas]
  · simp [MmStruct.areas, VmmArea.span, hits]
  · simp [MmStruct.areas]
  · simp [MmStruct.areas]

/-- **Partition of the guest address space**: from `vmm_area_init`, once it
has its first entry, over every history of calls that do not wrap and
whatever allocations of entries fail, the two lists partition the address
space in every state reached and every call keeps its promise. -/
theorem vmm_area_partition (mem : Nat → Bool) (bit64 : Bool) (l : List AreaCall)
    (hmem : mem 0 = true) (hl : ∀ c ∈ l, c.NoWrap) :
    (∀ pre, pre <+: l → ∀ mm, run (areaStep mem) (vmmAreaInit mem bit64) pre = some mm →
      Partition (vmIpaSize bit64) mm) ∧
    Along (areaStep mem) (Promise mem) (vmmAreaInit mem bit64) l := by
  have hlimit := vmIpaSize_le bit64
  have hstep : ∀ mm c mm', AreaInv (vmIpaSize bit64) mm → c.NoWrap →
      areaStep mem mm c = some mm' → AreaInv (vmIpaSize bit64) mm' :=
    fun mm c mm' h hc hs => (areaCall_spec h hlimit c hc).2 mm' hs
  have hinit := AreaInv.init hmem bit64
  have hnw : Along (areaStep mem) (fun _ c => c.NoWrap) (vmmAreaInit mem bit64) l :=
    along_of_forall hl _
  constructor
  · intro pre hpre mm hrun
    exact (run_invariant hstep hinit (along_of_pre hpre hnw) hrun).partition
  · exact along_of_invariant hstep (fun mm c h hc => (areaCall_spec h hlimit c hc).1) hinit hnw

/-- A 64-bit VM: 1GB of memory, a page somewhere, a 2MB window, and the
memory given back. -/
def guestAreas : List AreaCall :=
  [.split 0x40000000 0x40000000 2, .alloc 0x1000 pageMask 0, .alloc 0x200000 blockMask 0,
    .release 0]

theorem vmm_area_partition_guest :
    (run (areaStep fun _ => true) (vmmAreaInit (fun _ => true) true) guestAreas).isSome ∧
      ∀ pre, pre <+: guestAreas →
        ∀ mm, run (areaStep fun _ => true) (vmmAreaInit (fun _ => true) true) pre = some mm →
          Partition (2 ^ 40) mm :=
  ⟨by decide +kernel, (vmm_area_partition (fun _ => true) true guestAreas rfl
    (by simp [guestAreas, AreaCall.NoWrap, pageSize])).1⟩

/-- A request for one byte gets a page, and a VM whose first entry could not
be allocated has no address space at all. -/
theorem vmm_area_rounds_and_empty :
    ((allocFreeVmmArea (fun _ => true) (vmmAreaInit (fun _ => true) true) 1 pageMask 0).1.map
        fun va => va.stop - va.start) = some 4096 ∧
      (vmmAreaInit (fun _ => false) true).areas = [] := by
  decide

/-! ## Requests whose end wraps -/

/-- The tests of `split_vmm_area` before it cuts: the alignment of normal memory, and a free
area whose bounds enclose `base` and the end of the request as the code computes it. -/
theorem splitVmmArea_isSome_iff (mm : MmStruct) (base size flags : Nat) :
    (∃ mem, (splitVmmArea mem mm base size flags).1.isSome) ↔
      ¬ (flags &&& vmNormal ≠ 0 ∧ (base % pageSize ≠ 0 ∨ size % pageSize ≠ 0)) ∧
        ∃ va ∈ mm.free, va.start ≤ base ∧ u64 (base + size) ≤ va.stop := by
  unfold splitVmmArea
  dsimp only
  split
  · simp_all
  · rename_i haligned
    rw [and_iff_right haligned]
    cases hfind : mm.free.find? fun va => va.start ≤ base ∧ u64 (base + size) ≤ va.stop with
    | none =>
      have hno := List.find?_eq_none.mp hfind
      simpa using hno
    | some va =>
      have hva := List.find?_some hfind
      refine iff_of_true ⟨fun _ => true, splitArea_isSome.mpr (by simp)⟩ ?_
      exact ⟨va, List.mem_of_find?_eq_some hfind, by simpa using hva⟩

/-- **Areas are cut out of free areas**: whatever entries can be allocated, `split_vmm_area`
succeeds only for a range inside one free area, exactly if the end of the range does not wrap or
the wrapped end is refused by the tests for another reason. -/
theorem split_vmm_area_inside_iff (mm : MmStruct) (base size flags : Nat)
    (h64 : ∀ va ∈ mm.free, va.stop < 2 ^ 64) :
    (∀ mem, (splitVmmArea mem mm base size flags).1.isSome →
        base ≤ base + size ∧ ∃ va ∈ mm.free, va.start ≤ base ∧ base + size ≤ va.stop) ↔
      base + size < 2 ^ 64 ∨
        (flags &&& vmNormal ≠ 0 ∧ (base % pageSize ≠ 0 ∨ size % pageSize ≠ 0)) ∨
        ∀ va ∈ mm.free, ¬ (va.start ≤ base ∧ (base + size) % 2 ^ 64 ≤ va.stop) := by
  rw [← forall_exists_index (p := fun mem => (splitVmmArea mem mm base size flags).1.isSome)
    (q := fun _ => base ≤ base + size ∧ ∃ va ∈ mm.free, va.start ≤ base ∧ base + size ≤ va.stop),
    splitVmmArea_isSome_iff]
  by_cases hwrap : base + size < 2 ^ 64
  · rw [u64_of_lt hwrap]
    exact iff_of_true (fun h => ⟨Nat.le_add_right _ _, h.2⟩) (Or.inl hwrap)
  · -- no area reaches up to the exact end of a range that wraps
    have hnone : ¬ ∃ va ∈ mm.free, va.start ≤ base ∧ base + size ≤ va.stop := by
      rintro ⟨va, hva, -, hle⟩
      have := h64 va hva
      omega
    simp only [hwrap, hnone, and_false, imp_false, false_or, u64]
    rw [not_and_or, not_not]
    simp only [not_exists, not_and]

/-- A page of 4KB inside a VM's address space. -/
theorem split_vmm_area_inside_page :
    (splitVmmArea (fun _ => true) (vmmAreaInit (fun _ => true) true) 0x1000 0x1000 2).1.isSome ∧
      ∃ va ∈ (vmmAreaInit (fun _ => true) true).free, va.start ≤ 0x1000 ∧ 0x2000 ≤ va.stop :=
  have hcut : (splitVmmArea (fun _ => true) (vmmAreaInit (fun _ => true) true)
      0x1000 0x1000 2).1.isSome := by decide
  ⟨hcut, ((split_vmm_area_inside_iff _ 0x1000 0x1000 2 (by decide)).mpr
    (Or.inl (by decide)) _ hcut).2⟩

/-- The RAM of a guest at 2GB whose size is a page short of `2 ^ 64`: the area that is handed out
ends below its start. -/
theorem split_vmm_area_wraps :
    ((splitVmmArea (fun _ => true) (vmmAreaInit (fun _ => true) true)
        0x80000000 0xfffffffffffff000 2).1.map VmmArea.span = some (0x80000000, 0x7ffff000)) ∧
      ¬ ∃ va ∈ (vmmAreaInit (fun _ => true) true).free,
        va.start ≤ 0x80000000 ∧ 0x80000000 + 0xfffffffffffff000 ≤ va.stop := by
  decide

end Minos.Vmm
