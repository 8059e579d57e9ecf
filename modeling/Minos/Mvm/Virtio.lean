import Minos.Core.Errno
import Minos.Lib.Word
import Mathlib.Data.Nat.Bitwise

/-!
# Virtio queues in mvm

`tools/mvm/devices/virtio/virtio.c`: the process that emulates the devices
of a guest maps the memory of the guest at `mmap`, and follows the rings of
a queue there. Where the rings are is told by registers the guest writes,
and what the chains describe by the guest's memory. A translation
(`gpa_to_hvm_va`) is one addition, with no check of its own.

The functions below run on the memory of the process. What the guest asked
for is stated apart from them, on the guest's own memory: `Request` follows
the available ring and the chain as a relation on guest physical addresses.
-/

namespace Minos.Mvm

open Minos.Lib

/-! ## Memory -/

/-- The memory of `struct vm`: guest memory `[memStart, memStart + memSize)`
is mapped at `mmap`. -/
structure Vm where
  mmap : Nat
  memStart : Nat
  memSize : Nat
  mmap_end : mmap + memSize < 2 ^ 64
  mem_end : memStart + memSize < 2 ^ 64

/-- `gpa_to_hvm_va`, in `unsigned long`. -/
def gpaToHvmVa (vm : Vm) (gpa : Nat) : Nat := u64 (vm.mmap + sub64 gpa vm.memStart)

abbrev Bytes := Nat → BitVec 8

/-- The little-endian value of the bytes from `a` on. -/
def readLe (mem : Bytes) (a : Nat) : Nat → Nat
  | 0 => 0
  | n + 1 => (mem (u64 a)).toNat + 256 * readLe mem (a + 1) n

/-- `struct vring_desc`. -/
structure VringDesc where
  addr : Nat
  len : Nat
  flags : Nat
  next : Nat

def descAt (mem : Bytes) (a : Nat) : VringDesc where
  addr := readLe mem a 8
  len := readLe mem (a + 8) 4
  flags := readLe mem (a + 12) 2
  next := readLe mem (a + 14) 2

/-- `VRING_DESC_F_NEXT`, `VRING_DESC_F_WRITE` and `VRING_DESC_F_INDIRECT`. -/
def VringDesc.hasNext (d : VringDesc) : Bool := d.flags.testBit 0
def VringDesc.isWrite (d : VringDesc) : Bool := d.flags.testBit 1
def VringDesc.isIndirect (d : VringDesc) : Bool := d.flags.testBit 2

/-- `next_desc`; `none` is `-1`. -/
def nextDesc (d : VringDesc) : Option Nat := if d.hasNext then some d.next else none

/-! ## Queues -/

/-- The queue registers the guest has written. -/
structure QueueRegs where
  num : BitVec 32
  descHigh : BitVec 32
  descLow : BitVec 32
  availHigh : BitVec 32
  availLow : BitVec 32
  usedHigh : BitVec 32
  usedLow : BitVec 32

/-- `u32_to_u64`. -/
def u32ToU64 (high low : BitVec 32) : Nat := (high ++ low).toNat

/-- `struct virt_queue`: `desc`, `avail` and `used` are addresses of the
process. -/
structure VirtQueue where
  num : Nat
  desc : Nat
  avail : Nat
  used : Nat
  lastAvailIdx : BitVec 16
  availIdx : BitVec 16
  ready : Bool

/-- `virtio_buffer_event`. -/
def virtioBufferEvent (vm : Vm) (regs : QueueRegs) : VirtQueue where
  num := regs.num.toNat
  desc := gpaToHvmVa vm (u32ToU64 regs.descHigh regs.descLow)
  avail := gpaToHvmVa vm (u32ToU64 regs.availHigh regs.availLow)
  used := gpaToHvmVa vm (u32ToU64 regs.usedHigh regs.usedLow)
  lastAvailIdx := 0
  availIdx := 0
  ready := true

structure Iovec where
  base : Nat
  len : Nat
  deriving DecidableEq

/-- What `virtq_get_descs` gives back besides its result, with the ring
addresses it has used and how many bytes of each. -/
structure Descs where
  iov : List Iovec
  inNum : Nat
  outNum : Nat
  uses : List (Nat × Nat)

def Descs.use (o : Descs) (a n : Nat) : Descs := { o with uses := o.uses ++ [(a, n)] }

def Descs.count (o : Descs) (d : VringDesc) : Descs :=
  if d.isWrite then { o with inNum := o.inNum + 1 } else { o with outNum := o.outNum + 1 }

/-- `translate_desc`. -/
def translateDesc (vm : Vm) (d : VringDesc) (index iovSize : Nat) (o : Descs) : Descs :=
  if iovSize ≤ index then o
  else { o with iov := o.iov ++ [⟨gpaToHvmVa vm d.addr, d.len⟩] }

/-- The loop of `get_indirect_buf`, from entry `next` of the table on. Every
pass raises `index`, so `iovSize - index` passes are enough. -/
def indirectLoop (vm : Vm) (mem : Bytes) (desc : VringDesc) (inDesc nrIn iovSize : Nat) :
    Nat → Nat → Nat → Descs → Except Errno Nat × Descs
  | 0, _, _, o => (.error .enomem, o)
  | fuel + 1, next, index, o =>
    let a := u64 (inDesc + 16 * next)
    let vd := descAt mem a
    let o := o.use a 16
    if vd.isIndirect then (.error .einval, o)
    else
      -- the direction is that of the descriptor of the table
      let o := (translateDesc vm vd index iovSize o).count desc
      let index := index + 1
      if iovSize ≤ index then (.error .enomem, o)
      else
        match nextDesc vd with
        | none => (.ok index, o)
        | some next =>
          if nrIn ≤ next then (.error .einval, o)
          else indirectLoop vm mem desc inDesc nrIn iovSize fuel next index o

/-- `get_indirect_buf`. -/
def getIndirectBuf (vm : Vm) (mem : Bytes) (desc : VringDesc) (index iovSize : Nat) (o : Descs) :
    Except Errno Nat × Descs :=
  if desc.len % 16 ≠ 0 ∨ desc.len / 16 = 0 then (.error .einval, o)
  else
    let r := indirectLoop vm mem desc (gpaToHvmVa vm desc.addr) (desc.len / 16) iovSize
      (iovSize - index) 0 index o
    (r.1.map (· - index), r.2)

/-- The body of the loop of `virtq_get_descs` for a descriptor of the table
of the queue; the new `iov_index`. -/
def takeDesc (vm : Vm) (mem : Bytes) (desc : VringDesc) (index iovSize : Nat) (o : Descs) :
    Except Errno Nat × Descs :=
  if desc.isIndirect then
    let r := getIndirectBuf vm mem desc index iovSize o
    (r.1.map (index + ·), r.2)
  else (.ok (index + 1), (translateDesc vm desc index iovSize o).count desc)

/-- The loop of `virtq_get_descs` over the `num` descriptors at `table`. Every
pass raises `index`, so `iovSize` passes are enough: after them
`index ≥ iovSize`. -/
def chainLoop (vm : Vm) (mem : Bytes) (table num iovSize : Nat) :
    Nat → Nat → Nat → Descs → Except Errno Unit × Descs
  | 0, _, _, o => (.error .enomem, o)
  | fuel + 1, i, index, o =>
    if iovSize ≤ index then (.error .enomem, o)
    else if num ≤ i then (.error .einval, o)
    else
      let a := u64 (table + 16 * i)
      let desc := descAt mem a
      match takeDesc vm mem desc index iovSize (o.use a 16) with
      | (.error e, o) => (.error e, o)
      | (.ok index, o) =>
        match nextDesc desc with
        | none => (.ok (), o)
        | some i => chainLoop vm mem table num iovSize fuel i index o

/-- `virtq_get_descs`: the result (`num` when nothing is available), what it
has put out, and the queue. -/
def virtqGetDescs (vm : Vm) (mem : Bytes) (vq : VirtQueue) (iovSize : Nat) :
    (Except Errno Nat × Descs) × VirtQueue :=
  let availIdx := BitVec.ofNat 16 (readLe mem (u64 (vq.avail + 2)) 2)
  let o : Descs := ⟨[], 0, 0, [(u64 (vq.avail + 2), 2)]⟩
  let vq := { vq with availIdx := availIdx }
  let count := (availIdx - vq.lastAvailIdx).toNat
  if count = 0 then ((.ok vq.num, o), vq)
  else if vq.num < count then ((.error .einval, o), vq)
  else
    let a := u64 (vq.avail + (4 + 2 * (vq.lastAvailIdx.toNat &&& (vq.num - 1))))
    let head := readLe mem a 2
    let o := o.use a 2
    if vq.num ≤ head then ((.error .einval, o), vq)
    else
      match chainLoop vm mem vq.desc vq.num iovSize iovSize head 0 o with
      | (.error e, o) => ((.error e, o), vq)
      | (.ok _, o) => ((.ok head, o), { vq with lastAvailIdx := vq.lastAvailIdx + 1 })

/-! ## What confinement means -/

/-- The bytes lie in the mapped memory. -/
def Inside (vm : Vm) (a n : Nat) : Prop := vm.mmap ≤ a ∧ a + n ≤ vm.mmap + vm.memSize

instance (vm : Vm) (a n : Nat) : Decidable (Inside vm a n) := inferInstanceAs (Decidable (_ ∧ _))

/-- Every ring address used and every buffer given back is in the mapped
memory, or the request is rejected. -/
def Confined (vm : Vm) (r : Except Errno Nat × Descs) : Prop :=
  ∀ v, r.1 = .ok v →
    (∀ u ∈ r.2.uses, Inside vm u.1 u.2) ∧ ∀ v ∈ r.2.iov, Inside vm v.base v.len

/-! ## What the guest asked for -/

/-- The bytes lie in guest memory. -/
def InGuest (vm : Vm) (g n : Nat) : Prop := vm.memStart ≤ g ∧ g + n ≤ vm.memStart + vm.memSize

/-- A chain in an indirect table at `t` with `nr` entries, from an entry on,
when `k` buffers come before it: the addresses of its entries. -/
inductive Table (g : Bytes) (t nr iovSize : Nat) : (k next : Nat) → List Nat → Prop
  | last {k next : Nat} (hflat : (descAt g (u64 (t + 16 * next))).isIndirect = false)
      (hfit : k + 1 < iovSize) (hlast : nextDesc (descAt g (u64 (t + 16 * next))) = none) :
      Table g t nr iovSize k next [u64 (t + 16 * next)]
  | more {k next n : Nat} {l : List Nat}
      (hflat : (descAt g (u64 (t + 16 * next))).isIndirect = false)
      (hfit : k + 1 < iovSize) (hnext : nextDesc (descAt g (u64 (t + 16 * next))) = some n)
      (hn : n < nr) (hrest : Table g t nr iovSize (k + 1) n l) :
      Table g t nr iovSize k next (u64 (t + 16 * next) :: l)

/-- The descriptor at `a` stands for itself, or for the chain in its table:
the addresses of the descriptors read, and of those that are buffers. -/
inductive Expands (g : Bytes) (iovSize k a : Nat) : (uses bufs : List Nat) → Prop
  | direct (h : (descAt g a).isIndirect = false) : Expands g iovSize k a [a] [a]
  | indirect {l : List Nat} (h : (descAt g a).isIndirect = true)
      (hlen : (descAt g a).len % 16 = 0) (hpos : (descAt g a).len / 16 ≠ 0)
      (htable : Table g (descAt g a).addr ((descAt g a).len / 16) iovSize k 0 l) :
      Expands g iovSize k a (a :: l) l

/-- A chain in the descriptor table `t` of a queue of `num` descriptors. -/
inductive Chain (g : Bytes) (t num iovSize : Nat) :
    (k i : Nat) → (uses bufs : List Nat) → Prop
  | last {k i : Nat} {uses bufs : List Nat} (hk : k < iovSize) (hi : i < num)
      (hexp : Expands g iovSize k (u64 (t + 16 * i)) uses bufs)
      (hlast : nextDesc (descAt g (u64 (t + 16 * i))) = none) :
      Chain g t num iovSize k i uses bufs
  | more {k i n : Nat} {uses bufs uses' bufs' : List Nat} (hk : k < iovSize) (hi : i < num)
      (hexp : Expands g iovSize k (u64 (t + 16 * i)) uses bufs)
      (hnext : nextDesc (descAt g (u64 (t + 16 * i))) = some n)
      (hrest : Chain g t num iovSize (k + bufs.length) n uses' bufs') :
      Chain g t num iovSize k i (uses ++ uses') (bufs ++ bufs')

/-- How many requests the guest has made available. -/
def pending (g : Bytes) (avail : Nat) (last : BitVec 16) : Nat :=
  (BitVec.ofNat 16 (readLe g (u64 (avail + 2)) 2) - last).toNat

/-- Where the next request is in the available ring. -/
def availSlot (avail num : Nat) (last : BitVec 16) : Nat :=
  u64 (avail + (4 + 2 * (last.toNat &&& (num - 1))))

/-- The next request of a queue with its rings at `t` and `avail`: the ring
addresses that belong to it, with their sizes, and its buffers. -/
inductive Request (g : Bytes) (num t avail : Nat) (last : BitVec 16) (iovSize : Nat) :
    List (Nat × Nat) → List VringDesc → Prop
  | none (h : pending g avail last = 0) :
      Request g num t avail last iovSize [(u64 (avail + 2), 2)] []
  | chain {uses bufs : List Nat} (h : pending g avail last ≠ 0)
      (hcount : pending g avail last ≤ num)
      (hchain : Chain g t num iovSize 0 (readLe g (availSlot avail num last) 2) uses bufs) :
      Request g num t avail last iovSize
        ((u64 (avail + 2), 2) :: (availSlot avail num last, 2) :: uses.map (·, 16))
        (bufs.map (descAt g))

/-- The memory the guest sees. -/
def guestView (vm : Vm) (mem : Bytes) : Bytes := fun g => mem (gpaToHvmVa vm g)

/-- What the guest asks for next lies in guest memory, if it is a request
at all. -/
def RequestInGuest (vm : Vm) (mem : Bytes) (regs : QueueRegs) (last : BitVec 16) (iovSize : Nat) :
    Prop :=
  ∀ uses bufs,
    Request (guestView vm mem) regs.num.toNat (u32ToU64 regs.descHigh regs.descLow)
      (u32ToU64 regs.availHigh regs.availLow) last iovSize uses bufs →
    (∀ u ∈ uses, InGuest vm u.1 u.2) ∧ ∀ d ∈ bufs, InGuest vm d.addr d.len

/-! ## Addresses -/

theorem readLe_lt (mem : Bytes) (a n : Nat) : readLe mem a n < 256 ^ n := by
  induction n generalizing a with
  | zero => exact Nat.one_pos
  | succ n ih =>
    have hbyte := (mem (u64 a)).isLt
    have hrest := ih (a + 1)
    rw [readLe, Nat.pow_succ]
    omega

theorem descAt_addr_lt (mem : Bytes) (a : Nat) : (descAt mem a).addr < 2 ^ 64 :=
  Nat.lt_of_lt_of_le (readLe_lt mem a 8) (by decide)

theorem gpaToHvmVa_add (vm : Vm) (g k : Nat) :
    u64 (gpaToHvmVa vm g + k) = gpaToHvmVa vm (u64 (g + k)) := by
  unfold gpaToHvmVa u64 sub64
  omega

theorem inside_gpaToHvmVa_iff (vm : Vm) {g : Nat} (hg : g < 2 ^ 64) (n : Nat) :
    Inside vm (gpaToHvmVa vm g) n ↔ InGuest vm g n := by
  have hmmap := vm.mmap_end
  have hmem := vm.mem_end
  unfold Inside InGuest gpaToHvmVa u64 sub64
  omega

theorem readLe_guestView (vm : Vm) (mem : Bytes) (g a n : Nat)
    (h : ∀ j, u64 (a + j) = gpaToHvmVa vm (u64 (g + j))) :
    readLe mem a n = readLe (guestView vm mem) g n := by
  induction n generalizing g a with
  | zero => rfl
  | succ n ih =>
    have hrest : readLe mem (a + 1) n = readLe (guestView vm mem) (g + 1) n :=
      ih (g + 1) (a + 1) fun j => by
        rw [Nat.add_assoc, Nat.add_assoc]
        exact h (1 + j)
    have hhead : u64 a = gpaToHvmVa vm (u64 g) := h 0
    rw [readLe, readLe, hrest, guestView, ← hhead]

theorem readLe_gpaToHvmVa (vm : Vm) (mem : Bytes) (g n : Nat) :
    readLe mem (gpaToHvmVa vm g) n = readLe (guestView vm mem) g n :=
  readLe_guestView vm mem g _ n (gpaToHvmVa_add vm g)

theorem descAt_gpaToHvmVa (vm : Vm) (mem : Bytes) (g : Nat) :
    descAt mem (gpaToHvmVa vm g) = descAt (guestView vm mem) g := by
  have hfield (k n : Nat) :
      readLe mem (gpaToHvmVa vm g + k) n = readLe (guestView vm mem) (g + k) n :=
    readLe_guestView vm mem (g + k) _ n fun j => by
      rw [Nat.add_assoc, Nat.add_assoc]
      exact gpaToHvmVa_add vm g (k + j)
  unfold descAt
  rw [hfield 8, hfield 12, hfield 14, readLe_gpaToHvmVa]

/-! ## The loops -/

variable {bufs uses : List Nat} {o o' : Descs}
variable {k next nr t : Nat}
variable {i : Nat}

section Loops

variable {vm : Vm} {mem : Bytes} {iovSize : Nat}

/-- The iovec of the descriptor at a guest address. -/
def iovecAt (vm : Vm) (mem : Bytes) (g : Nat) : Iovec :=
  ⟨gpaToHvmVa vm (descAt (guestView vm mem) g).addr, (descAt (guestView vm mem) g).len⟩

/-- `o'` has in addition the descriptors at the guest addresses `uses`, and
those at `bufs` as buffers. -/
structure Grows (vm : Vm) (mem : Bytes) (uses bufs : List Nat) (o o' : Descs) : Prop where
  uses_eq : o'.uses = o.uses ++ uses.map fun g => (gpaToHvmVa vm g, 16)
  iov_eq : o'.iov = o.iov ++ bufs.map (iovecAt vm mem)

theorem Grows.trans {uses' bufs' : List Nat} {o'' : Descs}
    (h : Grows vm mem uses bufs o o') (h' : Grows vm mem uses' bufs' o' o'') :
    Grows vm mem (uses ++ uses') (bufs ++ bufs') o o'' where
  uses_eq := by rw [h'.uses_eq, h.uses_eq, List.map_append, List.append_assoc]
  iov_eq := by rw [h'.iov_eq, h.iov_eq, List.map_append, List.append_assoc]

theorem Grows.use (o : Descs) (g : Nat) :
    Grows vm mem [g] [] o (o.use (gpaToHvmVa vm g) 16) where
  uses_eq := rfl
  iov_eq := (List.append_nil _).symm

theorem Grows.count (h : Grows vm mem uses bufs o o')
    (d : VringDesc) : Grows vm mem uses bufs o (o'.count d) := by
  unfold Descs.count
  split
  · exact ⟨h.uses_eq, h.iov_eq⟩
  · exact ⟨h.uses_eq, h.iov_eq⟩

theorem Grows.translate (o : Descs) (g : Nat) {index : Nat} (h : index < iovSize) :
    Grows vm mem [g] [g] o
      (translateDesc vm (descAt (guestView vm mem) g) index iovSize
        (o.use (gpaToHvmVa vm g) 16)) := by
  rw [translateDesc, if_neg (Nat.not_le.mpr h)]
  exact ⟨rfl, rfl⟩

/-- The loop follows the chain of a table. -/
theorem indirectLoop_of_table (desc : VringDesc) {l : List Nat}
    (h : Table (guestView vm mem) t nr iovSize k next l) (fuel : Nat)
    (hfuel : iovSize ≤ fuel + k) (o : Descs) :
    ∃ o', indirectLoop vm mem desc (gpaToHvmVa vm t) nr iovSize fuel next k o =
        (.ok (k + l.length), o') ∧ Grows vm mem l l o o' := by
  induction h generalizing fuel o with
  | @last k next hflat hfit hlast =>
    obtain _ | fuel := fuel
    · omega
    · have hk : k < iovSize := by omega
      refine ⟨_, ?_, (Grows.translate o _ hk).count desc⟩
      simp only [indirectLoop, gpaToHvmVa_add, descAt_gpaToHvmVa, hflat, hlast,
        Nat.not_le.mpr hfit, if_false, Bool.false_eq_true, List.length_singleton]
  | @more k next n l hflat hfit hnext hn hrest ih =>
    obtain _ | fuel := fuel
    · omega
    · have hk : k < iovSize := by omega
      obtain ⟨o', ho', hgrows⟩ := ih fuel (by omega) _
      refine ⟨o', ?_, ((Grows.translate o _ hk).count desc).trans hgrows⟩
      rw [List.length_cons, Nat.add_comm l.length 1, ← Nat.add_assoc, ← ho']
      simp only [indirectLoop, gpaToHvmVa_add, descAt_gpaToHvmVa, hflat, hnext,
        Nat.not_le.mpr hfit, Nat.not_le.mpr hn, if_false, Bool.false_eq_true]

/-- What the loop accepts is the chain of a table. -/
theorem table_of_indirectLoop {desc : VringDesc} {fuel idx : Nat}
    (h : indirectLoop vm mem desc (gpaToHvmVa vm t) nr iovSize fuel next k o = (.ok idx, o')) :
    ∃ l, Table (guestView vm mem) t nr iovSize k next l := by
  induction fuel generalizing next k o with
  | zero => cases h
  | succ fuel ih =>
    simp only [indirectLoop, gpaToHvmVa_add, descAt_gpaToHvmVa] at h
    split at h
    · cases h
    · rename_i hflat
      split at h
      · cases h
      · rename_i hfit
        rw [Bool.not_eq_true] at hflat
        rw [Nat.not_le] at hfit
        split at h
        · rename_i hlast
          exact ⟨_, .last hflat hfit hlast⟩
        · rename_i n hnext
          split at h
          · cases h
          · rename_i hn
            obtain ⟨l, hl⟩ := ih h
            exact ⟨_, .more hflat hfit hnext (Nat.not_le.mp hn) hl⟩

theorem takeDesc_of_expands {g : Nat}
    (h : Expands (guestView vm mem) iovSize k g uses bufs) (hk : k < iovSize) (o : Descs) :
    ∃ o', takeDesc vm mem (descAt (guestView vm mem) g) k iovSize
        (o.use (gpaToHvmVa vm g) 16) = (.ok (k + bufs.length), o') ∧
      Grows vm mem uses bufs o o' := by
  cases h with
  | direct h =>
    refine ⟨_, ?_, (Grows.translate o g hk).count (descAt (guestView vm mem) g)⟩
    rw [takeDesc, if_neg (by rw [h]; decide)]
    rfl
  | indirect h hlen hpos htable =>
    obtain ⟨o', ho', hgrows⟩ := indirectLoop_of_table (descAt (guestView vm mem) g) htable
      (iovSize - k) (by omega) (o.use (gpaToHvmVa vm g) 16)
    refine ⟨o', ?_, (Grows.use o g).trans hgrows⟩
    rw [takeDesc, if_pos h, getIndirectBuf, if_neg (by simp [hlen, hpos])]
    simp only [ho', Except.map, Nat.add_sub_cancel_left]

theorem expands_of_takeDesc {g idx : Nat}
    (h : takeDesc vm mem (descAt (guestView vm mem) g) k iovSize o = (.ok idx, o')) :
    ∃ uses bufs, Expands (guestView vm mem) iovSize k g uses bufs := by
  rw [takeDesc] at h
  split at h
  · rename_i hind
    rw [getIndirectBuf] at h
    split at h
    · cases h
    · rename_i hlen
      rw [not_or, not_not] at hlen
      obtain ⟨l, hl⟩ : ∃ l, Table (guestView vm mem) (descAt (guestView vm mem) g).addr
          ((descAt (guestView vm mem) g).len / 16) iovSize k 0 l := by
        revert h
        dsimp only
        generalize hr : indirectLoop _ _ _ _ _ _ _ _ _ _ = r
        obtain ⟨_ | idx', o''⟩ := r
        · intro h
          cases h
        · intro _
          exact table_of_indirectLoop hr
      exact ⟨_, _, .indirect hind hlen.1 hlen.2 hl⟩
  · rename_i hflat
    exact ⟨_, _, .direct (Bool.not_eq_true _ ▸ hflat)⟩

variable {t num : Nat}

/-- The loop follows the chain of a queue. -/
theorem chainLoop_of_chain (h : Chain (guestView vm mem) t num iovSize k i uses bufs) (fuel : Nat)
    (hfuel : iovSize ≤ fuel + k) (o : Descs) :
    ∃ o', chainLoop vm mem (gpaToHvmVa vm t) num iovSize fuel i k o = (.ok (), o') ∧
      Grows vm mem uses bufs o o' := by
  induction h generalizing fuel o with
  | @last k i uses bufs hk hi hexp hlast =>
    obtain _ | fuel := fuel
    · omega
    · obtain ⟨o', ho', hgrows⟩ := takeDesc_of_expands hexp hk o
      refine ⟨o', ?_, hgrows⟩
      simp only [chainLoop, gpaToHvmVa_add, descAt_gpaToHvmVa, Nat.not_le.mpr hk,
        Nat.not_le.mpr hi, if_false, ho', hlast]
  | @more k i n uses bufs uses' bufs' hk hi hexp hnext hrest ih =>
    obtain _ | fuel := fuel
    · omega
    · obtain ⟨o₁, ho₁, hgrows₁⟩ := takeDesc_of_expands hexp hk o
      -- every descriptor adds a buffer, so one pass less is left
      have hpos : 0 < bufs.length := by
        cases hexp with
        | direct => exact Nat.one_pos
        | indirect _ _ _ htable =>
          cases htable <;> exact Nat.succ_pos _
      obtain ⟨o₂, ho₂, hgrows₂⟩ := ih fuel (by omega) o₁
      refine ⟨o₂, ?_, hgrows₁.trans hgrows₂⟩
      simp only [chainLoop, gpaToHvmVa_add, descAt_gpaToHvmVa, Nat.not_le.mpr hk,
        Nat.not_le.mpr hi, if_false, ho₁, hnext, ho₂]

/-- What the loop accepts is a chain of the queue. -/
theorem chain_of_chainLoop {fuel : Nat}
    (h : chainLoop vm mem (gpaToHvmVa vm t) num iovSize fuel i k o = (.ok (), o')) :
    ∃ uses bufs, Chain (guestView vm mem) t num iovSize k i uses bufs := by
  induction fuel generalizing i k o with
  | zero => cases h
  | succ fuel ih =>
    simp only [chainLoop, gpaToHvmVa_add, descAt_gpaToHvmVa] at h
    split at h
    · cases h
    · rename_i hk
      split at h
      · cases h
      · rename_i hi
        rw [Nat.not_le] at hk hi
        split at h
        · cases h
        · rename_i idx o₁ htake
          obtain ⟨uses, bufs, hexp⟩ := expands_of_takeDesc htake
          -- the relation fixes the index the loop goes on with
          obtain ⟨o₂, ho₂, -⟩ := takeDesc_of_expands hexp hk o
          rw [ho₂] at htake
          cases htake
          split at h
          · rename_i hlast
            exact ⟨_, _, .last hk hi hexp hlast⟩
          · rename_i n hnext
            obtain ⟨uses', bufs', hrest⟩ := ih h
            exact ⟨_, _, .more hk hi hexp hnext hrest⟩

end Loops

/-! ## A request -/

variable {g : Bytes} {num : Nat}

section Confinement

variable {vm : Vm} {mem : Bytes} {iovSize : Nat} (vq : VirtQueue) (t avail : Nat)

/-- The result is that of a request with these ring addresses and buffers. -/
structure Serves (vm : Vm) (uses : List (Nat × Nat)) (bufs : List VringDesc)
    (r : Except Errno Nat × Descs) : Prop where
  accepted : ∃ v, r.1 = .ok v
  uses_eq : r.2.uses = uses.map fun u => (gpaToHvmVa vm u.1, u.2)
  iov_eq : r.2.iov = bufs.map fun d => ⟨gpaToHvmVa vm d.addr, d.len⟩

theorem Chain.head_lt (h : Chain g t num iovSize k i uses bufs) : i < num := by
  cases h <;> assumption

/-- Every request of the guest is served. -/
theorem serves_of_request (hdesc : vq.desc = gpaToHvmVa vm t)
    (havail : vq.avail = gpaToHvmVa vm avail) {uses : List (Nat × Nat)} {bufs : List VringDesc}
    (h : Request (guestView vm mem) vq.num t avail vq.lastAvailIdx iovSize uses bufs) :
    Serves vm uses bufs (virtqGetDescs vm mem vq iovSize).1 := by
  cases h with
  | none h =>
    unfold pending at h
    simp only [virtqGetDescs, havail, gpaToHvmVa_add, readLe_gpaToHvmVa, h, if_true]
    exact ⟨⟨_, rfl⟩, rfl, rfl⟩
  | @chain uses bufs h hcount hchain =>
    obtain ⟨o', ho', hgrows⟩ := chainLoop_of_chain hchain iovSize (by omega)
      (Descs.use ⟨[], 0, 0, [(gpaToHvmVa vm (u64 (avail + 2)), 2)]⟩
        (gpaToHvmVa vm (availSlot avail vq.num vq.lastAvailIdx)) 2)
    have hhead := hchain.head_lt
    unfold pending at h hcount
    unfold availSlot at ho' hhead
    simp only [virtqGetDescs, hdesc, havail, gpaToHvmVa_add, readLe_gpaToHvmVa, h, if_false,
      Nat.not_lt.mpr hcount, Nat.not_le.mpr hhead, ho']
    refine ⟨⟨_, rfl⟩, ?_, ?_⟩
    · rw [hgrows.uses_eq, List.map_cons, List.map_cons, List.map_map]
      rfl
    · rw [hgrows.iov_eq, List.map_map]
      rfl

/-- What is not rejected is a request of the guest. -/
theorem request_of_accepted (hdesc : vq.desc = gpaToHvmVa vm t)
    (havail : vq.avail = gpaToHvmVa vm avail) {v : Nat}
    (h : (virtqGetDescs vm mem vq iovSize).1.1 = .ok v) :
    ∃ uses bufs,
      Request (guestView vm mem) vq.num t avail vq.lastAvailIdx iovSize uses bufs := by
  simp only [virtqGetDescs, hdesc, havail, gpaToHvmVa_add, readLe_gpaToHvmVa] at h
  split at h
  · rename_i hnone
    exact ⟨_, _, .none hnone⟩
  · rename_i hsome
    split at h
    · cases h
    · rename_i hcount
      split at h
      · cases h
      · split at h
        · cases h
        · rename_i u o' hloop
          obtain ⟨uses, bufs, hchain⟩ := chain_of_chainLoop hloop
          exact ⟨_, _, .chain hsome (Nat.not_lt.mp hcount) hchain⟩

theorem Serves.confined_iff {uses : List (Nat × Nat)} {bufs : List VringDesc}
    {r : Except Errno Nat × Descs} (h : Serves vm uses bufs r)
    (huses : ∀ u ∈ uses, u.1 < 2 ^ 64) (hbufs : ∀ d ∈ bufs, d.addr < 2 ^ 64) :
    Confined vm r ↔
      (∀ u ∈ uses, InGuest vm u.1 u.2) ∧ ∀ d ∈ bufs, InGuest vm d.addr d.len := by
  obtain ⟨v, hv⟩ := h.accepted
  have hconf : Confined vm r ↔
      (∀ u ∈ r.2.uses, Inside vm u.1 u.2) ∧ ∀ v ∈ r.2.iov, Inside vm v.base v.len :=
    ⟨fun hc => hc v hv, fun hc _ _ => hc⟩
  rw [hconf, h.uses_eq, h.iov_eq, List.forall_mem_map, List.forall_mem_map]
  apply and_congr
  · exact forall₂_congr fun u hu => inside_gpaToHvmVa_iff vm (huses u hu) u.2
  · exact forall₂_congr fun d hd => inside_gpaToHvmVa_iff vm (hbufs d hd) d.len

theorem Table.addr_lt {l : List Nat}
    (h : Table g t nr iovSize k next l) : ∀ a ∈ l, a < 2 ^ 64 := by
  induction h with
  | last => exact List.forall_mem_singleton.mpr (u64_lt _)
  | more _ _ _ _ _ ih => exact List.forall_mem_cons.mpr ⟨u64_lt _, ih⟩

theorem Expands.addr_lt {a : Nat}
    (h : Expands g iovSize k a uses bufs) (ha : a < 2 ^ 64) : ∀ a ∈ uses, a < 2 ^ 64 := by
  cases h with
  | direct => exact List.forall_mem_singleton.mpr ha
  | indirect _ _ _ htable => exact List.forall_mem_cons.mpr ⟨ha, htable.addr_lt⟩

theorem Chain.addr_lt (h : Chain g t num iovSize k i uses bufs) : ∀ a ∈ uses, a < 2 ^ 64 := by
  induction h with
  | last _ _ hexp => exact hexp.addr_lt (u64_lt _)
  | more _ _ hexp _ _ ih =>
    exact List.forall_mem_append.mpr ⟨hexp.addr_lt (u64_lt _), ih⟩

theorem Request.uses_lt {avail : Nat} {last : BitVec 16}
    {uses : List (Nat × Nat)} {bufs : List VringDesc}
    (h : Request g num t avail last iovSize uses bufs) : ∀ u ∈ uses, u.1 < 2 ^ 64 := by
  cases h with
  | none => exact List.forall_mem_singleton.mpr (u64_lt _)
  | chain _ _ hchain =>
    refine List.forall_mem_cons.mpr ⟨u64_lt _, List.forall_mem_cons.mpr ⟨u64_lt _, ?_⟩⟩
    exact List.forall_mem_map.mpr hchain.addr_lt

theorem Request.bufs_lt {avail : Nat} {last : BitVec 16}
    {uses : List (Nat × Nat)} {bufs : List VringDesc}
    (h : Request g num t avail last iovSize uses bufs) : ∀ d ∈ bufs, d.addr < 2 ^ 64 := by
  cases h with
  | none => exact fun _ hd => absurd hd List.not_mem_nil
  | chain => exact List.forall_mem_map.mpr fun a _ => descAt_addr_lt g a

/-- **Confinement.** For all registers and all memory, and whatever the queue
has already handed out: a call of `virtq_get_descs` stays in the memory of
the guest, or rejects the request, exactly if the request lies there. -/
theorem virtq_get_descs_confined_iff (vm : Vm) (mem : Bytes) (regs : QueueRegs)
    (last : BitVec 16) (iovSize : Nat) :
    Confined vm
        (virtqGetDescs vm mem { virtioBufferEvent vm regs with lastAvailIdx := last } iovSize).1 ↔
      RequestInGuest vm mem regs last iovSize := by
  constructor
  · intro hconf uses bufs hreq
    have hserves := serves_of_request
      { virtioBufferEvent vm regs with lastAvailIdx := last } _ _ rfl rfl hreq
    exact (hserves.confined_iff hreq.uses_lt hreq.bufs_lt).mp hconf
  · intro hguest v hv
    obtain ⟨uses, bufs, hreq⟩ := request_of_accepted _
      (u32ToU64 regs.descHigh regs.descLow) (u32ToU64 regs.availHigh regs.availLow) rfl rfl hv
    have hserves := serves_of_request
      { virtioBufferEvent vm regs with lastAvailIdx := last } _ _ rfl rfl hreq
    exact (hserves.confined_iff hreq.uses_lt hreq.bufs_lt).mpr (hguest uses bufs hreq) v hv

end Confinement

/-! ## A buffer outside -/

/-- 2 MiB of guest memory at `0x8000_0000`. -/
def smallVm : Vm where
  mmap := 0x7f0000000000
  memStart := 0x80000000
  memSize := 0x200000
  mmap_end := by decide
  mem_end := by decide

/-- Eight descriptors at `0x8000_0000`, rings behind them. -/
def smallRegs : QueueRegs := ⟨8, 0, 0x80000000, 0, 0x80001000, 0, 0x80002000⟩

/-- One request is available, for a buffer of a page at guest address `0`:
a descriptor of zeroes up to its length. -/
def strayBuffer : Bytes := fun a =>
  if a = 0x7f0000001002 then 1 else if a = 0x7f0000000009 then 0x10 else 0

/-- The buffer is handed to the device: it begins 2 GiB below the mapping. -/
theorem virtq_get_descs_stray :
    (virtqGetDescs smallVm strayBuffer (virtioBufferEvent smallVm smallRegs) 4).1.2.iov =
        [⟨0x7eff80000000, 0x1000⟩] ∧
      ¬ Confined smallVm
        (virtqGetDescs smallVm strayBuffer (virtioBufferEvent smallVm smallRegs) 4).1 := by
  have hret : (virtqGetDescs smallVm strayBuffer (virtioBufferEvent smallVm smallRegs) 4).1.1 =
      .ok 0 := by decide +kernel
  have hiov : (virtqGetDescs smallVm strayBuffer (virtioBufferEvent smallVm smallRegs) 4).1.2.iov =
      [⟨0x7eff80000000, 0x1000⟩] := by decide +kernel
  refine ⟨hiov, fun hconf => ?_⟩
  have hin := (hconf 0 hret).2
  rw [hiov, List.forall_mem_singleton] at hin
  revert hin
  decide

end Minos.Mvm
