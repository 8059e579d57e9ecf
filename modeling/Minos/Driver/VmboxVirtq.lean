import Minos.Core.Errno
import Minos.Lib.Ring
import Minos.Lib.Run
import Minos.Lib.Word
import Mathlib.Data.List.Iterate
import Mathlib.Data.List.Nodup
import Mathlib.Data.List.Perm.Basic
import Mathlib.Data.Nat.Bitwise

/-!
# Virtqueue of a vmbox

`vmbox/vmbox_virtq.c` of the Linux driver: a ring of descriptors in memory
shared by two VMs. The producer takes descriptors from a free list that runs
through their `next` fields, links them into a chain and makes the chain
available; the consumer fetches it, and later returns it as used; the
producer then reclaims it. The four indices run freely in 16 bits.

A call of either side is one step. The peer is well behaved: it writes to no
descriptor, and returns as used only chains that it fetched and has not
returned. What has been made available, fetched, returned and reclaimed
since the start is recorded in lists, as the loops of the four functions saw
it in memory.
-/

namespace Minos.Virtq

open Minos.Lib

/-! ## Data -/

/-- `struct vmbox_vring_buf`, without its address, which follows from the
number. -/
structure VringBuf where
  id : Nat
  size : Nat
  deriving DecidableEq, Repr

def vringDescFNext : BitVec 16 := 1
def vringDescFWrite : BitVec 16 := 2
def vringDescFIndirect : BitVec 16 := 4
def vringAvailFNoInterrupt : BitVec 16 := 1

structure VringDesc where
  addr : Nat
  len : Nat
  flags : BitVec 16
  next : Nat
  deriving DecidableEq, Repr

def VringDesc.hasNext (d : VringDesc) : Bool := d.flags &&& vringDescFNext != 0
def VringDesc.isIndirect (d : VringDesc) : Bool := d.flags &&& vringDescFIndirect != 0

/-- `vmbox_translate_desc`. -/
def VringDesc.translate (d : VringDesc) : VringBuf := ⟨d.addr, d.len⟩

structure VringUsedElem where
  id : Nat
  len : Nat
  deriving DecidableEq, Repr

/-- A chain: its descriptors, and the buffers in them. -/
structure Chain where
  descs : List Nat
  bufs : List VringBuf
  deriving DecidableEq, Repr

def Chain.head (c : Chain) : Nat := c.descs.headD 0

/-- The shared memory, the `struct vmbox_virtqueue` of the producer and of
the consumer, and the chains of the past. -/
structure Sys where
  desc : Nat → VringDesc
  availRing : Nat → Nat
  availIdx : Nat
  usedEvent : Nat
  usedRing : Nat → VringUsedElem
  usedIdx : Nat
  availEvent : Nat
  -- producer
  broken : Bool
  freeHead : Nat
  numFree : Nat
  numAdded : Nat
  lastAvailIdx : Nat
  lastUsedIdx : Nat
  availFlags : BitVec 16
  -- consumer
  peerAvailIdx : Nat
  peerLastAvailIdx : Nat
  peerLastUsedIdx : Nat
  usedFlags : BitVec 16
  signalledUsed : Nat
  signalledUsedValid : Bool
  -- history
  added : List Chain
  fetched : List Chain
  held : List Chain
  returned : List Chain
  reclaimed : List Chain

/-- `vmbox_virtq_init` on zeroed memory, for a queue of `num` descriptors. -/
def vmboxVirtqInit (num : Nat) : Sys where
  desc := fun i => ⟨0, 0, 0, if i < num - 1 then i + 1 else 0⟩
  availRing := fun _ => 0
  availIdx := 0
  usedEvent := 0
  usedRing := fun _ => ⟨0, 0⟩
  usedIdx := 0
  availEvent := 0
  broken := false
  freeHead := 0
  numFree := num
  numAdded := 0
  lastAvailIdx := 0
  lastUsedIdx := 0
  availFlags := 0
  peerAvailIdx := 0
  peerLastAvailIdx := 0
  peerLastUsedIdx := 0
  usedFlags := 0
  signalledUsed := 0
  signalledUsedValid := false
  added := []
  fetched := []
  held := []
  returned := []
  reclaimed := []

/-! ## Producer -/

/-- The flags of a descriptor of a chain that goes on. -/
def bufFlags (write : Bool) : BitVec 16 :=
  if write then vringDescFNext ||| vringDescFWrite else vringDescFNext

/-- The two loops of `vmbox_virtq_add_buf`, over the buffers still to place;
a buffer of the second loop is marked. The results are `desc`, `i` and
`prev`. -/
def fillDescs : List (VringBuf × Bool) → (Nat → VringDesc) → Nat → Nat →
    (Nat → VringDesc) × Nat × Nat
  | [], desc, i, prev => (desc, i, prev)
  | (b, write) :: bs, desc, i, _ =>
    fillDescs bs
      (Function.update desc i
        { desc i with flags := bufFlags write, len := b.size, addr := b.id })
      (desc i).next i

/-- `desc[prev].flags &= ~VRING_DESC_F_NEXT`. -/
def endChain (desc : Nat → VringDesc) (prev : Nat) : Nat → VringDesc :=
  Function.update desc prev
    { desc prev with flags := (desc prev).flags &&& ~~~ vringDescFNext }

/-- `n` descriptors along the `next` fields. -/
def descList (desc : Nat → VringDesc) (head n : Nat) : List Nat :=
  List.iterate (fun d => (desc d).next) head n

/-- `vmbox_virtq_add_buf`; the device is notified of a full queue. -/
def vmboxVirtqAddBuf (num : Nat) (s : Sys) (outs ins : List VringBuf) :
    Except Errno Nat × Sys :=
  let cnt := outs.length + ins.length
  if s.broken then (.error .eio, s)
  else if cnt = 0 then (.error .einval, s)
  else if s.numFree < cnt then (.error .enospc, s)
  else
    let head := s.freeHead
    let bufs := outs.map (·, false) ++ ins.map (·, true)
    let (desc, i, prev) := fillDescs bufs s.desc head 0
    let lastAvailIdx := u16 (s.lastAvailIdx + 1)
    (.ok head,
      { s with
        desc := endChain desc prev
        numFree := s.numFree - cnt
        freeHead := i
        availRing := Function.update s.availRing (s.lastAvailIdx &&& (num - 1)) head
        lastAvailIdx := lastAvailIdx
        availIdx := lastAvailIdx
        numAdded := s.numAdded + 1
        added := s.added ++ [⟨descList s.desc head cnt, outs ++ ins⟩] })

/-- The loop of `vmbox_virtq_get_used_bufs`, with room for this many buffers:
the descriptors visited, and whether the chain ended in time. -/
def usedLoop (desc : Nat → VringDesc) : Nat → Nat → List Nat × Bool
  | 0, _ => ([], false)
  | room + 1, m =>
    if (desc m).hasNext then
      let r := usedLoop desc room (desc m).next
      (m :: r.1, r.2)
    else ([m], true)

/-- `vmbox_virtq_get_used_bufs`: the head and the buffers. `num_free` has
been counted up for every descriptor visited, also on the way to an
error. -/
def vmboxVirtqGetUsedBufs (num : Nat) (s : Sys) (cnt : Nat) :
    Except Errno (Nat × List VringBuf) × Sys :=
  if s.broken then (.error .eio, s)
  else if s.lastUsedIdx = s.usedIdx then (.error .enospc, s)
  else
    let i := (s.usedRing (s.lastUsedIdx &&& (num - 1))).id
    let r := usedLoop s.desc cnt i
    let s := { s with numFree := s.numFree + r.1.length }
    if r.2 then
      let m := r.1.getLastD i
      let lastUsedIdx := u16 (s.lastUsedIdx + 1)
      let bufs := r.1.map fun d => (s.desc d).translate
      (.ok (i, bufs),
        { s with
          desc := Function.update s.desc m { s.desc m with next := s.freeHead }
          freeHead := i
          lastUsedIdx := lastUsedIdx
          usedEvent := if s.availFlags &&& vringAvailFNoInterrupt = 0 then lastUsedIdx
            else s.usedEvent
          reclaimed := s.reclaimed ++ [⟨r.1, bufs⟩] })
    else (.error .enospc, s)

/-! ## Consumer -/

/-- The loop of `vmbox_virtq_get_avail_bufs`. -/
def availLoop (num : Nat) (desc : Nat → VringDesc) : Nat → Nat → Except Errno (List Nat)
  | 0, _ => .error .einval
  | room + 1, i =>
    if num ≤ i then .error .einval
    else if (desc i).isIndirect then .error .einval
    else if (desc i).hasNext then
      match availLoop num desc room (desc i).next with
      | .error e => .error e
      | .ok ds => .ok (i :: ds)
    else .ok [i]

/-- `vmbox_virtq_get_avail_bufs`. -/
def vmboxVirtqGetAvailBufs (num : Nat) (s : Sys) (cnt : Nat) :
    Except Errno (Nat × List VringBuf) × Sys :=
  let s := { s with peerAvailIdx := s.availIdx }
  let count := sub16 s.availIdx s.peerLastAvailIdx
  if count = 0 then (.error .enospc, s)
  else if num < count then (.error .einval, s)
  else
    let head := s.availRing (s.peerLastAvailIdx &&& (num - 1))
    if num ≤ head then (.error .einval, s)
    else
      match availLoop num s.desc cnt head with
      | .error e => (.error e, s)
      | .ok ds =>
        let bufs := ds.map fun d => (s.desc d).translate
        let lastAvailIdx := u16 (s.peerLastAvailIdx + 1)
        (.ok (head, bufs),
          { s with
            peerLastAvailIdx := lastAvailIdx
            availEvent := if s.usedFlags &&& vringAvailFNoInterrupt = 0 then lastAvailIdx
              else s.availEvent
            fetched := s.fetched ++ [⟨ds, bufs⟩]
            held := s.held ++ [⟨ds, bufs⟩] })

/-- `__vmbox_virtq_add_used_n` for one element. -/
def addUsedOne (num : Nat) (s : Sys) (elem : VringUsedElem) : Sys :=
  let old := s.peerLastUsedIdx
  let new := u16 (old + 1)
  { s with
    usedRing := Function.update s.usedRing (old &&& (num - 1)) elem
    peerLastUsedIdx := new
    signalledUsedValid :=
      if sub16 new s.signalledUsed < sub16 new old then false else s.signalledUsedValid }

/-- `vmbox_virtq_add_used`, of the chain `c` that the consumer holds. -/
def vmboxVirtqAddUsed (num : Nat) (s : Sys) (c : Chain) (len : Nat) : Sys :=
  let s := addUsedOne num s ⟨c.head, len⟩
  { s with
    usedIdx := s.peerLastUsedIdx
    held := s.held.erase c
    returned := s.returned ++ [c] }

/-! ## Interleavings -/

inductive Event
  | addBuf (outs ins : List VringBuf)
  | getUsedBufs (cnt : Nat)
  | getAvailBufs (cnt : Nat)
  | addUsed (head len : Nat)
  deriving DecidableEq, Repr

/-- The consumer returns chains that it holds, by their heads. -/
def virtqStep (num : Nat) (s : Sys) : Event → Option Sys
  | .addBuf outs ins => some (vmboxVirtqAddBuf num s outs ins).2
  | .getUsedBufs cnt => some (vmboxVirtqGetUsedBufs num s cnt).2
  | .getAvailBufs cnt => some (vmboxVirtqGetAvailBufs num s cnt).2
  | .addUsed head len =>
    (s.held.find? fun c => c.head == head).map fun c => vmboxVirtqAddUsed num s c len

/-- The call has room for the chain that it gets. -/
def Room (s : Sys) : Event → Prop
  | .getAvailBufs cnt => ∀ c ∈ s.added[s.fetched.length]?, c.bufs.length ≤ cnt
  | .getUsedBufs cnt => ∀ c ∈ s.returned[s.reclaimed.length]?, c.bufs.length ≤ cnt
  | _ => True

instance (s : Sys) : (e : Event) → Decidable (Room s e)
  | .getAvailBufs cnt =>
    inferInstanceAs (Decidable (∀ c ∈ s.added[s.fetched.length]?, c.bufs.length ≤ cnt))
  | .getUsedBufs cnt =>
    inferInstanceAs (Decidable (∀ c ∈ s.returned[s.reclaimed.length]?, c.bufs.length ≤ cnt))
  | .addBuf _ _ | .addUsed _ _ => inferInstanceAs (Decidable True)

/-! ## What the queue promises -/

/-- The free list: `num_free` descriptors from `free_head` on. -/
def freeList (s : Sys) : List Nat := descList s.desc s.freeHead s.numFree

/-- The chains that are available, held by the consumer, or used. -/
def inFlight (s : Sys) : List Chain :=
  s.added.drop s.fetched.length ++ s.held ++ s.returned.drop s.reclaimed.length

/-- The descriptors are linked, end there and hold the buffers. -/
inductive IsChain (desc : Nat → VringDesc) : List Nat → List VringBuf → Prop
  | last {d : Nat} {b : VringBuf} (hbuf : (desc d).translate = b)
      (hind : (desc d).isIndirect = false) (hnext : (desc d).hasNext = false) :
      IsChain desc [d] [b]
  | cons {d d' : Nat} {ds : List Nat} {b : VringBuf} {bs : List VringBuf}
      (hbuf : (desc d).translate = b) (hind : (desc d).isIndirect = false)
      (hnext : (desc d).hasNext = true) (hd : (desc d).next = d')
      (hrest : IsChain desc (d' :: ds) bs) : IsChain desc (d :: d' :: ds) (b :: bs)

/-- The free list and the chains in flight are a partition of the
descriptors, so `num_free` is the number of those not in flight. Chains are
fetched as they were made available, each once and in that order; the
consumer still holds what it fetched and has not returned; what it returned
is reclaimed, each chain once and in the order of the returns; and the
oldest chain that is available or used is the one the next call gets. -/
structure QueueOk (num : Nat) (s : Sys) : Prop where
  partition : (freeList s ++ (inFlight s).flatMap Chain.descs).Perm (List.range num)
  chains : ∀ c ∈ inFlight s, IsChain s.desc c.descs c.bufs
  fetched : s.fetched <+: s.added
  held : (s.returned ++ s.held).Perm s.fetched
  reclaimed : s.reclaimed <+: s.returned
  nextAvail : ∀ c, s.added[s.fetched.length]? = some c → ∀ cnt, c.bufs.length ≤ cnt →
    (vmboxVirtqGetAvailBufs num s cnt).1 = .ok (c.head, c.bufs)
  nextUsed : ∀ c, s.returned[s.reclaimed.length]? = some c → ∀ cnt, c.bufs.length ≤ cnt →
    (vmboxVirtqGetUsedBufs num s cnt).1 = .ok (c.head, c.bufs)

/-! ## Chains of descriptors -/

variable {n : Nat}
variable {num : Nat}

section Chains

variable {desc desc' : Nat → VringDesc} {ds : List Nat} {bs : List VringBuf}

theorem descList_congr {h : Nat} (hnext : ∀ d, (desc' d).next = (desc d).next) :
    descList desc' h n = descList desc h n := by
  unfold descList
  rw [show (fun d => (desc' d).next) = fun d => (desc d).next from funext hnext]

theorem descList_congr_of_mem {h : Nat}
    (hnext : ∀ d ∈ descList desc h n, (desc' d).next = (desc d).next) :
    descList desc' h n = descList desc h n := by
  induction n generalizing h with
  | zero => rfl
  | succ n ih =>
    have hh : (desc' h).next = (desc h).next := hnext h List.mem_cons_self
    have hrest := ih (h := (desc h).next) fun d hd => hnext d (List.mem_cons_of_mem _ hd)
    unfold descList at hrest ⊢
    rw [List.iterate, List.iterate, hh, hrest]

theorem IsChain.length_pos (h : IsChain desc ds bs) : 0 < ds.length := by
  cases h <;> simp

theorem IsChain.translate (h : IsChain desc ds bs) :
    (ds.map fun d => (desc d).translate) = bs := by
  induction h with
  | last hbuf _ _ => simp [hbuf]
  | cons hbuf _ _ _ _ ih => rw [List.map_cons, hbuf, ih]

theorem IsChain.congr (h : IsChain desc ds bs) (hdesc : ∀ d ∈ ds, desc' d = desc d) :
    IsChain desc' ds bs := by
  induction h with
  | last hbuf hind hnext =>
    have hd := hdesc _ List.mem_cons_self
    exact .last (by rw [hd]; exact hbuf) (by rw [hd]; exact hind) (by rw [hd]; exact hnext)
  | cons hbuf hind hnext hlink _ ih =>
    have hd := hdesc _ List.mem_cons_self
    refine .cons (by rw [hd]; exact hbuf) (by rw [hd]; exact hind) (by rw [hd]; exact hnext)
      (by rw [hd]; exact hlink) (ih fun d hd' => hdesc d (List.mem_cons_of_mem _ hd'))

theorem IsChain.length_eq (h : IsChain desc ds bs) : ds.length = bs.length := by
  rw [← h.translate, List.length_map]

/-- The producer's loop sees the chain, as far as it has room. -/
theorem IsChain.usedLoop (h : IsChain desc ds bs) (room : Nat) :
    usedLoop desc room (ds.headD 0) = (ds.take room, decide (bs.length ≤ room)) := by
  induction h generalizing room with
  | last _ _ hnext => cases room <;> simp [Virtq.usedLoop, hnext]
  | cons _ _ hnext hlink _ ih =>
    obtain _ | room := room
    · rfl
    have hrest := ih room
    rw [List.headD_cons] at hrest
    simp [Virtq.usedLoop, hnext, hlink, hrest]

/-- The consumer's loop sees a chain that it has room for. -/
theorem IsChain.availLoop (h : IsChain desc ds bs) (hlt : ∀ d ∈ ds, d < num) (room : Nat) :
    availLoop num desc room (ds.headD 0) =
      if bs.length ≤ room then .ok ds else .error .einval := by
  induction h generalizing room with
  | last _ hind hnext =>
    have hd := Nat.not_le_of_lt (hlt _ List.mem_cons_self)
    cases room <;> simp [Virtq.availLoop, hnext, hind, hd]
  | @cons _ _ _ _ bs _ hind hnext hlink _ ih =>
    obtain _ | room := room
    · rfl
    have hd := Nat.not_le_of_lt (hlt _ List.mem_cons_self)
    have hrest := ih (fun x hx => hlt x (List.mem_cons_of_mem _ hx)) room
    rw [List.headD_cons] at hrest
    by_cases hroom : bs.length ≤ room <;>
      simp [Virtq.availLoop, hnext, hind, hd, hlink, hrest, hroom]

/-- A reclaimed chain whose end points to `h` comes before the list from
`h` on. -/
theorem IsChain.descList_reclaim (h : IsChain desc ds bs) (hnodup : ds.Nodup) (head n : Nat) :
    descList (Function.update desc (ds.getLastD 0) { desc (ds.getLastD 0) with next := head })
        (ds.headD 0) (ds.length + n)
      = ds ++ descList (Function.update desc (ds.getLastD 0)
          { desc (ds.getLastD 0) with next := head }) head n := by
  induction h with
  | @last d b _ _ _ =>
    rw [List.length_singleton, Nat.add_comm, show [d].getLastD 0 = d from rfl]
    simp [descList, List.iterate]
  | @cons d d' ds b bs _ _ _ hlink hrest ih =>
    have hlast : (d :: d' :: ds).getLastD 0 = (d' :: ds).getLastD 0 := by simp
    obtain ⟨hd, hnodup'⟩ := List.nodup_cons.mp hnodup
    have hne : d ≠ (d' :: ds).getLastD 0 := by
      intro heq
      refine hd ?_
      rw [heq, List.getLastD_cons]
      exact List.getLastD_mem_cons
    specialize ih hnodup'
    rw [List.headD_cons] at ih ⊢
    rw [hlast, List.length_cons, Nat.add_right_comm, List.cons_append, ← ih]
    simp only [descList, List.iterate, Function.update_of_ne hne, hlink]

end Chains

/-! ## Filling descriptors -/

section Fill

variable {desc : Nat → VringDesc}

theorem bufFlags_hasNext (write : Bool) (d : VringDesc) :
    ({ d with flags := bufFlags write } : VringDesc).hasNext = true ∧
      ({ d with flags := bufFlags write } : VringDesc).isIndirect = false ∧
      ({ d with flags := bufFlags write &&& ~~~ vringDescFNext } : VringDesc).hasNext = false ∧
      ({ d with flags := bufFlags write &&& ~~~ vringDescFNext } : VringDesc).isIndirect
        = false := by
  unfold VringDesc.hasNext VringDesc.isIndirect
  dsimp only
  cases write <;> decide

theorem next_update {i : Nat} {x : VringDesc} (hx : x.next = (desc i).next) (d : Nat) :
    (Function.update desc i x d).next = (desc d).next := by
  by_cases hd : d = i
  · subst hd
    rw [Function.update_self, hx]
  · rw [Function.update_of_ne hd]

theorem endChain_next (desc : Nat → VringDesc) (prev d : Nat) :
    (endChain desc prev d).next = (desc d).next := by
  refine next_update ?_ d
  rfl

theorem endChain_of_ne {prev d : Nat} (h : d ≠ prev) : endChain desc prev d = desc d :=
  Function.update_of_ne h _ _

/-- The loops leave the `next` fields alone, and link the first descriptors
of the free list. -/
theorem fillDescs_spec {bufs : List (VringBuf × Bool)} (hbufs : bufs ≠ []) :
    ∀ (desc : Nat → VringDesc) (i prev : Nat), (descList desc i bufs.length).Nodup →
      (∀ d, ((fillDescs bufs desc i prev).1 d).next = (desc d).next) ∧
      (∀ d, d ∉ descList desc i bufs.length → (fillDescs bufs desc i prev).1 d = desc d) ∧
      (fillDescs bufs desc i prev).2.1 = (fun d => (desc d).next)^[bufs.length] i ∧
      (fillDescs bufs desc i prev).2.2 ∈ descList desc i bufs.length ∧
      IsChain (endChain (fillDescs bufs desc i prev).1 (fillDescs bufs desc i prev).2.2)
        (descList desc i bufs.length) (bufs.map Prod.fst) := by
  induction bufs with
  | nil => exact absurd rfl hbufs
  | cons bw bufs ih =>
    obtain ⟨b, write⟩ := bw
    intro desc i prev hnodup
    let desc₁ := Function.update desc i
      { desc i with flags := bufFlags write, len := b.size, addr := b.id }
    have hnext₁ : ∀ d, (desc₁ d).next = (desc d).next := next_update rfl
    have hstep : fillDescs ((b, write) :: bufs) desc i prev
        = fillDescs bufs desc₁ (desc i).next i := rfl
    rw [hstep]
    obtain ⟨hlast, hlink, hend, hend'⟩ := bufFlags_hasNext write
      { desc i with len := b.size, addr := b.id }
    by_cases hnil : bufs = []
    · -- the last buffer: its descriptor ends the chain
      subst hnil
      have hone : descList desc i [(b, write)].length = [i] := rfl
      rw [hone]
      refine ⟨hnext₁, fun d hd => ?_, rfl, List.mem_singleton_self i, ?_⟩
      · exact Function.update_of_ne (fun h => hd (List.mem_singleton.mpr h)) _ _
      · refine .last ?_ ?_ ?_ <;>
          simp only [fillDescs, endChain, desc₁, Function.update_self]
        · rfl
        · exact hend'
        · exact hend
    · have hlist : descList desc i ((b, write) :: bufs).length
          = i :: descList desc₁ (desc i).next bufs.length := by
        rw [descList_congr hnext₁]
        rfl
      rw [hlist] at hnodup ⊢
      obtain ⟨hi, hnodup'⟩ := List.nodup_cons.mp hnodup
      obtain ⟨hn, ho, hi', hp, hc⟩ := ih hnil desc₁ (desc i).next i hnodup'
      have hprev : i ≠ (fillDescs bufs desc₁ (desc i).next i).2.2 :=
        (ne_of_mem_of_not_mem hp hi).symm
      have hdi : endChain (fillDescs bufs desc₁ (desc i).next i).1
          (fillDescs bufs desc₁ (desc i).next i).2.2 i = desc₁ i := by
        rw [endChain_of_ne hprev, ho i hi]
      refine ⟨fun d => (hn d).trans (hnext₁ d), fun d hd => ?_, ?_, List.mem_cons_of_mem _ hp, ?_⟩
      · obtain ⟨hdi', hd'⟩ := not_or.mp (fun h => hd (List.mem_cons.mpr h))
        rw [ho d hd']
        exact Function.update_of_ne hdi' _ _
      · rw [hi', show (fun d => (desc₁ d).next) = fun d => (desc d).next from funext hnext₁]
        rfl
      · -- the descriptor before a chain
        obtain ⟨bufs₁, rest, rfl⟩ : ∃ x y, bufs = x :: y := List.exists_cons_of_ne_nil hnil
        rw [List.length_cons] at hc ⊢
        refine .cons ?_ ?_ ?_ ?_ hc <;> rw [hdi] <;> simp only [desc₁, Function.update_self]
        · rfl
        · exact hlink
        · exact hlast

end Fill

/-! ## Invariant -/

/-- The sizes a queue can have. -/
def QueueSize (num : Nat) : Prop := ∃ k, k ≤ 15 ∧ num = 2 ^ k

theorem QueueSize.le (h : QueueSize num) : num ≤ 2 ^ 15 := by
  obtain ⟨k, hk, rfl⟩ := h
  exact Nat.pow_le_pow_right (by decide) hk

theorem QueueSize.slot (h : QueueSize num) (n : Nat) :
    u16 n &&& (num - 1) = n % num := by
  obtain ⟨k, hk, rfl⟩ := h
  rw [Nat.and_two_pow_sub_one_eq_mod]
  exact Nat.mod_mod_of_dvd n (Nat.pow_dvd_pow 2 (by omega))

theorem sub16_u16 {a b : Nat} (hle : b ≤ a) (hlt : a - b < 2 ^ 16) :
    sub16 (u16 a) (u16 b) = a - b := by
  unfold sub16 u16
  omega

/-- A ring holds the heads of the chains of `l` that come after `done`. -/
structure RingOk (num : Nat) (buf : Nat → Nat) (l done : List Chain) : Prop where
  pre : done <+: l
  heads : ringList buf num done.length (l.length - done.length)
    = (l.drop done.length).map Chain.head

/-- The promises, and how the indices and the rings record the chains. -/
structure Inv (num : Nat) (s : Sys) : Prop where
  partition : (freeList s ++ (inFlight s).flatMap Chain.descs).Perm (List.range num)
  chains : ∀ c ∈ inFlight s, IsChain s.desc c.descs c.bufs
  avail : RingOk num s.availRing s.added s.fetched
  held : (s.returned ++ s.held).Perm s.fetched
  used : RingOk num (fun i => (s.usedRing i).id) s.returned s.reclaimed
  working : s.broken = false
  availIdx : s.lastAvailIdx = u16 s.added.length ∧ s.availIdx = u16 s.added.length
  fetchedIdx : s.peerLastAvailIdx = u16 s.fetched.length
  usedIdx : s.peerLastUsedIdx = u16 s.returned.length ∧ s.usedIdx = u16 s.returned.length
  reclaimedIdx : s.lastUsedIdx = u16 s.reclaimed.length

variable {c : Chain}

section Inv

variable {num : Nat} {s : Sys}

theorem length_le_flatMap {l : List Chain} (h : ∀ c ∈ l, 0 < c.descs.length) :
    l.length ≤ (l.flatMap Chain.descs).length := by
  induction l with
  | nil => exact Nat.zero_le _
  | cons c l ih =>
    obtain ⟨hc, hl⟩ := List.forall_mem_cons.mp h
    have := ih hl
    simp only [List.flatMap_cons, List.length_append, List.length_cons]
    omega

theorem Inv.count (h : Inv num s) : (inFlight s).length + s.numFree ≤ num := by
  have hpos := length_le_flatMap fun c hc => (h.chains c hc).length_pos
  have hlen := h.partition.length_eq
  simp only [List.length_append, List.length_range, freeList, descList,
    List.length_iterate] at hlen
  omega

theorem Inv.avail_count (h : Inv num s) :
    s.fetched.length ≤ s.added.length ∧
      s.added.length - s.fetched.length + s.numFree ≤ num := by
  have hcount := h.count
  simp only [inFlight, List.length_append, List.length_drop] at hcount
  exact ⟨h.avail.pre.length_le, by omega⟩

theorem Inv.used_count (h : Inv num s) :
    s.reclaimed.length ≤ s.returned.length ∧
      s.returned.length - s.reclaimed.length ≤ num := by
  have hcount := h.count
  simp only [inFlight, List.length_append, List.length_drop] at hcount
  exact ⟨h.used.pre.length_le, by omega⟩

theorem Inv.nodup (h : Inv num s) :
    (freeList s ++ (inFlight s).flatMap Chain.descs).Nodup :=
  h.partition.nodup_iff.mpr List.nodup_range

theorem Inv.desc_lt (h : Inv num s) (hc : c ∈ inFlight s) :
    ∀ d ∈ c.descs, d < num := by
  intro d hd
  refine List.mem_range.mp (h.partition.subset (List.mem_append_right _ ?_))
  exact List.mem_flatMap.mpr ⟨c, hc, hd⟩

theorem IsChain.head_mem {desc : Nat → VringDesc}
    (h : IsChain desc c.descs c.bufs) : c.head ∈ c.descs := by
  obtain ⟨ds, bs⟩ := c
  cases h with
  | last | cons => exact List.mem_cons_self

section Ring

variable {buf : Nat → Nat} {l done : List Chain}

/-- The next chain of a ring. -/
theorem RingOk.next (h : RingOk num buf l done) (hc : l[done.length]? = some c) :
    buf (done.length % num) = c.head ∧ RingOk num buf l (done ++ [c]) := by
  obtain ⟨hlt, hget⟩ := List.getElem?_eq_some_iff.mp hc
  have hring := h.heads
  rw [show l.length - done.length = l.length - (done.length + 1) + 1 by omega, ringList,
    List.drop_eq_getElem_cons hlt, List.map_cons, List.cons.injEq, hget] at hring
  refine ⟨hring.1, ?_, by rw [List.length_append]; exact hring.2⟩
  obtain ⟨rest, rfl⟩ := h.pre
  rw [List.getElem?_append_right (Nat.le_refl _), Nat.sub_self] at hc
  obtain ⟨rest, rfl⟩ := List.head?_eq_some_iff.mp (List.head?_eq_getElem? ▸ hc)
  exact ⟨rest, by simp⟩

/-- A ring that is not full takes another chain. -/
theorem RingOk.push (h : RingOk num buf l done) (hroom : l.length - done.length < num)
    (c : Chain) : RingOk num (Function.update buf (l.length % num) c.head) (l ++ [c]) done := by
  have hle := h.pre.length_le
  have hslot : l.length % num = (done.length + (l.length - done.length)) % num := by
    rw [Nat.add_sub_cancel' hle]
  refine ⟨h.pre.trans (List.prefix_append _ _), ?_⟩
  rw [List.length_append, List.length_singleton, List.drop_append_of_le_length hle,
    Nat.succ_sub hle, hslot, ringList_push _ hroom, h.heads, List.map_append]
  rfl

theorem mem_drop_of_get (hc : l[n]? = some c) : c ∈ l.drop n := by
  obtain ⟨hlt, hget⟩ := List.getElem?_eq_some_iff.mp hc
  rw [List.drop_eq_getElem_cons hlt, hget]
  exact List.mem_cons_self

end Ring

/-! ## Fetching -/

theorem Inv.fetch_none (h : Inv num s) (hnone : s.added[s.fetched.length]? = none) (cnt : Nat) :
    vmboxVirtqGetAvailBufs num s cnt
      = (.error .enospc, { s with peerAvailIdx := s.availIdx }) := by
  have hle := h.avail.pre.length_le
  have hge := List.getElem?_eq_none_iff.mp hnone
  have hcount : sub16 s.availIdx s.peerLastAvailIdx = 0 := by
    rw [h.availIdx.2, h.fetchedIdx, sub16_u16 hle (by omega)]
    omega
  simp only [vmboxVirtqGetAvailBufs, hcount, if_true]

/-- The state after the chain `c` has been fetched. -/
def afterFetch (s : Sys) (c : Chain) : Sys :=
  { s with
    peerAvailIdx := s.availIdx
    peerLastAvailIdx := u16 (s.peerLastAvailIdx + 1)
    availEvent := if s.usedFlags &&& vringAvailFNoInterrupt = 0
      then u16 (s.peerLastAvailIdx + 1) else s.availEvent
    fetched := s.fetched ++ [c]
    held := s.held ++ [c] }

theorem Inv.mem_avail (h : Inv num s) (hc : s.added[s.fetched.length]? = some c) :
    c ∈ inFlight s ∧ IsChain s.desc c.descs c.bufs := by
  have hflight : c ∈ inFlight s :=
    List.mem_append_left _ (List.mem_append_left _ (mem_drop_of_get hc))
  exact ⟨hflight, h.chains c hflight⟩

/-- The loop of the consumer starts at the head of the chain. -/
theorem Inv.fetch_loop (h : Inv num s) (hnum : QueueSize num)
    (hc : s.added[s.fetched.length]? = some c) (cnt : Nat) :
    vmboxVirtqGetAvailBufs num s cnt =
      match availLoop num s.desc cnt c.head with
      | .error e => (.error e, { s with peerAvailIdx := s.availIdx })
      | .ok ds =>
        let bufs := ds.map fun d => (s.desc d).translate
        (.ok (c.head, bufs), afterFetch s ⟨ds, bufs⟩) := by
  obtain ⟨hlt, -⟩ := List.getElem?_eq_some_iff.mp hc
  obtain ⟨hflight, hchain⟩ := h.mem_avail hc
  have hsize := hnum.le
  obtain ⟨hle, hcnt⟩ := h.avail_count
  have hcount : sub16 s.availIdx s.peerLastAvailIdx = s.added.length - s.fetched.length := by
    rw [h.availIdx.2, h.fetchedIdx, sub16_u16 hle (by omega)]
  have hhead : s.availRing (s.peerLastAvailIdx &&& (num - 1)) = c.head := by
    rw [h.fetchedIdx, hnum.slot]
    exact (h.avail.next hc).1
  have hhead_lt : ¬ num ≤ c.head :=
    Nat.not_le_of_lt (h.desc_lt hflight _ hchain.head_mem)
  have hne : ¬ s.added.length - s.fetched.length = 0 := by omega
  have hle' : ¬ num < s.added.length - s.fetched.length := by omega
  simp only [vmboxVirtqGetAvailBufs, hcount, if_neg hne, if_neg hle', hhead, if_neg hhead_lt,
    afterFetch]

theorem Inv.fetch_some (h : Inv num s) (hnum : QueueSize num)
    (hc : s.added[s.fetched.length]? = some c) {cnt : Nat} (hroom : c.bufs.length ≤ cnt) :
    vmboxVirtqGetAvailBufs num s cnt = (.ok (c.head, c.bufs), afterFetch s c) := by
  obtain ⟨hflight, hchain⟩ := h.mem_avail hc
  rw [h.fetch_loop hnum hc, Chain.head, hchain.availLoop (h.desc_lt hflight), if_pos hroom]
  simp only [hchain.translate]

/-- A chain that is too long stays available. -/
theorem Inv.fetch_short (h : Inv num s) (hnum : QueueSize num)
    (hc : s.added[s.fetched.length]? = some c) {cnt : Nat} (hroom : cnt < c.bufs.length) :
    vmboxVirtqGetAvailBufs num s cnt
      = (.error .einval, { s with peerAvailIdx := s.availIdx }) := by
  obtain ⟨hflight, hchain⟩ := h.mem_avail hc
  rw [h.fetch_loop hnum hc, Chain.head, hchain.availLoop (h.desc_lt hflight),
    if_neg (Nat.not_le_of_lt hroom)]

end Inv

section Steps

variable {num : Nat} {s : Sys}

theorem u16_succ (n : Nat) : u16 (u16 n + 1) = u16 (n + 1) := by
  unfold u16
  omega

theorem partition_of_perm {free : List Nat} {l l' : List Chain} (hp : l'.Perm l)
    (h : (free ++ l.flatMap Chain.descs).Perm (List.range num)) :
    (free ++ l'.flatMap Chain.descs).Perm (List.range num) :=
  ((hp.flatMap_right _).append_left free).trans h

theorem Inv.afterFetch (h : Inv num s) (hc : s.added[s.fetched.length]? = some c) :
    Inv num (afterFetch s c) := by
  obtain ⟨hlt, hget⟩ := List.getElem?_eq_some_iff.mp hc
  have hlen : (s.fetched ++ [c]).length = s.fetched.length + 1 := List.length_append
  have hperm : (inFlight (Virtq.afterFetch s c)).Perm (inFlight s) := by
    simp only [inFlight, Virtq.afterFetch, hlen, List.drop_eq_getElem_cons hlt, hget]
    refine List.perm_iff_count.mpr fun a => ?_
    simp only [List.count_append, List.count_cons, List.count_nil]
    omega
  exact
    { h with
      partition := partition_of_perm hperm h.partition
      chains := fun c' hc' => h.chains c' (hperm.subset hc')
      avail := (h.avail.next hc).2
      held := by
        have hheld := h.held.append_right [c]
        rwa [List.append_assoc] at hheld
      fetchedIdx := by simp only [Virtq.afterFetch, h.fetchedIdx, u16_succ, hlen] }

/-! ## Returning -/

theorem Inv.addUsed (h : Inv num s) (hnum : QueueSize num) (hc : c ∈ s.held)
    (len : Nat) : Inv num (vmboxVirtqAddUsed num s c len) := by
  have hlen : (s.returned ++ [c]).length = s.returned.length + 1 := List.length_append
  have hle := h.used.pre.length_le
  have hheld : s.held.Perm (c :: s.held.erase c) := List.perm_cons_erase hc
  have hdrop : (s.returned ++ [c]).drop s.reclaimed.length
      = s.returned.drop s.reclaimed.length ++ [c] :=
    List.drop_append_of_le_length hle
  have hperm : (inFlight (vmboxVirtqAddUsed num s c len)).Perm (inFlight s) := by
    simp only [inFlight, vmboxVirtqAddUsed, addUsedOne, hdrop]
    refine List.perm_iff_count.mpr fun a => ?_
    have := hheld.count_eq a
    simp only [List.count_append, List.count_cons, List.count_nil] at this ⊢
    omega
  -- one entry of the used ring is still free: the chain was not in it
  have hroom : s.returned.length - s.reclaimed.length < num := by
    have hcount := h.count
    have hpos := List.length_pos_of_mem hc
    simp only [inFlight, List.length_append, List.length_drop] at hcount
    omega
  refine
    { h with
      partition := partition_of_perm hperm h.partition
      chains := fun c' hc' => h.chains c' (hperm.subset hc')
      held := ?_
      used := ?_
      usedIdx := by
        simp only [vmboxVirtqAddUsed, addUsedOne, h.usedIdx.1, u16_succ, hlen, and_self] }
  · refine List.Perm.trans ?_ h.held
    simp only [vmboxVirtqAddUsed, addUsedOne, List.append_assoc]
    exact hheld.symm.append_left _
  · have hid : (fun i => (Function.update s.usedRing (s.returned.length % num)
          ⟨c.head, len⟩ i).id)
        = Function.update (fun i => (s.usedRing i).id) (s.returned.length % num) c.head :=
      Function.comp_update VringUsedElem.id _ _ _
    simp only [vmboxVirtqAddUsed, addUsedOne, h.usedIdx.1, hnum.slot, hid]
    exact h.used.push hroom c

/-! ## Reclaiming -/

/-- The state after the used chain `c` has been reclaimed. -/
def afterReclaim (s : Sys) (c : Chain) : Sys :=
  { s with
    desc := Function.update s.desc (c.descs.getLastD 0)
      { s.desc (c.descs.getLastD 0) with next := s.freeHead }
    freeHead := c.head
    numFree := s.numFree + c.descs.length
    lastUsedIdx := u16 (s.lastUsedIdx + 1)
    usedEvent := if s.availFlags &&& vringAvailFNoInterrupt = 0
      then u16 (s.lastUsedIdx + 1) else s.usedEvent
    reclaimed := s.reclaimed ++ [c] }

theorem Inv.mem_used (h : Inv num s)
    (hc : s.returned[s.reclaimed.length]? = some c) :
    c ∈ inFlight s ∧ IsChain s.desc c.descs c.bufs := by
  have hflight : c ∈ inFlight s := List.mem_append_right _ (mem_drop_of_get hc)
  exact ⟨hflight, h.chains c hflight⟩

theorem Inv.reclaim_none (h : Inv num s) (hnone : s.returned[s.reclaimed.length]? = none)
    (cnt : Nat) : vmboxVirtqGetUsedBufs num s cnt = (.error .enospc, s) := by
  have hle := h.used.pre.length_le
  have hge := List.getElem?_eq_none_iff.mp hnone
  have heq : s.lastUsedIdx = s.usedIdx := by
    rw [h.reclaimedIdx, h.usedIdx.2, Nat.le_antisymm hle hge]
  simp only [vmboxVirtqGetUsedBufs, h.working, Bool.false_eq_true, if_false, heq, if_true]

/-- The loop of the producer starts at the head of the chain. -/
theorem Inv.reclaim_loop (h : Inv num s) (hnum : QueueSize num)
    (hc : s.returned[s.reclaimed.length]? = some c) :
    s.lastUsedIdx ≠ s.usedIdx ∧ (s.usedRing (s.lastUsedIdx &&& (num - 1))).id = c.head := by
  obtain ⟨hlt, -⟩ := List.getElem?_eq_some_iff.mp hc
  obtain ⟨hle, hcnt⟩ := h.used_count
  have hsize := hnum.le
  constructor
  · rw [h.reclaimedIdx, h.usedIdx.2]
    unfold u16
    omega
  · rw [h.reclaimedIdx, hnum.slot]
    exact (h.used.next hc).1

theorem Inv.reclaim_some (h : Inv num s) (hnum : QueueSize num)
    (hc : s.returned[s.reclaimed.length]? = some c) {cnt : Nat} (hroom : c.bufs.length ≤ cnt) :
    vmboxVirtqGetUsedBufs num s cnt = (.ok (c.head, c.bufs), afterReclaim s c) := by
  obtain ⟨-, hchain⟩ := h.mem_used hc
  obtain ⟨hne, hhead⟩ := h.reclaim_loop hnum hc
  have hloop : usedLoop s.desc cnt c.head = (c.descs, true) := by
    rw [Chain.head, hchain.usedLoop, List.take_of_length_le (hchain.length_eq ▸ hroom),
      decide_eq_true hroom]
  have hlast : c.descs.getLastD c.head = c.descs.getLastD 0 := by
    have hpos := hchain.length_pos
    obtain ⟨d, ds, hds⟩ := List.exists_cons_of_length_pos hpos
    rw [hds, List.getLastD_cons, List.getLastD_cons]
  simp only [vmboxVirtqGetUsedBufs, h.working, Bool.false_eq_true, if_false, if_neg hne, hhead,
    hloop, hlast, hchain.translate, if_true, afterReclaim]

/-- A chain that is too long stays used, but its descriptors are counted. -/
theorem Inv.reclaim_short (h : Inv num s) (hnum : QueueSize num)
    (hc : s.returned[s.reclaimed.length]? = some c) {cnt : Nat} (hroom : cnt < c.bufs.length) :
    vmboxVirtqGetUsedBufs num s cnt
      = (.error .enospc, { s with numFree := s.numFree + (c.descs.take cnt).length }) := by
  obtain ⟨-, hchain⟩ := h.mem_used hc
  obtain ⟨hne, hhead⟩ := h.reclaim_loop hnum hc
  have hloop : usedLoop s.desc cnt c.head = (c.descs.take cnt, false) := by
    rw [Chain.head, hchain.usedLoop, decide_eq_false (Nat.not_le_of_lt hroom)]
  simp only [vmboxVirtqGetUsedBufs, h.working, Bool.false_eq_true, if_false, if_neg hne, hhead,
    hloop]

/-- Whether there is room for the chain or not, fetching keeps the invariant. -/
theorem Inv.getAvailBufs (h : Inv num s) (hnum : QueueSize num) (cnt : Nat) :
    Inv num (vmboxVirtqGetAvailBufs num s cnt).2 := by
  have hseen : Inv num { s with peerAvailIdx := s.availIdx } := { h with }
  cases hc : s.added[s.fetched.length]? with
  | none =>
    rw [h.fetch_none hc]
    exact hseen
  | some c =>
    rcases Nat.lt_or_ge cnt c.bufs.length with hshort | hroom
    · rw [h.fetch_short hnum hc hshort]
      exact hseen
    · rw [h.fetch_some hnum hc hroom]
      exact h.afterFetch hc

end Steps

section Free

variable {num : Nat} {s : Sys}

theorem Inv.afterReclaim (h : Inv num s)
    (hc : s.returned[s.reclaimed.length]? = some c) : Inv num (afterReclaim s c) := by
  obtain ⟨hlt, hget⟩ := List.getElem?_eq_some_iff.mp hc
  obtain ⟨-, hchain⟩ := h.mem_used hc
  have hlen : (s.reclaimed ++ [c]).length = s.reclaimed.length + 1 := List.length_append
  -- the chain and the others
  have hperm : (inFlight s).Perm (c :: inFlight (Virtq.afterReclaim s c)) := by
    simp only [inFlight, Virtq.afterReclaim, hlen, List.drop_eq_getElem_cons hlt, hget]
    exact List.perm_middle
  have hnodup : (freeList s ++ (c.descs ++
      (inFlight (Virtq.afterReclaim s c)).flatMap Chain.descs)).Nodup := by
    refine (List.Perm.nodup_iff ?_).mp h.nodup
    exact (hperm.flatMap_right Chain.descs).append_left (freeList s)
  obtain ⟨-, hnodup', hfree⟩ := List.nodup_append'.mp hnodup
  obtain ⟨hcnodup, -, hother⟩ := List.nodup_append'.mp hnodup'
  have hlast : c.descs.getLastD 0 ∈ c.descs := by
    obtain ⟨d, ds, hds⟩ := List.exists_cons_of_length_pos hchain.length_pos
    rw [hds, List.getLastD_cons]
    exact List.getLastD_mem_cons
  have hdesc : ∀ d, d ≠ c.descs.getLastD 0 → (Virtq.afterReclaim s c).desc d = s.desc d :=
    fun d hd => Function.update_of_ne hd _ _
  -- the chain is put in front of the free list
  have hlist : freeList (Virtq.afterReclaim s c) = c.descs ++ freeList s := by
    have hold : descList (Virtq.afterReclaim s c).desc s.freeHead s.numFree = freeList s := by
      refine descList_congr_of_mem fun d hd => ?_
      rw [hdesc d]
      rintro rfl
      exact hfree hd (List.mem_append_left _ hlast)
    have hnew := hchain.descList_reclaim hcnodup s.freeHead s.numFree
    rw [Nat.add_comm] at hnew
    exact hnew.trans (congrArg _ hold)
  refine
    { h with
      partition := ?_
      chains := fun c' hc' => ?_
      used := (h.used.next hc).2
      reclaimedIdx := by simp only [Virtq.afterReclaim, h.reclaimedIdx, u16_succ, hlen] }
  · refine List.Perm.trans ?_ h.partition
    rw [hlist]
    have hflat := (hperm.flatMap_right Chain.descs)
    refine List.perm_iff_count.mpr fun a => ?_
    have := hflat.count_eq a
    simp only [List.flatMap_cons, List.count_append] at this ⊢
    omega
  · refine (h.chains c' (hperm.symm.subset (List.mem_cons_of_mem _ hc'))).congr fun d hd => ?_
    refine hdesc d ?_
    rintro rfl
    exact hother hlast (List.mem_flatMap.mpr ⟨c', hc', hd⟩)

/-! ## Adding -/

theorem freeList_split (h : n ≤ s.numFree) :
    freeList s = descList s.desc s.freeHead n
      ++ descList s.desc ((fun d => (s.desc d).next)^[n] s.freeHead) (s.numFree - n) := by
  unfold freeList descList
  rw [← List.iterate_add, Nat.add_sub_cancel' h]

theorem head_descList {desc : Nat → VringDesc} {i : Nat} (hn : 0 < n) (bufs : List VringBuf) :
    Chain.head ⟨descList desc i n, bufs⟩ = i := by
  cases n with
  | zero => exact absurd hn (Nat.lt_irrefl 0)
  | succ n => rfl

theorem map_fst_bufs (outs ins : List VringBuf) :
    (outs.map (·, false) ++ ins.map (·, true)).map Prod.fst = outs ++ ins := by
  rw [List.map_append, List.map_map, List.map_map]
  exact congrArg₂ (· ++ ·) (List.map_id' outs) (List.map_id' ins)

theorem Inv.addBuf (h : Inv num s) (hnum : QueueSize num) (outs ins : List VringBuf) :
    Inv num (vmboxVirtqAddBuf num s outs ins).2 := by
  simp only [vmboxVirtqAddBuf]
  split
  · exact h
  split
  · exact h
  split
  · exact h
  rename_i hcnt hfree
  generalize hbufs : outs.map (·, false) ++ ins.map (·, true) = bufs
  have hlen : bufs.length = outs.length + ins.length := by
    rw [← hbufs, List.length_append, List.length_map, List.length_map]
  have hfst : bufs.map Prod.fst = outs ++ ins := hbufs ▸ map_fst_bufs outs ins
  have hne : bufs ≠ [] := by
    rintro rfl
    exact hcnt hlen.symm
  rw [← hlen] at hfree ⊢
  -- the chain is the front of the free list
  have hsplit := freeList_split (Nat.le_of_not_lt hfree)
  obtain ⟨hnodup, -, hdisj⟩ := List.nodup_append'.mp h.nodup
  rw [hsplit] at hnodup hdisj
  obtain ⟨hnext, hother, hi, hprev, hchain⟩ :=
    fillDescs_spec hne s.desc s.freeHead 0 (List.nodup_append'.mp hnodup).1
  generalize fillDescs bufs s.desc s.freeHead 0 = filled at *
  obtain ⟨desc', i', prev'⟩ := filled
  dsimp only at *
  subst hi
  rw [hfst] at hchain
  obtain ⟨hle, hcount⟩ := h.avail_count
  have hlen' : ∀ c : Chain, (s.added ++ [c]).length = s.added.length + 1 :=
    fun c => List.length_append
  have hdrop : ∀ c : Chain, (s.added ++ [c]).drop s.fetched.length
      = s.added.drop s.fetched.length ++ [c] := fun c => List.drop_append_of_le_length hle
  refine
    { h with
      partition := ?_
      chains := fun c hc => ?_
      avail := ?_
      availIdx := by simp only [h.availIdx.1, u16_succ, hlen', and_self] }
  · refine List.Perm.trans ?_ h.partition
    rw [hsplit]
    simp only [freeList, inFlight, hdrop]
    rw [descList_congr fun d => (endChain_next desc' prev' d).trans (hnext d)]
    refine List.perm_iff_count.mpr fun a => ?_
    simp only [List.flatMap_append, List.flatMap_cons, List.flatMap_nil, List.append_nil,
      List.count_append]
    omega
  · have hcase : c ∈ inFlight s ∨ c = ⟨descList s.desc s.freeHead bufs.length, outs ++ ins⟩ := by
      simp only [inFlight, hdrop, List.mem_append, List.mem_singleton] at hc ⊢
      tauto
    rcases hcase with hc | rfl
    · -- an older chain has none of the descriptors taken
      refine (h.chains c hc).congr fun d hd => ?_
      have hd' : d ∉ descList s.desc s.freeHead bufs.length := fun hmem =>
        hdisj (List.mem_append_left _ hmem) (List.mem_flatMap.mpr ⟨c, hc, hd⟩)
      exact (endChain_of_ne (ne_of_mem_of_not_mem hprev hd').symm).trans (hother d hd')
    · exact hchain
  · have hpos : 0 < bufs.length := List.length_pos_iff.mpr hne
    have hpush := h.avail.push (by omega) ⟨descList s.desc s.freeHead bufs.length, outs ++ ins⟩
    rw [head_descList hpos] at hpush
    simp only [h.availIdx.1, hnum.slot]
    exact hpush

end Free

/-! ## Runs -/

section Runs

variable {num : Nat} {s s' : Sys}

theorem Inv.queueOk (h : Inv num s) (hnum : QueueSize num) : QueueOk num s where
  partition := h.partition
  chains := h.chains
  fetched := h.avail.pre
  held := h.held
  reclaimed := h.used.pre
  nextAvail c hc cnt hroom := by rw [h.fetch_some hnum hc hroom]
  nextUsed c hc cnt hroom := by rw [h.reclaim_some hnum hc hroom]

/-- The free list of a fresh queue is all of it, in order. -/
theorem freeList_init (num : Nat) : freeList (vmboxVirtqInit num) = List.range num := by
  -- `n` descriptors from `i` on, as long as they do not reach the end
  have hlist : ∀ n i, i + n = num →
      descList (vmboxVirtqInit num).desc i n = List.range' i n := by
    intro n
    induction n with
    | zero => intro i _; rfl
    | succ n ih =>
      intro i hi
      rw [List.range'_succ, ← ih (i + 1) (by omega)]
      cases n with
      | zero => rfl
      | succ n =>
        have hnext : ((vmboxVirtqInit num).desc i).next = i + 1 := by
          simp only [vmboxVirtqInit]
          rw [if_pos (by omega)]
        simp only [descList, List.iterate, hnext]
  rw [List.range_eq_range']
  exact hlist num 0 (Nat.zero_add num)

theorem Inv.init (num : Nat) : Inv num (vmboxVirtqInit num) where
  partition := by
    rw [freeList_init]
    simp [inFlight, vmboxVirtqInit]
  chains c hc := by simp [inFlight, vmboxVirtqInit] at hc
  avail := ⟨List.nil_prefix, rfl⟩
  held := List.Perm.nil
  used := ⟨List.nil_prefix, rfl⟩
  working := rfl
  availIdx := ⟨rfl, rfl⟩
  fetchedIdx := rfl
  usedIdx := ⟨rfl, rfl⟩
  reclaimedIdx := rfl

theorem Inv.step {e : Event} (hnum : QueueSize num) (h : Inv num s) (hroom : Room s e)
    (hs : virtqStep num s e = some s') : Inv num s' := by
  cases e with
  | addBuf outs ins =>
    cases hs
    exact h.addBuf hnum outs ins
  | getUsedBufs cnt =>
    cases hs
    cases hc : s.returned[s.reclaimed.length]? with
    | none =>
      rw [h.reclaim_none hc]
      exact h
    | some c =>
      rw [h.reclaim_some hnum hc (hroom c hc)]
      exact h.afterReclaim hc
  | getAvailBufs cnt =>
    cases hs
    exact h.getAvailBufs hnum cnt
  | addUsed head len =>
    obtain ⟨c, hc, rfl⟩ := Option.map_eq_some_iff.mp hs
    exact h.addUsed hnum (List.mem_of_find?_eq_some hc) len

end Runs

/-- **Exactly once.** For every queue size `2 ^ k` up to `2 ^ 15` and every
interleaving of the two sides in which each call has room for its chain: the
free list and the chains in flight partition the descriptors, every chain is
fetched once, in order, and once it is returned it is reclaimed once. The
number of steps is not bounded, so the 16-bit indices wrap. -/
theorem virtq_exactly_once (k : Nat) (hk : k ≤ 15) (l : List Event)
    (hl : Along (virtqStep (2 ^ k)) Room (vmboxVirtqInit (2 ^ k)) l) :
    ∀ pre, pre <+: l → ∀ t, run (virtqStep (2 ^ k)) (vmboxVirtqInit (2 ^ k)) pre = some t →
      QueueOk (2 ^ k) t := by
  intro pre hpre t ht
  have hnum : QueueSize (2 ^ k) := ⟨k, hk, rfl⟩
  have hstep : ∀ s e s', Inv (2 ^ k) s → Room s e → virtqStep (2 ^ k) s e = some s' →
      Inv (2 ^ k) s' := fun s e s' h hroom hs => h.step hnum hroom hs
  exact (run_invariant hstep (Inv.init _) (along_of_pre hpre hl) ht).queueOk hnum

/-- A queue of four descriptors that is used up, with the chains returned in
the other order. -/
def twoChains : List Event :=
  [.addBuf [⟨3, 64⟩, ⟨1, 64⟩] [⟨2, 64⟩], .addBuf [⟨0, 16⟩] [], .addBuf [⟨7, 8⟩] [],
    .getAvailBufs 4, .getAvailBufs 4, .addUsed 3 0, .addUsed 0 64, .getUsedBufs 4,
    .getUsedBufs 4, .addBuf [⟨5, 32⟩, ⟨6, 32⟩] []]

theorem virtq_exactly_once_twoChains :
    ((run (virtqStep (2 ^ 2)) (vmboxVirtqInit (2 ^ 2)) twoChains).map
      fun t => (t.added.map Chain.descs, t.reclaimed.map Chain.descs, t.numFree))
      = some ([[0, 1, 2], [3], [0, 1]], [[3], [0, 1, 2]], 2) ∧
    ∀ pre, pre <+: twoChains →
      ∀ t, run (virtqStep (2 ^ 2)) (vmboxVirtqInit (2 ^ 2)) pre = some t → QueueOk (2 ^ 2) t :=
  ⟨by decide +kernel, virtq_exactly_once 2 (by decide) twoChains (by decide +kernel)⟩

end Minos.Virtq
