import Minos.Driver.VmboxVirtq
import Minos.Lib.Window

/-!
# Completing several requests at once

`__vmbox_virtq_add_used_n`, `vmbox_virtq_add_used_n` and `vmbox_virtq_add_used` of
`vmbox/vmbox_virtq.c` in the Linux driver, and `__virtq_add_used_n`, `virtq_add_used_n`
and `virtq_add_used` of `devices/virtio/virtio.c` in `mvm`: a batch of elements is copied
into the used ring in one part or, at the end of the ring, in two. The functions of the
two programs do the same; they are one definition here, over the fields they use. The
inner functions return 0, so the outer ones do not fail.

The counters are 16 bits wide whatever the size of the ring, so nothing here is bounded
by the size a `virtio` queue may have.
-/

namespace Minos.UsedBatch

open Minos.Lib
open Minos.Virtq (VringUsedElem)

/-- The used ring in shared memory, and the fields of the queue that go with it. -/
@[ext]
structure Used where
  ring : Nat → VringUsedElem
  idx : BitVec 16
  lastUsedIdx : BitVec 16
  signalledUsed : BitVec 16
  signalledUsedValid : Bool

def Used.start (num : Nat) (q : Used) : Nat := q.lastUsedIdx.toNat &&& (num - 1)

/-- `memcpy` of elements to the ring. -/
def copyTo (ring : Nat → VringUsedElem) (start : Nat) (heads : List VringUsedElem) :
    Nat → VringUsedElem :=
  fun i => if start ≤ i then heads[i - start]?.getD (ring i) else ring i

/-- `__vmbox_virtq_add_used_n` and `__virtq_add_used_n`. -/
def addUsedPart (num : Nat) (q : Used) (heads : List VringUsedElem) : Used :=
  let old := q.lastUsedIdx
  let new := old + BitVec.ofNat 16 heads.length
  { q with
    ring :=
      match heads with
      | [e] => Function.update q.ring (q.start num) e
      | _ => copyTo q.ring (q.start num) heads
    lastUsedIdx := new
    signalledUsedValid :=
      if new - q.signalledUsed < new - old then false else q.signalledUsedValid }

def Used.publish (q : Used) : Used := { q with idx := q.lastUsedIdx }

theorem Used.publish_ring (q : Used) : q.publish.ring = q.ring := rfl

theorem Used.publish_valid (q : Used) : q.publish.signalledUsedValid = q.signalledUsedValid := rfl

/-- `vmbox_virtq_add_used_n` and `virtq_add_used_n`. -/
def addUsedN (num : Nat) (q : Used) (heads : List VringUsedElem) : Used :=
  let n := num - q.start num
  if n < heads.length then
    (addUsedPart num (addUsedPart num q (heads.take n)) (heads.drop n)).publish
  else (addUsedPart num q heads).publish

def vmboxVirtqAddUsedN (num : Nat) (q : Used) (heads : List VringUsedElem) : Used :=
  addUsedN num q heads

def vmboxVirtqAddUsed (num : Nat) (q : Used) (elem : VringUsedElem) : Used :=
  vmboxVirtqAddUsedN num q [elem]

def virtqAddUsedN (num : Nat) (q : Used) (heads : List VringUsedElem) : Used :=
  addUsedN num q heads

def virtqAddUsed (num : Nat) (q : Used) (elem : VringUsedElem) : Used :=
  virtqAddUsedN num q [elem]

/-! ## What is promised -/

/-- Whatever is in the ring and in the batch, it ends as with one call for each element. -/
def Agree (addN : Nat → Used → List VringUsedElem → Used)
    (add : Nat → Used → VringUsedElem → Used)
    (num count : Nat) (idx last signalled : BitVec 16) (valid : Bool) : Prop :=
  ∀ (ring : Nat → VringUsedElem) (heads : List VringUsedElem), heads.length = count →
    addN num ⟨ring, idx, last, signalled, valid⟩ heads =
      heads.foldl (add num) ⟨ring, idx, last, signalled, valid⟩

/-- What it takes for a batch of `count` in a ring of `2 ^ k`: the index is not published
anew by a batch of nothing, the counter does not turn over inside of a ring that is longer
than the turn, and no whole turn is made in one part. -/
structure BatchOk (k count : Nat) (idx last : BitVec 16) (valid : Bool) : Prop where
  published : count = 0 → idx = last
  inTurn : k ≤ 16 ∨ last.toNat + count ≤ 2 ^ 16
  noTurn : count = 2 ^ 16 → last = 0 → valid = false

/-! ## One part -/

variable {num k : Nat} {q : Used} {heads es : List VringUsedElem} {e : VringUsedElem}

theorem copyTo_nil (ring : Nat → VringUsedElem) (start : Nat) : copyTo ring start [] = ring := by
  funext i
  simp [copyTo]

theorem copyTo_cons (ring : Nat → VringUsedElem) (start : Nat) (e : VringUsedElem)
    (es : List VringUsedElem) :
    copyTo ring start (e :: es) = copyTo (Function.update ring start e) (start + 1) es := by
  funext i
  rcases Nat.lt_trichotomy i start with hlt | rfl | hgt
  · have hne : i ≠ start := by omega
    simp [copyTo, hne, Nat.not_le.mpr hlt, Nat.not_le.mpr (Nat.lt_succ_of_lt hlt)]
  · simp [copyTo]
  · have hne : i ≠ start := by omega
    have hpos : i - start = i - (start + 1) + 1 := by omega
    simp [copyTo, hne, Nat.le_of_lt hgt, Nat.succ_le_of_lt hgt, hpos]

theorem addUsedPart_ring (num : Nat) (q : Used) (heads : List VringUsedElem) :
    (addUsedPart num q heads).ring = copyTo q.ring (q.start num) heads := by
  match heads with
  | [] => rfl
  | [e] => rw [copyTo_cons, copyTo_nil]; rfl
  | _ :: _ :: _ => rfl

theorem addUsedPart_lastUsedIdx (num : Nat) (q : Used) (heads : List VringUsedElem) :
    (addUsedPart num q heads).lastUsedIdx = q.lastUsedIdx + BitVec.ofNat 16 heads.length := rfl

theorem addUsedPart_signalledUsed (num : Nat) (q : Used) (heads : List VringUsedElem) :
    (addUsedPart num q heads).signalledUsed = q.signalledUsed := rfl

theorem new_sub_old (a b : BitVec 16) : a + b - a = b := by
  rw [BitVec.add_comm, BitVec.add_sub_cancel]

/-- A part of less than a turn takes the validity away when the counter comes up to what
was signalled. -/
theorem addUsedPart_valid (h : heads.length < 2 ^ 16) :
    (addUsedPart num q heads).signalledUsedValid = true ↔
      q.signalledUsedValid = true ∧
        ¬ Window (q.lastUsedIdx + 1) heads.length q.signalledUsed := by
  unfold addUsedPart
  dsimp only
  rw [new_sub_old]
  split
  · rename_i hlt
    exact iff_of_false (by simp) fun hq => hq.2 ((reached_iff h).mp hlt)
  · rename_i hge
    exact (and_iff_left (mt (reached_iff h).mpr hge)).symm

/-- A batch of nothing. -/
theorem addUsedPart_nil (num : Nat) (q : Used) : addUsedPart num q [] = q := by
  refine Used.ext ?_ rfl ?_ rfl (Bool.eq_iff_iff.mpr ?_)
  · rw [addUsedPart_ring, copyTo_nil]
  · rw [addUsedPart_lastUsedIdx]
    simp
  · rw [addUsedPart_valid (by decide)]
    exact and_iff_left not_window_zero

/-! ## Parts and single elements -/

/-- One element, as a part of its own. -/
def addPartOne (num : Nat) (q : Used) (e : VringUsedElem) : Used := addUsedPart num q [e]

theorem addPartOne_lastUsedIdx (num : Nat) (q : Used) (e : VringUsedElem) :
    (addPartOne num q e).lastUsedIdx = q.lastUsedIdx + 1 := rfl

theorem addPartOne_valid (num : Nat) (q : Used) (e : VringUsedElem) :
    (addPartOne num q e).signalledUsedValid = true ↔
      q.signalledUsedValid = true ∧ q.signalledUsed ≠ q.lastUsedIdx + 1 := by
  have hone : [e].length < 2 ^ 16 := Nat.one_lt_two_pow (by decide)
  rw [addPartOne, addUsedPart_valid hone, List.length_singleton, window_succ,
    or_iff_left not_window_zero]

/-- The elements one by one take the validity away under the same condition. -/
theorem window_cons (num : Nat) (q : Used) (e : VringUsedElem) (n : Nat) :
    ((addPartOne num q e).signalledUsedValid = true ∧
        ¬ Window ((addPartOne num q e).lastUsedIdx + 1) n (addPartOne num q e).signalledUsed) ↔
      q.signalledUsedValid = true ∧ ¬ Window (q.lastUsedIdx + 1) (n + 1) q.signalledUsed := by
  rw [addPartOne_valid, addPartOne_lastUsedIdx, window_succ, not_or, and_assoc]
  rfl

theorem start_eq_mod (k : Nat) (q : Used) : q.start (2 ^ k) = q.lastUsedIdx.toNat % 2 ^ k := by
  rw [Used.start, Nat.and_two_pow_sub_one_eq_mod]

theorem start_lt (k : Nat) (q : Used) : q.start (2 ^ k) < 2 ^ k := by
  rw [start_eq_mod]
  exact Nat.mod_lt _ (Nat.two_pow_pos k)

/-- A part of `count` lies in one piece, in the ring and in the turn of the counter. -/
structure Contiguous (k count : Nat) (q : Used) : Prop where
  fits : q.start (2 ^ k) + count ≤ 2 ^ k
  inTurn : k ≤ 16 ∨ q.lastUsedIdx.toNat + count ≤ 2 ^ 16
  short : count < 2 ^ 16 ∨ q.signalledUsedValid = false

/-- The place of the next element is the next place. -/
theorem Contiguous.start_succ {m : Nat} (h : Contiguous k (m + 1) q) (hm : m ≠ 0) :
    (addPartOne (2 ^ k) q e).start (2 ^ k) = q.start (2 ^ k) + 1 := by
  have hfits := h.fits
  rw [start_eq_mod] at hfits
  rw [start_eq_mod, start_eq_mod, addPartOne_lastUsedIdx, BitVec.toNat_add]
  have hmod : (q.lastUsedIdx.toNat + 1) % 2 ^ 16 % 2 ^ k = (q.lastUsedIdx.toNat + 1) % 2 ^ k := by
    rcases h.inTurn with hk | hturn
    · exact Nat.mod_mod_of_dvd _ (Nat.pow_dvd_pow 2 hk)
    · rw [Nat.mod_eq_of_lt (a := q.lastUsedIdx.toNat + 1) (by omega)]
  refine hmod.trans ?_
  rw [Nat.add_mod, Nat.mod_eq_of_lt (a := 1) (by omega), Nat.mod_eq_of_lt (by omega)]

theorem Contiguous.addUsedPart_cons (h : Contiguous k (es.length + 1) q) (hes : es ≠ []) :
    addUsedPart (2 ^ k) q (e :: es) = addUsedPart (2 ^ k) (addPartOne (2 ^ k) q e) es := by
  refine Used.ext ?_ rfl ?_ rfl (Bool.eq_iff_iff.mpr ?_)
  · have hstart := h.start_succ (e := e) (mt List.eq_nil_of_length_eq_zero hes)
    rw [addUsedPart_ring, addUsedPart_ring, hstart, copyTo_cons]
    rfl
  · rw [addUsedPart_lastUsedIdx, addUsedPart_lastUsedIdx, addPartOne_lastUsedIdx, List.length_cons]
    exact (add_one_add_ofNat q.lastUsedIdx es.length).symm
  · rcases h.short with hlt | hnot
    · rw [addUsedPart_valid (by exact hlt), addUsedPart_valid (by omega), window_cons,
        List.length_cons]
    · simp [addPartOne, addUsedPart, hnot]

theorem Contiguous.tail (h : Contiguous k (es.length + 1) q) (hes : es ≠ []) :
    Contiguous k es.length (addPartOne (2 ^ k) q e) := by
  have hstart := h.start_succ (e := e) (mt List.eq_nil_of_length_eq_zero hes)
  refine ⟨?_, ?_, ?_⟩
  · have := h.fits
    omega
  · refine h.inTurn.imp_right fun hturn => ?_
    rw [addPartOne_lastUsedIdx, BitVec.toNat_add]
    have hmod := Nat.mod_le (q.lastUsedIdx.toNat + 1) (2 ^ 16)
    exact Nat.le_trans (Nat.add_le_add_right hmod _) (by omega)
  · refine h.short.imp (fun hlt => by omega) fun hnot => ?_
    simp [addPartOne, addUsedPart, hnot]

/-- **A part in one piece is the same as its elements one by one.** -/
theorem Contiguous.addUsedPart_eq (h : Contiguous k heads.length q) :
    addUsedPart (2 ^ k) q heads = heads.foldl (addPartOne (2 ^ k)) q := by
  induction heads generalizing q with
  | nil => exact addUsedPart_nil _ q
  | cons e es ih =>
    by_cases hes : es = []
    · rw [hes]
      rfl
    · rw [h.addUsedPart_cons hes, ih (h.tail hes)]
      rfl

/-! ## Batches -/

theorem addUsedN_nil (num : Nat) (q : Used) : addUsedN num q [] = q.publish := by
  rw [addUsedN]
  refine (if_neg (Nat.not_lt_zero _)).trans ?_
  rw [addUsedPart_nil]

theorem addUsedN_singleton (k : Nat) (q : Used) (e : VringUsedElem) :
    addUsedN (2 ^ k) q [e] = (addPartOne (2 ^ k) q e).publish := by
  have hlt := start_lt k q
  rw [addUsedN]
  exact if_neg (by rw [List.length_singleton]; omega)

/-- Calls for one element each publish the index every time, which the next one does not
read. -/
theorem foldl_publish (k : Nat) (q : Used) (es : List VringUsedElem) :
    es.foldl (fun q e => addUsedN (2 ^ k) q [e]) q.publish =
      (es.foldl (addPartOne (2 ^ k)) q).publish := by
  induction es generalizing q with
  | nil => rfl
  | cons e es ih =>
    rw [List.foldl_cons, List.foldl_cons, addUsedN_singleton]
    exact ih (addPartOne (2 ^ k) q e)

theorem foldl_addUsed (k : Nat) (q : Used) (hne : heads ≠ []) :
    heads.foldl (fun q e => addUsedN (2 ^ k) q [e]) q =
      (heads.foldl (addPartOne (2 ^ k)) q).publish := by
  cases heads with
  | nil => exact absurd rfl hne
  | cons e es =>
    rw [List.foldl_cons, List.foldl_cons, addUsedN_singleton]
    exact foldl_publish k _ es

/-- The second part starts the ring anew. -/
theorem start_wrap (hk : k ≤ 16) (hn : heads.length = 2 ^ k - q.start (2 ^ k)) :
    (addUsedPart (2 ^ k) q heads).start (2 ^ k) = 0 := by
  have hlt := start_lt k q
  rw [start_eq_mod] at hn hlt
  rw [start_eq_mod, addUsedPart_lastUsedIdx, BitVec.toNat_add, BitVec.toNat_ofNat,
    Nat.add_mod_mod, Nat.mod_mod_of_dvd _ (Nat.pow_dvd_pow 2 hk), hn, Nat.add_mod]
  rw [← Nat.add_mod_mod, Nat.mod_mod, Nat.add_mod_mod, Nat.add_sub_cancel' (Nat.le_of_lt hlt),
    Nat.mod_self]

/-- A batch is its elements one by one, published at the end. -/
theorem addUsedN_eq (hlen : heads.length ≤ 2 ^ k)
    (hturn : k ≤ 16 ∨ q.lastUsedIdx.toNat + heads.length ≤ 2 ^ 16)
    (hvalid : heads.length = 2 ^ 16 → q.lastUsedIdx = 0 → q.signalledUsedValid = false) :
    addUsedN (2 ^ k) q heads = (heads.foldl (addPartOne (2 ^ k)) q).publish := by
  have hstart := start_lt k q
  have hle : q.start (2 ^ k) ≤ q.lastUsedIdx.toNat := by
    rw [start_eq_mod]
    exact Nat.mod_le _ _
  rw [addUsedN]
  split
  · rename_i hsplit
    have hk : k ≤ 16 := by
      by_contra hk
      have hpow : 2 ^ 17 ≤ 2 ^ k := Nat.pow_le_pow_right (by decide) (by omega)
      have := hturn.resolve_left hk
      omega
    have hpow : 2 ^ k ≤ 2 ^ 16 := Nat.pow_le_pow_right (by decide) hk
    have htake : (heads.take (2 ^ k - q.start (2 ^ k))).length = 2 ^ k - q.start (2 ^ k) := by
      rw [List.length_take]
      omega
    have hfirst : Contiguous k (heads.take (2 ^ k - q.start (2 ^ k))).length q :=
      ⟨by omega, Or.inl hk, Or.inl (by omega)⟩
    have hzero := start_wrap hk htake
    have hsecond : Contiguous k (heads.drop (2 ^ k - q.start (2 ^ k))).length
        (addUsedPart (2 ^ k) q (heads.take (2 ^ k - q.start (2 ^ k)))) := by
      have hdrop := List.length_drop (i := 2 ^ k - q.start (2 ^ k)) (l := heads)
      exact ⟨by omega, Or.inl hk, Or.inl (by omega)⟩
    rw [hsecond.addUsedPart_eq, hfirst.addUsedPart_eq, ← List.foldl_append, List.take_append_drop]
  · rename_i hone
    have hshort : heads.length < 2 ^ 16 ∨ q.signalledUsedValid = false := by
      by_cases hshort : heads.length < 2 ^ 16
      · exact Or.inl hshort
      -- a whole turn in one part starts at 0
      have hzero : heads.length = 2 ^ 16 ∧ q.lastUsedIdx.toNat = 0 := by
        rcases hturn with hk | hturn
        · have hpow : 2 ^ k ≤ 2 ^ 16 := Nat.pow_le_pow_right (by decide) hk
          have hmod : q.start (2 ^ k) = q.lastUsedIdx.toNat := by
            rw [start_eq_mod]
            exact Nat.mod_eq_of_lt (Nat.lt_of_lt_of_le q.lastUsedIdx.isLt (by omega))
          omega
        · omega
      exact Or.inr (hvalid hzero.1 (BitVec.eq_of_toNat_eq hzero.2))
    rw [Contiguous.addUsedPart_eq ⟨by omega, hturn, hshort⟩]

/-! ## The queue of the driver -/

/-- What the consumer's side of a queue has of this. -/
def usedOf (s : Virtq.Sys) : Used where
  ring := s.usedRing
  idx := BitVec.ofNat 16 s.usedIdx
  lastUsedIdx := BitVec.ofNat 16 s.peerLastUsedIdx
  signalledUsed := BitVec.ofNat 16 s.signalledUsed
  signalledUsedValid := s.signalledUsedValid

/-- Returning a chain in the model of the whole queue is a call for one element. -/
theorem usedOf_vmboxVirtqAddUsed {s : Virtq.Sys} (hlast : s.peerLastUsedIdx < 2 ^ 16)
    (k : Nat) (c : Virtq.Chain) (len : Nat) :
    usedOf (Virtq.vmboxVirtqAddUsed (2 ^ k) s c len) =
      vmboxVirtqAddUsed (2 ^ k) (usedOf s) ⟨c.head, len⟩ := by
  have hstart : (usedOf s).start (2 ^ k) = s.peerLastUsedIdx &&& (2 ^ k - 1) := by
    rw [Used.start, usedOf, BitVec.toNat_ofNat, Nat.mod_eq_of_lt hlast]
  have hnew : BitVec.ofNat 16 (u16 (s.peerLastUsedIdx + 1)) =
      BitVec.ofNat 16 s.peerLastUsedIdx + 1 := by
    apply BitVec.eq_of_toNat_eq
    simp [u16]
  rw [vmboxVirtqAddUsed, vmboxVirtqAddUsedN, addUsedN_singleton]
  refine Used.ext ?_ hnew hnew rfl ?_
  · show Function.update s.usedRing _ _ = Function.update s.usedRing _ _
    rw [hstart]
  · show (if _ then false else s.signalledUsedValid) = if _ then false else s.signalledUsedValid
    refine if_congr ?_ rfl rfl
    rw [BitVec.lt_def]
    simp only [usedOf, List.length_singleton, BitVec.toNat_sub, BitVec.toNat_add,
      BitVec.toNat_ofNat, sub16, u16]
    omega

/-! ## Where they differ -/

/-- The elements one by one go to places below the turn of the counter. -/
theorem foldl_ring_high {i : Nat} (hi : 2 ^ 16 ≤ i) :
    (heads.foldl (addPartOne num) q).ring i = q.ring i := by
  induction heads generalizing q with
  | nil => rfl
  | cons e es ih =>
    have hstart : q.start num < 2 ^ 16 := Nat.lt_of_le_of_lt Nat.and_le_left q.lastUsedIdx.isLt
    rw [List.foldl_cons, ih]
    exact Function.update_of_ne (by omega) _ _

theorem foldl_valid (num : Nat) (q : Used) (heads : List VringUsedElem) :
    (heads.foldl (addPartOne num) q).signalledUsedValid = true ↔
      q.signalledUsedValid = true ∧
        ¬ Window (q.lastUsedIdx + 1) heads.length q.signalledUsed := by
  induction heads generalizing q with
  | nil => exact (and_iff_left not_window_zero).symm
  | cons e es ih =>
    rw [List.foldl_cons, ih, window_cons, List.length_cons]

/-- The places of a part of equal elements. -/
theorem copyTo_replicate (ring : Nat → VringUsedElem) {start n i : Nat} (hi : start ≤ i)
    (hend : i < start + n) : copyTo ring start (List.replicate n e) i = e := by
  rw [copyTo, if_pos hi, List.getElem?_replicate, if_pos (by omega)]
  rfl

theorem copyTo_replicate_self {ring : Nat → VringUsedElem} {start n i : Nat} (hi : ring i = e) :
    copyTo ring start (List.replicate n e) i = e := by
  unfold copyTo
  split
  · rw [List.getElem?_replicate]
    split
    · rfl
    · exact hi
  · exact hi

/-- In a ring that is longer than the turn, the batch goes on where the counter has turned
over. -/
theorem addUsedN_high (hk : 17 ≤ k) {n : Nat} (hn : 2 ^ 16 < q.lastUsedIdx.toNat + n) :
    (addUsedN (2 ^ k) q (List.replicate n e)).ring (2 ^ 16) = e := by
  have hpow : 2 ^ 17 ≤ 2 ^ k := Nat.pow_le_pow_right (by decide) hk
  have hlast := q.lastUsedIdx.isLt
  have hstart : q.start (2 ^ k) = q.lastUsedIdx.toNat := by
    rw [start_eq_mod, Nat.mod_eq_of_lt (by omega)]
  rw [addUsedN]
  split
  · have hfirst : (addUsedPart (2 ^ k) q
        ((List.replicate n e).take (2 ^ k - q.start (2 ^ k)))).ring (2 ^ 16) = e := by
      rw [addUsedPart_ring, List.take_replicate]
      exact copyTo_replicate _ (by omega) (by omega)
    show (addUsedPart (2 ^ k) _ _).ring (2 ^ 16) = e
    rw [addUsedPart_ring, List.drop_replicate]
    exact copyTo_replicate_self hfirst
  · show (addUsedPart (2 ^ k) q (List.replicate n e)).ring (2 ^ 16) = e
    rw [addUsedPart_ring]
    exact copyTo_replicate _ (by omega) (by omega)

/-- A whole turn in one part leaves the counter and the validity as they were. -/
theorem addUsedN_turn (hk : 16 ≤ k) (hlast : q.lastUsedIdx = 0) (hlen : heads.length = 2 ^ 16) :
    ∃ ring, addUsedN (2 ^ k) q heads = ⟨ring, 0, 0, q.signalledUsed, q.signalledUsedValid⟩ := by
  have hpow : 2 ^ 16 ≤ 2 ^ k := Nat.pow_le_pow_right (by decide) hk
  have hstart : q.start (2 ^ k) = 0 := by
    rw [start_eq_mod, hlast]
    exact Nat.zero_mod _
  have hturn : BitVec.ofNat 16 heads.length = 0 := by
    rw [hlen]
    rfl
  have hnew : (addUsedPart (2 ^ k) q heads).lastUsedIdx = 0 := by
    rw [addUsedPart_lastUsedIdx, hlast, hturn]
    rfl
  refine ⟨(addUsedPart (2 ^ k) q heads).ring, ?_⟩
  rw [addUsedN, if_neg (by omega)]
  refine Used.ext rfl hnew hnew rfl ?_
  rw [Used.publish_valid]
  unfold addUsedPart
  dsimp only
  rw [new_sub_old, hturn]
  exact if_neg BitVec.not_lt_zero

theorem not_agree_turn (hk : 16 ≤ k) (idx signalled : BitVec 16) :
    ¬ Agree addUsedN (fun num q e => addUsedN num q [e]) (2 ^ k) (2 ^ 16) idx 0 signalled true := by
  generalize hturn : (2 ^ 16 : Nat) = n
  intro h
  have hlen : (List.replicate n (⟨0, 0⟩ : VringUsedElem)).length = n := List.length_replicate
  have hne : List.replicate n (⟨0, 0⟩ : VringUsedElem) ≠ [] := by
    rw [Ne, List.replicate_eq_nil_iff]
    omega
  have hboth := (h (fun _ => ⟨0, 0⟩) _ hlen).trans (foldl_addUsed k _ hne)
  obtain ⟨ring, hbatch⟩ := addUsedN_turn (q := ⟨fun _ => ⟨0, 0⟩, idx, 0, signalled, true⟩) hk rfl
    (hlen.trans hturn.symm)
  rw [hbatch] at hboth
  have hvalid := congrArg Used.signalledUsedValid hboth.symm
  rw [Used.publish_valid, foldl_valid] at hvalid
  exact hvalid.2 (window_of_le (by omega))

theorem not_agree_long (hk : 17 ≤ k) {n : Nat} {last : BitVec 16} (hn : 2 ^ 16 < last.toNat + n)
    (idx signalled : BitVec 16) (valid : Bool) :
    ¬ Agree addUsedN (fun num q e => addUsedN num q [e]) (2 ^ k) n idx last signalled valid := by
  intro h
  have hlast := last.isLt
  have hne : List.replicate n (⟨1, 0⟩ : VringUsedElem) ≠ [] := by
    rw [Ne, List.replicate_eq_nil_iff]
    omega
  have hboth := congrArg (fun q => Used.ring q (2 ^ 16))
    (h (fun _ => ⟨0, 0⟩) (List.replicate n ⟨1, 0⟩) List.length_replicate)
  dsimp only at hboth
  rw [addUsedN_high hk hn, foldl_addUsed k _ hne, Used.publish_ring,
    foldl_ring_high (Nat.le_refl _)] at hboth
  cases hboth

/-! ## Batches and single elements -/

theorem agree_iff (k count : Nat) (idx last signalled : BitVec 16) (valid : Bool)
    (hcount : count ≤ 2 ^ k) :
    Agree addUsedN (fun num q e => addUsedN num q [e]) (2 ^ k) count idx last signalled valid ↔
      BatchOk k count idx last valid := by
  constructor
  · intro h
    refine ⟨?_, ?_, ?_⟩
    · rintro rfl
      have hboth := congrArg Used.idx (h (fun _ => ⟨0, 0⟩) [] rfl)
      rw [addUsedN_nil] at hboth
      exact hboth.symm
    · by_contra hnot
      rw [not_or] at hnot
      exact not_agree_long (by omega) (by omega) idx signalled valid h
    · rintro rfl rfl
      cases valid with
      | false => rfl
      | true =>
        have hk : 16 ≤ k := (Nat.pow_le_pow_iff_right (by decide)).mp hcount
        exact absurd h (not_agree_turn hk idx signalled)
  · rintro ⟨hpublished, hturn, hvalid⟩ ring heads rfl
    rw [addUsedN_eq hcount hturn hvalid]
    by_cases hne : heads = []
    · subst hne
      show Used.publish _ = _
      rw [hpublished rfl]
      rfl
    · exact (foldl_addUsed k _ hne).symm

/-- **Completing a batch is completing its elements one by one**, in both programs, except
for a batch of nothing before the index was published, a ring longer than the turn of the
16-bit counters in which the counter turns over, and a batch that is a whole turn. -/
theorem add_used_n_agrees_iff (k count : Nat) (idx last signalled : BitVec 16) (valid : Bool)
    (hcount : count ≤ 2 ^ k) :
    (Agree vmboxVirtqAddUsedN vmboxVirtqAddUsed (2 ^ k) count idx last signalled valid ↔
      BatchOk k count idx last valid) ∧
    (Agree virtqAddUsedN virtqAddUsed (2 ^ k) count idx last signalled valid ↔
      BatchOk k count idx last valid) :=
  ⟨agree_iff k count idx last signalled valid hcount,
    agree_iff k count idx last signalled valid hcount⟩

/-- Seven elements in a ring of eight, over its end and over the turn of the counter. -/
theorem add_used_n_agrees_seven :
    Agree vmboxVirtqAddUsedN vmboxVirtqAddUsed 8 7 0xfffd 0xfffd 0 true ∧
      Agree virtqAddUsedN virtqAddUsed 8 7 0xfffd 0xfffd 0 true := by
  have hok : BatchOk 3 7 0xfffd 0xfffd true := ⟨by decide, by decide, by decide⟩
  have hiff := add_used_n_agrees_iff 3 7 0xfffd 0xfffd 0 true (by decide)
  exact ⟨hiff.1.mpr hok, hiff.2.mpr hok⟩

/-- A ring of 65536 filled in one batch after a signal at 0: one by one the elements take
the validity away, the batch does not. -/
theorem add_used_n_not_agrees :
    ¬ Agree vmboxVirtqAddUsedN vmboxVirtqAddUsed (2 ^ 16) (2 ^ 16) 0 0 0 true ∧
      ¬ Agree virtqAddUsedN virtqAddUsed (2 ^ 16) (2 ^ 16) 0 0 0 true :=
  ⟨not_agree_turn (Nat.le_refl 16) 0 0, not_agree_turn (Nat.le_refl 16) 0 0⟩

end Minos.UsedBatch
