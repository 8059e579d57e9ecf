import Minos.Driver.UsedBatch
import Minos.Lib.Run

/-!
# Interrupts for completed requests

`virtq_need_notify` and `virtq_notify` of `devices/virtio/virtio.c` in `mvm`. With the
event index negotiated, the driver names the completion it wants to hear of, and
`mvm` keeps where it signalled last in `signalled_used`, with a flag that is taken away
when completions have turned the counter over since. An interrupt is due when what the
driver named is among the completions since the last call of `virtq_notify`.
-/

namespace Minos.UsedEvent

open Minos.Lib Minos.UsedBatch
open Minos.Virtq (VringUsedElem)

/-! ## The functions -/

def virtioRingFEventIdx : Nat := 29
def virtioFNotifyOnEmpty : Nat := 24
def vringAvailFNoInterrupt : BitVec 16 := 1

/-- `virtq_has_feature`. -/
def virtqHasFeature (acked : BitVec 64) (fe : Nat) : Bool := acked.getLsbD fe

/-- `virtq_need_event`. -/
def virtqNeedEvent (eventIdx newIdx oldIdx : BitVec 16) : Bool :=
  decide (newIdx - eventIdx - 1 < newIdx - oldIdx)

/-- The fields of `struct virt_queue` that are used here. -/
structure Queue where
  used : Used
  availIdx : BitVec 16
  lastAvailIdx : BitVec 16

/-- `virtq_need_notify`, with the flags and the event index the driver has in the available
ring. -/
def virtqNeedNotify (acked : BitVec 64) (availFlags usedEvent : BitVec 16) (q : Queue) :
    Bool × Queue :=
  if virtqHasFeature acked virtioFNotifyOnEmpty && q.availIdx == q.lastAvailIdx then (true, q)
  else if !virtqHasFeature acked virtioRingFEventIdx then
    (availFlags &&& vringAvailFNoInterrupt == 0, q)
  else
    let old := q.used.signalledUsed
    let new := q.used.lastUsedIdx
    let q' := { q with used := { q.used with signalledUsed := new, signalledUsedValid := true } }
    if q.used.signalledUsedValid then (virtqNeedEvent usedEvent new old, q') else (true, q')

/-! ## Runs -/

/-- `getDescs` is whatever `virtq_get_descs` and `virtq_discard_desc` leave in `avail_idx`
and `last_avail_idx`. A call of `virtq_notify` comes with what the driver has in the
available ring. -/
inductive Event
  | addUsed (heads : List VringUsedElem)
  | getDescs (availIdx lastAvailIdx : BitVec 16)
  | notify (availFlags usedEvent : BitVec 16)
  deriving DecidableEq, Repr

/-- The queue, and the number of completions since `virtq_notify` was called last. -/
structure Sys where
  queue : Queue
  since : Nat

/-- What `virtio_buffer_event` leaves, with the used ring as it is in memory. -/
def fresh (ring : Nat → VringUsedElem) (idx : BitVec 16) : Sys :=
  ⟨⟨⟨ring, idx, 0, 0, false⟩, 0, 0⟩, 0⟩

/-- A batch is not longer than the ring. -/
def step (num : Nat) (acked : BitVec 64) (s : Sys) : Event → Option Sys
  | .addUsed heads =>
    if heads.length ≤ num then
      some ⟨{ s.queue with used := virtqAddUsedN num s.queue.used heads },
        s.since + heads.length⟩
    else none
  | .getDescs availIdx lastAvailIdx =>
    some { s with queue := { s.queue with availIdx, lastAvailIdx } }
  | .notify availFlags usedEvent =>
    some ⟨(virtqNeedNotify acked availFlags usedEvent s.queue).2, 0⟩

/-! ## What is promised -/

/-- The index is one of those of the completions since the last call. -/
def Completed (s : Sys) (event : BitVec 16) : Prop :=
  Window (s.queue.used.lastUsedIdx - BitVec.ofNat 16 s.since) s.since event

/-- A call of `virtq_notify` raises the interrupt when it is due. -/
def StepRight (acked : BitVec 64) (s : Sys) : Event → Prop
  | .notify availFlags usedEvent =>
    Completed s usedEvent → (virtqNeedNotify acked availFlags usedEvent s.queue).1 = true
  | _ => True

/-- With the event index negotiated, no interrupt is missed in a queue of `num`. -/
def NeverMissed (num : Nat) : Prop :=
  ∀ acked, virtqHasFeature acked virtioRingFEventIdx = true →
    ∀ ring idx l, Along (step num acked) (StepRight acked) (fresh ring idx) l

/-! ## The counters -/

variable {num since k : Nat} {q : Used} {heads : List VringUsedElem}

/-- While the flag is set, `signalled_used` is less than a turn behind, and not after the
completions since the last call. -/
def Tracks (q : Used) (since : Nat) : Prop :=
  q.signalledUsedValid = true →
    ∃ total < 2 ^ 16, since ≤ total ∧ q.signalledUsed = q.lastUsedIdx - BitVec.ofNat 16 total

theorem Tracks.part (h : Tracks q since) (num : Nat) (hlen : heads.length < 2 ^ 16) :
    Tracks (addUsedPart num q heads) (since + heads.length) := by
  intro hvalid
  obtain ⟨hvalid, hnot⟩ := (addUsedPart_valid hlen).mp hvalid
  obtain ⟨total, ht, hle, hsig⟩ := h hvalid
  have hno : total + heads.length < 2 ^ 16 := by
    by_contra hturn
    exact hnot (hsig ▸ window_of_turn ht (by omega))
  refine ⟨total + heads.length, hno, by omega, ?_⟩
  rw [addUsedPart_signalledUsed, addUsedPart_lastUsedIdx, hsig, BitVec.ofNat_add]
  abel

theorem Tracks.batch (h : Tracks q since) (num : Nat) (hlen : heads.length < 2 ^ 16) :
    Tracks (virtqAddUsedN num q heads) (since + heads.length) := by
  rw [virtqAddUsedN, addUsedN]
  split
  · have htake : (heads.take (num - q.start num)).length < 2 ^ 16 := by
      rw [List.length_take]
      omega
    have hdrop : (heads.drop (num - q.start num)).length < 2 ^ 16 := by
      rw [List.length_drop]
      omega
    have hboth := (h.part num htake).part num hdrop
    rw [Nat.add_assoc, ← List.length_append, List.take_append_drop] at hboth
    exact hboth
  · exact h.part num hlen

/-! ## Steps -/

variable {acked : BitVec 64} {s s' : Sys}

/-- What a call does to the queue: nothing, when it raises the interrupt for an empty
queue, or it notes where it signalled. -/
theorem virtqNeedNotify_cases (hfeat : virtqHasFeature acked virtioRingFEventIdx = true)
    (availFlags usedEvent : BitVec 16) (q : Queue) :
    virtqNeedNotify acked availFlags usedEvent q = (true, q) ∨
      virtqNeedNotify acked availFlags usedEvent q =
        (!q.used.signalledUsedValid ||
            virtqNeedEvent usedEvent q.used.lastUsedIdx q.used.signalledUsed,
          { q with used := { q.used with
            signalledUsed := q.used.lastUsedIdx, signalledUsedValid := true } }) := by
  unfold virtqNeedNotify
  cases hempty : virtqHasFeature acked virtioFNotifyOnEmpty && q.availIdx == q.lastAvailIdx with
  | true => exact Or.inl rfl
  | false =>
    refine Or.inr ?_
    cases hvalid : q.used.signalledUsedValid <;> simp [hfeat]

/-- The interrupt is raised when it is due. -/
theorem Tracks.stepRight (h : Tracks s.queue.used s.since)
    (hfeat : virtqHasFeature acked virtioRingFEventIdx = true) (a : Event) :
    StepRight acked s a := by
  cases a with
  | addUsed | getDescs => trivial
  | notify availFlags usedEvent =>
    intro hdue
    rcases virtqNeedNotify_cases hfeat availFlags usedEvent s.queue with hearly | hnote
    · rw [hearly]
    · rw [hnote]
      cases hvalid : s.queue.used.signalledUsedValid with
      | false => rfl
      | true =>
        obtain ⟨total, ht, hle, hsig⟩ := h hvalid
        have hwin : Window s.queue.used.signalledUsed total usedEvent := hsig ▸ hdue.mono hle
        have hend : s.queue.used.lastUsedIdx =
            s.queue.used.signalledUsed + BitVec.ofNat 16 total := by
          rw [hsig, BitVec.sub_add_cancel]
        rw [Bool.not_true, Bool.false_or, virtqNeedEvent, decide_eq_true_iff, hend, new_sub_old,
          before_end_iff ht]
        exact hwin

/-- No batch is as long as a turn of the counter. -/
def Short : Event → Prop
  | .addUsed heads => heads.length < 2 ^ 16
  | _ => True

theorem Tracks.step (h : Tracks s.queue.used s.since)
    (hfeat : virtqHasFeature acked virtioRingFEventIdx = true) {a : Event} (hshort : Short a)
    (hs : step num acked s a = some s') : Tracks s'.queue.used s'.since := by
  cases a with
  | addUsed heads =>
    rw [UsedEvent.step] at hs
    split_ifs at hs
    cases hs
    exact h.batch num hshort
  | getDescs availIdx lastAvailIdx =>
    cases hs
    exact h
  | notify availFlags usedEvent =>
    rw [UsedEvent.step] at hs
    rcases virtqNeedNotify_cases hfeat availFlags usedEvent s.queue with hearly | hnote
    · rw [hearly] at hs
      cases hs
      intro hvalid
      obtain ⟨total, ht, -, hsig⟩ := h hvalid
      exact ⟨total, ht, Nat.zero_le _, hsig⟩
    · rw [hnote] at hs
      cases hs
      exact fun _ => ⟨0, by decide, Nat.le_refl 0, by simp⟩

/-- The queue is at most half a turn long, so that every batch is short. -/
theorem short_of_step (hk : k ≤ 15) {a : Event} (hs : step (2 ^ k) acked s a = some s') :
    Short a := by
  cases a with
  | addUsed heads =>
    rw [UsedEvent.step] at hs
    split_ifs at hs with hlen
    have hpow : 2 ^ k ≤ 2 ^ 15 := Nat.pow_le_pow_right (by decide) hk
    exact Nat.lt_of_le_of_lt (Nat.le_trans hlen hpow) (by decide)
  | getDescs | notify => trivial

/-- Where nothing seems to have been completed, nothing is raised. -/
theorem virtqNeedNotify_same {q : Queue} {availFlags usedEvent : BitVec 16}
    (hfeat : virtqHasFeature acked virtioRingFEventIdx = true)
    (hleft : (virtqHasFeature acked virtioFNotifyOnEmpty && q.availIdx == q.lastAvailIdx) = false)
    (hvalid : q.used.signalledUsedValid = true)
    (hsame : q.used.signalledUsed = q.used.lastUsedIdx) :
    (virtqNeedNotify acked availFlags usedEvent q).1 = false := by
  unfold virtqNeedNotify
  simp [hleft, hfeat, hvalid, hsame, virtqNeedEvent]

/-- A whole turn of completions in one batch, after a signal at the start. There is a
request left, so that the queue does not count as empty. -/
def missedRun (turn : Nat) : List Event :=
  [.getDescs 1 0, .notify 0 0, .addUsed (List.replicate turn ⟨0, 0⟩), .notify 0 0]

theorem missed (hk : 16 ≤ k) (ring : Nat → VringUsedElem) (idx : BitVec 16) :
    ¬ Along (step (2 ^ k) (BitVec.twoPow 64 virtioRingFEventIdx))
      (StepRight (BitVec.twoPow 64 virtioRingFEventIdx)) (fresh ring idx) (missedRun (2 ^ 16)) := by
  generalize hturn : (2 ^ 16 : Nat) = n
  rintro ⟨-, hrun⟩
  obtain ⟨-, hrun⟩ := hrun _ rfl
  obtain ⟨-, hrun⟩ := hrun _ rfl
  have hlen : (List.replicate n (⟨0, 0⟩ : VringUsedElem)).length = n := List.length_replicate
  have hpow : 2 ^ 16 ≤ 2 ^ k := Nat.pow_le_pow_right (by decide) hk
  obtain ⟨ring', hbatch⟩ := addUsedN_turn (q := ⟨ring, idx, 0, 0, true⟩) hk rfl
    (hlen.trans hturn.symm)
  obtain ⟨hnotify, -⟩ := hrun ⟨⟨⟨ring', 0, 0, 0, true⟩, 1, 0⟩, n⟩ (by
    rw [step, if_pos (by omega), hlen, ← hbatch, Nat.zero_add]
    rfl)
  have hraised := hnotify (window_of_le (Nat.le_of_eq hturn))
  rw [virtqNeedNotify_same (by decide) rfl rfl rfl] at hraised
  cases hraised

/-- **No completion interrupt is missed exactly in queues of at most 32768.** In a longer
one, a batch of 65536 after a signal at the start of the ring turns the counter over in one
part, which is not noticed. -/
theorem never_missed_iff (k : Nat) : NeverMissed (2 ^ k) ↔ k ≤ 15 := by
  constructor
  · intro h
    by_contra hk
    exact missed (by omega) _ _ (h _ (by decide) (fun _ => ⟨0, 0⟩) 0 (missedRun (2 ^ 16)))
  · intro hk acked hfeat ring idx l
    have hstart : Tracks (fresh ring idx).queue.used (fresh ring idx).since := fun h => nomatch h
    refine along_of_invariant (I := fun s => Tracks s.queue.used s.since) (P := fun _ _ => True)
      (fun s a s' h _ hs => h.step hfeat (short_of_step hk hs) hs)
      (fun s a h _ => h.stepRight hfeat a) hstart (along_true _ l)

/-- The call after the batch of 65536 raises nothing. -/
theorem interrupt_missed :
    ¬ Along (step (2 ^ 16) (BitVec.twoPow 64 virtioRingFEventIdx))
      (StepRight (BitVec.twoPow 64 virtioRingFEventIdx)) (fresh (fun _ => ⟨0, 0⟩) 0)
      (missedRun (2 ^ 16)) :=
  missed (Nat.le_refl 16) _ _

end Minos.UsedEvent
