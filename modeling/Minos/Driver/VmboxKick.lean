import Minos.Driver.VmboxVirtq
import Minos.Lib.Window

/-!
# Kicks for new buffers

`vmbox_virtq_need_notify_avail` and `vmbox_virtq_notify_avail` of `vmbox/vmbox_virtq.c` in
the Linux driver, on the queue of `VmboxVirtq`. With the event index in use the peer names
the entry of the available ring it wants to hear of, and the producer is to kick it when
that entry is among those it made available since it notified last.

The producer counts its entries in `last_avail_idx` and `num_added`. The end of the new
entries is taken from `avail_idx`, a field that only `vmbox_virtq_get_avail_bufs` sets, which
is a function of the other side.
-/

namespace Minos.VmboxKick

open Minos.Lib Minos.Virtq

/-! ## The functions -/

def vringUsedFNoNotify : BitVec 16 := 1

/-- `vmbox_virtq_need_event`. -/
def vmboxVirtqNeedEvent (eventIdx newIdx oldIdx : BitVec 16) : Bool :=
  decide (newIdx - eventIdx - 1 < newIdx - oldIdx)

/-- The queue, the `avail_idx` of the producer, and the number of entries made available
since `vmbox_virtq_notify_avail` was called last. -/
structure Producer where
  queue : Sys
  availIdx : BitVec 16
  since : Nat

/-- `vmbox_virtq_need_notify_avail`, with what the peer has in the used ring. -/
def vmboxVirtqNeedNotifyAvail (event : Bool) (availEvent usedFlags : BitVec 16) (p : Producer) :
    Bool × Producer :=
  let old := BitVec.ofNat 16 p.queue.lastAvailIdx - BitVec.ofNat 16 p.queue.numAdded
  let new := p.availIdx
  (if event then vmboxVirtqNeedEvent availEvent new old
    else usedFlags &&& vringUsedFNoNotify == 0,
    { p with queue := { p.queue with numAdded := 0 } })

/-- `vmbox_virtq_notify_avail`: whether the peer is kicked. -/
def vmboxVirtqNotifyAvail (event : Bool) (availEvent usedFlags : BitVec 16) (p : Producer) :
    Bool × Producer :=
  let r := vmboxVirtqNeedNotifyAvail event availEvent usedFlags p
  (r.1 && !p.queue.broken, r.2)

def vmboxVirtqAddInbuf (num : Nat) (s : Sys) (ins : List VringBuf) : Except Errno Nat × Sys :=
  vmboxVirtqAddBuf num s [] ins

def vmboxVirtqAddOutbuf (num : Nat) (s : Sys) (outs : List VringBuf) : Except Errno Nat × Sys :=
  vmboxVirtqAddBuf num s outs []

/-! ## Runs -/

/-- What the producer calls, with what the peer has in the used ring at a notification, and
what the two sides do to take buffers out of the queue again. -/
inductive Event
  | addInbuf (ins : List VringBuf)
  | addOutbuf (outs : List VringBuf)
  | notifyAvail (availEvent usedFlags : BitVec 16)
  | getUsedBufs (cnt : Nat)
  | getAvailBufs (cnt : Nat)
  | addUsed (head len : Nat)
  deriving DecidableEq, Repr

def vmboxVirtqInit (num : Nat) : Producer := ⟨Virtq.vmboxVirtqInit num, 0, 0⟩

/-- An entry was made available when the call succeeded. -/
def Producer.added (p : Producer) (r : Except Errno Nat × Sys) : Producer :=
  ⟨r.2, p.availIdx, match r.1 with | .ok _ => p.since + 1 | .error _ => p.since⟩

/-- The event index is in use. -/
def step (num : Nat) (p : Producer) : Event → Option Producer
  | .addInbuf ins => some (p.added (vmboxVirtqAddInbuf num p.queue ins))
  | .addOutbuf outs => some (p.added (vmboxVirtqAddOutbuf num p.queue outs))
  | .notifyAvail availEvent usedFlags =>
    some { (vmboxVirtqNotifyAvail true availEvent usedFlags p).2 with since := 0 }
  | .getUsedBufs cnt => (virtqStep num p.queue (.getUsedBufs cnt)).map ({ p with queue := · })
  | .getAvailBufs cnt => (virtqStep num p.queue (.getAvailBufs cnt)).map ({ p with queue := · })
  | .addUsed head len => (virtqStep num p.queue (.addUsed head len)).map ({ p with queue := · })

/-! ## What is promised -/

/-- The index of the first entry since the last notification. -/
def Producer.first (p : Producer) : BitVec 16 :=
  BitVec.ofNat 16 p.queue.lastAvailIdx - BitVec.ofNat 16 p.since

/-- The index is one of those of the entries since the last notification. -/
def New (p : Producer) (event : BitVec 16) : Prop := Window p.first p.since event

/-- The peer is kicked exactly when it asked for one of the new entries. -/
def StepRight (p : Producer) : Event → Prop
  | .notifyAvail availEvent usedFlags =>
    (vmboxVirtqNotifyAvail true availEvent usedFlags p).1 = true ↔ New p availEvent
  | _ => True

/-- The new entries start at 0 and end before the index the peer asks for, or start at or
before it and reach past it, or start behind it and do not come round to it. -/
def StepOk (p : Producer) : Event → Prop
  | .notifyAvail availEvent _ =>
    (p.first = 0 → p.since ≤ availEvent.toNat) ∧
    (p.first ≠ 0 → p.first ≤ availEvent → availEvent.toNat < p.first.toNat + p.since) ∧
    (availEvent < p.first → p.first.toNat + p.since ≤ availEvent.toNat + 2 ^ 16)
  | _ => True

instance (p : Producer) : (e : Event) → Decidable (StepRight p e)
  | .notifyAvail availEvent _ =>
    inferInstanceAs (Decidable (_ = true ↔ Window p.first p.since availEvent))
  | .addInbuf _ | .addOutbuf _ | .getUsedBufs _ | .getAvailBufs _ | .addUsed _ _ =>
    inferInstanceAs (Decidable True)

/-! ## What the calls leave alone -/

variable {num : Nat} {s s' : Sys} {p p' : Producer}

/-- Adding counts the entry, or does nothing. -/
theorem vmboxVirtqAddBuf_cases (num : Nat) (s : Sys) (outs ins : List VringBuf) :
    (∃ head, (vmboxVirtqAddBuf num s outs ins).1 = .ok head ∧
      (vmboxVirtqAddBuf num s outs ins).2.numAdded = s.numAdded + 1 ∧
      (vmboxVirtqAddBuf num s outs ins).2.broken = s.broken) ∨
    ∃ e, vmboxVirtqAddBuf num s outs ins = (.error e, s) := by
  unfold vmboxVirtqAddBuf
  dsimp only
  split_ifs
  · exact Or.inr ⟨_, rfl⟩
  · exact Or.inr ⟨_, rfl⟩
  · exact Or.inr ⟨_, rfl⟩
  · exact Or.inl ⟨_, rfl, rfl, rfl⟩

theorem getUsedBufs_frame (num : Nat) (s : Sys) (cnt : Nat) :
    (vmboxVirtqGetUsedBufs num s cnt).2.numAdded = s.numAdded ∧
      (vmboxVirtqGetUsedBufs num s cnt).2.broken = s.broken := by
  unfold vmboxVirtqGetUsedBufs
  dsimp only
  split_ifs <;> exact ⟨rfl, rfl⟩

theorem getAvailBufs_frame (num : Nat) (s : Sys) (cnt : Nat) :
    (vmboxVirtqGetAvailBufs num s cnt).2.numAdded = s.numAdded ∧
      (vmboxVirtqGetAvailBufs num s cnt).2.broken = s.broken := by
  unfold vmboxVirtqGetAvailBufs
  dsimp only
  generalize availLoop num s.desc cnt (s.availRing (s.peerLastAvailIdx &&& (num - 1))) = r
  cases r <;> dsimp only <;> split_ifs <;> exact ⟨rfl, rfl⟩

/-! ## The producer's counters -/

/-- `num_added` counts the entries since the last notification, `avail_idx` is never set, and
the queue does not break. -/
structure Inv (p : Producer) : Prop where
  added : p.queue.numAdded = p.since
  availIdx : p.availIdx = 0
  broken : p.queue.broken = false

theorem Inv.queue (h : Inv p) (hadded : s.numAdded = p.queue.numAdded)
    (hbroken : s.broken = p.queue.broken) : Inv { p with queue := s } :=
  ⟨hadded.trans h.added, h.availIdx, hbroken.trans h.broken⟩

theorem Inv.add (h : Inv p) (num : Nat) (outs ins : List VringBuf) :
    Inv (p.added (vmboxVirtqAddBuf num p.queue outs ins)) := by
  rcases vmboxVirtqAddBuf_cases num p.queue outs ins with ⟨head, hok, hadded, hbroken⟩ | ⟨e, herr⟩
  · refine ⟨?_, h.availIdx, hbroken.trans h.broken⟩
    show (vmboxVirtqAddBuf num p.queue outs ins).2.numAdded = _
    rw [hadded, h.added, Producer.added, hok]
  · rw [herr]
    exact h

theorem Inv.step {e : Event} (h : Inv p) (hs : step num p e = some p') : Inv p' := by
  cases e with
  | addInbuf ins =>
    cases hs
    exact h.add num [] ins
  | addOutbuf outs =>
    cases hs
    exact h.add num outs []
  | notifyAvail availEvent usedFlags =>
    cases hs
    exact ⟨rfl, h.availIdx, h.broken⟩
  | getUsedBufs cnt =>
    cases hs
    obtain ⟨hadded, hbroken⟩ := getUsedBufs_frame num p.queue cnt
    exact h.queue hadded hbroken
  | getAvailBufs cnt =>
    cases hs
    obtain ⟨hadded, hbroken⟩ := getAvailBufs_frame num p.queue cnt
    exact h.queue hadded hbroken
  | addUsed head len =>
    rw [VmboxKick.step, virtqStep] at hs
    cases hc : p.queue.held.find? fun c => c.head == head with
    | none =>
      rw [hc] at hs
      cases hs
    | some c =>
      rw [hc] at hs
      cases hs
      exact h.queue rfl rfl

/-! ## The comparison -/

/-- With 0 for the end of the new entries, all from the first to the end of the turn are
taken for new. -/
theorem vmboxVirtqNeedEvent_zero (event first : BitVec 16) :
    vmboxVirtqNeedEvent event 0 first = true ↔ first ≠ 0 ∧ first ≤ event := by
  rw [vmboxVirtqNeedEvent, decide_eq_true_iff, BitVec.lt_def, BitVec.le_def, Ne,
    ← BitVec.toNat_inj]
  simp only [BitVec.toNat_sub]
  have hevent := event.isLt
  have hfirst := first.isLt
  have hone : (1 : BitVec 16).toNat = 1 := rfl
  have hzero : (0 : BitVec 16).toNat = 0 := rfl
  omega

theorem Inv.stepRight_iff (h : Inv p) (e : Event) : StepRight p e ↔ StepOk p e := by
  cases e with
  | notifyAvail availEvent usedFlags =>
    have hkick : (vmboxVirtqNotifyAvail true availEvent usedFlags p).1 = true ↔
        p.first ≠ 0 ∧ p.first ≤ availEvent := by
      rw [← vmboxVirtqNeedEvent_zero, vmboxVirtqNotifyAvail, vmboxVirtqNeedNotifyAvail, h.broken,
        h.availIdx, h.added]
      simp [Producer.first]
    rw [StepRight, StepOk, hkick, New, window_iff]
    have hevent := availEvent.isLt
    have hfirst := p.first.isLt
    have hzero : (0 : BitVec 16).toNat = 0 := rfl
    simp only [BitVec.le_def, BitVec.lt_def, BitVec.toNat_sub, Ne, ← BitVec.toNat_inj, hzero]
    omega
  | addInbuf _ | addOutbuf _ | getUsedBufs _ | getAvailBufs _ | addUsed _ _ => exact Iff.rfl

theorem first_add_since (p : Producer) :
    p.first + BitVec.ofNat 16 p.since = BitVec.ofNat 16 p.queue.lastAvailIdx :=
  BitVec.sub_add_cancel _ _

/-- Whatever the peer asks for, the comparison is right only when the new entries end with
the turn of the counter, and are not more than it. -/
theorem ok_for_every_event_iff (p : Producer) :
    (∀ availEvent usedFlags, StepOk p (.notifyAvail availEvent usedFlags)) ↔
      BitVec.ofNat 16 p.queue.lastAvailIdx = 0 ∧ p.since < 2 ^ 16 := by
  simp only [StepOk]
  rw [← first_add_since]
  generalize p.first = first
  have hfirst := first.isLt
  constructor
  · intro h
    have hzero := h 0 0
    have hlast := h (first + BitVec.ofNat 16 p.since) 0
    have hbefore := h (first + BitVec.ofNat 16 p.since - 1) 0
    have hone : (1 : BitVec 16).toNat = 1 := rfl
    have hnone : (0 : BitVec 16).toNat = 0 := rfl
    simp only [BitVec.le_def, BitVec.lt_def, BitVec.toNat_sub, BitVec.toNat_add,
      BitVec.toNat_ofNat, Ne, ← BitVec.toNat_inj, hone, hnone] at hzero hlast hbefore ⊢
    have hturn : p.since < 2 ^ 16 := by
      by_contra hturn
      omega
    exact ⟨by omega, hturn⟩
  · rintro ⟨hlast, hsince⟩ event -
    have hnone : (0 : BitVec 16).toNat = 0 := rfl
    simp only [BitVec.le_def, BitVec.lt_def, BitVec.toNat_add, Ne, ← BitVec.toNat_inj,
      BitVec.toNat_ofNat, hnone] at hlast ⊢
    have hevent := event.isLt
    omega

/-- **The producer kicks the peer for exactly the entries it should as long as the first and
the number of the new entries keep to these bounds**, as if the new entries always reached to
the end of the turn of the counter. -/
theorem kicks_right_iff (num : Nat) (l : List Event) :
    Along (step num) StepRight (vmboxVirtqInit num) l ↔
      Along (step num) StepOk (vmboxVirtqInit num) l :=
  along_congr (I := Inv) (fun _ _ _ h _ hs => h.step hs) (fun _ e h => h.stepRight_iff e)
    ⟨rfl, rfl, rfl⟩ l

/-- The very first entry, which the peer waits for, is not kicked for. -/
theorem first_kick_missing :
    ¬ Along (step 4) StepRight (vmboxVirtqInit 4) [.addOutbuf [⟨0, 64⟩], .notifyAvail 0 0] := by
  decide +kernel

end Minos.VmboxKick
