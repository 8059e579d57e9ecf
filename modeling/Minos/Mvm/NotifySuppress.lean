import Minos.Mvm.UsedEvent
import Minos.Mvm.Virtio

/-!
# Suppressing notifications

`virtq_enable_notify` and `virtq_disable_notify` of `devices/virtio/virtio.c` in `mvm`, with
which a device tells the driver whether it wants to be notified of new requests. Without the
event index this is a bit in the flags of the used ring, of which the queue has a private
copy; with it, the index of the next request to be notified of is published.
-/

namespace Minos.NotifySuppress

open Minos.Lib
open Minos.UsedEvent (virtqHasFeature virtioRingFEventIdx)

/-! ## The functions -/

def vringUsedFNoNotify : BitVec 16 := 1

/-- The fields of `struct virt_queue` that are used here, and the shared memory: the flags of
the used ring, the event index behind it, and the index of the available ring, which is
the driver's. -/
structure Queue where
  usedFlags : BitVec 16
  availIdx : BitVec 16
  sharedFlags : BitVec 16
  availEvent : BitVec 16
  driverIdx : BitVec 16
  deriving DecidableEq, Repr

def virtqUpdateUsedFlags (q : Queue) : Queue := { q with sharedFlags := q.usedFlags }

def virtqUpdateAvailEvent (q : Queue) (event : BitVec 16) : Queue := { q with availEvent := event }

/-- `virtq_enable_notify`: whether there are new requests already. -/
def virtqEnableNotify (acked : BitVec 64) (q : Queue) : Bool × Queue :=
  if q.usedFlags &&& vringUsedFNoNotify = 0 then (false, q)
  else
    let q := { q with usedFlags := q.usedFlags &&& ~~~ vringUsedFNoNotify }
    let q := if virtqHasFeature acked virtioRingFEventIdx then virtqUpdateAvailEvent q q.availIdx
      else virtqUpdateUsedFlags q
    (q.driverIdx != q.availIdx, q)

/-- `virtq_disable_notify`. The flags are published when the event index is in use. -/
def virtqDisableNotify (acked : BitVec 64) (q : Queue) : Queue :=
  if q.usedFlags &&& vringUsedFNoNotify = 0 then
    let q := { q with usedFlags := q.usedFlags ||| vringUsedFNoNotify }
    if virtqHasFeature acked virtioRingFEventIdx then virtqUpdateUsedFlags q else q
  else q

/-- What `virtq_get_descs` does here, whether it succeeds or fails. -/
def virtqGetDescs (q : Queue) : Queue := { q with availIdx := q.driverIdx }

/-- In the model of the whole call, too, the index is taken from the available ring. -/
theorem virtqGetDescs_availIdx (vm : Mvm.Vm) (mem : Mvm.Bytes) (vq : Mvm.VirtQueue)
    (iovSize : Nat) :
    (Mvm.virtqGetDescs vm mem vq iovSize).2.availIdx =
      BitVec.ofNat 16 (Mvm.readLe mem (u64 (vq.avail + 2)) 2) := by
  unfold Mvm.virtqGetDescs
  dsimp only
  generalize Mvm.chainLoop _ _ _ _ _ _ _ _ _ = r
  obtain ⟨_ | _, o⟩ := r <;> dsimp only <;> split_ifs <;> rfl

/-! ## Runs -/

/-- The calls, and the driver making requests available. -/
inductive Event
  | enable
  | disable
  | getDescs
  | driver (idx : BitVec 16)
  deriving DecidableEq, Repr

/-- The queue, whether the last of the calls asked for no notifications, and the index of the
first request that `mvm` has not seen in the available ring. -/
structure Sys where
  queue : Queue
  suppressed : Bool
  unseen : BitVec 16
  deriving DecidableEq, Repr

def step (acked : BitVec 64) (s : Sys) : Event → Option Sys
  | .enable => some ⟨(virtqEnableNotify acked s.queue).2, false, s.unseen⟩
  | .disable => some ⟨virtqDisableNotify acked s.queue, true, s.unseen⟩
  | .getDescs => some ⟨virtqGetDescs s.queue, s.suppressed, s.queue.driverIdx⟩
  | .driver idx => some { s with queue := { s.queue with driverIdx := idx } }

/-- Notifications are enabled. -/
structure Start (s : Sys) : Prop where
  ownFlag : s.queue.usedFlags &&& vringUsedFNoNotify = 0
  published : s.queue.sharedFlags &&& vringUsedFNoNotify = 0
  suppressed : s.suppressed = false
  unseen : s.unseen = s.queue.availIdx

/-! ## What is promised -/

/-- An enable call publishes the first request not seen as the one to be notified of, and says
whether the driver is past it. -/
def EnableRight (acked : BitVec 64) (s : Sys) : Prop :=
  (virtqEnableNotify acked s.queue).2.availEvent = s.unseen ∧
    ((virtqEnableNotify acked s.queue).1 = true ↔ s.queue.driverIdx ≠ s.unseen)

/-- Without the event index the bit the driver sees is what was asked for last. With it, an
enable call that comes after a disable call is right. -/
def Right (acked : BitVec 64) (s : Sys) : Prop :=
  if virtqHasFeature acked virtioRingFEventIdx then s.suppressed = true → EnableRight acked s
  else (s.queue.sharedFlags &&& vringUsedFNoNotify ≠ 0 ↔ s.suppressed = true)

instance (acked : BitVec 64) (s : Sys) : Decidable (EnableRight acked s) :=
  inferInstanceAs (Decidable (_ ∧ _))

instance (acked : BitVec 64) (s : Sys) : Decidable (Right acked s) :=
  inferInstanceAs (Decidable (ite _ _ _))

/-! ## The flags -/

variable {acked : BitVec 64} {s s' t : Sys}

/-- The private flag is what was asked for last, the index is the one not seen, and without
the event index the published bit is never set. -/
structure Inv (acked : BitVec 64) (s : Sys) : Prop where
  ownFlag : s.queue.usedFlags &&& vringUsedFNoNotify = 0 ↔ s.suppressed = false
  published : virtqHasFeature acked virtioRingFEventIdx = false →
    s.queue.sharedFlags &&& vringUsedFNoNotify = 0
  unseen : s.unseen = s.queue.availIdx

theorem Start.inv (h : Start s) : Inv acked s :=
  ⟨iff_of_true h.ownFlag h.suppressed, fun _ => h.published, h.unseen⟩

theorem clear_noNotify (v : BitVec 16) :
    v &&& ~~~ vringUsedFNoNotify &&& vringUsedFNoNotify = 0 := by
  rw [BitVec.and_assoc, BitVec.and_comm (~~~ vringUsedFNoNotify), BitVec.and_not_self]
  exact BitVec.and_zero

theorem set_noNotify (v : BitVec 16) : (v ||| vringUsedFNoNotify) &&& vringUsedFNoNotify ≠ 0 := by
  intro h
  have hbit := congrArg (fun w : BitVec 16 => w.getLsbD 0) h
  simp [vringUsedFNoNotify] at hbit

theorem Inv.enable (h : Inv acked s) :
    Inv acked ⟨(virtqEnableNotify acked s.queue).2, false, s.unseen⟩ := by
  unfold virtqEnableNotify
  split
  · rename_i hclear
    exact ⟨iff_of_true hclear rfl, h.published, h.unseen⟩
  · dsimp only
    split
    · rename_i hfeat
      refine ⟨iff_of_true (clear_noNotify _) rfl, fun hno => ?_, h.unseen⟩
      rw [hfeat] at hno
      cases hno
    · exact ⟨iff_of_true (clear_noNotify _) rfl, fun _ => clear_noNotify _, h.unseen⟩

theorem Inv.disable (h : Inv acked s) :
    Inv acked ⟨virtqDisableNotify acked s.queue, true, s.unseen⟩ := by
  unfold virtqDisableNotify
  split
  · dsimp only
    split
    · rename_i hfeat
      refine ⟨iff_of_false (set_noNotify _) (by simp), fun hno => ?_, h.unseen⟩
      rw [hfeat] at hno
      cases hno
    · exact ⟨iff_of_false (set_noNotify _) (by simp), h.published, h.unseen⟩
  · rename_i hset
    exact ⟨iff_of_false hset (by simp), h.published, h.unseen⟩

theorem Inv.step {e : Event} (h : Inv acked s) (hs : step acked s e = some s') :
    Inv acked s' := by
  cases e with
  | enable =>
    cases hs
    exact h.enable
  | disable =>
    cases hs
    exact h.disable
  | getDescs =>
    cases hs
    exact ⟨h.ownFlag, h.published, rfl⟩
  | driver idx =>
    cases hs
    exact ⟨h.ownFlag, h.published, h.unseen⟩

/-- With the event index, an enable call after a disable call is right. -/
theorem Inv.enableRight (h : Inv acked s)
    (hfeat : virtqHasFeature acked virtioRingFEventIdx = true) (hs : s.suppressed = true) :
    EnableRight acked s := by
  have hset : ¬ s.queue.usedFlags &&& vringUsedFNoNotify = 0 := by
    rw [h.ownFlag, hs]
    decide
  rw [EnableRight, virtqEnableNotify, if_neg hset, h.unseen]
  simp [hfeat, virtqUpdateAvailEvent]

theorem Inv.right_iff (h : Inv acked s) :
    Right acked s ↔
      virtqHasFeature acked virtioRingFEventIdx = true ∨ s.suppressed = false := by
  rw [Right]
  split
  · rename_i hfeat
    exact iff_of_true (h.enableRight hfeat) (Or.inl hfeat)
  · rename_i hno
    rw [Bool.not_eq_true] at hno
    have hzero := h.published hno
    simp [hzero, hno]

/-- **Suppression works exactly with the event index, or while notifications are asked for.**
Without it `virtq_disable_notify` does not publish the bit. -/
theorem notify_suppression_iff (acked : BitVec 64) (l : List Event) (h : Start s)
    (hr : run (step acked) s l = some t) :
    Right acked t ↔
      virtqHasFeature acked virtioRingFEventIdx = true ∨ t.suppressed = false :=
  (run_invariant (I := Inv acked) (P := fun _ _ => True) (fun _ _ _ h _ hs => h.step hs) h.inv
    (along_true s l) hr).right_iff

/-- A queue as it is set up. -/
def freshQueue : Sys := ⟨⟨0, 0, 0, 0, 0⟩, false, 0⟩

/-- With the event index: two requests are taken, notifications disabled, and a third request
comes before they are enabled again. -/
theorem notify_suppression_third :
    ∃ t, run (step (BitVec.twoPow 64 29)) freshQueue
        [.driver 2, .getDescs, .disable, .driver 3] = some t ∧
      Right (BitVec.twoPow 64 29) t := by
  exact exists_found (P := fun _ => True) (fun t ht _ => (notify_suppression_iff _ _
    ⟨rfl, rfl, rfl, rfl⟩ ht).mpr (Or.inl (by decide))) ⟨_, rfl, trivial⟩

/-- Without it, the driver does not see that notifications were disabled. -/
theorem disable_not_published :
    ∃ t, run (step 0) freshQueue [.disable] = some t ∧ t.suppressed = true ∧
      t.queue.sharedFlags = 0 ∧ ¬ Right 0 t := by
  decide +kernel

end Minos.NotifySuppress
