import Minos.Driver.VmboxVirtq

/-!
# Reclaiming a chain, or failing to

`vmbox_virtq_get_used_bufs` walks a used chain with its caller's buffers at hand, and
counts descriptors as free on the way; only at the end of the chain does it move the
free list and the index. A call fails when nothing is used, or when the chain has more
buffers than the caller. What a failed call leaves, and which buffers a call writes, is
said here for the queue of `VmboxVirtq`.
-/

namespace Minos.Virtq

open Minos.Lib

/-- The buffers a call writes, from the first of the caller on. -/
def usedWrites (num : Nat) (s : Sys) (cnt : Nat) : List VringBuf :=
  if s.broken ∨ s.lastUsedIdx = s.usedIdx then []
  else (usedLoop s.desc cnt (s.usedRing (s.lastUsedIdx &&& (num - 1))).id).1.map
    fun d => (s.desc d).translate

/-- A step of the queue, with callers that bring at least one buffer. -/
def reclaimStep (num : Nat) (s : Sys) (e : Event) : Option Sys :=
  if e = .getUsedBufs 0 then none else virtqStep num s e

/-- The free list and the index of the used ring are as before. -/
structure SameQueue (s s' : Sys) : Prop where
  desc : s'.desc = s.desc
  freeHead : s'.freeHead = s.freeHead
  numFree : s'.numFree = s.numFree
  lastUsedIdx : s'.lastUsedIdx = s.lastUsedIdx

/-- A call that fails leaves the queue as it was, and no call writes more buffers than
it was given. -/
def StepAtomic (num : Nat) (s : Sys) : Event → Prop
  | .getUsedBufs cnt => 0 < cnt →
    (∀ err s', vmboxVirtqGetUsedBufs num s cnt = (.error err, s') → SameQueue s s') ∧
      (usedWrites num s cnt).length ≤ cnt
  | _ => True

/-- The used chain that is next has no more buffers than the caller. -/
def UsedRoom (s : Sys) : Event → Prop
  | .getUsedBufs cnt => 0 < cnt → ∀ c ∈ s.returned[s.reclaimed.length]?, c.bufs.length ≤ cnt
  | _ => True

instance (s : Sys) : (e : Event) → Decidable (UsedRoom s e)
  | .getUsedBufs cnt =>
    inferInstanceAs (Decidable (0 < cnt →
      ∀ c ∈ s.returned[s.reclaimed.length]?, c.bufs.length ≤ cnt))
  | .addBuf _ _ | .addUsed _ _ | .getAvailBufs _ => inferInstanceAs (Decidable True)

variable {num : Nat} {s s' : Sys} {c : Chain}

theorem usedLoop_length_le (desc : Nat → VringDesc) (room m : Nat) :
    (usedLoop desc room m).1.length ≤ room := by
  induction room generalizing m with
  | zero => exact Nat.le_refl 0
  | succ room ih =>
    rw [usedLoop]
    split
    · exact Nat.succ_le_succ (ih _)
    · exact Nat.succ_le_succ (Nat.zero_le room)

/-- In every state, whatever the peer does. -/
theorem usedWrites_length_le (num : Nat) (s : Sys) (cnt : Nat) :
    (usedWrites num s cnt).length ≤ cnt := by
  unfold usedWrites
  split
  · exact Nat.zero_le cnt
  · rw [List.length_map]
    exact usedLoop_length_le _ _ _

theorem stepAtomic_iff (hnum : QueueSize num) (h : Inv num s) (e : Event) :
    StepAtomic num s e ↔ UsedRoom s e := by
  cases e with
  | addBuf | addUsed | getAvailBufs => exact Iff.rfl
  | getUsedBufs cnt =>
    refine imp_congr_right fun hpos => ?_
    rw [and_iff_left (usedWrites_length_le num s cnt)]
    cases hc : s.returned[s.reclaimed.length]? with
    | none =>
      refine ⟨fun _ c hnone => (by cases hnone), fun _ err s' hr => ?_⟩
      rw [h.reclaim_none hc] at hr
      cases hr
      exact ⟨rfl, rfl, rfl, rfl⟩
    | some c =>
      constructor
      · rintro hatomic c' hc'
        cases hc'
        by_contra hshort
        have hlt := Nat.lt_of_not_le hshort
        have hsame : s.numFree + (c.descs.take cnt).length = s.numFree :=
          (hatomic _ _ (h.reclaim_short hnum hc hlt)).numFree
        have hlen := (h.mem_used hc).2.length_eq
        rw [List.length_take] at hsame
        omega
      · intro hroom err s' hr
        rw [h.reclaim_some hnum hc (hroom c rfl)] at hr
        cases hr

theorem Inv.reclaimStep {e : Event} (hnum : QueueSize num) (h : Inv num s) (hroom : UsedRoom s e)
    (hs : reclaimStep num s e = some s') : Inv num s' := by
  rw [Virtq.reclaimStep] at hs
  split_ifs at hs with hempty
  cases e with
  | getUsedBufs cnt =>
    have hpos : 0 < cnt := by
      refine Nat.pos_of_ne_zero ?_
      rintro rfl
      exact hempty rfl
    have hfits : Room s (.getUsedBufs cnt) := hroom hpos
    exact h.step hnum hfits hs
  | getAvailBufs cnt =>
    cases hs
    exact h.getAvailBufs hnum cnt
  | addBuf outs ins => exact h.step hnum (show Room s (.addBuf outs ins) from trivial) hs
  | addUsed head len => exact h.step hnum (show Room s (.addUsed head len) from trivial) hs

/-- **A failed call.** For every queue size `2 ^ k` up to `2 ^ 15` and every interleaving of
the two sides: every call that fails leaves the queue as it was and writes only the buffers
it was given, exactly when no call meets a used chain longer than its buffers. -/
theorem get_used_bufs_atomic_iff (k : Nat) (hk : k ≤ 15) (l : List Event) :
    Along (reclaimStep (2 ^ k)) (StepAtomic (2 ^ k)) (vmboxVirtqInit (2 ^ k)) l ↔
      Along (reclaimStep (2 ^ k)) UsedRoom (vmboxVirtqInit (2 ^ k)) l := by
  have hnum : QueueSize (2 ^ k) := ⟨k, hk, rfl⟩
  have hstep : ∀ s e s', Inv (2 ^ k) s → UsedRoom s e → reclaimStep (2 ^ k) s e = some s' →
      Inv (2 ^ k) s' := fun s e s' h hroom hs => h.reclaimStep hnum hroom hs
  exact along_congr hstep (fun s e h => stepAtomic_iff hnum h e) (Inv.init _) l

/-- One call with a buffer too few. -/
def shortCall : List Event :=
  [.addBuf [⟨3, 64⟩, ⟨1, 64⟩] [], .getAvailBufs 2, .addUsed 0 0]

theorem get_used_bufs_atomic_iff_room :
    Along (reclaimStep (2 ^ 2)) UsedRoom (vmboxVirtqInit (2 ^ 2)) (shortCall ++ [.getUsedBufs 2]) ∧
      Along (reclaimStep (2 ^ 2)) (StepAtomic (2 ^ 2)) (vmboxVirtqInit (2 ^ 2))
        (shortCall ++ [.getUsedBufs 2]) := by
  have hroom : Along (reclaimStep (2 ^ 2)) UsedRoom (vmboxVirtqInit (2 ^ 2))
      (shortCall ++ [.getUsedBufs 2]) := by
    decide +kernel
  exact ⟨hroom, (get_used_bufs_atomic_iff 2 (by decide) _).mpr hroom⟩

/-- The call fails, and one descriptor more is counted as free: five of four with the next
call that succeeds. -/
theorem get_used_bufs_not_atomic :
    ¬ Along (reclaimStep (2 ^ 2)) (StepAtomic (2 ^ 2)) (vmboxVirtqInit (2 ^ 2))
        (shortCall ++ [.getUsedBufs 1]) ∧
      (run (reclaimStep (2 ^ 2)) (vmboxVirtqInit (2 ^ 2))
        (shortCall ++ [.getUsedBufs 1, .getUsedBufs 2])).map Sys.numFree = some 5 := by
  refine ⟨fun h => ?_, by decide +kernel⟩
  obtain ⟨s, hs, hfree, hfails⟩ : ∃ s, run (reclaimStep (2 ^ 2)) (vmboxVirtqInit (2 ^ 2)) shortCall
      = some s ∧ s.numFree = 2 ∧ (vmboxVirtqGetUsedBufs (2 ^ 2) s 1).1 = .error .enospc ∧
        (vmboxVirtqGetUsedBufs (2 ^ 2) s 1).2.numFree = 3 := by
    decide +kernel
  have hsame := ((along_of_append h hs).1 Nat.one_pos).1 _ _ (Prod.ext hfails.1 rfl)
  have hcount := hsame.numFree
  rw [hfails.2, hfree] at hcount
  cases hcount

end Minos.Virtq
