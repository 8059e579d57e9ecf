import Minos.Core.Errno
import Minos.Core.Event

/-!
# Mailboxes

`core/mbox.c`: one slot for a message behind an event with waiters. A
`mbox_pend` empties the slot; a `mbox_accept` returns what is in it and
leaves it there. Messages are pointers, as numbers with `0` for `NULL`, and
`none` is an empty slot.
-/

namespace Minos.Mbox

open Minos.Lib Minos.EventWait

/-! ## The calls -/

/-- The way of a `mbox_pend` that need not wait. -/
def mboxTake : Option Nat → Option (Nat × Option Nat)
  | none => none
  | some m => some (m, none)

/-- `mbox_accept`. -/
def mboxAccept : Option Nat → Option (Nat × Option Nat)
  | none => none
  | some m => some (m, some m)

/-- The end of a `__mbox_post_opt` that woke nobody. -/
def mboxStore : Option Nat → Nat → Option (Option Nat)
  | none, pmsg => some (some pmsg)
  | some _, _ => none

def mboxObject : Object (Option Nat) Nat Nat where
  take := mboxTake
  accept := mboxAccept
  store := mboxStore
  message pmsg := pmsg
  pendState _ := .ok
  broadcast _ := false

/-- What `mbox_post` returns. -/
def mboxPostReturn (r : Result Nat) : Except Errno Nat :=
  if r.woken ≠ 0 then .ok r.woken else if r.stored then .ok 0 else .error .enospc

/-- `__mbox_post_opt` refuses `NULL` with `-EINVAL`, which is also all that
`mobox_post_abort` does. -/
def mboxStep (s : Sys (Option Nat) Nat Nat) (e : Event Nat) : Option (Sys (Option Nat) Nat Nat) :=
  if e = .post 0 then some s else eventStep mboxObject s e

/-! ## The slot -/

/-- A slot that is emptied by what is got from it. -/
def slotSpec : Spec (Option Nat) Nat Nat where
  put := mboxStore
  get := mboxTake

theorem mbox_refines : Refines mboxObject slotSpec id (fun _ => True) where
  take_none _ h := h
  take_some _ h := ⟨trivial, h⟩
  store _ _ h := ⟨trivial, h⟩
  single _ := rfl
  handOff {slot p} hempty _ := by
    cases slot with
    | none => exact ⟨some p, rfl, rfl⟩
    | some m => cases hempty

/-! ## What a mailbox promises -/

/-- The log of what took effect is a run of the slot from what is in it at
first: a message is got once or is still there, and is not overwritten. The
posts in the log are those that reported no error, and perhaps the one that is
about to; what a task got in the log is what its calls returned, and perhaps
what it is about to return. -/
structure MboxOk (pmsg : Option Nat) (s : Sys (Option Nat) Nat Nat) : Prop where
  slot : run slotSpec.apply pmsg s.log = some s.data
  posts : puts s.log = (s.results.filter fun r => (mboxPostReturn r).isOk).map Result.post ++
    pendingPut mboxObject s
  receipts : ∀ t, gotBy t s.log = s.returned t ++ inFlight s t

/-- A `mbox_accept` finds the slot empty. -/
def AcceptEmpty (s : Sys (Option Nat) Nat Nat) : Event Nat → Prop
  | .accept _ => s.data = none
  | _ => True

instance (s : Sys (Option Nat) Nat Nat) : (e : Event Nat) → Decidable (AcceptEmpty s e)
  | .accept _ => inferInstanceAs (Decidable (s.data = none))
  | .pend .. | .timeout _ | .resume _ | .dequeue _ | .post _ | .postWake | .postEnd =>
    isTrue trivial

theorem tookEffect_eq (r : Result Nat) :
    r.tookEffect mboxObject = (mboxPostReturn r).isOk := by
  unfold Result.tookEffect mboxPostReturn
  by_cases hwoken : r.woken = 0
  · cases hstored : r.stored <;>
      simp [mboxObject, hwoken, Except.isOk, Except.toBool]
  · simp [mboxObject, hwoken, Except.isOk, Except.toBool]

/-- **Mailboxes deliver once**, in every interleaving in which `mbox_accept`
is called only while the slot is empty. -/
theorem mbox_delivers_once (pmsg : Option Nat) (l : List (Event Nat))
    (hl : Along mboxStep AcceptEmpty (init pmsg) l) :
    ∀ pre, pre <+: l → ∀ s, run mboxStep (init pmsg) pre = some s → MboxOk pmsg s := by
  intro pre hpre s hs
  have hstep : ∀ s e s', Inv mboxObject slotSpec id (fun _ => True) pmsg s → AcceptEmpty s e →
      mboxStep s e = some s' → Inv mboxObject slotSpec id (fun _ => True) pmsg s' := by
    intro s e s' hinv hacc hs
    unfold mboxStep at hs
    split at hs
    · cases hs
      exact hinv
    · refine hinv.step mbox_refines ?_ hs
      cases e with
      | accept t =>
        have hempty : s.data = none := hacc
        rw [AcceptTakes, hempty]
        rfl
      | _ => trivial
  have hinv := run_invariant hstep (Inv.init trivial) (along_of_pre hpre hl) hs
  refine ⟨hinv.replay, ?_, hinv.receipts⟩
  rw [hinv.puts, funext tookEffect_eq]

/-- The first message is pended for. A post races the timeout of the only
waiter and stores its message, a second one is refused, and a third is handed
to a waiter. -/
def fullSlot : List (Event Nat) :=
  [.pend 1 0, .accept 1, .pend 2 5, .post 7, .timeout 2, .postWake, .postEnd, .post 8, .postEnd,
    .resume 2, .dequeue 2, .post 0, .pend 3 0, .pend 4 0, .post 9, .postWake, .postEnd, .resume 4]

theorem mbox_delivers_once_fullSlot :
    (run mboxStep (init (some 5)) fullSlot).map
      (fun s => (s.returned 1, s.returned 3, s.returned 4, s.results.map mboxPostReturn))
      = some ([5], [7], [9], [.ok 0, .error .enospc, .ok 1]) ∧
    ∀ pre, pre <+: fullSlot → ∀ s, run mboxStep (init (some 5)) pre = some s →
      MboxOk (some 5) s :=
  ⟨by decide +kernel, mbox_delivers_once (some 5) fullSlot (by decide +kernel)⟩

/-- A message that is posted once is returned by two calls of `mbox_accept`
and is still in the slot. -/
theorem mbox_accepted_twice :
    ∃ s, run mboxStep (init none) [.post 7, .postEnd, .accept 1, .accept 2] = some s ∧
      s.results.map mboxPostReturn = [.ok 0] ∧ s.returned 1 = [7] ∧ s.returned 2 = [7] ∧
      s.data = some 7 ∧ ¬ MboxOk none s := by
  refine exists_found (P := fun s => s.results = [⟨7, 0, true⟩] ∧ s.returned 1 = [7] ∧
      s.returned 2 = [7] ∧ s.data = some 7 ∧ s.log = [.put 7, .got 1 7, .got 2 7])
    (fun s _ ⟨hresults, h1, h2, hdata, hlog⟩ =>
      ⟨by rw [hresults]; rfl, h1, h2, hdata, fun hok => ?_⟩) (by decide +kernel)
  have hslot := hok.slot
  rw [hlog] at hslot
  cases hslot

end Minos.Mbox
