import Minos.Core.Errno
import Minos.Core.Event
import Minos.Lib.Ring

/-!
# Message queues

`core/queue.c`: a ring of messages behind an event with waiters. A post hands
its message to a waiter, and only without one stores it in the ring, at its
end or at its front. Together the two are one bounded deque.
-/

namespace Minos.Queue

open Minos.Lib Minos.EventWait

/-! ## The ring -/

/-- `struct queue`, with indices for the pointers into `q_start`. -/
structure Ring where
  start : Nat → Nat
  qIn : Nat
  qOut : Nat
  qCnt : Nat
  qSize : Nat

/-- `queue_init`. -/
def queueInit (size : Nat) : Ring := ⟨fun _ => 0, 0, 0, 0, size⟩

/-- `queue_pop`. -/
def queuePop (q : Ring) : Nat × Ring :=
  (q.start q.qOut,
    { q with
      qCnt := q.qCnt - 1
      qOut := if q.qOut + 1 = q.qSize then 0 else q.qOut + 1 })

/-- `queue_push`. -/
def queuePush (q : Ring) (pmsg : Nat) : Ring :=
  { q with
    start := Function.update q.start q.qIn pmsg
    qIn := if q.qIn + 1 = q.qSize then 0 else q.qIn + 1
    qCnt := q.qCnt + 1 }

/-- The slot before `q_out`. -/
def frontSlot (q : Ring) : Nat := (if q.qOut = 0 then q.qSize else q.qOut) - 1

/-- `queue_push_front`. -/
def queuePushFront (q : Ring) (pmsg : Nat) : Ring :=
  { q with
    start := Function.update q.start (frontSlot q) pmsg
    qOut := frontSlot q
    qCnt := q.qCnt + 1 }

/-! ## The calls -/

/-- `queue_post` and `queue_post_front`. -/
structure Post where
  pmsg : Nat
  front : Bool
  deriving DecidableEq, Repr

/-- The way of `queue_accept`, and of a `queue_pend` that need not wait. -/
def queueTake (q : Ring) : Option (Nat × Ring) :=
  if 0 < q.qCnt then some (queuePop q) else none

/-- The end of `__queue_post`. -/
def queueStore (q : Ring) (p : Post) : Option Ring :=
  if q.qSize ≤ q.qCnt then none
  else some (if p.front then queuePushFront q p.pmsg else queuePush q p.pmsg)

def queueObject : Object Ring Post Nat where
  take := queueTake
  accept := queueTake
  store := queueStore
  message := Post.pmsg
  pendState _ := .ok
  broadcast _ := false

/-- What `__queue_post` returns. -/
def queuePostReturn (r : Result Post) : Except Errno Nat :=
  if r.woken ≠ 0 ∨ r.stored then .ok 0 else .error .enospc

/-! ## The deque -/

/-- A deque of at most `size` messages: messages leave at the head. -/
def dequeSpec (size : Nat) : Spec (List Nat) Post Nat where
  put l p :=
    if l.length < size then some (if p.front then p.pmsg :: l else l ++ [p.pmsg]) else none
  get
    | [] => none
    | m :: l => some (m, l)

/-- The messages in the ring, the next one first. -/
def Ring.messages (q : Ring) : List Nat := ringList q.start q.qSize q.qOut q.qCnt

/-- The indices are in the ring, and `q_in` is `q_cnt` slots after `q_out`. -/
structure Ring.Valid (size : Nat) (q : Ring) : Prop where
  slots : q.qSize = size
  qIn : q.qIn < size
  qOut : q.qOut < size
  qCnt : q.qCnt ≤ size
  next : q.qIn = (q.qOut + q.qCnt) % size

section Ring

variable {size : Nat} {q : Ring}

theorem valid_init (hsize : 0 < size) : (queueInit size).Valid size :=
  ⟨rfl, hsize, hsize, Nat.zero_le _, (Nat.zero_mod _).symm⟩

theorem wrap_eq_mod {i : Nat} (h : i < size) :
    (if i + 1 = size then 0 else i + 1) = (i + 1) % size := by
  split
  · rename_i heq
    rw [heq, Nat.mod_self]
  · rw [Nat.mod_eq_of_lt (by omega)]

theorem Ring.Valid.pop (h : q.Valid size) (hcnt : 0 < q.qCnt) :
    (queuePop q).2.Valid size ∧
      q.messages = (queuePop q).1 :: (queuePop q).2.messages := by
  have hpos : 0 < size := Nat.lt_of_le_of_lt (Nat.zero_le _) h.qOut
  have hwrap : (queuePop q).2.qOut = (q.qOut + 1) % size := by
    have := wrap_eq_mod h.qOut
    rwa [← h.slots] at this ⊢
  obtain ⟨n, hn⟩ : ∃ n, q.qCnt = n + 1 := ⟨q.qCnt - 1, by omega⟩
  have hcnt' : (queuePop q).2.qCnt = n := by
    change q.qCnt - 1 = n
    omega
  refine ⟨⟨h.slots, h.qIn, ?_, ?_, ?_⟩, ?_⟩
  · rw [hwrap]
    exact Nat.mod_lt _ hpos
  · rw [hcnt']
    have := h.qCnt
    omega
  · rw [hwrap, hcnt', Nat.mod_add_mod]
    refine h.next.trans ?_
    rw [hn]
    congr 1
    omega
  · rw [Ring.messages, Ring.messages, hwrap, hcnt', hn, ringList]
    have hsize : (queuePop q).2.qSize = q.qSize := rfl
    rw [hsize, h.slots, ringList_mod, Nat.mod_eq_of_lt h.qOut]
    rfl

theorem Ring.Valid.push (h : q.Valid size) (hcnt : q.qCnt < size) (pmsg : Nat) :
    (queuePush q pmsg).Valid size ∧ (queuePush q pmsg).messages = q.messages ++ [pmsg] := by
  have hpos : 0 < size := Nat.lt_of_le_of_lt (Nat.zero_le _) hcnt
  have hwrap : (queuePush q pmsg).qIn = (q.qIn + 1) % size := by
    have := wrap_eq_mod h.qIn
    rwa [← h.slots] at this ⊢
  refine ⟨⟨h.slots, ?_, h.qOut, hcnt, ?_⟩, ?_⟩
  · rw [hwrap]
    exact Nat.mod_lt _ hpos
  · rw [hwrap, h.next, Nat.mod_add_mod]
    rfl
  · have hpush : ringList (Function.update q.start ((q.qOut + q.qCnt) % size) pmsg) size q.qOut
        (q.qCnt + 1) = ringList q.start size q.qOut q.qCnt ++ [pmsg] := ringList_push pmsg hcnt
    rw [← h.next, ← h.slots] at hpush
    exact hpush

theorem Ring.Valid.frontSlot (h : q.Valid size) :
    frontSlot q < size ∧ (frontSlot q + 1) % size = q.qOut := by
  have hout := h.qOut
  unfold Queue.frontSlot
  rw [h.slots]
  split
  · rename_i h0
    rw [Nat.sub_add_cancel (by omega), Nat.mod_self]
    omega
  · rw [Nat.sub_add_cancel (by omega), Nat.mod_eq_of_lt hout]
    omega

theorem Ring.Valid.pushFront (h : q.Valid size) (hcnt : q.qCnt < size) (pmsg : Nat) :
    (queuePushFront q pmsg).Valid size ∧
      (queuePushFront q pmsg).messages = pmsg :: q.messages := by
  obtain ⟨hlt, hnext⟩ := h.frontSlot
  refine ⟨⟨h.slots, h.qIn, hlt, hcnt, ?_⟩, ?_⟩
  · refine h.next.trans ?_
    rw [← hnext, Nat.mod_add_mod]
    change _ = (Queue.frontSlot q + (q.qCnt + 1)) % size
    congr 1
    omega
  · have hpush : ringList (Function.update q.start (Queue.frontSlot q % size) pmsg) size
        (Queue.frontSlot q) (q.qCnt + 1) = pmsg :: ringList q.start size q.qOut q.qCnt :=
      ringList_push_front pmsg hcnt (by rw [hnext, Nat.mod_eq_of_lt h.qOut])
    rw [Nat.mod_eq_of_lt hlt, ← h.slots] at hpush
    exact hpush

theorem Ring.Valid.messages_length (q : Ring) : q.messages.length = q.qCnt :=
  ringList_length _ _ _ _

end Ring

/-- **The ring is the deque.** -/
theorem queue_refines {size : Nat} (hsize : 0 < size) :
    Refines queueObject (dequeSpec size) Ring.messages (Ring.Valid size) where
  take_none {q} _ hnone := by
    have hcnt : q.qCnt = 0 := by
      by_contra hne
      rw [show queueObject.take q = some (queuePop q) from if_pos (Nat.pos_of_ne_zero hne)] at hnone
      cases hnone
    rw [Ring.messages, hcnt]
    rfl
  take_some {q m q'} hq htake := by
    obtain ⟨hcnt, hpop⟩ := Option.ite_none_right_eq_some.1 htake
    obtain ⟨hvalid, hlist⟩ := hq.pop hcnt
    rw [Option.some.inj hpop] at hvalid hlist
    rw [hlist]
    exact ⟨hvalid, rfl⟩
  store {q p q'} hq _ hstore := by
    obtain ⟨hroom, hstore⟩ := Option.ite_none_left_eq_some.1 hstore
    rw [hq.slots, Nat.not_le] at hroom
    have hlen : q.messages.length < size := by rwa [Ring.Valid.messages_length]
    cases hstore
    change _ ∧ (if q.messages.length < size then _ else none) = _
    rw [if_pos hlen]
    cases p.front with
    | true =>
      obtain ⟨hvalid, hlist⟩ := hq.pushFront hroom p.pmsg
      exact ⟨hvalid, congrArg some hlist.symm⟩
    | false =>
      obtain ⟨hvalid, hlist⟩ := hq.push hroom p.pmsg
      exact ⟨hvalid, congrArg some hlist.symm⟩
  single _ := rfl
  handOff {l p} hempty _ := by
    cases l with
    | cons m l => cases hempty
    | nil =>
      refine ⟨[p.pmsg], ?_, rfl⟩
      change (if 0 < size then _ else none) = _
      rw [if_pos hsize]
      cases p.front <;> rfl

/-! ## What a queue promises -/

/-- Ring and waiters are one deque: the log of what took effect is a run of
it, from empty to the messages in the ring. The posts in the log are those
that returned `0`, and perhaps the one that is about to; what a task got in
the log is what its calls returned, and perhaps what it is about to return.
Tasks wait only while the ring is empty, and the indices stay in the ring. -/
structure QueueOk (size : Nat) (s : Sys Ring Post Nat) : Prop where
  deque : run (dequeSpec size).apply [] s.log = some s.data.messages
  posts : puts s.log = (s.results.filter fun r => (queuePostReturn r).isOk).map Result.post ++
    pendingPut queueObject s
  receipts : ∀ t, gotBy t s.log = s.returned t ++ inFlight s t
  waits : ∀ t, Waiting s t → s.data.qCnt = 0
  qIn : s.data.qIn < size
  qOut : s.data.qOut < size
  qCnt : s.data.qCnt ≤ size

theorem tookEffect_eq (r : Result Post) :
    r.tookEffect queueObject = (queuePostReturn r).isOk := by
  unfold Result.tookEffect queuePostReturn
  by_cases h : r.woken ≠ 0 ∨ r.stored = true
  · rw [if_pos h]
    simpa [queueObject, Except.isOk, Except.toBool] using h
  · rw [if_neg h]
    simpa [queueObject, Except.isOk, Except.toBool] using h

/-- **Message queues.** For every size and every interleaving of posts at both
ends, accepts, pends and timeouts. -/
theorem queue_is_deque (size : Nat) (hsize : 0 < size) (l : List (Event Post))
    (s : Sys Ring Post Nat)
    (h : run (eventStep queueObject) (init (queueInit size)) l = some s) : QueueOk size s := by
  have hinv := inv_of_run (queue_refines hsize) (valid_init hsize)
    (along_acceptTakes rfl _ l) h
  refine ⟨hinv.replay, ?_, hinv.receipts, fun t ht => ?_, hinv.valid.qIn, hinv.valid.qOut,
    hinv.valid.qCnt⟩
  · rw [hinv.puts, funext tookEffect_eq]
  · have hempty := hinv.waits t ht
    rw [← Ring.Valid.messages_length]
    cases hm : s.data.messages with
    | nil => rfl
    | cons m ms =>
      rw [hm] at hempty
      cases hempty

/-- Two posts race for one waiter of a queue of two slots, whose timeout comes
when the first post has the lock: the message goes to the ring, and the second
post is put before it. -/
def timeoutRace : List (Event Post) :=
  [.pend 1 5, .post ⟨7, false⟩, .timeout 1, .postWake, .postEnd, .resume 1, .post ⟨8, true⟩,
    .postEnd, .dequeue 1, .accept 2, .pend 1 5, .pend 3 0, .post ⟨9, false⟩, .postWake, .resume 3]

theorem queue_is_deque_timeoutRace :
    (run (eventStep queueObject) (init (queueInit 2)) timeoutRace).map
      (fun s => (s.returned 1, s.returned 2, s.returned 3, s.data.messages, s.waitList))
      = some ([7], [8], [9], [], []) ∧
    ∀ s, run (eventStep queueObject) (init (queueInit 2)) timeoutRace = some s → QueueOk 2 s :=
  ⟨by decide +kernel, queue_is_deque 2 (by decide) timeoutRace⟩

end Minos.Queue
