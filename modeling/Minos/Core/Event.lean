import Minos.Core.WakeUp
import Minos.Lib.Object

/-!
# Events with waiters

What `core/sem.c`, `core/mbox.c` and `core/queue.c` have in common: an object
behind `ev->lock`, tasks that pend on it with the wait list of
`core/event.c`, and posts that hand what they bring to a waiter before they
store it. The object is a parameter.

What a call does while it holds the lock is one step, except in a post:
`__wake_up_event_waiter` goes from waiter to waiter, and the timers of the
waiters, which do not take `ev->lock`, may come between any two of them. Posts
exclude each other, so `posting` is both the lock and the place of the post
that holds it. `__wake_up` is one step here: of its racing wakers one
succeeds (`Minos.WakeUp`), and the only waker that can hold `s_lock` while
the task waits is the one that wakes it.

`log` records what took effect, in the order in which it did; `returned t` is
what the calls of the task `t` have returned.
-/

namespace Minos.EventWait

open Minos.Lib
open Minos.WakeUp (TaskState PendState)

universe u v w

/-! ## State -/

/-- Where a task is in a pend. -/
inductive Call
  | idle
  /-- past `__wait_event` -/
  | waiting
  /-- woken by its timer, before `remove_event_waiter` -/
  | timedOut
  deriving DecidableEq, Repr

structure Task (μ : Type w) where
  state : TaskState := .running
  pendState : PendState := .ok
  delay : Nat := 0
  msg : Option μ := none
  call : Call := .idle

/-- A post that holds the lock, with the number of tasks it has woken. -/
structure Posting (π : Type v) where
  post : π
  woken : Nat

/-- A post that has returned: how many tasks it woke, and whether it stored. -/
structure Result (π : Type v) where
  post : π
  woken : Nat
  stored : Bool
  deriving DecidableEq, Repr

structure Sys (δ : Type u) (π : Type v) (μ : Type w) where
  data : δ
  waitList : List Nat
  posting : Option (Posting π)
  task : Nat → Task μ
  log : List (Op π μ)
  returned : Nat → List μ
  results : List (Result π)

/-- What the calls of one kind of object do with its data. `take` is the way
of a pend that need not wait, `store` the end of a post that woke nobody. -/
structure Object (δ : Type u) (π : Type v) (μ : Type w) where
  take : δ → Option (μ × δ)
  accept : δ → Option (μ × δ)
  store : δ → π → Option δ
  message : π → μ
  pendState : π → PendState
  broadcast : π → Bool

variable {δ : Type u} {π : Type v} {μ : Type w}

def init (data : δ) : Sys δ π μ := ⟨data, [], none, fun _ => {}, [], fun _ => [], []⟩

def Sys.setTask (s : Sys δ π μ) (t : Nat) (x : Task μ) : Sys δ π μ :=
  { s with task := Function.update s.task t x }

@[simp] theorem setTask_self (s : Sys δ π μ) (t : Nat) (x : Task μ) :
    (s.setTask t x).task t = x := by
  simp [Sys.setTask]

variable {t u : Nat} {o : Object δ π μ} {s s' : Sys δ π μ} {x : Task μ} {d : δ} {q : Posting π}

theorem setTask_of_ne (s : Sys δ π μ) (x : Task μ) (h : u ≠ t) :
    (s.setTask t x).task u = s.task u := by
  simp [Sys.setTask, h]

/-! ## The calls -/

/-- The task `t` returns with `m`. -/
def Sys.giveBack (s : Sys δ π μ) (t : Nat) (m : Option μ) : Sys δ π μ :=
  { s with returned := Function.update s.returned t (s.returned t ++ m.toList) }

@[simp] theorem giveBack_self (s : Sys δ π μ) (t : Nat) (m : Option μ) :
    (s.giveBack t m).returned t = s.returned t ++ m.toList := by
  simp [Sys.giveBack]

theorem giveBack_of_ne (s : Sys δ π μ) (m : Option μ) (h : u ≠ t) :
    (s.giveBack t m).returned u = s.returned u := by
  simp [Sys.giveBack, h]

/-- `t` takes `m` from the object, which becomes `d`. -/
def Sys.take (s : Sys δ π μ) (t : Nat) (m : μ) (d : δ) : Sys δ π μ :=
  ({ s with data := d, log := s.log ++ [.got t m] } : Sys δ π μ).giveBack t (some m)

/-- An accept: it never waits. -/
def accept (o : Object δ π μ) (s : Sys δ π μ) (t : Nat) : Sys δ π μ :=
  match o.accept s.data with
  | none => s
  | some (m, d) => s.take t m d

/-- A pend up to `sched()`, with `__wait_event`. -/
def pend (o : Object δ π μ) (s : Sys δ π μ) (t timeout : Nat) : Sys δ π μ :=
  match o.take s.data with
  | some (m, d) => s.take t m d
  | none =>
    { s with waitList := s.waitList ++ [t] }.setTask t
      { s.task t with
        state := .waitEvent
        pendState := .ok
        delay := if timeout = 2 ^ 32 - 1 then 0 else timeout
        call := .waiting }

/-- `__wake_up`: refused when the task does not wait any more. -/
def wakeUp (s : Sys δ π μ) (w : Nat) (p : PendState) (m : Option μ) : Option (Sys δ π μ) :=
  if (s.task w).state = .waitEvent then
    some (s.setTask w
      { s.task w with state := .waking, pendState := p, delay := 0, msg := m })
  else none

/-- A pend after `sched()`. -/
def pendResume (s : Sys δ π μ) (t : Nat) : Sys δ π μ :=
  match (s.task t).pendState with
  | .ok => (s.setTask t {}).giveBack t (s.task t).msg
  | .abort => s.setTask t {}
  | .to => s.setTask t { s.task t with state := .running, call := .timedOut }

/-- `remove_event_waiter`, which finds the task in the list or not, and
`event_pend_down`. -/
def removeEventWaiter (s : Sys δ π μ) (t : Nat) : Sys δ π μ :=
  { s with waitList := s.waitList.erase t }.setTask t {}

/-- One turn of `__wake_up_event_waiter`, for the waiter `w`. -/
def wakeUpEventWaiter (o : Object δ π μ) (s : Sys δ π μ) (q : Posting π) (w : Nat)
    (rest : List Nat) : Sys δ π μ :=
  let s := { s with waitList := rest }
  match wakeUp s w (o.pendState q.post) (some (o.message q.post)) with
  | none => s
  | some s =>
    { s with
      posting := some { q with woken := q.woken + 1 }
      log := if o.pendState q.post = .ok then
          s.log ++ [.put q.post, .got w (o.message q.post)]
        else s.log }

/-- The loop of `__wake_up_event_waiter` is over: `num` is `1` without
`OS_EVENT_OPT_BROADCAST`. -/
def Posting.done (o : Object δ π μ) (q : Posting π) : Bool :=
  !o.broadcast q.post && q.woken != 0

/-- The end of a post: one that woke nobody stores what it brings. -/
def postEnd (o : Object δ π μ) (s : Sys δ π μ) (q : Posting π) : Sys δ π μ :=
  let s := { s with posting := none }
  if o.pendState q.post = .ok ∧ q.woken = 0 then
    match o.store s.data q.post with
    | none => { s with results := s.results ++ [⟨q.post, q.woken, false⟩] }
    | some d =>
      { s with
        data := d
        log := s.log ++ [.put q.post]
        results := s.results ++ [⟨q.post, q.woken, true⟩] }
  else { s with results := s.results ++ [⟨q.post, q.woken, false⟩] }

/-! ## Interleavings -/

inductive Event (π : Type v)
  | accept (t : Nat)
  | pend (t timeout : Nat)
  | timeout (t : Nat)
  | resume (t : Nat)
  | dequeue (t : Nat)
  | post (p : π)
  | postWake
  | postEnd
  deriving DecidableEq, Repr

/-- Steps are taken by a task that is at that point of its call and, where the
code takes `ev->lock`, when the lock is free. -/
def eventStep (o : Object δ π μ) (s : Sys δ π μ) : Event π → Option (Sys δ π μ)
  | .accept t =>
    if (s.task t).call = .idle ∧ s.posting.isNone then some (accept o s t) else none
  | .pend t timeout =>
    if (s.task t).call = .idle ∧ s.posting.isNone then some (pend o s t timeout) else none
  | .timeout t =>
    -- the delay timer, which a wait without timeout does not start
    if (s.task t).call = .waiting ∧ 0 < (s.task t).delay then
      some ((wakeUp s t .to none).getD s)
    else none
  | .resume t =>
    if (s.task t).call = .waiting ∧ (s.task t).state = .waking then some (pendResume s t)
    else none
  | .dequeue t =>
    if (s.task t).call = .timedOut ∧ s.posting.isNone then some (removeEventWaiter s t)
    else none
  | .post p => if s.posting.isNone then some { s with posting := some ⟨p, 0⟩ } else none
  | .postWake =>
    match s.posting, s.waitList with
    | some q, w :: rest => if q.done o then none else some (wakeUpEventWaiter o s q w rest)
    | _, _ => none
  | .postEnd =>
    match s.posting with
    | some q => if q.done o ∨ s.waitList = [] then some (postEnd o s q) else none
    | none => none

/-- **While a post holds the lock** only timers, tasks that have been woken and the post itself
take steps. -/
theorem held_cases {e : Event π}
    (hq : s.posting = some q) (he : e ≠ .postEnd) (hs : eventStep o s e = some s') :
    (∃ t, e = .timeout t ∧ (s.task t).call = .waiting ∧ s' = (wakeUp s t .to none).getD s) ∨
      (∃ t, e = .resume t ∧ (s.task t).call = .waiting ∧ (s.task t).state = .waking ∧
        s' = pendResume s t) ∨
      (e = .postWake ∧ ∃ w rest, s.waitList = w :: rest ∧ q.done o = false ∧
        s' = wakeUpEventWaiter o s q w rest) := by
  have hheld : ¬ s.posting.isNone = true := by simp [hq]
  cases e with
  | accept | pend | dequeue => exact absurd (Option.ite_none_right_eq_some.1 hs).1.2 hheld
  | post p => exact absurd (Option.ite_none_right_eq_some.1 hs).1 hheld
  | postEnd => exact absurd rfl he
  | timeout t =>
    obtain ⟨⟨ht, -⟩, ⟨⟩⟩ := Option.ite_none_right_eq_some.1 hs
    exact Or.inl ⟨t, rfl, ht, rfl⟩
  | resume t =>
    obtain ⟨⟨ht, hstate⟩, ⟨⟩⟩ := Option.ite_none_right_eq_some.1 hs
    exact Or.inr (Or.inl ⟨t, rfl, ht, hstate, rfl⟩)
  | postWake =>
    simp only [eventStep, hq] at hs
    split at hs
    case h_1 q' w rest heq hlist =>
      cases heq
      obtain ⟨hdone, ⟨⟩⟩ := Option.ite_none_left_eq_some.1 hs
      exact Or.inr (Or.inr ⟨rfl, w, rest, hlist, by simpa using hdone, rfl⟩)
    case h_2 => cases hs

/-- What a timer or a woken task leaves alone. -/
structure SameObject (s s' : Sys δ π μ) : Prop where
  data : s'.data = s.data
  posting : s'.posting = s.posting
  log : s'.log = s.log
  results : s'.results = s.results
  waitList : s'.waitList = s.waitList

theorem sameObject_timeout (s : Sys δ π μ) (t : Nat) :
    SameObject s ((wakeUp s t .to none).getD s) := by
  unfold wakeUp
  split <;> exact ⟨rfl, rfl, rfl, rfl, rfl⟩

theorem sameObject_pendResume (s : Sys δ π μ) (t : Nat) : SameObject s (pendResume s t) := by
  unfold pendResume
  split <;> exact ⟨rfl, rfl, rfl, rfl, rfl⟩

/-- An accept takes what a pend would. -/
def AcceptTakes (o : Object δ π μ) (s : Sys δ π μ) : Event π → Prop
  | .accept _ => o.accept s.data = o.take s.data
  | _ => True

theorem along_acceptTakes (h : o.accept = o.take) (s : Sys δ π μ) (l : List (Event π)) :
    Along (eventStep o) (AcceptTakes o) s l := by
  induction l generalizing s with
  | nil => trivial
  | cons e l ih =>
    refine ⟨?_, fun s' _ => ih s'⟩
    cases e with
    | accept t => exact congrFun h s.data
    | _ => trivial

/-! ## What the layer promises -/

section Promise

variable {α : Type*}

/-- The object is, up to `abs`, the sequential object `sp`: a pend that finds
something takes it, one that does not leaves an empty object; a post puts; and
what is put into an empty object comes out of it. -/
structure Refines (o : Object δ π μ) (sp : Spec α π μ) (abs : δ → α) (Valid : δ → Prop) :
    Prop where
  take_none : ∀ {d}, Valid d → o.take d = none → sp.get (abs d) = none
  take_some : ∀ {d m d'}, Valid d → o.take d = some (m, d') →
    Valid d' ∧ sp.get (abs d) = some (m, abs d')
  store : ∀ {d p d'}, Valid d → o.pendState p = .ok → o.store d p = some d' →
    Valid d' ∧ sp.put (abs d) p = some (abs d')
  single : ∀ {p}, o.pendState p = .ok → o.broadcast p = false
  handOff : ∀ {a p}, sp.get a = none → o.pendState p = .ok →
    ∃ a', sp.put a p = some a' ∧ sp.get a' = some (o.message p, a)

/-- The task waits, and has not been woken. -/
def Waiting (s : Sys δ π μ) (t : Nat) : Prop :=
  (s.task t).call = .waiting ∧ (s.task t).state = .waitEvent

/-- What the task was handed and has not returned yet. -/
def inFlight (s : Sys δ π μ) (t : Nat) : List μ :=
  if (s.task t).call = .waiting ∧ (s.task t).state = .waking ∧ (s.task t).pendState = .ok then
    (s.task t).msg.toList
  else []

theorem inFlight_of_call (h : (s.task t).call ≠ .waiting) : inFlight s t = [] :=
  if_neg fun hw => h hw.1

theorem inFlight_of_state (h : (s.task t).state ≠ .waking) : inFlight s t = [] :=
  if_neg fun hw => h hw.2.1

theorem inFlight_of_pendState (h : (s.task t).pendState ≠ .ok) : inFlight s t = [] :=
  if_neg fun hw => h hw.2.2

theorem inFlight_congr (h : s'.task t = s.task t) :
    inFlight s' t = inFlight s t := by
  rw [inFlight, inFlight, h]

theorem inFlight_of_woken {m : μ} (h : s.task t = x)
    (hx : x.call = .waiting ∧ x.state = .waking ∧ x.pendState = .ok) (hm : x.msg = some m) :
    inFlight s t = [m] := by
  rw [inFlight, h, if_pos hx, hm]
  rfl

/-- The post took effect: it woke a task, or it stored. -/
def Result.tookEffect (o : Object δ π μ) (r : Result π) : Bool :=
  o.pendState r.post = .ok && (r.woken != 0 || r.stored)

/-- The post that holds the lock, if it has taken effect. -/
def pendingPut (o : Object δ π μ) (s : Sys δ π μ) : List π :=
  match s.posting with
  | none => []
  | some q => if o.pendState q.post = .ok ∧ q.woken ≠ 0 then [q.post] else []

theorem pendingPut_eq_nil
    (hq : s.posting = some q) (h : ¬ (o.pendState q.post = .ok ∧ q.woken ≠ 0)) :
    pendingPut o s = [] := by
  rw [pendingPut, hq]
  exact if_neg h

/-- **The event behaves as the sequential object**: the log is a run of it
that ends in the data; what a task got according to the log is what its calls
returned or what it is about to return; the posts in the log are those that
took effect; and a task waits only while the object is empty. -/
structure Linear [DecidableEq μ] (o : Object δ π μ) (sp : Spec α π μ) (abs : δ → α) (a : α)
    (s : Sys δ π μ) : Prop where
  replay : run sp.apply a s.log = some (abs s.data)
  receipts : ∀ t, gotBy t s.log = s.returned t ++ inFlight s t
  puts : puts s.log = (s.results.filter (Result.tookEffect o)).map Result.post ++ pendingPut o s
  waits : ∀ t, Waiting s t → sp.get (abs s.data) = none

end Promise

/-! ## Invariant -/

/-- The wait list: every task that waits is in it, once; a task in it is in a
pend, and was woken by nobody but its timer. -/
structure ListInv (s : Sys δ π μ) : Prop where
  running : ∀ t, (s.task t).call ≠ .waiting → (s.task t).state = .running
  nodup : s.waitList.Nodup
  linked : ∀ t, Waiting s t → t ∈ s.waitList
  queued : ∀ t ∈ s.waitList, (s.task t).call ≠ .idle ∧
    ((s.task t).state = .waking → (s.task t).pendState = .to)

theorem ListInv.call_of_waitEvent (h : ListInv s)
    (hstate : (s.task t).state = .waitEvent) : (s.task t).call = .waiting := by
  by_contra hc
  rw [h.running t hc] at hstate
  cases hstate

theorem waiting_of_setTask
    (htask : s'.task = (s.setTask t x).task) (hx : x.state ≠ .waitEvent) (hu : Waiting s' u) :
    Waiting s u := by
  rw [Waiting, htask] at hu
  by_cases hut : u = t
  · subst hut
    rw [setTask_self] at hu
    exact absurd hu.2 hx
  · rwa [setTask_of_ne s x hut] at hu

/-- A task moves, and perhaps the wait list. -/
theorem ListInv.setTask (h : ListInv s) (htask : s'.task = (s.setTask t x).task)
    (hrunning : x.call ≠ .waiting → x.state = .running)
    (hwaits : x.call = .waiting → x.state = .waitEvent → t ∈ s'.waitList)
    (hnodup : s'.waitList.Nodup)
    (hlinked : ∀ u, u ≠ t → Waiting s u → u ∈ s'.waitList)
    (hqueued : t ∈ s'.waitList → x.call ≠ .idle ∧ (x.state = .waking → x.pendState = .to))
    (hlist : ∀ u, u ≠ t → u ∈ s'.waitList → u ∈ s.waitList) : ListInv s' := by
  have hself : s'.task t = x := by rw [htask, setTask_self]
  have hother : ∀ u, u ≠ t → s'.task u = s.task u := by
    intro u hu
    rw [htask, setTask_of_ne s x hu]
  refine ⟨fun u hu => ?_, hnodup, fun u hu => ?_, fun u hu => ?_⟩
  · by_cases hut : u = t
    · subst hut
      rw [hself] at hu ⊢
      exact hrunning hu
    · rw [hother u hut] at hu ⊢
      exact h.running u hu
  · by_cases hut : u = t
    · subst hut
      rw [Waiting, hself] at hu
      exact hwaits hu.1 hu.2
    · rw [Waiting, hother u hut] at hu
      exact hlinked u hut hu
  · by_cases hut : u = t
    · subst hut
      rw [hself]
      exact hqueued hu
    · rw [hother u hut]
      exact h.queued u (hlist u hut hu)

/-- A woken waiter leaves the head of the list. -/
theorem ListInv.wake (h : ListInv s) {w : Nat} {rest : List Nat}
    (hlist : s.waitList = w :: rest) (htask : s'.task = (s.setTask w x).task)
    (hlist' : s'.waitList = rest)
    (hcall : x.call = .waiting) (hstate : x.state = .waking) : ListInv s' := by
  have hnodup := h.nodup
  rw [hlist] at hnodup
  obtain ⟨hnot, hnodup⟩ := List.nodup_cons.1 hnodup
  refine h.setTask htask (fun hc => absurd hcall hc) (fun _ hs => ?_) (hlist' ▸ hnodup)
    (fun u hut hu => ?_) (fun hmem => absurd (hlist' ▸ hmem) hnot) (fun u _ hu => ?_)
  · rw [hstate] at hs
    cases hs
  · have hmem := h.linked u hu
    rw [hlist] at hmem
    rw [hlist']
    exact (List.mem_cons.1 hmem).resolve_left hut
  · rw [hlist, ← hlist']
    exact List.mem_cons_of_mem w hu

variable {α : Type*} [DecidableEq μ]

structure Inv (o : Object δ π μ) (sp : Spec α π μ) (abs : δ → α) (Valid : δ → Prop) (a : α)
    (s : Sys δ π μ) : Prop extends Linear o sp abs a s, ListInv s where
  valid : Valid s.data

variable {sp : Spec α π μ} {abs : δ → α} {Valid : δ → Prop} {a : α}

theorem Inv.init (hd : Valid d) : Inv o sp abs Valid (abs d) (init d) where
  replay := rfl
  receipts t := rfl
  puts := rfl
  waits t h := by cases h.1
  valid := hd
  running t _ := rfl
  nodup := List.nodup_nil
  linked t h := by cases h.1
  queued t h := by cases h

/-- A task moves or returns, and perhaps the wait list moves. What the task has
got is what it returned or has in flight. -/
theorem Inv.setTask (h : Inv o sp abs Valid a s) {l : List Nat}
    {r : Nat → List μ} (hother : ∀ u, u ≠ t → r u = s.returned u)
    (hreceipts : gotBy t s.log = r t ++ inFlight ({ s with waitList := l }.setTask t x) t)
    (hwaits : x.call = .waiting → x.state = .waitEvent → sp.get (abs s.data) = none)
    (hlists : ListInv ({ s with waitList := l, returned := r }.setTask t x)) :
    Inv o sp abs Valid a ({ s with waitList := l, returned := r }.setTask t x) := by
  refine ⟨⟨h.replay, fun u => ?_, h.puts, fun u hu => ?_⟩, hlists, h.valid⟩
  · by_cases hu : u = t
    · subst hu
      exact hreceipts
    · rw [inFlight_congr (setTask_of_ne _ x hu)]
      exact (h.receipts u).trans (congrArg (· ++ inFlight s u) (hother u hu).symm)
  · by_cases hut : u = t
    · subst hut
      rw [Waiting, setTask_self] at hu
      exact hwaits hu.1 hu.2
    · rw [Waiting, setTask_of_ne _ x hut] at hu
      exact h.waits u hu

/-! ## Steps -/

/-- A task takes something without waiting. -/
theorem Inv.take (h : Inv o sp abs Valid a s) (hr : Refines o sp abs Valid)
    (ht : (s.task t).call = .idle) {m : μ} (htake : o.take s.data = some (m, d)) :
    Inv o sp abs Valid a (s.take t m d) := by
  obtain ⟨hd, hget⟩ := hr.take_some h.valid htake
  have hflight : inFlight s t = [] := inFlight_of_call (by rw [ht]; exact nofun)
  have hputs : puts (s.log ++ [.got t m]) = puts s.log := by
    rw [puts_append, puts_got, List.append_nil]
  refine ⟨⟨Spec.log_got t h.replay hget, fun u => ?_, hputs.trans h.puts, fun u hu => ?_⟩,
    ⟨h.running, h.nodup, h.linked, h.queued⟩, hd⟩
  · change gotBy u (s.log ++ [.got t m]) = _ ++ inFlight s u
    rw [gotBy_append, h.receipts u]
    by_cases hut : u = t
    · subst hut
      rw [gotBy_got_self, hflight, List.append_nil, List.append_nil]
      exact (giveBack_self _ u (some m)).symm
    · rw [gotBy_got_of_ne (Ne.symm hut), List.append_nil]
      exact congrArg (· ++ inFlight s u) (giveBack_of_ne _ (some m) hut).symm
  · -- the object was not empty, so nobody waits
    have hnone := h.waits u hu
    rw [hget] at hnone
    cases hnone

theorem Inv.accept (h : Inv o sp abs Valid a s) (hr : Refines o sp abs Valid)
    (ht : (s.task t).call = .idle) (hacc : o.accept s.data = o.take s.data) :
    Inv o sp abs Valid a (accept o s t) := by
  unfold EventWait.accept
  split
  case h_1 => exact h
  case h_2 m d heq => exact h.take hr ht (hacc ▸ heq)

theorem Inv.pend (h : Inv o sp abs Valid a s) (hr : Refines o sp abs Valid)
    (ht : (s.task t).call = .idle) (timeout : Nat) :
    Inv o sp abs Valid a (pend o s t timeout) := by
  unfold EventWait.pend
  split
  case h_1 m d heq => exact h.take hr ht heq
  case h_2 heq =>
    have hempty := hr.take_none h.valid heq
    have hnot : t ∉ s.waitList := fun hmem => (h.queued t hmem).1 ht
    have hflight : inFlight s t = [] := inFlight_of_call (by rw [ht]; exact nofun)
    refine h.setTask (fun _ _ => rfl) ?_ (fun _ _ => hempty) (h.toListInv.setTask rfl
      (fun hc => absurd rfl hc) (fun _ _ => ?_) ?_
      (fun u _ hu => List.mem_append_left _ (h.linked u hu)) (fun _ => ⟨nofun, nofun⟩)
      (fun u hut hu => ?_))
    · rw [inFlight_of_state (by rw [setTask_self]; exact nofun), ← hflight]
      exact h.receipts t
    · exact List.mem_append_right _ (List.mem_singleton_self t)
    · exact (List.perm_append_singleton t s.waitList).nodup_iff.2
        (List.nodup_cons.2 ⟨hnot, h.nodup⟩)
    · rcases List.mem_append.1 hu with hu | hu
      · exact hu
      · exact absurd (List.mem_singleton.1 hu) hut

/-- A wait ends for its timeout. The task stays in the wait list. -/
theorem Inv.timeout (h : Inv o sp abs Valid a s) (ht : (s.task t).call = .waiting) :
    Inv o sp abs Valid a ((wakeUp s t .to none).getD s) := by
  unfold wakeUp
  split
  case isFalse => exact h
  case isTrue hstate =>
    have hflight : inFlight s t = [] := inFlight_of_state (by rw [hstate]; exact nofun)
    refine h.setTask (l := s.waitList) (fun _ _ => rfl) ?_ nofun (h.toListInv.setTask rfl
      (fun hc => absurd ht hc) nofun h.nodup (fun u _ hu => h.linked u hu)
      (fun hmem => ⟨(h.queued t hmem).1, fun _ => rfl⟩) (fun u _ hu => hu))
    rw [inFlight_of_pendState (by rw [setTask_self]; exact nofun), ← hflight]
    exact h.receipts t

theorem Inv.leave (h : Inv o sp abs Valid a s) {l : List Nat} {r : Nat → List μ}
    (hother : ∀ u, u ≠ t → r u = s.returned u) (hgot : gotBy t s.log = r t)
    (hl : l.Sublist s.waitList) (hnot : t ∉ l) (hlinked : ∀ u, u ≠ t → Waiting s u → u ∈ l) :
    Inv o sp abs Valid a ({ s with waitList := l, returned := r }.setTask t {}) := by
  refine h.setTask hother ?_ nofun (h.toListInv.setTask rfl (fun _ => rfl) nofun
    (hl.nodup h.nodup) hlinked (fun hmem => absurd hmem hnot) (fun u _ hu => hl.subset hu))
  rw [inFlight_of_call (by rw [setTask_self]; exact nofun), List.append_nil]
  exact hgot

theorem Inv.unlinked (h : Inv o sp abs Valid a s) (hstate : (s.task t).state = .waking)
    (hpend : (s.task t).pendState ≠ .to) : t ∉ s.waitList :=
  fun hmem => hpend ((h.queued t hmem).2 hstate)

/-- **A pend after `sched()`.** -/
theorem Inv.pendResume (h : Inv o sp abs Valid a s) (ht : (s.task t).call = .waiting)
    (hstate : (s.task t).state = .waking) : Inv o sp abs Valid a (pendResume s t) := by
  unfold EventWait.pendResume
  split
  case h_1 hpend =>
    have hnot := h.unlinked hstate (by rw [hpend]; exact nofun)
    have hflight : inFlight s t = (s.task t).msg.toList := if_pos ⟨ht, hstate, hpend⟩
    refine h.leave (fun u hu => giveBack_of_ne s _ hu) ?_ (List.Sublist.refl _) hnot
      (fun u _ hu => h.linked u hu)
    rw [h.receipts t, hflight]
    exact (giveBack_self s t _).symm
  case h_2 hpend =>
    have hnot := h.unlinked hstate (by rw [hpend]; exact nofun)
    have hflight : inFlight s t = [] := inFlight_of_pendState (by rw [hpend]; exact nofun)
    refine h.leave (fun _ _ => rfl) ?_ (List.Sublist.refl _) hnot (fun u _ hu => h.linked u hu)
    rw [h.receipts t, hflight, List.append_nil]
  case h_3 hpend =>
    have hflight : inFlight s t = [] := inFlight_of_pendState (by rw [hpend]; exact nofun)
    refine h.setTask (l := s.waitList) (fun _ _ => rfl) ?_ nofun (h.toListInv.setTask rfl
      (fun _ => rfl) nofun h.nodup (fun u _ hu => h.linked u hu) (fun _ => ⟨nofun, nofun⟩)
      (fun u _ hu => hu))
    rw [inFlight_of_call (by rw [setTask_self]; exact nofun), ← hflight]
    exact h.receipts t

theorem Inv.removeEventWaiter (h : Inv o sp abs Valid a s) (ht : (s.task t).call = .timedOut) :
    Inv o sp abs Valid a (removeEventWaiter s t) := by
  have hflight : inFlight s t = [] := inFlight_of_call (by rw [ht]; exact nofun)
  refine h.leave (fun _ _ => rfl) ?_ List.erase_sublist h.nodup.not_mem_erase
    fun u hut hu => (List.mem_erase_of_ne hut).2 (h.linked u hu)
  rw [h.receipts t, hflight, List.append_nil]

/-! ## Posts -/

variable {w : Nat} {rest : List Nat}

theorem Inv.post (h : Inv o sp abs Valid a s) (hfree : s.posting = none) (p : π) :
    Inv o sp abs Valid a { s with posting := some ⟨p, 0⟩ } := by
  have hold : pendingPut o s = [] := by rw [pendingPut, hfree]
  have hnew : pendingPut o { s with posting := some ⟨p, 0⟩ } = [] :=
    if_neg fun hp => hp.2 rfl
  refine ⟨⟨h.replay, h.receipts, ?_, h.waits⟩, ⟨h.running, h.nodup, h.linked, h.queued⟩, h.valid⟩
  rw [hnew, ← hold]
  exact h.puts

/-- The waiter at the head of the list does not wait any more. -/
theorem Inv.skip (h : Inv o sp abs Valid a s) (hlist : s.waitList = w :: rest)
    (hstate : (s.task w).state ≠ .waitEvent) :
    Inv o sp abs Valid a { s with waitList := rest } := by
  have hnodup := h.nodup
  rw [hlist] at hnodup
  refine ⟨⟨h.replay, h.receipts, h.puts, h.waits⟩,
    ⟨h.running, (List.nodup_cons.1 hnodup).2, fun u hu => ?_, fun u hu => ?_⟩, h.valid⟩
  · have hmem := h.linked u hu
    rw [hlist] at hmem
    rcases List.mem_cons.1 hmem with rfl | hmem
    · exact absurd hu.2 hstate
    · exact hmem
  · exact h.queued u (by rw [hlist]; exact List.mem_cons_of_mem w hu)

/-- What a post brings is handed to a waiter: in the log it goes through the
empty object. -/
theorem Inv.handOff (h : Inv o sp abs Valid a s) (hr : Refines o sp abs Valid)
    (hq : s.posting = some q) (hdone : q.done o = false) (hok : o.pendState q.post = .ok)
    (hlist : s.waitList = w :: rest) (hstate : (s.task w).state = .waitEvent)
    (hx : x.call = .waiting ∧ x.state = .waking ∧ x.pendState = .ok)
    (hmsg : x.msg = some (o.message q.post)) :
    Inv o sp abs Valid a { s.setTask w x with
      waitList := rest
      posting := some { q with woken := q.woken + 1 }
      log := s.log ++ [.put q.post, .got w (o.message q.post)] } := by
  have hempty := h.waits w ⟨h.call_of_waitEvent hstate, hstate⟩
  obtain ⟨b, hput, hget⟩ := hr.handOff hempty hok
  have hwoken : q.woken = 0 := by
    rw [Posting.done, hr.single hok] at hdone
    simpa using hdone
  have hflight : inFlight s w = [] := inFlight_of_state (by rw [hstate]; exact nofun)
  refine ⟨⟨?_, fun u => ?_, ?_, fun u hu => ?_⟩,
    h.toListInv.wake hlist rfl rfl hx.1 hx.2.1, h.valid⟩
  · have hlog := Spec.log_got w (Spec.log_put h.replay hput) hget
    rw [List.append_assoc] at hlog
    exact hlog
  · rw [gotBy_append, h.receipts u, show gotBy u [Op.put q.post, .got w (o.message q.post)]
      = gotBy u [(.got w (o.message q.post) : Op π μ)] from rfl]
    by_cases huw : u = w
    · subst huw
      rw [hflight, List.append_nil, gotBy_got_self]
      exact congrArg (s.returned u ++ ·) (inFlight_of_woken (setTask_self s u x) hx hmsg).symm
    · rw [gotBy_got_of_ne (Ne.symm huw), List.append_nil]
      exact congrArg (s.returned u ++ ·) (inFlight_congr (setTask_of_ne s x huw)).symm
  · have hputs := h.puts
    rw [pendingPut_eq_nil hq fun hp => hp.2 hwoken, List.append_nil] at hputs
    rw [puts_append, hputs]
    exact congrArg (_ ++ ·) (if_pos ⟨hok, Nat.succ_ne_zero _⟩).symm
  · exact h.waits u (waiting_of_setTask rfl (by rw [hx.2.1]; exact nofun) hu)

/-- An abort wakes a waiter, which gets nothing. -/
theorem Inv.abort (h : Inv o sp abs Valid a s) (hq : s.posting = some q)
    (hok : o.pendState q.post ≠ .ok) (hlist : s.waitList = w :: rest)
    (hstate : (s.task w).state = .waitEvent)
    (hx : x.call = .waiting ∧ x.state = .waking) (hpend : x.pendState ≠ .ok) :
    Inv o sp abs Valid a { s.setTask w x with
      waitList := rest
      posting := some { q with woken := q.woken + 1 } } := by
  have hflight : inFlight s w = [] := inFlight_of_state (by rw [hstate]; exact nofun)
  have hmoved : Inv o sp abs Valid a ({ s with waitList := rest }.setTask w x) := by
    refine h.setTask (fun _ _ => rfl) ?_ (fun _ hs => ?_) (h.toListInv.wake hlist rfl rfl hx.1 hx.2)
    · rw [inFlight_of_pendState (by rw [setTask_self]; exact hpend), ← hflight]
      exact h.receipts w
    · rw [hx.2] at hs
      cases hs
  have hputs := h.puts
  rw [pendingPut_eq_nil hq fun hp => hok hp.1] at hputs
  refine ⟨⟨hmoved.replay, hmoved.receipts, hputs.trans ?_, hmoved.waits⟩,
    ⟨hmoved.running, hmoved.nodup, hmoved.linked, hmoved.queued⟩, hmoved.valid⟩
  exact congrArg (_ ++ ·) (if_neg fun hp => hok hp.1).symm

/-- **One turn of `__wake_up_event_waiter`.** -/
theorem Inv.wakeUpEventWaiter (h : Inv o sp abs Valid a s) (hr : Refines o sp abs Valid)
    (hq : s.posting = some q) (hdone : q.done o = false) (hlist : s.waitList = w :: rest) :
    Inv o sp abs Valid a (wakeUpEventWaiter o s q w rest) := by
  by_cases hstate : (s.task w).state = .waitEvent
  case neg =>
    have heq : EventWait.wakeUpEventWaiter o s q w rest = { s with waitList := rest } := by
      simp [EventWait.wakeUpEventWaiter, wakeUp, hstate]
    rw [heq]
    exact h.skip hlist hstate
  have hcall := h.call_of_waitEvent hstate
  simp only [EventWait.wakeUpEventWaiter, wakeUp, hstate, if_true]
  by_cases hok : o.pendState q.post = .ok
  · simp only [hok, if_true]
    exact h.handOff hr hq hdone hok hlist hstate ⟨hcall, rfl, rfl⟩ rfl
  · simp only [hok, if_false]
    exact h.abort hq hok hlist hstate ⟨hcall, rfl⟩ hok

/-- A post that did not store returns. -/
theorem Inv.postReturn (h : Inv o sp abs Valid a s) (hq : s.posting = some q) :
    Inv o sp abs Valid a { s with
      posting := none, results := s.results ++ [⟨q.post, q.woken, false⟩] } := by
  refine ⟨⟨h.replay, h.receipts, h.puts.trans ?_, h.waits⟩,
    ⟨h.running, h.nodup, h.linked, h.queued⟩, h.valid⟩
  rw [List.filter_append, List.map_append, List.append_assoc]
  refine congrArg (_ ++ ·) ?_
  rw [pendingPut, hq, pendingPut, List.append_nil]
  by_cases hp : o.pendState q.post = .ok ∧ q.woken ≠ 0
  · simp [hp, Result.tookEffect]
  · rw [not_and, not_not] at hp
    by_cases hok : o.pendState q.post = .ok
    · simp [hp hok, Result.tookEffect]
    · simp [hok, Result.tookEffect]

/-- A post that woke nobody stores: nobody waits any more. -/
theorem Inv.postStore (h : Inv o sp abs Valid a s) (hr : Refines o sp abs Valid)
    (hq : s.posting = some q) (hok : o.pendState q.post = .ok) (hwoken : q.woken = 0)
    (hlist : s.waitList = []) (hstore : o.store s.data q.post = some d) :
    Inv o sp abs Valid a { s with
      posting := none
      data := d
      log := s.log ++ [.put q.post]
      results := s.results ++ [⟨q.post, q.woken, true⟩] } := by
  obtain ⟨hd, hput⟩ := hr.store h.valid hok hstore
  have hputs := h.puts
  rw [pendingPut_eq_nil hq fun hp => hp.2 hwoken, List.append_nil] at hputs
  refine ⟨⟨Spec.log_put h.replay hput, fun u => ?_, ?_, fun u hu => ?_⟩,
    ⟨h.running, h.nodup, h.linked, h.queued⟩, hd⟩
  · rw [gotBy_append, gotBy_put, List.append_nil]
    exact h.receipts u
  · rw [puts_append, hputs, List.filter_append, List.map_append, pendingPut, List.append_nil]
    simp [Result.tookEffect, hok]
  · have hmem := h.linked u hu
    rw [hlist] at hmem
    cases hmem

/-- **The end of a post.** -/
theorem Inv.postEnd (h : Inv o sp abs Valid a s) (hr : Refines o sp abs Valid)
    (hq : s.posting = some q) (hend : q.done o ∨ s.waitList = []) :
    Inv o sp abs Valid a (postEnd o s q) := by
  simp only [EventWait.postEnd]
  split
  case isFalse => exact h.postReturn hq
  case isTrue hpost =>
    obtain ⟨hok, hwoken⟩ := hpost
    have hlist : s.waitList = [] := by
      refine hend.resolve_left fun hdone => ?_
      simp [Posting.done, hwoken] at hdone
    split
    · exact h.postReturn hq
    · exact h.postStore hr hq hok hwoken hlist ‹_›

/-! ## Runs -/

/-- **One step keeps the invariant.** -/
theorem Inv.step (h : Inv o sp abs Valid a s) (hr : Refines o sp abs Valid) {e : Event π}
    (hacc : AcceptTakes o s e) (hs : eventStep o s e = some s') :
    Inv o sp abs Valid a s' := by
  cases e with
  | accept t =>
    obtain ⟨⟨ht, -⟩, ⟨⟩⟩ := Option.ite_none_right_eq_some.1 hs
    exact h.accept hr ht hacc
  | pend t timeout =>
    obtain ⟨⟨ht, -⟩, ⟨⟩⟩ := Option.ite_none_right_eq_some.1 hs
    exact h.pend hr ht timeout
  | timeout t =>
    obtain ⟨⟨ht, -⟩, ⟨⟩⟩ := Option.ite_none_right_eq_some.1 hs
    exact h.timeout ht
  | resume t =>
    obtain ⟨⟨ht, hstate⟩, ⟨⟩⟩ := Option.ite_none_right_eq_some.1 hs
    exact h.pendResume ht hstate
  | dequeue t =>
    obtain ⟨⟨ht, -⟩, ⟨⟩⟩ := Option.ite_none_right_eq_some.1 hs
    exact h.removeEventWaiter ht
  | post p =>
    obtain ⟨hfree, ⟨⟩⟩ := Option.ite_none_right_eq_some.1 hs
    exact h.post (Option.isNone_iff_eq_none.1 hfree) p
  | postWake =>
    simp only [eventStep] at hs
    split at hs
    case h_1 q w rest hq hlist =>
      obtain ⟨hdone, ⟨⟩⟩ := Option.ite_none_left_eq_some.1 hs
      exact h.wakeUpEventWaiter hr hq (by simpa using hdone) hlist
    case h_2 => cases hs
  | postEnd =>
    simp only [eventStep] at hs
    split at hs
    case h_1 q hq =>
      obtain ⟨hend, ⟨⟩⟩ := Option.ite_none_right_eq_some.1 hs
      exact h.postEnd hr hq hend
    case h_2 => cases hs

/-- **Events with waiters are linear**: in every interleaving in which accepts
take what a pend would. -/
theorem inv_of_run (hr : Refines o sp abs Valid) (hd : Valid d) {l : List (Event π)}
    (hl : Along (eventStep o) (AcceptTakes o) (init d) l)
    (h : run (eventStep o) (init d) l = some s) : Inv o sp abs Valid (abs d) s := by
  have hstep : ∀ s e s', Inv o sp abs Valid (abs d) s → AcceptTakes o s e →
      eventStep o s e = some s' → Inv o sp abs Valid (abs d) s' :=
    fun s e s' hs hacc he => hs.step hr hacc he
  exact run_invariant hstep (Inv.init hd) hl h

end Minos.EventWait
