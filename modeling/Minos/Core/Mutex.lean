import Minos.Core.Event

/-!
# Mutex

`core/mutex.c` over the event layer of `core/event.c`, as a transition
system over any number of tasks. What a task does while it holds `m->lock`
is one step, except in `mutex_post`: its loop takes the lock of each waiter
in turn and races with the timers of the waiters, which do not take
`m->lock`, so every turn is a step. A task that waits sleeps in `sched()`
until it is woken; what it does with its `pend_state` afterwards is a step
of its own, and needs no lock unless the wait timed out. The waiters are woken
as those of every event are (`Minos.EventWait`).
-/

namespace Minos.Mutex

open Minos.Lib
open Minos.WakeUp (TaskState PendState)

/-! ## State -/

/-- `OS_MUTEX_AVAILABLE`, `-1` in the `uint32_t` `cnt`. -/
def osMutexAvailable : Nat := 2 ^ 32 - 1

/-- Where a task is in the calls of this file. -/
inductive Call
  | idle
  /-- in `mutex_pend`, past `__wait_event` -/
  | waiting
  /-- in `mutex_pend`, woken by the timer, about to leave the wait list -/
  | timedOut
  /-- in the loop of `mutex_post`, holding `m->lock` -/
  | posting
  /-- past that loop, with the waiter it woke -/
  | posted (woken : Option Nat)
  deriving DecidableEq, Repr

structure Task where
  state : TaskState := .running
  pendState : PendState := .ok
  delay : Nat := 0
  call : Call := .idle

/-- The mutex and the tasks. `holds t` is what `t` was told: a call of its
returned `0` and its `mutex_post` has not returned since. -/
structure Sys where
  cnt : Nat
  owner : Nat
  data : Option Nat
  waitList : List Nat
  lock : Option Nat
  task : Nat → Task
  holds : Nat → Bool

/-- `mutex_init`, with every task outside the calls. -/
def mutexInit : Sys where
  cnt := osMutexAvailable
  owner := 0
  data := none
  waitList := []
  lock := none
  task := fun _ => {}
  holds := fun _ => false

def Sys.setTask (s : Sys) (t : Nat) (x : Task) : Sys :=
  { s with task := Function.update s.task t x }

def Sys.setHolds (s : Sys) (t : Nat) (b : Bool) : Sys :=
  { s with holds := Function.update s.holds t b }

/-! ## The calls -/

/-- `m->owner = tid; m->data = task; m->cnt = tid`. -/
def Sys.own (s : Sys) (t : Nat) : Sys :=
  { s with owner := t, data := some t, cnt := t }

/-- `mutex_accept`. -/
def mutexAccept (s : Sys) (t : Nat) : Sys :=
  if s.cnt = osMutexAvailable then (s.own t).setHolds t true else s

/-- `mutex_pend` up to `sched()`, with `__wait_event`. -/
def mutexPend (s : Sys) (t timeout : Nat) : Sys :=
  if s.cnt = osMutexAvailable then (s.own t).setHolds t true
  else
    { s with waitList := s.waitList ++ [t] }.setTask t
      { state := .waitEvent, pendState := .ok,
        delay := if timeout = 2 ^ 32 - 1 then 0 else timeout, call := .waiting }

/-- `__wake_up(task, pend_state, ..)`: refused when the task does not wait
any more. -/
def wakeUp (s : Sys) (w : Nat) (p : PendState) : Option Sys :=
  if (s.task w).state ≠ .waitEvent then none
  else some (s.setTask w { s.task w with state := .waking, pendState := p, delay := 0 })

/-- `mutex_pend` after `sched()`. -/
def mutexPendResume (s : Sys) (t : Nat) : Sys :=
  match (s.task t).pendState with
  | .ok => (s.setTask t {}).setHolds t true
  | .abort => s.setTask t {}
  | .to => s.setTask t { s.task t with state := .running, call := .timedOut }

/-- One turn of `__wake_up_event_waiter` for one waiter. -/
def wakeUpEventWaiter (s : Sys) (t : Nat) : Sys :=
  match s.waitList with
  | [] => s.setTask t { s.task t with call := .posted none }
  | w :: rest =>
    let s := { s with waitList := rest }
    match wakeUp s w .ok with
    | none => s
    | some s => s.setTask t { s.task t with call := .posted (some w) }

/-! ### The event layer -/

/-- The place of a task in the event layer, where a post is not the task's. -/
def Call.wait : Call → EventWait.Call
  | .waiting => .waiting
  | .timedOut => .timedOut
  | _ => .idle

/-- A task that was woken by a post has its message. -/
def Task.wait (x : Task) : EventWait.Task Unit :=
  ⟨x.state, x.pendState, x.delay, if x.state = .waking ∧ x.pendState = .ok then some () else none,
    x.call.wait⟩

/-- The waiters of the mutex. -/
def Sys.wait (s : Sys) : EventWait.Sys Unit Unit Unit :=
  { EventWait.init () with waitList := s.waitList, task := fun t => (s.task t).wait }

/-- A mutex as an object of the event layer: a post wakes one task. -/
def waitObject : EventWait.Object Unit Unit Unit :=
  ⟨fun _ => none, fun _ => none, fun d _ => some d, fun _ => (), fun _ => .ok, fun _ => false⟩

theorem wait_setTask (s : Sys) (t : Nat) (x : Task) :
    (s.setTask t x).wait = s.wait.setTask t x.wait := by
  have htask : (fun u => ((s.setTask t x).task u).wait) =
      Function.update (fun u => (s.task u).wait) t x.wait := by
    funext u
    by_cases hu : u = t
    · subst hu
      simp [Sys.setTask]
    · simp [Sys.setTask, hu]
  simp only [Sys.wait, EventWait.Sys.setTask, htask]
  rfl

theorem wakeUp_wait (s : Sys) (w : Nat) (p : PendState) :
    (wakeUp s w p).map Sys.wait =
      EventWait.wakeUp s.wait w p (if p = .ok then some () else none) := by
  have hstate : (s.wait.task w).state = (s.task w).state := rfl
  by_cases hw : (s.task w).state = .waitEvent
  · rw [wakeUp, if_neg (not_not.mpr hw), EventWait.wakeUp, if_pos (hstate.trans hw),
      Option.map_some, wait_setTask]
    simp [Task.wait, Sys.wait]
  · rw [wakeUp, if_pos hw, EventWait.wakeUp, if_neg (hstate ▸ hw), Option.map_none]

theorem wakeUp_call {s s' : Sys} {w : Nat} {p : PendState} (h : wakeUp s w p = some s') (t : Nat) :
    (s'.task t).call = (s.task t).call := by
  obtain ⟨-, ⟨⟩⟩ := Option.ite_none_left_eq_some.mp h
  by_cases ht : t = w
  · subst ht
    simp [Sys.setTask]
  · simp [Sys.setTask, ht]

/-- One turn of the loop of a `mutex_post` does to the waiters what it does to those of any
event. -/
theorem wakeUpEventWaiter_wait {s : Sys} {t w : Nat} {rest : List Nat}
    (hcall : (s.task t).call = .posting) (hlist : s.waitList = w :: rest) :
    (wakeUpEventWaiter s t).wait.waitList =
        (EventWait.wakeUpEventWaiter waitObject s.wait ⟨(), 0⟩ w rest).waitList ∧
      (wakeUpEventWaiter s t).wait.task =
        (EventWait.wakeUpEventWaiter waitObject s.wait ⟨(), 0⟩ w rest).task := by
  have hwake : (wakeUp { s with waitList := rest } w .ok).map Sys.wait =
      EventWait.wakeUp { s.wait with waitList := rest } w
        (waitObject.pendState ()) (some (waitObject.message ())) := wakeUp_wait _ w .ok
  simp only [wakeUpEventWaiter, hlist, EventWait.wakeUpEventWaiter, ← hwake]
  cases h : wakeUp { s with waitList := rest } w .ok with
  | none => exact ⟨rfl, rfl⟩
  | some s' =>
    -- the poster only notes whom it woke
    have hposter : { s'.task t with call := .posted (some w) }.wait = s'.wait.task t := by
      simp [Task.wait, Sys.wait, Call.wait, wakeUp_call h t, hcall]
    simp only [Option.map_some, wait_setTask, hposter, EventWait.Sys.setTask,
      Function.update_eq_self, and_self]

/-- The end of `mutex_post`. `task` is the local variable the code tests,
which it set to `current`. -/
def mutexPostEnd (s : Sys) (task : Option Nat) : Sys :=
  match task with
  | some t => s.own t
  | none => { s with cnt := osMutexAvailable, data := none, owner := 0 }

/-! ## Interleavings -/

inductive Event
  | accept (t : Nat)
  | pend (t timeout : Nat)
  | timeout (t : Nat)
  | resume (t : Nat)
  | dequeue (t : Nat)
  | post (t : Nat)
  | postWake (t : Nat)
  | postEnd (t : Nat)
  deriving DecidableEq, Repr

/-- A task number: it fits `tid_t` and is not `0`. -/
def validTid (t : Nat) : Prop := 0 < t ∧ t < 2 ^ 15

instance (t : Nat) : Decidable (validTid t) := inferInstanceAs (Decidable (_ ∧ _))

/-- Steps are taken only by a task that is at that point of its call and,
where the code takes `m->lock`, when the lock is free. -/
def mutexStep (s : Sys) : Event → Option Sys
  | .accept t =>
    if validTid t ∧ (s.task t).call = .idle ∧ s.lock = none then
      some (mutexAccept s t)
    else none
  | .pend t timeout =>
    if validTid t ∧ (s.task t).call = .idle ∧ s.lock = none then
      some (mutexPend s t timeout)
    else none
  | .timeout t =>
    -- the delay timer, which a wait without timeout does not start
    if (s.task t).call = .waiting ∧ 0 < (s.task t).delay then
      some ((wakeUp s t .to).getD s)
    else none
  | .resume t =>
    if (s.task t).call = .waiting ∧ (s.task t).state = .waking then
      some (mutexPendResume s t)
    else none
  | .dequeue t =>
    if (s.task t).call = .timedOut ∧ s.lock = none then
      some ({ s with waitList := s.waitList.erase t }.setTask t {})
    else none
  | .post t =>
    -- `ASSERT(m->owner == task->tid)`
    if validTid t ∧ (s.task t).call = .idle ∧ s.owner = t ∧ s.lock = none then
      some ({ s with lock := some t }.setTask t { s.task t with call := .posting })
    else none
  | .postWake t =>
    if (s.task t).call = .posting then some (wakeUpEventWaiter s t) else none
  | .postEnd t =>
    match (s.task t).call with
    | .posted _ =>
      some (({ mutexPostEnd s (some t) with lock := none }.setTask t {}).setHolds t false)
    | _ => none

/-! ## What the mutex is for -/

/-- Whoever was told that it holds the mutex is its owner, so there is at
most one. -/
def HoldsOk (s : Sys) : Prop :=
  (∀ t, s.holds t = true → s.owner = t ∧ s.cnt = t) ∧
    ∀ t u, s.holds t = true → s.holds u = true → t = u

/-- A `mutex_post` that ends makes the mutex available when it woke nobody,
and makes the waiter it woke the owner otherwise. -/
def PostOk (s : Sys) (e : Event) : Prop :=
  ∀ t w s', e = .postEnd t → (s.task t).call = .posted w → mutexStep s e = some s' →
    (w = none → s'.cnt = osMutexAvailable ∧ s'.owner = 0) ∧
      ∀ u, w = some u → s'.owner = u ∧ s'.cnt = u

/-- The step is not the end of a `mutex_post`, nor the return of a waiter
that one woke. -/
def NoPost (s : Sys) (e : Event) : Prop :=
  (mutexStep s e).isSome = true →
    (∀ t, e ≠ .postEnd t) ∧ ∀ t, e = .resume t → (s.task t).pendState ≠ .ok

/-! ## Invariant -/

@[simp] theorem setTask_task (s : Sys) (t : Nat) (x : Task) (u : Nat) :
    (s.setTask t x).task u = if u = t then x else s.task u := by
  simp [Sys.setTask, Function.update_apply]

@[simp] theorem setHolds_holds (s : Sys) (t : Nat) (b : Bool) (u : Nat) :
    (s.setHolds t b).holds u = if u = t then b else s.holds u := by
  simp [Sys.setHolds, Function.update_apply]

/-- A task is inside `mutex_post`, past its assertion. -/
def InPost (c : Call) : Prop := c = .posting ∨ ∃ w, c = .posted w

/-- What holds of the task `t`. Whoever is inside a `mutex_post` is the owner
and has the lock. -/
structure TaskOk (lock : Option Nat) (owner t : Nat) (x : Task) : Prop where
  idle : x.call = .idle → x.state = .running
  inPost : InPost x.call → validTid t ∧ x.state = .running ∧ lock = some t ∧ owner = t
  posted : ∀ w, x.call = .posted (some w) → w ≠ t

/-- What holds as long as no `mutex_post` has ended. Whoever was woken by one,
was woken by a task that is still inside. -/
structure Inv (s : Sys) : Prop where
  task : ∀ t, TaskOk s.lock s.owner t (s.task t)
  woken : ∀ t, (s.task t).call = .waiting → (s.task t).state = .waking →
    (s.task t).pendState = .ok → ∃ p, (s.task p).call = .posted (some t)
  holds : ∀ t, s.holds t = true → validTid t ∧ s.owner = t ∧ s.cnt = t

theorem not_inPost_of_idle {c : Call} (h : c = .idle) : ¬ InPost c := by
  subst h
  rintro (h | ⟨w, h⟩) <;> cases h

theorem not_inPost_of_waiting {c : Call} (h : c = .waiting) : ¬ InPost c := by
  subst h
  rintro (h | ⟨w, h⟩) <;> cases h

/-- A task outside `mutex_post`. -/
theorem TaskOk.outside {lock : Option Nat} {owner t : Nat} {x : Task}
    (hidle : x.call = .idle → x.state = .running) (hx : ¬ InPost x.call) :
    TaskOk lock owner t x :=
  ⟨hidle, fun h => absurd h hx, fun _ h => absurd (Or.inr ⟨_, h⟩) hx⟩

theorem Inv.init : Inv mutexInit where
  task _ := .outside (fun _ => rfl) (not_inPost_of_idle rfl)
  woken := nofun
  holds := nofun

variable {s : Sys}

theorem Inv.holdsOk (h : Inv s) : HoldsOk s :=
  ⟨fun t ht => (h.holds t ht).2, fun t u ht hu =>
    (h.holds t ht).2.1.symm.trans (h.holds u hu).2.1⟩

variable {t : Nat}

theorem ne_available (h : validTid t) : t ≠ osMutexAvailable := by
  unfold validTid at h
  unfold osMutexAvailable
  omega

/-- With the lock free nobody is inside a `mutex_post`, and nobody was woken
by one. -/
theorem Inv.lock_free (h : Inv s) (hlock : s.lock = none) (t : Nat) :
    ¬ InPost (s.task t).call ∧
      ¬ ((s.task t).call = .waiting ∧ (s.task t).state = .waking ∧
        (s.task t).pendState = .ok) := by
  have hno : ∀ p, ¬ InPost (s.task p).call := by
    intro p hp
    have hl := ((h.task p).inPost hp).2.2.1
    rw [hlock] at hl
    cases hl
  refine ⟨hno t, fun ⟨hcall, hstate, hpend⟩ => ?_⟩
  obtain ⟨p, hp⟩ := h.woken t hcall hstate hpend
  exact hno p (Or.inr ⟨_, hp⟩)

/-- A free mutex is taken. -/
theorem Inv.take (h : Inv s) (ht : validTid t) (hlock : s.lock = none)
    (hcnt : s.cnt = osMutexAvailable) : Inv ((s.own t).setHolds t true) := by
  refine ⟨fun u => .outside (h.task u).idle (h.lock_free hlock u).1, h.woken, fun u hu => ?_⟩
  rw [setHolds_holds] at hu
  split at hu
  · rename_i heq
    subst heq
    exact ⟨ht, rfl, rfl⟩
  · -- a task that held it would be in `cnt`
    obtain ⟨hu, -, hcnt'⟩ := h.holds u hu
    exact absurd (hcnt'.symm.trans hcnt) (ne_available hu)

variable {x : Task}

theorem setTask_self : (s.setTask t x).task t = x := by
  rw [setTask_task, if_pos rfl]

theorem setTask_of_ne {u : Nat} (h : u ≠ t) :
    (s.setTask t x).task u = s.task u := by
  rw [setTask_task, if_neg h]

/-- A task outside `mutex_post` gets another record there. If it is one that a
post woke, the post is still going on. The wait list does not matter. -/
theorem Inv.setTask (h : Inv s) (ws : List Nat)
    (ht : ¬ InPost (s.task t).call) (hidle : x.call = .idle → x.state = .running)
    (hx : ¬ InPost x.call)
    (hw : x.call = .waiting → x.state = .waking → x.pendState = .ok →
      ∃ p, (s.task p).call = .posted (some t)) :
    Inv ({ s with waitList := ws }.setTask t x) := by
  refine ⟨?_, fun u h1 h2 h3 => ?_, h.holds⟩
  · exact (Function.forall_update_iff s.task fun u y => TaskOk s.lock s.owner u y).2
      ⟨.outside hidle hx, fun u _ => h.task u⟩
  -- a post that goes on is not of `t`
  have hpost : ∀ p, (s.task p).call = .posted (some u) →
      ∃ p, (({ s with waitList := ws }.setTask t x).task p).call = .posted (some u) := by
    intro p hp
    refine ⟨p, ?_⟩
    rw [setTask_of_ne]
    · exact hp
    · rintro rfl
      exact ht (Or.inr ⟨_, hp⟩)
  by_cases hut : u = t
  · subst hut
    rw [setTask_self] at h1 h2 h3
    obtain ⟨p, hp⟩ := hw h1 h2 h3
    exact hpost p hp
  · rw [setTask_of_ne hut] at h1 h2 h3
    obtain ⟨p, hp⟩ := h.woken u h1 h2 h3
    exact hpost p hp

/-- The only task inside a `mutex_post` moves on in it, while nobody has been
woken. -/
theorem Inv.poster (h : Inv s) (ws : List Nat) (ht : validTid t)
    (honly : ∀ u, u ≠ t → ¬ InPost (s.task u).call)
    (hnone : ∀ u, (s.task u).call = .waiting → (s.task u).state = .waking →
      (s.task u).pendState ≠ .ok)
    (howner : s.owner = t) (hx : InPost x.call) (hstate : x.state = .running)
    (hposted : ∀ w, x.call = .posted (some w) → w ≠ t) :
    Inv ({ s with waitList := ws, lock := some t }.setTask t x) := by
  refine ⟨?_, fun u h1 h2 h3 => ?_, h.holds⟩
  · exact (Function.forall_update_iff s.task fun u y => TaskOk (some t) s.owner u y).2
      ⟨⟨fun hidle => absurd hx (not_inPost_of_idle hidle), fun _ => ⟨ht, hstate, rfl, howner⟩,
        hposted⟩, fun u hu => .outside (h.task u).idle (honly u hu)⟩
  by_cases hut : u = t
  · subst hut
    rw [setTask_self] at h1
    exact absurd hx (not_inPost_of_waiting h1)
  · rw [setTask_of_ne hut] at h1 h2 h3
    exact absurd h3 (hnone u h1 h2)

/-- The owner enters `mutex_post`. -/
theorem Inv.post (h : Inv s) (ht : validTid t)
    (hcall : (s.task t).call = .idle) (howner : s.owner = t) (hlock : s.lock = none) :
    Inv ({ s with lock := some t }.setTask t { s.task t with call := .posting }) := by
  have hfree := h.lock_free hlock
  exact h.poster s.waitList ht (fun u _ => (hfree u).1)
    (fun u h1 h2 h3 => (hfree u).2 ⟨h1, h2, h3⟩) howner (Or.inl rfl) ((h.task t).idle hcall) nofun

/-- While `t` is in the loop of its `mutex_post`, nobody else is in one, and
nobody was woken. -/
theorem Inv.only_poster (h : Inv s) (hcall : (s.task t).call = .posting) :
    (∀ u, u ≠ t → ¬ InPost (s.task u).call) ∧
      ∀ u, (s.task u).call = .waiting → (s.task u).state = .waking →
        (s.task u).pendState ≠ .ok := by
  have hlock := ((h.task t).inPost (Or.inl hcall)).2.2.1
  have honly : ∀ u, InPost (s.task u).call → u = t := by
    intro u hu
    have hl := ((h.task u).inPost hu).2.2.1
    rw [hlock] at hl
    exact (Option.some.inj hl).symm
  refine ⟨fun u hut hu => hut (honly u hu), ?_⟩
  intro u h1 h2 h3
  obtain ⟨p, hp⟩ := h.woken u h1 h2 h3
  rw [honly p (Or.inr ⟨_, hp⟩), hcall] at hp
  cases hp

/-- One turn of the loop of `mutex_post`. -/
theorem Inv.postWake (h : Inv s)
    (hcall : (s.task t).call = .posting) : Inv (wakeUpEventWaiter s t) := by
  obtain ⟨ht, hstate, hlock, howner⟩ := (h.task t).inPost (Or.inl hcall)
  obtain ⟨honly, hnone⟩ := h.only_poster hcall
  -- the poster goes on, with the waiter it has taken from the list
  have hposter : ∀ ws woken, (∀ w, woken = some w → w ≠ t) →
      Inv ({ s with waitList := ws }.setTask t { s.task t with call := .posted woken }) := by
    intro ws woken hne
    have hmoved : Inv ({ s with waitList := ws, lock := some t }.setTask t
        { s.task t with call := .posted woken }) :=
      h.poster ws ht honly hnone howner (Or.inr ⟨_, rfl⟩) hstate
        fun w hw => hne w (Call.posted.inj hw)
    rwa [← hlock] at hmoved
  unfold wakeUpEventWaiter
  split
  · exact hposter s.waitList none nofun
  · rename_i w rest _
    simp only [wakeUp]
    by_cases hwait : (s.task w).state = .waitEvent
    swap
    · -- the waiter timed out before: on to the next
      rw [if_pos hwait]
      exact ⟨h.task, h.woken, h.holds⟩
    have hwt : w ≠ t := by
      rintro rfl
      rw [hstate] at hwait
      cases hwait
    have hwoken := (hposter rest (some w) fun u hu => Option.some.inj hu ▸ hwt).setTask (t := w)
      (x := { s.task w with state := .waking, pendState := .ok, delay := 0 }) rest
      (by rw [setTask_of_ne hwt]; exact honly w hwt)
      (fun hidle => absurd (((h.task w).idle hidle).symm.trans hwait) nofun) (honly w hwt)
      fun _ _ _ => ⟨t, by rw [setTask_self]⟩
    rw [if_neg (not_not.mpr hwait)]
    simpa [Sys.setTask, hwt.symm, Function.update_comm hwt.symm] using hwoken

/-! ## Steps and runs -/

/-- Every step but the end of a post and the return of a waiter it woke
keeps the invariant. -/
theorem Inv.step {e : Event} (h : Inv s) (hno : NoPost s e)
    (hs : mutexStep s e = some s') : Inv s' := by
  obtain ⟨hend, hresume⟩ := hno (by rw [hs]; rfl)
  cases e with
  | accept t =>
    obtain ⟨⟨ht, -, hlock⟩, ⟨⟩⟩ := Option.ite_none_right_eq_some.1 hs
    unfold mutexAccept
    split
    · exact h.take ht hlock ‹_›
    · exact h
  | pend t timeout =>
    obtain ⟨⟨ht, hcall, hlock⟩, ⟨⟩⟩ := Option.ite_none_right_eq_some.1 hs
    unfold mutexPend
    split
    · exact h.take ht hlock ‹_›
    · exact h.setTask _ (not_inPost_of_idle hcall) (by simp) (not_inPost_of_waiting rfl)
        (by simp)
  | timeout t =>
    obtain ⟨⟨hcall, -⟩, ⟨⟩⟩ := Option.ite_none_right_eq_some.1 hs
    unfold wakeUp
    split
    · exact h
    · exact h.setTask s.waitList (not_inPost_of_waiting hcall) (by simp [hcall])
        (not_inPost_of_waiting hcall) (by simp)
  | resume t =>
    have hpend := hresume t rfl
    obtain ⟨⟨hcall, -⟩, ⟨⟩⟩ := Option.ite_none_right_eq_some.1 hs
    unfold mutexPendResume
    split
    · exact absurd ‹_› hpend
    · exact h.setTask s.waitList (not_inPost_of_waiting hcall) (by simp)
        (not_inPost_of_idle rfl) (by simp)
    · refine h.setTask s.waitList (not_inPost_of_waiting hcall) (by simp) ?_ (by simp)
      rintro (h | ⟨w, h⟩) <;> cases h
  | dequeue t =>
    obtain ⟨⟨-, hlock⟩, ⟨⟩⟩ := Option.ite_none_right_eq_some.1 hs
    exact h.setTask _ (h.lock_free hlock t).1 (by simp) (not_inPost_of_idle rfl) (by simp)
  | post t =>
    obtain ⟨⟨ht, hcall, howner, hlock⟩, ⟨⟩⟩ := Option.ite_none_right_eq_some.1 hs
    exact h.post ht hcall howner hlock
  | postWake t =>
    obtain ⟨hcall, ⟨⟩⟩ := Option.ite_none_right_eq_some.1 hs
    exact h.postWake hcall
  | postEnd t => exact absurd rfl (hend t)

/-- The end of a post leaves the poster the owner, whatever it woke. -/
theorem not_postOk (h : Inv s)
    (hs : (mutexStep s (.postEnd t)).isSome = true) : ¬ PostOk s (.postEnd t) := by
  intro hok
  obtain ⟨s', hs'⟩ := Option.isSome_iff_exists.mp hs
  have hs'' := hs'
  simp only [mutexStep] at hs''
  split at hs''
  swap
  · cases hs''
  rename_i w hcall
  cases hs''
  obtain ⟨hnone, hsome⟩ := hok t w _ rfl hcall hs'
  cases w with
  | none =>
    have hvalid := ((h.task t).inPost (Or.inr ⟨_, hcall⟩)).1
    exact ne_available hvalid (hnone rfl).1
  | some u => exact (h.task t).posted u hcall (hsome u rfl).1.symm

theorem not_holdsOk_resume (h : Inv s)
    (hs : mutexStep s (.resume t) = some s') (hpend : (s.task t).pendState = .ok) :
    ¬ HoldsOk s' := by
  obtain ⟨⟨hcall, hstate⟩, ⟨⟩⟩ := Option.ite_none_right_eq_some.1 hs
  obtain ⟨p, hp⟩ := h.woken t hcall hstate hpend
  intro hok
  have howner := (hok.1 t (by simp [mutexPendResume, hpend])).1
  simp only [mutexPendResume, hpend] at howner
  exact (h.task p).posted t hp
    (howner.symm.trans ((h.task p).inPost (Or.inr ⟨_, hp⟩)).2.2.2)

/-- Where the invariant holds, a step does what the mutex is for exactly when
it is not one of the two. -/
theorem good_iff_noPost (h : Inv s) (e : Event) :
    (PostOk s e ∧ ∀ s', mutexStep s e = some s' → HoldsOk s') ↔ NoPost s e := by
  constructor
  · rintro ⟨hpost, hholds⟩ hs
    refine ⟨?_, ?_⟩
    · rintro t rfl
      exact not_postOk h hs hpost
    · rintro t rfl hpend
      obtain ⟨s', hs'⟩ := Option.isSome_iff_exists.mp hs
      exact not_holdsOk_resume h hs' hpend (hholds s' hs')
  · intro hno
    refine ⟨fun t w s' he _ hs => ?_, fun s' hs => (h.step hno hs).holdsOk⟩
    exact absurd he ((hno (by rw [hs]; rfl)).1 t)

/-- **Mutex**: over every interleaving, a task that was told it holds the
mutex is its only owner in every state reached, and every post hands the
mutex on, exactly when no `mutex_post` runs to its end and no waiter that
one woke returns. -/
theorem mutex_good_iff (l : List Event) :
    (Along mutexStep PostOk mutexInit l ∧
      ∀ pre, pre <+: l → ∀ s, run mutexStep mutexInit pre = some s → HoldsOk s) ↔
    Along mutexStep NoPost mutexInit l := by
  have hcongr : Along mutexStep
      (fun s e => PostOk s e ∧ ∀ s', mutexStep s e = some s' → HoldsOk s') mutexInit l ↔
      Along mutexStep NoPost mutexInit l := along_congr (I := Inv)
    (fun _ _ _ h hno hs => h.step hno hs) (fun _ e h => good_iff_noPost h e) Inv.init l
  rw [forall_prefix_iff_along, ← hcongr, along_and]
  have hinit := Inv.init.holdsOk
  constructor
  · rintro ⟨hpost, -, hholds⟩
    exact ⟨hpost, hholds⟩
  · rintro ⟨hpost, hholds⟩
    exact ⟨hpost, hinit, hholds⟩

/-- Task 1 takes the mutex and task 2 waits; after the `mutex_post` of task 1
task 2 returns `0`, yet task 1 is the owner. -/
theorem mutex_post_keeps_owner :
    (run mutexStep mutexInit [.accept 1, .pend 2 0, .post 1, .postWake 1, .postEnd 1,
        .resume 2]).map (fun s => (s.owner, s.cnt, s.holds 1, s.holds 2))
      = some (1, 1, false, true) ∧
    ¬ Along mutexStep PostOk mutexInit [.accept 1, .pend 2 0, .post 1, .postWake 1, .postEnd 1,
        .resume 2] := by
  refine ⟨by decide, fun h => ?_⟩
  obtain ⟨-, h⟩ := h
  obtain ⟨-, h⟩ := h _ rfl
  obtain ⟨-, h⟩ := h _ rfl
  obtain ⟨-, h⟩ := h _ rfl
  obtain ⟨h, -⟩ := h _ rfl
  exact absurd ((h 1 (some 2) _ rfl rfl rfl).2 2 rfl).1 (by decide)

end Minos.Mutex
