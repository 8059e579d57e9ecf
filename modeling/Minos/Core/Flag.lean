import Minos.Core.WakeUp

/-!
# Event flags

`core/flag.c`: tasks wait for bits of a group to be set or cleared. The node
of a waiting task is a local of its `flag_pend` and is linked into the wait
list of the group, where every `flag_post` looks at it. A node has a number,
new for every call.

What a call does while it holds `grp->lock` is one step, except in a
`flag_post`: it wakes one waiter after the other, and the timers of the
waiters, which do not take the lock, may come between any two of them.
`posting` is the lock and the nodes the post has still to visit. `__wake_up`
is one step, as in `Minos.EventWait`.
-/

namespace Minos.Flag

open Minos.Lib
open Minos.WakeUp (TaskState PendState)

/-- `flag_t`. -/
abbrev Flags := BitVec 32

/-! ## State -/

inductive WaitType
  | clrAll
  | clrAny
  | setAll
  | setAny
  /-- a number that is none of `FLAG_WAIT_*` -/
  | other
  deriving DecidableEq, Repr

/-- `wait_type` without `FLAG_CONSUME`. -/
def waitTypeOf : Nat → WaitType
  | 0 => .clrAll
  | 1 => .clrAny
  | 2 => .setAll
  | 3 => .setAny
  | _ => .other

def flagConsume : Nat := 0x80

/-- The wait type and `consume` of a `wait_type` argument. -/
def decodeWaitType (waitType : Nat) : WaitType × Bool :=
  if waitType &&& flagConsume ≠ 0 then (waitTypeOf (waitType - flagConsume), true)
  else (waitTypeOf waitType, false)

/-- `struct flag_node`. -/
structure Node where
  id : Nat
  task : Nat
  flags : Flags
  waitType : WaitType
  deriving DecidableEq, Repr

/-- A task, with the locals of its `flag_pend` while it is in one. -/
structure Task where
  state : TaskState := .running
  pendState : PendState := .ok
  delay : Nat := 0
  flagsRdy : Flags := 0
  /-- the node and `consume` of the call the task waits in -/
  call : Option (Node × Bool) := none
  deriving DecidableEq, Repr

structure Sys where
  flags : Flags
  waitList : List Node
  posting : Option (List Node)
  task : Nat → Task
  nextId : Nat
  returned : List (Nat × Flags)

/-- `flag_init`, with every task outside the calls. -/
def flagInit (flags : Flags) : Sys := ⟨flags, [], none, fun _ => {}, 0, []⟩

def Sys.setTask (s : Sys) (t : Nat) (x : Task) : Sys :=
  { s with task := Function.update s.task t x }

@[simp] theorem setTask_self (s : Sys) (t : Nat) (x : Task) : (s.setTask t x).task t = x := by
  simp [Sys.setTask]

theorem setTask_of_ne (s : Sys) {t u : Nat} (x : Task) (h : u ≠ t) :
    (s.setTask t x).task u = s.task u := by
  simp [Sys.setTask, h]

/-! ## Conditions -/

/-- What is taken out of the group, or put back into it. -/
def consumeSet (grp flagsRdy : Flags) (consume : Bool) : Flags :=
  if consume then grp &&& ~~~ flagsRdy else grp

def consumeClr (grp flagsRdy : Flags) (consume : Bool) : Flags :=
  if consume then grp ||| flagsRdy else grp

/-- `flag_wait_set_all`: the ready flags, and the flags of the group. -/
def flagWaitSetAll (grp flags : Flags) (consume : Bool) : Flags × Flags :=
  let flagsRdy := grp &&& flags
  if flagsRdy = flags then (flagsRdy, consumeSet grp flagsRdy consume) else (0, grp)

/-- `flag_wait_set_any`. -/
def flagWaitSetAny (grp flags : Flags) (consume : Bool) : Flags × Flags :=
  let flagsRdy := grp &&& flags
  (flagsRdy, consumeSet grp flagsRdy (consume && flagsRdy != 0))

/-- `flag_wait_clr_all`. -/
def flagWaitClrAll (grp flags : Flags) (consume : Bool) : Flags × Flags :=
  let flagsRdy := ~~~ grp &&& flags
  if flagsRdy = flags then (flagsRdy, consumeClr grp flagsRdy consume) else (0, grp)

/-- `flag_wait_clr_any`. -/
def flagWaitClrAny (grp flags : Flags) (consume : Bool) : Flags × Flags :=
  let flagsRdy := ~~~ grp &&& flags
  (flagsRdy, consumeClr grp flagsRdy (consume && flagsRdy != 0))

/-- The `switch` of `flag_accept` and `flag_pend`. -/
def flagWait (grp flags : Flags) (waitType : WaitType) (consume : Bool) : Flags × Flags :=
  match waitType with
  | .setAll => flagWaitSetAll grp flags consume
  | .setAny => flagWaitSetAny grp flags consume
  | .clrAll => flagWaitClrAll grp flags consume
  | .clrAny => flagWaitClrAny grp flags consume
  | .other => (0, grp)

/-- The condition `flag_post` tests for a node, with the flags that are ready
if it holds. -/
def Node.ready (n : Node) (grp : Flags) : Option Flags :=
  match n.waitType with
  | .setAll => if grp &&& n.flags = n.flags then some (grp &&& n.flags) else none
  | .setAny => if grp &&& n.flags ≠ 0 then some (grp &&& n.flags) else none
  | .clrAll => if ~~~ grp &&& n.flags = n.flags then some (~~~ grp &&& n.flags) else none
  | .clrAny => if ~~~ grp &&& n.flags ≠ 0 then some (~~~ grp &&& n.flags) else none
  | .other => none

/-- The loop of `flag_post` goes on after a node of this type: the case
`FLAG_WAIT_CLR_ANY` has no `break` and falls into `default`, which returns. -/
def WaitType.goesOn : WaitType → Bool
  | .clrAny | .other => false
  | _ => true

/-! ## The calls -/

/-- `flag_accept`. -/
def flagAccept (s : Sys) (t : Nat) (flags : Flags) (waitType : Nat) : Sys :=
  let (wait, consume) := decodeWaitType waitType
  let (flagsRdy, grp) := flagWait s.flags flags wait consume
  { s with flags := grp, returned := s.returned ++ [(t, flagsRdy)] }

/-- `flag_pend` up to `sched()`, with `flag_block`. -/
def flagPend (s : Sys) (t : Nat) (flags : Flags) (waitType timeout : Nat) : Sys :=
  let (wait, consume) := decodeWaitType waitType
  let (flagsRdy, grp) := flagWait s.flags flags wait consume
  if flagsRdy ≠ 0 then { s with flags := grp, returned := s.returned ++ [(t, flagsRdy)] }
  else
    let node := ⟨s.nextId, t, flags, wait⟩
    { s with
      flags := grp
      waitList := s.waitList ++ [node]
      nextId := s.nextId + 1 }.setTask t
        { s.task t with
          state := .waitEvent
          pendState := .ok
          delay := if timeout = 2 ^ 32 - 1 then 0 else timeout
          call := some (node, consume) }

/-- `__wake_up`: nothing happens when the task does not wait any more. -/
def wakeUp (s : Sys) (w : Nat) (p : PendState) (flagsRdy : Flags) : Sys :=
  if (s.task w).state = .waitEvent then
    s.setTask w { s.task w with state := .waking, pendState := p, delay := 0, flagsRdy := flagsRdy }
  else s

/-- The flags of the group after a waiter was woken and has consumed. -/
def consumeReady (grp flagsRdy : Flags) : WaitType → Bool → Flags × Flags
  | .setAll, true | .setAny, true => (flagsRdy, consumeSet grp flagsRdy true)
  | .clrAll, true | .clrAny, true => (flagsRdy, consumeClr grp flagsRdy true)
  | .other, true => (0, grp)
  | _, false => (flagsRdy, grp)

/-- The task has left the call. -/
def Task.leave (x : Task) : Task := { x with state := .running, pendState := .ok, call := none }

/-- `flag_pend` after `sched()`: only a wait that was not woken by a post takes
its node off the list. -/
def flagPendResume (s : Sys) (t : Nat) (node : Node) (consume : Bool) : Sys :=
  if (s.task t).pendState ≠ .ok then
    { s with
      waitList := s.waitList.erase node
      returned := s.returned ++ [(t, 0)] }.setTask t (s.task t).leave
  else
    let (flagsRdy, grp) := consumeReady s.flags (s.task t).flagsRdy node.waitType consume
    { s with flags := grp, returned := s.returned ++ [(t, flagsRdy)] }.setTask t (s.task t).leave

/-- The flags of the group at the start of a `flag_post`. -/
def postFlags (grp flags : Flags) (opt : Int) : Flags :=
  if opt = 0 then grp &&& ~~~ flags else if opt = 1 then grp ||| flags else grp

/-- One turn of the loop of `flag_post`. -/
def visit (s : Sys) (n : Node) (rest : List Node) : Sys :=
  let s := match n.ready s.flags with
    | some flagsRdy => wakeUp s n.task .ok flagsRdy
    | none => s
  { s with posting := some (if n.waitType.goesOn then rest else []) }

/-! ## Interleavings -/

inductive Event
  | accept (t : Nat) (flags : Flags) (waitType : Nat)
  | pend (t : Nat) (flags : Flags) (waitType timeout : Nat)
  | timeout (t : Nat)
  | resume (t : Nat)
  | post (flags : Flags) (opt : Int)
  | postVisit
  | postEnd
  deriving DecidableEq, Repr

/-- Steps are taken by a task that is at that point of its call and, where the
code takes `grp->lock`, when the lock is free. -/
def flagStep (s : Sys) : Event → Option Sys
  | .accept t flags waitType =>
    if (s.task t).call = none ∧ s.posting = none then some (flagAccept s t flags waitType)
    else none
  | .pend t flags waitType timeout =>
    if (s.task t).call = none ∧ s.posting = none then
      some (flagPend s t flags waitType timeout)
    else none
  | .timeout t =>
    -- the delay timer, which a wait without timeout does not start
    if (s.task t).call ≠ none ∧ 0 < (s.task t).delay then some (wakeUp s t .to 0) else none
  | .resume t =>
    match (s.task t).call with
    | some (node, consume) =>
      if (s.task t).state = .waking ∧ s.posting = none then
        some (flagPendResume s t node consume)
      else none
    | none => none
  | .post flags opt =>
    -- `-EINVAL`, before the lock
    if 1 < opt then some s
    else if s.posting = none then
      some { s with flags := postFlags s.flags flags opt, posting := some s.waitList }
    else none
  | .postVisit =>
    match s.posting with
    | some (n :: rest) => some (visit s n rest)
    | _ => none
  | .postEnd => if s.posting = some [] then some { s with posting := none } else none

/-! ## What a flag group promises -/

/-- The wait list holds exactly the nodes of the tasks that are in a
`flag_pend`. -/
def ListOk (s : Sys) : Prop :=
  s.waitList.Nodup ∧
    ∀ n, n ∈ s.waitList ↔ ∃ consume, (s.task n.task).call = some (n, consume)

/-- The task waits, and has not been woken. -/
def Waiting (s : Sys) (t : Nat) (n : Node) : Prop :=
  (∃ consume, (s.task t).call = some (n, consume)) ∧ (s.task t).state = .waitEvent

/-- When a `flag_post` returns, nobody waits for what is the case. -/
def PostOk (s : Sys) (e : Event) : Prop :=
  ∀ s', e = .postEnd → flagStep s e = some s' → ∀ t n, Waiting s' t n → n.ready s'.flags = none

/-- No `flag_pend` returns that a post has woken, and when a post starts only
the last node of the wait list may be of the type `FLAG_WAIT_CLR_ANY`, or of
none of the four. -/
def Quiet (s : Sys) : Event → Prop
  | .resume t => (s.task t).pendState ≠ .ok
  | .post _ _ => ∀ n ∈ s.waitList.dropLast, n.waitType.goesOn = true
  | _ => True

instance (s : Sys) : (e : Event) → Decidable (Quiet s e)
  | .resume t => inferInstanceAs (Decidable ((s.task t).pendState ≠ .ok))
  | .post _ _ => inferInstanceAs (Decidable (∀ n ∈ s.waitList.dropLast, _))
  | .accept .. | .pend .. | .timeout _ | .postVisit | .postEnd => isTrue trivial

/-! ## Invariant -/

/-- What a post has done when it has still to visit `rest`: nobody waits for
what is the case in the nodes before. -/
structure Visited (s : Sys) (rest : List Node) : Prop where
  before : ∃ visited, s.waitList = visited ++ rest ∧
    ∀ n ∈ visited, ∀ t, Waiting s t n → n.ready s.flags = none
  goesOn : ∀ n ∈ rest.dropLast, n.waitType.goesOn = true

/-- A task in a `flag_pend` waits on a node of its own; any other runs. -/
structure TaskOk (t : Nat) (x : Task) : Prop where
  own : ∀ n consume, x.call = some (n, consume) → n.task = t
  running : x.call = none → x.state = .running

structure Inv (s : Sys) : Prop where
  list : ListOk s
  fresh : ∀ n ∈ s.waitList, n.id < s.nextId
  task : ∀ t, TaskOk t (s.task t)
  posting : ∀ rest, s.posting = some rest → Visited s rest

theorem Inv.init (flags : Flags) : Inv (flagInit flags) where
  list := ⟨List.nodup_nil, fun _ => ⟨nofun, nofun⟩⟩
  fresh := nofun
  task _ := ⟨nofun, fun _ => rfl⟩
  posting := nofun

variable {n : Node}

section Steps

variable {s : Sys} {t : Nat}

theorem Inv.mem (h : Inv s) {consume : Bool}
    (ht : (s.task t).call = some (n, consume)) : n ∈ s.waitList := by
  refine (h.list.2 n).2 ⟨consume, ?_⟩
  rw [(h.task t).own n consume ht]
  exact ht

theorem Inv.setFlags (h : Inv s) (hfree : s.posting = none) (flags : Flags)
    (returned : List (Nat × Flags)) : Inv { s with flags := flags, returned := returned } :=
  { h with posting := fun _ hr => absurd (hfree.symm.trans hr) nofun }

/-- `flag_block`. -/
theorem Inv.block (h : Inv s) (hfree : s.posting = none) (ht : (s.task t).call = none)
    (flags : Flags) (wait : WaitType) (consume : Bool) {x : Task}
    (hx : x.call = some (⟨s.nextId, t, flags, wait⟩, consume)) :
    Inv (({ s with
      waitList := s.waitList ++ [⟨s.nextId, t, flags, wait⟩]
      nextId := s.nextId + 1 } : Sys).setTask t x) := by
  have hnew : (⟨s.nextId, t, flags, wait⟩ : Node) ∉ s.waitList :=
    fun hmem => Nat.lt_irrefl _ (h.fresh _ hmem)
  -- no node of `t` was in the list
  have hnone : ∀ n ∈ s.waitList, n.task ≠ t := by
    rintro n hn rfl
    obtain ⟨c, hc⟩ := (h.list.2 n).1 hn
    rw [ht] at hc
    cases hc
  refine ⟨⟨?_, fun n => ?_⟩, List.forall_mem_append.2 ⟨fun n hn => Nat.lt_succ_of_lt (h.fresh n hn),
    List.forall_mem_singleton.2 (Nat.lt_succ_self _)⟩, ?_, fun rest hr => ?_⟩
  · exact (List.perm_append_singleton _ s.waitList).nodup_iff.2
      (List.nodup_cons.2 ⟨hnew, h.list.1⟩)
  · by_cases hnt : n.task = t
    · rw [hnt, setTask_self, hx]
      constructor
      · intro hn
        rcases List.mem_append.1 hn with hn | hn
        · exact absurd hnt (hnone n hn)
        · rw [List.mem_singleton.1 hn]
          exact ⟨consume, rfl⟩
      · rintro ⟨c, hc⟩
        cases hc
        exact List.mem_append_right _ (List.mem_singleton_self _)
    · rw [setTask_of_ne _ x hnt]
      refine Iff.trans ⟨fun hn => ?_, List.mem_append_left _⟩ (h.list.2 n)
      rcases List.mem_append.1 hn with hn | hn
      · exact hn
      · rw [List.mem_singleton.1 hn] at hnt
        exact absurd rfl hnt
  · refine (Function.forall_update_iff s.task TaskOk).2 ⟨?_, fun u _ => h.task u⟩
    constructor
    · rintro n c hc
      rw [hx] at hc
      cases hc
      rfl
    · exact fun hnone => nomatch hx.symm.trans hnone
  · exact absurd (hfree.symm.trans hr) nofun

theorem Inv.flagPend (h : Inv s) (hfree : s.posting = none) (ht : (s.task t).call = none)
    (flags : Flags) (waitType timeout : Nat) : Inv (flagPend s t flags waitType timeout) := by
  simp only [Flag.flagPend]
  generalize decodeWaitType waitType = d
  generalize flagWait s.flags flags d.1 d.2 = r
  split
  · exact h.setFlags hfree _ _
  · exact (h.setFlags hfree r.2 s.returned).block hfree ht flags d.1 d.2 rfl

theorem wakeUp_call (s : Sys) (w : Nat) (p : PendState) (flagsRdy : Flags) (u : Nat) :
    ((wakeUp s w p flagsRdy).task u).call = (s.task u).call := by
  unfold wakeUp
  split
  · by_cases hu : u = w
    · subst hu
      rw [setTask_self]
    · rw [setTask_of_ne _ _ hu]
  · rfl

/-- The woken task waits no more, and nobody starts to. -/
theorem wakeUp_waiting {w : Nat} {p : PendState} {flagsRdy : Flags} {u : Nat}
    (h : Waiting (wakeUp s w p flagsRdy) u n) : u ≠ w ∧ Waiting s u n := by
  obtain ⟨⟨c, hc⟩, hstate⟩ := h
  rw [wakeUp_call] at hc
  unfold wakeUp at hstate
  split at hstate
  case isTrue =>
    by_cases hu : u = w
    · subst hu
      rw [setTask_self] at hstate
      cases hstate
    · rw [setTask_of_ne _ _ hu] at hstate
      exact ⟨hu, ⟨c, hc⟩, hstate⟩
  case isFalse hno =>
    refine ⟨?_, ⟨c, hc⟩, hstate⟩
    rintro rfl
    exact hno hstate

/-- A waiter is woken, by a post or by its timer: fewer tasks wait. -/
theorem Inv.wakeUp (h : Inv s) (w : Nat) (p : PendState) (flagsRdy : Flags) :
    Inv (wakeUp s w p flagsRdy) := by
  have hsame : (Flag.wakeUp s w p flagsRdy).waitList = s.waitList ∧
      (Flag.wakeUp s w p flagsRdy).nextId = s.nextId ∧
      (Flag.wakeUp s w p flagsRdy).flags = s.flags ∧
      (Flag.wakeUp s w p flagsRdy).posting = s.posting := by
    unfold Flag.wakeUp
    split <;> exact ⟨rfl, rfl, rfl, rfl⟩
  obtain ⟨hlist, hid, hflags, hpost⟩ := hsame
  refine ⟨⟨hlist ▸ h.list.1, fun n => ?_⟩, fun n hn => ?_, fun u => ?_, fun rest hr => ?_⟩
  · rw [hlist, wakeUp_call]
    exact h.list.2 n
  · rw [hid]
    exact h.fresh n (hlist ▸ hn)
  · refine ⟨fun n c hu => (h.task u).own n c (wakeUp_call s w p flagsRdy u ▸ hu), fun hu => ?_⟩
    rw [wakeUp_call] at hu
    have hrun := (h.task u).running hu
    unfold Flag.wakeUp
    split
    case isTrue hw =>
      have hne : u ≠ w := by
        rintro rfl
        rw [hrun] at hw
        cases hw
      rw [setTask_of_ne _ _ hne]
      exact hrun
    case isFalse => exact hrun
  · rw [hpost] at hr
    obtain ⟨⟨visited, hsplit, hready⟩, hgo⟩ := h.posting rest hr
    refine ⟨⟨visited, hlist.trans hsplit, fun n hn u hu => ?_⟩, hgo⟩
    rw [hflags]
    exact hready n hn u (wakeUp_waiting hu).2

/-- A wait that was not ended by a post: the node leaves the list. -/
theorem Inv.unlink (h : Inv s) (hfree : s.posting = none) {node : Node} {consume : Bool}
    (ht : (s.task t).call = some (node, consume)) (returned : List (Nat × Flags)) :
    Inv ({ s with
      waitList := s.waitList.erase node
      returned := returned }.setTask t (s.task t).leave) := by
  have hown : node.task = t := (h.task t).own node consume ht
  refine ⟨⟨h.list.1.erase node, fun n => ?_⟩, fun n hn => h.fresh n (List.mem_of_mem_erase hn),
    (Function.forall_update_iff s.task TaskOk).2 ⟨⟨nofun, fun _ => rfl⟩, fun u _ => h.task u⟩,
    fun rest hr => absurd (hfree.symm.trans hr) nofun⟩
  · refine (h.list.1.mem_erase_iff).trans ?_
    by_cases hnt : n.task = t
    · -- the only node of `t` was this one
      rw [hnt, setTask_self]
      refine ⟨fun ⟨hne, hmem⟩ => ?_, fun ⟨_, hc⟩ => (by cases hc)⟩
      obtain ⟨c, hc⟩ := (h.list.2 n).1 hmem
      rw [hnt, ht] at hc
      cases hc
      exact absurd rfl hne
    · rw [setTask_of_ne _ _ hnt]
      refine Iff.trans ⟨And.right, fun hmem => ⟨?_, hmem⟩⟩ (h.list.2 n)
      rintro rfl
      exact hnt hown

theorem Inv.setPosting (h : Inv s) {rest : List Node} (hv : Visited s rest) :
    Inv { s with posting := some rest } :=
  { h with posting := fun _ hr => by cases hr; exact ⟨hv.before, hv.goesOn⟩ }

/-- **One turn of the loop of `flag_post`.** -/
theorem Inv.visit (h : Inv s) {rest : List Node} (hpost : s.posting = some (n :: rest)) :
    Inv (visit s n rest) := by
  obtain ⟨⟨visited, hsplit, hready⟩, hgo⟩ := h.posting _ hpost
  -- only the last node can end the loop
  have hrest : (if n.waitType.goesOn then rest else []) = rest := by
    by_cases hg : n.waitType.goesOn = true
    · rw [if_pos hg]
    · rw [if_neg hg]
      cases rest with
      | nil => rfl
      | cons m rest => exact absurd (hgo n List.mem_cons_self) hg
  have hgo' : ∀ m ∈ rest.dropLast, m.waitType.goesOn = true := by
    intro m hm
    cases rest with
    | nil => cases hm
    | cons k rest => exact hgo m (List.mem_cons_of_mem n hm)
  -- a node that was passed is one of those before, or this one
  have hpassed : ∀ s' : Sys, Inv s' → s'.waitList = s.waitList → s'.flags = s.flags →
      (∀ u m, Waiting s' u m → Waiting s u m) →
      (∀ u, Waiting s' u n → n.ready s.flags = none) → Inv { s' with posting := some rest } := by
    intro s' hinv hlist hflags hwaits hn
    refine hinv.setPosting ⟨⟨visited ++ [n], ?_, fun m hm u hu => ?_⟩, hgo'⟩
    · rw [hlist, hsplit, List.append_assoc]
      rfl
    · rw [hflags]
      rcases List.mem_append.1 hm with hm | hm
      · exact hready m hm u (hwaits u m hu)
      · rw [List.mem_singleton.1 hm] at hu ⊢
        exact hn u hu
  simp only [Flag.visit, hrest]
  split
  case h_1 f hf =>
    have hsame : (Flag.wakeUp s n.task .ok f).waitList = s.waitList ∧
        (Flag.wakeUp s n.task .ok f).flags = s.flags := by
      unfold Flag.wakeUp
      split <;> exact ⟨rfl, rfl⟩
    refine hpassed _ (h.wakeUp n.task .ok f) hsame.1 hsame.2
      (fun u m hu => (wakeUp_waiting hu).2) fun u hu => ?_
    obtain ⟨hne, ⟨c, hc⟩, -⟩ := wakeUp_waiting hu
    exact absurd ((h.task u).own n c hc).symm hne
  case h_2 hnone => exact hpassed s h rfl rfl (fun _ _ hu => hu) fun _ _ => hnone

/-- **One step keeps the invariant.** -/
theorem Inv.step (h : Inv s) {e : Event} (hq : Quiet s e) {s' : Sys}
    (hs : flagStep s e = some s') : Inv s' := by
  cases e with
  | accept t flags waitType =>
    obtain ⟨⟨-, hfree⟩, ⟨⟩⟩ := Option.ite_none_right_eq_some.1 hs
    exact h.setFlags hfree _ _
  | pend t flags waitType timeout =>
    obtain ⟨⟨ht, hfree⟩, ⟨⟩⟩ := Option.ite_none_right_eq_some.1 hs
    exact h.flagPend hfree ht flags waitType timeout
  | timeout t =>
    obtain ⟨-, ⟨⟩⟩ := Option.ite_none_right_eq_some.1 hs
    exact h.wakeUp t .to 0
  | resume t =>
    simp only [flagStep] at hs
    split at hs
    case h_1 node consume ht =>
      obtain ⟨⟨-, hfree⟩, ⟨⟩⟩ := Option.ite_none_right_eq_some.1 hs
      rw [flagPendResume, if_pos (show (s.task t).pendState ≠ .ok from hq)]
      exact h.unlink hfree ht _
    case h_2 => cases hs
  | post flags opt =>
    simp only [flagStep] at hs
    split at hs
    · cases hs
      exact h
    · obtain ⟨hfree, ⟨⟩⟩ := Option.ite_none_right_eq_some.1 hs
      exact (h.setFlags hfree _ s.returned).setPosting ⟨⟨[], rfl, nofun⟩, hq⟩
  | postVisit =>
    simp only [flagStep] at hs
    split at hs
    case h_1 n rest hpost =>
      cases hs
      exact h.visit hpost
    case h_2 => cases hs
  | postEnd =>
    obtain ⟨-, ⟨⟩⟩ := Option.ite_none_right_eq_some.1 hs
    exact { h with posting := nofun }

theorem Inv.postOk (h : Inv s) (e : Event) : PostOk s e := by
  rintro s' rfl hs t n hw
  obtain ⟨hpost, ⟨⟩⟩ := Option.ite_none_right_eq_some.1 hs
  obtain ⟨⟨visited, hsplit, hready⟩, -⟩ := h.posting _ hpost
  rw [List.append_nil] at hsplit
  obtain ⟨⟨c, hc⟩, hstate⟩ := hw
  exact hready n (hsplit ▸ h.mem hc) t ⟨⟨c, hc⟩, hstate⟩

end Steps

/-- **Flag groups**: in every interleaving in which no `flag_pend` returns that
a post has woken and each post finds at most its last node of the type
`FLAG_WAIT_CLR_ANY`, the wait list holds the nodes of the tasks in
`flag_pend`, and after a `flag_post` nobody waits for what is the case. -/
theorem flag_group_ok (flags : Flags) (l : List Event)
    (hl : Along flagStep Quiet (flagInit flags) l) :
    (∀ pre, pre <+: l → ∀ s, run flagStep (flagInit flags) pre = some s → ListOk s) ∧
      Along flagStep PostOk (flagInit flags) l := by
  have hstep : ∀ s e s', Inv s → Quiet s e → flagStep s e = some s' → Inv s' :=
    fun s e s' h hq hs => h.step hq hs
  constructor
  · intro pre hpre s hs
    exact (run_invariant hstep (Inv.init flags) (along_of_pre hpre hl) hs).list
  · exact along_of_invariant hstep (fun s e h _ => h.postOk e) (Inv.init flags) hl

/-- Four waiters of the four types. The first post meets a waiter that has
just timed out, the second wakes one of the others. -/
def fourWaiters : List Event :=
  [.pend 1 1 2 5, .pend 2 2 3 0, .pend 3 8 0 7, .pend 4 4 1 0, .post 1 1, .timeout 1, .postVisit,
    .postVisit, .postVisit, .postVisit, .postEnd, .resume 1, .post 2 1, .postVisit, .timeout 3,
    .postVisit, .postVisit, .postEnd, .resume 3]

theorem flag_group_ok_fourWaiters :
    (run flagStep (flagInit 12) fourWaiters).map
      (fun s => (s.flags, s.waitList.map Node.task, s.returned))
        = some (15, [2, 4], [(1, 0), (3, 0)]) ∧
    (∀ pre, pre <+: fourWaiters → ∀ s, run flagStep (flagInit 12) pre = some s → ListOk s) ∧
      Along flagStep PostOk (flagInit 12) fourWaiters :=
  ⟨by decide +kernel, flag_group_ok 12 fourWaiters (by decide +kernel)⟩

/-- A `flag_pend` that a post has woken returns and leaves its node in the
list. And a post that finds a waiter of the type `FLAG_WAIT_CLR_ANY` returns
without looking at the next one, whose bit it has set. -/
theorem flag_group_broken :
    (∃ s, run flagStep (flagInit 0) [.pend 1 1 3 0, .post 1 1, .postVisit, .postEnd, .resume 1]
        = some s ∧ s.returned = [(1, 1)] ∧ (s.task 1).call = none ∧
        s.waitList.map Node.task = [1] ∧ ¬ ListOk s) ∧
      ¬ Along flagStep PostOk (flagInit 1) [.pend 1 1 1 0, .pend 2 2 3 0, .post 2 1, .postVisit,
        .postEnd] := by
  constructor
  · refine exists_found (P := fun s => s.returned = [(1, 1)] ∧ (s.task 1).call = none ∧
        s.waitList = [⟨0, 1, 1, .setAny⟩]) (fun s _ ⟨hret, hcall, hlist⟩ =>
      ⟨hret, hcall, by rw [hlist]; rfl, fun hok => ?_⟩) (by decide +kernel)
    obtain ⟨c, hc⟩ := (hok.2 ⟨0, 1, 1, .setAny⟩).1 (by rw [hlist]; exact List.mem_singleton_self _)
    rw [hcall] at hc
    cases hc
  · -- the state before the end of the post: task 2 still waits, and its bit is set
    rintro ⟨-, h⟩
    obtain ⟨-, h⟩ := h _ rfl
    obtain ⟨-, h⟩ := h _ rfl
    obtain ⟨-, h⟩ := h _ rfl
    have hnone := (h _ rfl).1 _ rfl rfl 2 ⟨1, 2, 2, .setAny⟩ ⟨⟨false, rfl⟩, rfl⟩
    revert hnone
    decide

end Minos.Flag
