import Minos.Lib.Run
import Mathlib.Data.List.Nodup
import Mathlib.Data.List.Perm.Basic
import Mathlib.Logic.Function.Basic

/-!
# Ready queues of one cpu

The scheduler of `core/sched.c` as one cpu sees it. A task is linked by its
`state_list` into at most one list: a ready list of the cpu, `new_list`,
where other cpus leave tasks for it, or `stop_list`, where the kworker
collects the dead. `list_insert_before` puts a task into whatever list the
other one is in, so the lists are one part of the state and every list
operation works on all of them.

Tasks run on the cpu of their `affinity` only; the tasks here are those of
this cpu. Steps of other cpus that reach this one (a task left on
`new_list`) are labels like the cpu's own steps. A failed `ASSERT` stops the
machine: the step is not taken.
-/

namespace Minos.Sched

open Minos.Lib

/-! ## State -/

inductive TaskState
  | running
  | ready
  | waitEvent
  | waking
  | suspend
  | stop
  deriving DecidableEq, Repr

def osPrioMax : Nat := 8
def osPrioIdle : Nat := 7
def osPrioDefault1 : Nat := 1

/-- The tasks of the cpu: their priorities, and the two the cpu comes with. Only
`create_idle_task` makes a task of the idle priority. -/
structure Tasks where
  prio : Nat → Nat
  kworker : Nat
  idle : Nat
  prio_lt : ∀ t, prio t < osPrioMax
  prio_kworker : prio kworker = osPrioDefault1
  prio_idle : ∀ t, prio t = osPrioIdle ↔ t = idle

/-- `struct pcpu`, and the `state` of every task. -/
structure Pcpu where
  ready : Nat → List Nat
  newList : List Nat
  stopList : List Nat
  localRdyGrp : BitVec 8
  tasksInPrio : Nat → Int
  current : Nat
  kworkerFlag : Bool
  state : Nat → TaskState

/-- `ffs_one_table` of `core/bitmap.c`. -/
def ffsOneTable : List Int :=
  [-1, 0, 1, 0, 2, 0, 1, 0, 3, 0, 1, 0, 2, 0, 1, 0,
    4, 0, 1, 0, 2, 0, 1, 0, 3, 0, 1, 0, 2, 0, 1, 0,
    5, 0, 1, 0, 2, 0, 1, 0, 3, 0, 1, 0, 2, 0, 1, 0,
    4, 0, 1, 0, 2, 0, 1, 0, 3, 0, 1, 0, 2, 0, 1, 0,
    6, 0, 1, 0, 2, 0, 1, 0, 3, 0, 1, 0, 2, 0, 1, 0,
    4, 0, 1, 0, 2, 0, 1, 0, 3, 0, 1, 0, 2, 0, 1, 0,
    5, 0, 1, 0, 2, 0, 1, 0, 3, 0, 1, 0, 2, 0, 1, 0,
    4, 0, 1, 0, 2, 0, 1, 0, 3, 0, 1, 0, 2, 0, 1, 0,
    7, 0, 1, 0, 2, 0, 1, 0, 3, 0, 1, 0, 2, 0, 1, 0,
    4, 0, 1, 0, 2, 0, 1, 0, 3, 0, 1, 0, 2, 0, 1, 0,
    5, 0, 1, 0, 2, 0, 1, 0, 3, 0, 1, 0, 2, 0, 1, 0,
    4, 0, 1, 0, 2, 0, 1, 0, 3, 0, 1, 0, 2, 0, 1, 0,
    6, 0, 1, 0, 2, 0, 1, 0, 3, 0, 1, 0, 2, 0, 1, 0,
    4, 0, 1, 0, 2, 0, 1, 0, 3, 0, 1, 0, 2, 0, 1, 0,
    5, 0, 1, 0, 2, 0, 1, 0, 3, 0, 1, 0, 2, 0, 1, 0,
    4, 0, 1, 0, 2, 0, 1, 0, 3, 0, 1, 0, 2, 0, 1, 0]

/-! ## Lists -/

/-- `task->state_list.next != NULL`: the task is in some list. -/
def Pcpu.Linked (s : Pcpu) (t : Nat) : Prop :=
  (∃ p, p < osPrioMax ∧ t ∈ s.ready p) ∨ t ∈ s.newList ∨ t ∈ s.stopList

instance (s : Pcpu) (t : Nat) : Decidable (s.Linked t) :=
  inferInstanceAs (Decidable (_ ∨ _))

/-- `list_del(&task->state_list)`. -/
def Pcpu.listDel (s : Pcpu) (t : Nat) : Pcpu :=
  { s with
    ready := fun p => (s.ready p).erase t
    newList := s.newList.erase t
    stopList := s.stopList.erase t }

def insertBefore (head t : Nat) : List Nat → List Nat
  | [] => []
  | x :: l => if x = head then t :: x :: l else x :: insertBefore head t l

/-- `list_insert_before(&head->state_list, &task->state_list)`. -/
def Pcpu.listInsertBefore (s : Pcpu) (head t : Nat) : Pcpu :=
  { s with
    ready := fun p => insertBefore head t (s.ready p)
    newList := insertBefore head t s.newList
    stopList := insertBefore head t s.stopList }

/-- `list_add_tail(&pcpu->ready_list[p], &task->state_list)`. -/
def Pcpu.listAddTail (s : Pcpu) (p t : Nat) : Pcpu :=
  { s with ready := Function.update s.ready p (s.ready p ++ [t]) }

def Pcpu.setState (s : Pcpu) (t : Nat) (st : TaskState) : Pcpu :=
  { s with state := Function.update s.state t st }

/-! ## The scheduler -/

/-- `add_task_to_ready_list`, without the timer. A `current` that is in no
list has a `NULL` link, which `list_insert_before` follows. -/
def addTaskToReadyList (T : Tasks) (s : Pcpu) (t : Nat) : Option Pcpu :=
  if s.Linked t then none
  else
    let p := T.prio t
    let s := { s with
      tasksInPrio := Function.update s.tasksInPrio p (s.tasksInPrio p + 1) }
    let linked :=
      if T.prio s.current = p then
        if s.Linked s.current then some (s.listInsertBefore s.current t) else none
      else some (s.listAddTail p t)
    linked.map fun s => { s with localRdyGrp := s.localRdyGrp ||| BitVec.twoPow 8 p }

/-- `remove_task_from_ready_list`, without the timer. -/
def removeTaskFromReadyList (T : Tasks) (s : Pcpu) (t : Nat) : Option Pcpu :=
  if s.Linked t then
    let p := T.prio t
    let s := s.listDel t
    some { s with
      localRdyGrp :=
        if s.ready p = [] then s.localRdyGrp &&& ~~~ BitVec.twoPow 8 p
        else s.localRdyGrp
      tasksInPrio := Function.update s.tasksInPrio p (s.tasksInPrio p - 1) }
  else none

/-- `wake_up_common` on the task's own cpu. -/
def wakeUpCommon (T : Tasks) (s : Pcpu) (t : Nat) : Option Pcpu :=
  if s.state t ≠ .waitEvent then some s
  else addTaskToReadyList T (s.setState t .waking) t

/-- `wake_up_interrupted`: an interrupt wakes the task it interrupted. -/
def wakeUpInterrupted (s : Pcpu) : Pcpu :=
  if s.state s.current ≠ .waitEvent then s else s.setState s.current .running

/-- `flag_set(&pcpu->kworker_flag, KWORKER_TASK_RECYCLE)`: the kworker is the
only waiter. -/
def flagSet (T : Tasks) (s : Pcpu) : Option Pcpu :=
  wakeUpCommon T { s with kworkerFlag := true } T.kworker

/-- The first half of `pick_next_task`: `current` leaves the ready list when
it does not run on. -/
def dequeueCurrent (T : Tasks) (s : Pcpu) : Option Pcpu :=
  if s.state s.current = .running then some s
  else
    (removeTaskFromReadyList T s s.current).bind fun s =>
      if s.state s.current = .stop then
        flagSet T { s with stopList := s.stopList ++ [s.current] }
      else some s

/-- The second half: the first task of the highest priority moves to the end
of its list. -/
def pickFirst (s : Pcpu) : Option (Nat × Pcpu) :=
  let prio := ffsOneTable.getD s.localRdyGrp.toNat 0
  if prio = -1 then none
  else
    match s.ready prio.toNat with
    | [] => none
    | t :: _ => some (t, (s.listDel t).listAddTail prio.toNat t)

/-- `pick_next_task`: `none` when one of its `ASSERT`s fails. -/
def pickNextTask (T : Tasks) (s : Pcpu) : Option (Nat × Pcpu) :=
  if s.state s.current = .ready then none
  else (dequeueCurrent T s).bind pickFirst

/-- `switch_to_task`. -/
def switchToTask (s : Pcpu) (next : Nat) : Pcpu :=
  let s :=
    if s.state s.current = .running then s.setState s.current .ready else s
  { s.setState next .running with current := next }

/-- `__exception_return_handler` when a reschedule is due. -/
def reschedule (T : Tasks) (s : Pcpu) : Option Pcpu :=
  (pickNextTask T s).map fun r =>
    if r.1 = s.current then r.2 else switchToTask r.2 r.1

/-- One turn of the loop of `irqwork_handler`. -/
def irqworkTask (T : Tasks) (s : Pcpu) (t : Nat) : Option Pcpu :=
  let s := s.listDel t
  if s.state t = .running then some s
  else (addTaskToReadyList T s t).map fun s => s.setState t .ready

/-- `irqwork_handler`. -/
def irqworkHandler (T : Tasks) (s : Pcpu) : Option Pcpu :=
  s.newList.foldlM (irqworkTask T) s

/-! ## Steps -/

inductive Event
  /-- `task_ready` of a suspended task, on this cpu -/
  | ready (t : Nat)
  /-- the same on another cpu -/
  | remoteReady (t : Nat)
  /-- `__wake_up` on this cpu, or the task's timer -/
  | wake (t : Nat)
  /-- `__wake_up` on another cpu -/
  | remoteWake (t : Nat)
  | irqwork
  /-- the running task waits for an event or sleeps -/
  | wait
  /-- the running task suspends itself -/
  | suspend
  /-- the running task exits -/
  | exit
  /-- the kworker looks at its flag: it collects the dead, or waits -/
  | kworkerRun
  | resched
  deriving DecidableEq, Repr

/-- `smp_percpu_task_ready`, as another cpu runs it. -/
def smpPercpuTaskReady (s : Pcpu) (t : Nat) : Option Pcpu :=
  if s.Linked t then none else some { s with newList := s.newList ++ [t] }

def schedStep (T : Tasks) (s : Pcpu) : Event → Option Pcpu
  | .ready t => if s.state t = .suspend then addTaskToReadyList T s t else none
  | .remoteReady t => if s.state t = .suspend then smpPercpuTaskReady s t else none
  | .wake t => if t = s.current then some (wakeUpInterrupted s) else wakeUpCommon T s t
  | .remoteWake t =>
    if s.state t ≠ .waitEvent then some s
    -- spins until the task has been switched out
    else if t = s.current then none
    else smpPercpuTaskReady (s.setState t .waking) t
  | .irqwork => irqworkHandler T s
  | .wait =>
    if s.state s.current = .running ∧ s.current ≠ T.idle ∧ s.current ≠ T.kworker then
      some (s.setState s.current .waitEvent)
    else none
  | .suspend =>
    if s.state s.current = .running ∧ s.current ≠ T.idle ∧ s.current ≠ T.kworker then
      some (s.setState s.current .suspend)
    else none
  | .exit =>
    if s.state s.current = .running ∧ s.current ≠ T.idle ∧ s.current ≠ T.kworker then
      some (s.setState s.current .stop)
    else none
  | .kworkerRun =>
    if s.current = T.kworker ∧ s.state s.current = .running then
      if s.kworkerFlag then some { s with kworkerFlag := false, stopList := [] }
      else some (s.setState s.current .waitEvent)
    else none
  | .resched => reschedule T s

/-! ## The abstract scheduler

A set of runnable tasks, and what each step does to it. It looks at the
states of tasks and at who left what on `new_list`, not at the ready
lists. -/

def runnableAfter (T : Tasks) (s : Pcpu) (R : Nat → Prop) : Event → Nat → Prop
  | .ready t => fun u => u = t ∨ R u
  | .wake t => fun u => (u = t ∧ t ≠ s.current ∧ s.state t = .waitEvent) ∨ R u
  | .irqwork => fun u => u ∈ s.newList ∨ R u
  | .resched => fun u =>
    (R u ∧ ¬ (u = s.current ∧ s.state u ≠ .running)) ∨
      (u = T.kworker ∧ s.state s.current = .stop ∧ s.state u = .waitEvent)
  | _ => R

/-- The cpu and the abstract set side by side. -/
structure Sys where
  pcpu : Pcpu
  runnable : Nat → Prop

def sysStep (T : Tasks) (x : Sys) (e : Event) : Option Sys :=
  (schedStep T x.pcpu e).map fun s => ⟨s, runnableAfter T x.pcpu x.runnable e⟩

/-- The ready lists say what is runnable. -/
structure QueuesOk (T : Tasks) (x : Sys) : Prop where
  mem : ∀ p t, t ∈ x.pcpu.ready p ↔ x.runnable t ∧ T.prio t = p
  nodup : ∀ p, (x.pcpu.ready p).Nodup
  grp : ∀ p, p < osPrioMax →
    (x.pcpu.localRdyGrp.getLsbD p = true ↔ x.pcpu.ready p ≠ [])
  count : ∀ p, p < osPrioMax → p ≠ osPrioIdle →
    x.pcpu.tasksInPrio p = (x.pcpu.ready p).length

/-- No `ASSERT` of `pick_next_task` and the functions it calls fires. -/
def AssertsOk (T : Tasks) (x : Sys) (e : Event) : Prop :=
  e = .resched → pickNextTask T x.pcpu ≠ none

/-- The cpu does not leave a task that exits with the kworker's priority
while the kworker waits. -/
def ExitOk (T : Tasks) (x : Sys) (e : Event) : Prop :=
  e = .resched → x.pcpu.state x.pcpu.current = .stop →
    ¬ (T.prio x.pcpu.current = T.prio T.kworker ∧
      x.pcpu.state T.kworker = .waitEvent)

instance (T : Tasks) (x : Sys) (e : Event) : Decidable (ExitOk T x e) :=
  inferInstanceAs (Decidable (_ → _ → ¬ _))

/-- The cpu after `create_idle_task`: every other task is suspended. -/
def pcpuInit (T : Tasks) : Sys where
  pcpu :=
    { ready := fun p => if p = osPrioIdle then [T.idle] else []
      newList := []
      stopList := []
      localRdyGrp := BitVec.twoPow 8 osPrioIdle
      tasksInPrio := fun _ => 0
      current := T.idle
      kworkerFlag := false
      state := fun t => if t = T.idle then .running else .suspend }
  runnable := fun t => t = T.idle

/-! ## Lists under `list_insert_before` -/

theorem insertBefore_of_notMem {head t : Nat} {l : List Nat} (h : head ∉ l) :
    insertBefore head t l = l := by
  induction l with
  | nil => rfl
  | cons x l ih =>
    rw [List.mem_cons, not_or] at h
    obtain ⟨hx, hl⟩ := h
    rw [insertBefore, if_neg (Ne.symm hx), ih hl]

theorem insertBefore_perm {head t : Nat} {l : List Nat} (h : head ∈ l) :
    (insertBefore head t l).Perm (t :: l) := by
  induction l with
  | nil => simp at h
  | cons x l ih =>
    rw [insertBefore]
    split
    · exact List.Perm.refl _
    · rename_i hx
      have hl : head ∈ l := by
        rcases List.mem_cons.mp h with rfl | hl
        · exact absurd rfl hx
        · exact hl
      exact ((ih hl).cons x).trans (List.Perm.swap t x l)

/-! ## Queue operations

Each keeps `QueuesOk` for the set it should leave, and touches nothing but the
queues. -/

/-- Everything but the ready queues is the same. -/
structure SameTasks (s s' : Pcpu) : Prop where
  newList : s'.newList = s.newList
  stopList : s'.stopList = s.stopList
  current : s'.current = s.current
  state : s'.state = s.state

/-- The task is in no list but, maybe, a ready list. -/
def Pcpu.OffSideLists (s : Pcpu) (t : Nat) : Prop :=
  t ∉ s.newList ∧ t ∉ s.stopList

variable {T : Tasks} {s s' : Pcpu} {R : Nat → Prop} {t : Nat}

theorem QueuesOk.congr (h : QueuesOk T ⟨s, R⟩) {R' : Nat → Prop}
    (hready : s'.ready = s.ready) (hgrp : s'.localRdyGrp = s.localRdyGrp)
    (hcount : s'.tasksInPrio = s.tasksInPrio) (hR : ∀ u, R' u ↔ R u) :
    QueuesOk T ⟨s', R'⟩ where
  mem p u := by
    rw [show (Sys.mk s' R').pcpu.ready = s.ready from hready, h.mem p u]
    exact and_congr_left fun _ => (hR u).symm
  nodup p := by
    rw [show (Sys.mk s' R').pcpu.ready = s.ready from hready]
    exact h.nodup p
  grp p hp := by
    rw [show (Sys.mk s' R').pcpu.ready = s.ready from hready,
      show (Sys.mk s' R').pcpu.localRdyGrp = s.localRdyGrp from hgrp]
    exact h.grp p hp
  count p hp hidle := by
    rw [show (Sys.mk s' R').pcpu.ready = s.ready from hready,
      show (Sys.mk s' R').pcpu.tasksInPrio = s.tasksInPrio from hcount]
    exact h.count p hp hidle

theorem QueuesOk.linked (h : QueuesOk T ⟨s, R⟩) (ht : R t) : s.Linked t :=
  .inl ⟨T.prio t, T.prio_lt t, (h.mem _ t).mpr ⟨ht, rfl⟩⟩

theorem QueuesOk.not_linked (h : QueuesOk T ⟨s, R⟩) (ht : ¬ R t)
    (hoff : s.OffSideLists t) : ¬ s.Linked t := by
  rintro (⟨p, -, hp⟩ | hnew | hstop)
  · exact ht ((h.mem p t).mp hp).1
  · exact hoff.1 hnew
  · exact hoff.2 hstop

theorem QueuesOk.not_runnable (h : QueuesOk T ⟨s, R⟩) (hfree : ¬ s.Linked t) :
    ¬ R t := fun ht => hfree (h.linked ht)

/-- A task joins the list of its priority, wherever in it. -/
theorem QueuesOk.insert (h : QueuesOk T ⟨s, R⟩) (ht : ¬ R t)
    (hself : (s'.ready (T.prio t)).Perm (t :: s.ready (T.prio t)))
    (hother : ∀ p, p ≠ T.prio t → s'.ready p = s.ready p)
    (hgrp : s'.localRdyGrp = s.localRdyGrp ||| BitVec.twoPow 8 (T.prio t))
    (hcount : s'.tasksInPrio =
      Function.update s.tasksInPrio (T.prio t) (s.tasksInPrio (T.prio t) + 1)) :
    QueuesOk T ⟨s', fun u => u = t ∨ R u⟩ where
  mem p u := by
    by_cases hp : p = T.prio t
    · subst hp
      rw [hself.mem_iff, List.mem_cons, h.mem _ u]
      constructor
      · rintro (rfl | ⟨hu, hprio⟩)
        · exact ⟨.inl rfl, rfl⟩
        · exact ⟨.inr hu, hprio⟩
      · rintro ⟨rfl | hu, hprio⟩
        · exact .inl rfl
        · exact .inr ⟨hu, hprio⟩
    · rw [show (Sys.mk s' fun u => u = t ∨ R u).pcpu.ready p = s.ready p from hother p hp,
        h.mem p u]
      constructor
      · rintro ⟨hu, hprio⟩
        exact ⟨.inr hu, hprio⟩
      · rintro ⟨rfl | hu, hprio⟩
        · exact absurd hprio.symm hp
        · exact ⟨hu, hprio⟩
  nodup p := by
    by_cases hp : p = T.prio t
    · subst hp
      rw [hself.nodup_iff, List.nodup_cons]
      exact ⟨fun hm => ht ((h.mem _ t).mp hm).1, h.nodup _⟩
    · rw [show (Sys.mk s' fun u => u = t ∨ R u).pcpu.ready p = s.ready p from hother p hp]
      exact h.nodup p
  grp p hlt := by
    have hlt8 : p < 8 := hlt
    have hbit : s'.localRdyGrp.getLsbD p =
        (s.localRdyGrp.getLsbD p || decide (T.prio t = p)) := by
      rw [hgrp, BitVec.getLsbD_or, BitVec.getLsbD_twoPow]
      simp [show T.prio t < 8 from T.prio_lt t]
    show s'.localRdyGrp.getLsbD p = true ↔ s'.ready p ≠ []
    by_cases hp : p = T.prio t
    · subst hp
      rw [hbit]
      have hne : s'.ready (T.prio t) ≠ [] := by
        intro hnil
        rw [hnil] at hself
        exact List.cons_ne_nil _ _ hself.nil_eq.symm
      simp [hne]
    · rw [hbit, hother p hp, decide_eq_false (Ne.symm hp), Bool.or_false]
      exact h.grp p hlt
  count p hlt hidle := by
    show s'.tasksInPrio p = (s'.ready p).length
    rw [hcount]
    by_cases hp : p = T.prio t
    · subst hp
      rw [Function.update_self, hself.length_eq, List.length_cons]
      have := h.count _ hlt hidle
      simp only at this
      omega
    · rw [Function.update_of_ne hp, hother p hp]
      exact h.count p hlt hidle

/-- `add_task_to_ready_list` of a task that is in no list. A `current` of the
same priority must be in the ready list, and nowhere else. -/
theorem addTaskToReadyList_ok (h : QueuesOk T ⟨s, R⟩) (hfree : ¬ s.Linked t)
    (hcur : T.prio s.current = T.prio t → R s.current ∧ s.OffSideLists s.current) :
    ∃ s', addTaskToReadyList T s t = some s' ∧
      QueuesOk T ⟨s', fun u => u = t ∨ R u⟩ ∧ SameTasks s s' := by
  have ht := h.not_runnable hfree
  rw [addTaskToReadyList, if_neg hfree]
  by_cases hprio : T.prio s.current = T.prio t
  · obtain ⟨hRcur, hnew, hstop⟩ := hcur hprio
    have hmem : s.current ∈ s.ready (T.prio t) := (h.mem _ _).mpr ⟨hRcur, hprio⟩
    simp only [hprio, ↓reduceIte]
    have hlinked : Pcpu.Linked { s with
        tasksInPrio := Function.update s.tasksInPrio (T.prio t)
          (s.tasksInPrio (T.prio t) + 1) } s.current :=
      .inl ⟨T.prio t, T.prio_lt t, hmem⟩
    rw [if_pos hlinked]
    refine ⟨_, rfl, h.insert ht (insertBefore_perm hmem) ?_ rfl rfl, ?_⟩
    · intro p hp
      refine insertBefore_of_notMem fun hm => hp ?_
      rw [← hprio]
      exact ((h.mem p _).mp hm).2.symm
    · exact ⟨insertBefore_of_notMem hnew, insertBefore_of_notMem hstop, rfl, rfl⟩
  · simp only [hprio, ↓reduceIte]
    refine ⟨_, rfl, h.insert ht ?_ ?_ rfl rfl, ⟨rfl, rfl, rfl, rfl⟩⟩
    · simp only [Pcpu.listAddTail, Function.update_self]
      exact List.perm_append_singleton t _
    · intro p hp
      simp only [Pcpu.listAddTail, Function.update_of_ne hp]

/-- `remove_task_from_ready_list` of a runnable task. -/
theorem removeTaskFromReadyList_ok (h : QueuesOk T ⟨s, R⟩) (ht : R t)
    (hoff : s.OffSideLists t) :
    ∃ s', removeTaskFromReadyList T s t = some s' ∧
      QueuesOk T ⟨s', fun u => R u ∧ u ≠ t⟩ ∧ SameTasks s s' := by
  have hmem : t ∈ s.ready (T.prio t) := (h.mem _ t).mpr ⟨ht, rfl⟩
  have hother : ∀ p, p ≠ T.prio t → (s.ready p).erase t = s.ready p := by
    intro p hp
    exact List.erase_of_not_mem fun hm => hp ((h.mem p t).mp hm).2.symm
  rw [removeTaskFromReadyList, if_pos (h.linked ht)]
  refine ⟨_, rfl, ⟨?_, ?_, ?_, ?_⟩, ⟨List.erase_of_not_mem hoff.1,
    List.erase_of_not_mem hoff.2, rfl, rfl⟩⟩
  · intro p u
    show u ∈ (s.ready p).erase t ↔ _
    rw [(h.nodup p).mem_erase_iff, h.mem p u]
    exact ⟨fun ⟨hne, hu, hp⟩ => ⟨⟨hu, hne⟩, hp⟩, fun ⟨⟨hu, hne⟩, hp⟩ => ⟨hne, hu, hp⟩⟩
  · intro p
    exact (h.nodup p).erase t
  · intro p hlt
    have hlt8 : p < 8 := hlt
    show (if (s.ready (T.prio t)).erase t = [] then _ else _ : BitVec 8).getLsbD p = true ↔
      (s.ready p).erase t ≠ []
    by_cases hp : p = T.prio t
    · subst hp
      split
      · rename_i hnil
        simp [Pcpu.listDel, hlt8, hnil]
      · rename_i hne
        have hset := (h.grp _ hlt).mpr (List.ne_nil_of_mem hmem)
        simp only [Pcpu.listDel]
        exact ⟨fun _ => hne, fun _ => hset⟩
    · rw [hother p hp, ← h.grp p hlt]
      split
      · have hbit : (BitVec.twoPow 8 (T.prio t)).getLsbD p = false := by
          rw [BitVec.getLsbD_twoPow, decide_eq_false (Ne.symm hp), Bool.and_false]
        simp only [Pcpu.listDel, BitVec.getLsbD_and, BitVec.getLsbD_not, hbit, hlt8,
          decide_true, Bool.not_false, Bool.and_self, Bool.and_true]
      · exact Iff.rfl
  · intro p hlt hidle
    show Function.update s.tasksInPrio (T.prio t) (s.tasksInPrio (T.prio t) - 1) p =
      ((s.ready p).erase t).length
    have hcount := h.count p hlt hidle
    simp only at hcount
    by_cases hp : p = T.prio t
    · subst hp
      have hpos := List.length_pos_of_mem hmem
      rw [Function.update_self, List.length_erase_of_mem hmem]
      omega
    · rw [Function.update_of_ne hp, hother p hp]
      exact hcount

theorem ffsOneTable_spec : ∀ n : Fin 256, n.1 ≠ 0 →
    0 ≤ ffsOneTable.getD n.1 0 ∧ (ffsOneTable.getD n.1 0).toNat < osPrioMax ∧
      n.1.testBit (ffsOneTable.getD n.1 0).toNat = true := by
  decide +kernel

/-- Moving the first task of a list to its end changes no list as a set. -/
theorem QueuesOk.rotate (h : QueuesOk T ⟨s, R⟩) {p : Nat} (ht : t ∈ s.ready p) :
    QueuesOk T ⟨(s.listDel t).listAddTail p t, R⟩ := by
  obtain ⟨hR, hprio⟩ := (h.mem p t).mp ht
  have hself : (((s.listDel t).listAddTail p t).ready p).Perm (s.ready p) := by
    simp only [Pcpu.listAddTail, Pcpu.listDel, Function.update_self]
    exact (List.perm_append_singleton t _).trans (List.perm_cons_erase ht).symm
  have hother : ∀ q, q ≠ p → ((s.listDel t).listAddTail p t).ready q = s.ready q := by
    intro q hq
    simp only [Pcpu.listAddTail, Pcpu.listDel, Function.update_of_ne hq]
    exact List.erase_of_not_mem fun hm => hq (((h.mem q t).mp hm).2.symm.trans hprio)
  have hperm : ∀ q, (((s.listDel t).listAddTail p t).ready q).Perm (s.ready q) := by
    intro q
    by_cases hq : q = p
    · subst hq
      exact hself
    · rw [hother q hq]
  refine ⟨fun q u => ?_, fun q => ?_, fun q hq => ?_, fun q hq hidle => ?_⟩
  · rw [(hperm q).mem_iff]
    exact h.mem q u
  · rw [(hperm q).nodup_iff]
    exact h.nodup q
  · refine (h.grp q hq).trans (not_congr ?_)
    rw [← List.length_eq_zero_iff, ← List.length_eq_zero_iff, (hperm q).length_eq]
  · rw [(hperm q).length_eq]
    exact h.count q hq hidle

/-- With something to run, `pick_next_task` finds it. -/
theorem pickFirst_ok (h : QueuesOk T ⟨s, R⟩) (hne : ∃ t, R t)
    (hoff : ∀ t, R t → s.OffSideLists t) :
    ∃ t s', pickFirst s = some (t, s') ∧ R t ∧ QueuesOk T ⟨s', R⟩ ∧ SameTasks s s' := by
  obtain ⟨u, hu⟩ := hne
  have hbit : s.localRdyGrp.getLsbD (T.prio u) = true :=
    (h.grp _ (T.prio_lt u)).mpr (List.ne_nil_of_mem ((h.mem _ u).mpr ⟨hu, rfl⟩))
  have hnz : s.localRdyGrp.toNat ≠ 0 := by
    intro hz
    rw [BitVec.getLsbD, hz, Nat.zero_testBit] at hbit
    exact Bool.false_ne_true hbit
  obtain ⟨hpos, hlt, hset⟩ := ffsOneTable_spec ⟨s.localRdyGrp.toNat, s.localRdyGrp.isLt⟩ hnz
  simp only at hpos hlt hset
  rw [pickFirst]
  generalize ffsOneTable.getD s.localRdyGrp.toNat 0 = prio at hpos hlt hset ⊢
  have hlist : s.ready prio.toNat ≠ [] := (h.grp _ hlt).mp hset
  rw [if_neg (by omega)]
  obtain ⟨t, rest, ht⟩ := List.exists_cons_of_ne_nil hlist
  have hmem : t ∈ s.ready prio.toNat := by
    rw [ht]
    exact List.mem_cons_self
  obtain ⟨hR, -⟩ := (h.mem _ t).mp hmem
  rw [ht]
  exact ⟨t, _, rfl, hR, h.rotate hmem, List.erase_of_not_mem (hoff t hR).1,
    List.erase_of_not_mem (hoff t hR).2, rfl, rfl⟩

/-! ## The invariant

`SchedBase` is what holds even half way through `pick_next_task`; `SchedInv`
is the invariant between steps, and `Dequeued` what holds once `current` has
left its list. -/

/-- What holds of the task `u` in the state `st` while `c` is `current`. -/
structure StateOk (T : Tasks) (c u : Nat) (st : TaskState) : Prop where
  current : u = c → st ≠ .ready
  running : st = .running → u = c
  idle : u = T.idle → st = .running ∨ st = .ready
  kworker : u = T.kworker → st ≠ .stop

structure SchedBase (T : Tasks) (x : Sys) : Prop extends QueuesOk T x where
  idle : x.runnable T.idle
  newNodup : x.pcpu.newList.Nodup
  newFree : ∀ t ∈ x.pcpu.newList, ¬ x.runnable t
  stopFree : ∀ t ∈ x.pcpu.stopList, ¬ x.runnable t
  newStop : ∀ t ∈ x.pcpu.newList, t ∉ x.pcpu.stopList
  state : ∀ t, StateOk T x.pcpu.current t (x.pcpu.state t)

structure SchedInv (T : Tasks) (x : Sys) : Prop extends SchedBase T x where
  current : x.runnable x.pcpu.current
  waiting : ∀ t, x.pcpu.state t = .waitEvent → t ≠ x.pcpu.current →
    ¬ x.runnable t ∧ x.pcpu.OffSideLists t

structure Dequeued (T : Tasks) (x : Sys) : Prop extends SchedBase T x where
  leaving : x.runnable x.pcpu.current → x.pcpu.state x.pcpu.current = .running
  waiting : ∀ t, x.pcpu.state t = .waitEvent →
    ¬ x.runnable t ∧ x.pcpu.OffSideLists t

theorem SchedBase.currentState (h : SchedBase T ⟨s, R⟩) : s.state s.current ≠ .ready :=
  (h.state _).current rfl

theorem SchedBase.offSideLists (h : SchedBase T ⟨s, R⟩) (ht : R t) : s.OffSideLists t :=
  ⟨fun hm => h.newFree t hm ht, fun hm => h.stopFree t hm ht⟩

/-- The idle task never waits. -/
theorem SchedBase.ne_idle_of_waiting (h : SchedBase T ⟨s, R⟩)
    (hwait : s.state t = .waitEvent) : t ≠ T.idle := by
  intro ht
  have hi := (h.state t).idle ht
  rw [show (Sys.mk s R).pcpu.state t = .waitEvent from hwait] at hi
  exact absurd hi (by decide)

/-- A task's state may change as long as only `current` runs or waits while in
a list, and the two system tasks keep out of the states they never have. -/
theorem SchedBase.setState (h : SchedBase T ⟨s, R⟩) {st : TaskState}
    (hready : st = .ready → t ≠ s.current) (hrunning : st = .running → t = s.current)
    (hidle : t = T.idle → st = .running ∨ st = .ready)
    (hkworker : t = T.kworker → st ≠ .stop) :
    SchedBase T ⟨s.setState t st, R⟩ :=
  { h with
    toQueuesOk := h.toQueuesOk.congr rfl rfl rfl fun _ => Iff.rfl
    state := by
      refine (Function.forall_update_iff s.state fun u x => StateOk T s.current u x).2 ?_
      exact ⟨⟨fun hc hst => hready hst hc, hrunning, hidle, hkworker⟩, fun u _ => h.state u⟩ }

/-- Only the ready lists changed, and what counts as runnable: the queues are in order, the idle
task is runnable, and what is runnable is in no side list. -/
theorem SchedBase.of_sameTasks {R' : Nat → Prop} (h : SchedBase T ⟨s, R⟩) (hsame : SameTasks s s')
    (hq : QueuesOk T ⟨s', R'⟩) (hidle : R' T.idle) (hnewFree : ∀ u ∈ s.newList, ¬ R' u)
    (hstopFree : ∀ u ∈ s.stopList, ¬ R' u) : SchedBase T ⟨s', R'⟩ := by
  obtain ⟨hnew, hstop, hcurrent, hstate⟩ := hsame
  refine ⟨hq, hidle, ?_, ?_, ?_, ?_, ?_⟩
  · simpa only [hnew] using h.newNodup
  · simpa only [hnew] using hnewFree
  · simpa only [hstop] using hstopFree
  · simpa only [hnew, hstop] using h.newStop
  · simpa only [hcurrent, hstate] using h.state

/-- `add_task_to_ready_list` inside a step. -/
theorem SchedBase.enqueue (h : SchedBase T ⟨s, R⟩) (hfree : ¬ s.Linked t)
    (hcur : T.prio s.current = T.prio t → R s.current) :
    ∃ s', addTaskToReadyList T s t = some s' ∧
      SchedBase T ⟨s', fun u => u = t ∨ R u⟩ ∧ SameTasks s s' := by
  obtain ⟨s', hs', hq, hsame⟩ := addTaskToReadyList_ok h.toQueuesOk hfree
    fun hp => ⟨hcur hp, h.offSideLists (hcur hp)⟩
  refine ⟨s', hs', h.of_sameTasks hsame hq (.inr h.idle) ?_ ?_, hsame⟩
  · rintro u hu (rfl | hR)
    · exact hfree (.inr (.inl hu))
    · exact h.newFree u hu hR
  · rintro u hu (rfl | hR)
    · exact hfree (.inr (.inr hu))
    · exact h.stopFree u hu hR

/-- The same between steps; the new task must not be waiting any more. -/
theorem SchedInv.enqueue (h : SchedInv T ⟨s, R⟩) (hfree : ¬ s.Linked t)
    (hst : s.state t ≠ .waitEvent) :
    ∃ s', addTaskToReadyList T s t = some s' ∧
      SchedInv T ⟨s', fun u => u = t ∨ R u⟩ ∧ SameTasks s s' := by
  obtain ⟨s', hs', hbase, hsame⟩ := h.toSchedBase.enqueue hfree fun _ => h.current
  obtain ⟨hnew, hstop, hcurrent, hstate⟩ := hsame
  refine ⟨s', hs', { toSchedBase := hbase, current := ?_, waiting := ?_ },
    ⟨hnew, hstop, hcurrent, hstate⟩⟩
  · simp only [hcurrent]
    exact .inr h.current
  · simp only [Pcpu.OffSideLists, hcurrent, hstate, hnew, hstop]
    intro u hu hne
    obtain ⟨hR, hoff⟩ := h.waiting u hu hne
    refine ⟨?_, hoff⟩
    rintro (rfl | hR')
    · exact hst hu
    · exact hR hR'

theorem not_linked_of_addTask (h : addTaskToReadyList T s t = some s') : ¬ s.Linked t := by
  intro hl
  rw [addTaskToReadyList, if_pos hl] at h
  cases h

theorem SchedInv.setState (h : SchedInv T ⟨s, R⟩) {st : TaskState}
    (hready : st = .ready → t ≠ s.current) (hrunning : st = .running → t = s.current)
    (hidle : t = T.idle → st = .running ∨ st = .ready)
    (hkworker : t = T.kworker → st ≠ .stop) (hwait : st = .waitEvent → t = s.current) :
    SchedInv T ⟨s.setState t st, R⟩ where
  toSchedBase := h.toSchedBase.setState hready hrunning hidle hkworker
  current := h.current
  waiting u hu hne := by
    have hu' : Function.update s.state t st u = .waitEvent := hu
    by_cases hut : u = t
    · subst hut
      rw [Function.update_self] at hu'
      exact absurd (hwait hu') hne
    · rw [Function.update_of_ne hut] at hu'
      exact h.waiting u hu' hne

/-! ## One step -/

theorem SchedInv.addTask (h : SchedInv T ⟨s, R⟩) (hst : s.state t ≠ .waitEvent)
    (hs' : addTaskToReadyList T s t = some s') :
    SchedInv T ⟨s', fun u => u = t ∨ R u⟩ := by
  obtain ⟨s₁, hs₁, hinv, -⟩ := h.enqueue (not_linked_of_addTask hs') hst
  cases hs₁.symm.trans hs'
  exact hinv

theorem SchedInv.setWaking (h : SchedInv T ⟨s, R⟩) (hwait : s.state t = .waitEvent) :
    SchedInv T ⟨s.setState t .waking, R⟩ :=
  h.setState (by simp) (by simp) (fun ht => absurd ht (h.ne_idle_of_waiting hwait))
    (by simp) (by simp)

theorem SchedInv.smpReady (h : SchedInv T ⟨s, R⟩) (hst : s.state t ≠ .waitEvent)
    (hs' : smpPercpuTaskReady s t = some s') : SchedInv T ⟨s', R⟩ := by
  rw [smpPercpuTaskReady] at hs'
  split at hs'
  · cases hs'
  · rename_i hfree
    cases hs'
    have hR := h.not_runnable hfree
    have hnew : t ∉ s.newList := fun hm => hfree (.inr (.inl hm))
    have hstop : t ∉ s.stopList := fun hm => hfree (.inr (.inr hm))
    exact
      { h with
        toQueuesOk := h.toQueuesOk.congr rfl rfl rfl fun _ => Iff.rfl
        newNodup := (List.perm_append_singleton t _).nodup_iff.2
          (List.nodup_cons.2 ⟨hnew, h.newNodup⟩)
        newFree := List.forall_mem_append.2 ⟨h.newFree, List.forall_mem_singleton.2 hR⟩
        newStop := List.forall_mem_append.2 ⟨h.newStop, List.forall_mem_singleton.2 hstop⟩
        waiting := fun u hu hne => by
          obtain ⟨hRu, hoff⟩ := h.waiting u hu hne
          refine ⟨hRu, fun hm => ?_, hoff.2⟩
          rcases List.mem_append.mp hm with hm | hm
          · exact hoff.1 hm
          · rw [List.mem_singleton.mp hm] at hu
            exact hst hu }

theorem SchedInv.listDel_new (h : SchedInv T ⟨s, R⟩) (ht : t ∈ s.newList) :
    s.listDel t = { s with newList := s.newList.erase t } := by
  have hready : (fun p => (s.ready p).erase t) = s.ready := by
    funext p
    exact List.erase_of_not_mem fun hm => h.newFree t ht ((h.mem p t).mp hm).1
  rw [Pcpu.listDel, hready, List.erase_of_not_mem (h.newStop t ht)]

/-- One turn of the loop of `irqwork_handler`. -/
theorem SchedInv.irqworkTask (h : SchedInv T ⟨s, R⟩) (ht : t ∈ s.newList)
    (hs' : Sched.irqworkTask T s t = some s') :
    SchedInv T ⟨s', fun u => u = t ∨ R u⟩ ∧ s'.newList = s.newList.erase t := by
  have hR := h.newFree t ht
  have hcur : t ≠ s.current := by
    rintro rfl
    exact hR h.current
  have hdel : SchedInv T ⟨s.listDel t, R⟩ := by
    rw [h.listDel_new ht]
    exact
      { h with
        toQueuesOk := h.toQueuesOk.congr rfl rfl rfl fun _ => Iff.rfl
        newNodup := h.newNodup.erase t
        newFree := fun u hu => h.newFree u (List.mem_of_mem_erase hu)
        newStop := fun u hu => h.newStop u (List.mem_of_mem_erase hu)
        waiting := fun u hu hne =>
          ⟨(h.waiting u hu hne).1, fun hm => (h.waiting u hu hne).2.1 (List.mem_of_mem_erase hm),
            (h.waiting u hu hne).2.2⟩ }
  -- neither the running task nor one that waits is on `new_list`
  have hrun : (s.listDel t).state t ≠ .running := fun hst => hcur ((h.state t).running hst)
  have hwait : (s.listDel t).state t ≠ .waitEvent := fun hst =>
    (h.waiting t hst hcur).2.1 ht
  rw [Sched.irqworkTask] at hs'
  simp only [if_neg hrun] at hs'
  obtain ⟨s₁, hs₁, rfl⟩ := Option.map_eq_some_iff.mp hs'
  obtain ⟨s₂, hs₂, hinv, hsame⟩ := hdel.enqueue (not_linked_of_addTask hs₁) hwait
  cases hs₂.symm.trans hs₁
  refine ⟨hinv.setState (fun _ => ?_) (by simp) (fun _ => .inr rfl) (by simp) (by simp), ?_⟩
  · rw [hsame.current]
    exact hcur
  · exact hsame.newList

/-- **`irqwork_handler`** makes every task on `new_list` ready. -/
theorem SchedInv.irqworkLoop (l : List Nat) (h : SchedInv T ⟨s, R⟩) (hl : s.newList = l)
    (hs' : l.foldlM (Sched.irqworkTask T) s = some s') :
    SchedInv T ⟨s', fun u => u ∈ l ∨ R u⟩ := by
  induction l generalizing s R with
  | nil =>
    cases hs'
    simpa only [List.not_mem_nil, false_or] using h
  | cons t l ih =>
    rw [List.foldlM_cons] at hs'
    obtain ⟨s₁, hs₁, hs'⟩ := Option.bind_eq_some_iff.mp hs'
    obtain ⟨hinv, hnew⟩ := h.irqworkTask (by rw [hl]; exact List.mem_cons_self) hs₁
    rw [hl, List.erase_cons_head] at hnew
    have hrest := ih hinv hnew hs'
    have hR : (fun u => u ∈ t :: l ∨ R u) = fun u => u ∈ l ∨ u = t ∨ R u := by
      funext u
      rw [List.mem_cons, or_assoc, or_left_comm]
    rw [hR]
    exact hrest

/-! ## Rescheduling -/

/-- While `current` goes on nobody comes or goes. -/
theorem runnableAfter_running (hrun : s.state s.current = .running) (u : Nat) :
    runnableAfter T s R .resched u ↔ R u := by
  simp only [runnableAfter, hrun]
  constructor
  · rintro (⟨hu, -⟩ | ⟨-, hc, -⟩)
    · exact hu
    · cases hc
  · intro hu
    refine .inl ⟨hu, ?_⟩
    rintro ⟨rfl, hne⟩
    exact hne hrun

/-- `current` leaves its ready list. -/
theorem SchedInv.removeCurrent (h : SchedInv T ⟨s, R⟩) (hrun : s.state s.current ≠ .running) :
    ∃ s₁, removeTaskFromReadyList T s s.current = some s₁ ∧
      Dequeued T ⟨s₁, fun u => R u ∧ u ≠ s.current⟩ ∧ SameTasks s s₁ := by
  obtain ⟨s₁, hs₁, hq, hsame⟩ :=
    removeTaskFromReadyList_ok h.toQueuesOk h.current (h.offSideLists h.current)
  have hidle : T.idle ≠ s.current :=
    fun hi => ((h.state _).idle hi.symm).elim hrun h.currentState
  have hbase : SchedBase T ⟨s₁, fun u => R u ∧ u ≠ s.current⟩ :=
    h.toSchedBase.of_sameTasks hsame hq ⟨h.idle, hidle⟩ (fun u hu hR => h.newFree u hu hR.1)
      fun u hu hR => h.stopFree u hu hR.1
  obtain ⟨hnew, hstop, hcurrent, hstate⟩ := hsame
  refine ⟨s₁, hs₁, ⟨hbase, ?_, ?_⟩, ⟨hnew, hstop, hcurrent, hstate⟩⟩
  · simp only [hcurrent]
    exact fun hR => absurd rfl hR.2
  · simp only [hstate, Pcpu.OffSideLists, hnew, hstop]
    intro u hu
    by_cases hc : u = s.current
    · subst hc
      exact ⟨fun hR => hR.2 rfl, h.offSideLists h.current⟩
    · obtain ⟨hR, hoff⟩ := h.waiting u hu hc
      exact ⟨fun hR' => hR hR'.1, hoff⟩

/-- A dead `current` goes to `stop_list`, and the flag is raised. -/
theorem Dequeued.stopCurrent (h : Dequeued T ⟨s, R⟩) (hstop : s.state s.current = .stop)
    (hnew : s.current ∉ s.newList) :
    Dequeued T ⟨{ s with stopList := s.stopList ++ [s.current], kworkerFlag := true }, R⟩ := by
  have hR : ¬ R s.current := fun hR =>
    absurd ((h.leaving hR).symm.trans hstop) (by decide)
  refine
    { h with
      toQueuesOk := h.toQueuesOk.congr rfl rfl rfl fun _ => Iff.rfl
      stopFree := List.forall_mem_append.2 ⟨h.stopFree, List.forall_mem_singleton.2 hR⟩
      newStop := fun u hu hm => ?_
      waiting := fun u hu => ?_ }
  · rcases List.mem_append.mp hm with hm | hm
    · exact h.newStop u hu hm
    · rw [List.mem_singleton.mp hm] at hu
      exact hnew hu
  · obtain ⟨hRu, hoff⟩ := h.waiting u hu
    refine ⟨hRu, hoff.1, fun hm => ?_⟩
    rcases List.mem_append.mp hm with hm | hm
    · exact hoff.2 hm
    · rw [List.mem_singleton.mp hm] at hu
      exact absurd (hstop.symm.trans hu) (by decide)

/-- The kworker is woken half way through `pick_next_task`. With a priority of
its own it joins the ready list; `current` is in no ready list at this point, so
there is no place before it. -/
theorem Dequeued.wakeKworker (h : Dequeued T ⟨s, R⟩) (hstop : s.state s.current = .stop)
    (hwait : s.state T.kworker = .waitEvent) (hprio : T.prio s.current ≠ T.prio T.kworker) :
    ∃ s', wakeUpCommon T s T.kworker = some s' ∧
      Dequeued T ⟨s', fun u => u = T.kworker ∨ R u⟩ ∧ s'.current = s.current := by
  obtain ⟨hR, hoff⟩ := h.waiting _ hwait
  have hbase : SchedBase T ⟨s.setState T.kworker .waking, R⟩ :=
    h.toSchedBase.setState (by simp) (by simp)
      (fun ht => absurd ht (h.ne_idle_of_waiting hwait)) (by simp)
  have hne : s.current ≠ T.kworker := fun hc => hprio (by rw [hc])
  obtain ⟨s', hs', hbase', hsame⟩ := hbase.enqueue (t := T.kworker)
    (hbase.toQueuesOk.not_linked hR hoff) (fun hp => absurd hp hprio)
  obtain ⟨hnew, hstopl, hcurrent, hstate⟩ := hsame
  have hcurrent' : s'.current = s.current := hcurrent
  have hstate' : s'.state = Function.update s.state T.kworker .waking := hstate
  refine ⟨s', by rw [wakeUpCommon, if_neg (not_not.mpr hwait), hs'],
    { toSchedBase := hbase', leaving := ?_, waiting := ?_ }, hcurrent'⟩
  · simp only [hcurrent']
    rintro (hc | hRc)
    · exact absurd hc hne
    · exact absurd ((h.leaving hRc).symm.trans hstop) (by decide)
  · simp only [hstate', Pcpu.OffSideLists, hnew, hstopl]
    intro u hu
    have huk : u ≠ T.kworker := by
      rintro rfl
      rw [Function.update_self] at hu
      cases hu
    rw [Function.update_of_ne huk] at hu
    obtain ⟨hRu, hoffu⟩ := h.waiting u hu
    exact ⟨fun hR' => hR'.elim huk hRu, hoffu⟩

theorem Dequeued.congr (h : Dequeued T ⟨s, R⟩) {R' : Nat → Prop}
    (hR : ∀ u, R' u ↔ R u) : Dequeued T ⟨s, R'⟩ := by
  have : R' = R := funext fun u => propext (hR u)
  rw [this]
  exact h

/-- **The first half of `pick_next_task`** leaves what should be runnable. -/
theorem SchedInv.dequeueCurrent (h : SchedInv T ⟨s, R⟩) (hok : ExitOk T ⟨s, R⟩ .resched) :
    ∃ s₁, Sched.dequeueCurrent T s = some s₁ ∧
      Dequeued T ⟨s₁, runnableAfter T s R .resched⟩ ∧ s₁.current = s.current := by
  rw [Sched.dequeueCurrent]
  by_cases hrun : s.state s.current = .running
  · rw [if_pos hrun]
    have hself : Dequeued T ⟨s, R⟩ :=
      { h with
        leaving := fun _ => hrun
        waiting := fun u hu => h.waiting u hu (by
          rintro rfl
          exact absurd (hrun.symm.trans hu) (by decide)) }
    exact ⟨s, rfl, hself.congr (runnableAfter_running hrun), rfl⟩
  · rw [if_neg hrun]
    obtain ⟨s₁, hs₁, hdeq, hnew, hstopl, hcurrent, hstate⟩ := h.removeCurrent hrun
    have hst₁ : s₁.state s₁.current = s.state s.current := by rw [hcurrent, hstate]
    rw [hs₁, Option.bind_some]
    -- whoever leaves is not runnable, apart from the kworker it may wake
    have hleft : ∀ u, (R u ∧ ¬ (u = s.current ∧ s.state u ≠ .running)) ↔
        R u ∧ u ≠ s.current := by
      intro u
      refine and_congr_right fun _ => not_congr ⟨fun hu => hu.1, ?_⟩
      rintro rfl
      exact ⟨rfl, hrun⟩
    by_cases hstop : s.state s.current = .stop
    · have hstop₁ := hst₁.trans hstop
      have hdead := hdeq.stopCurrent hstop₁ (by
        rw [hcurrent, hnew]
        exact (h.offSideLists h.current).1)
      rw [if_pos hstop₁, flagSet]
      by_cases hwait : s.state T.kworker = .waitEvent
      · have hprio : T.prio s₁.current ≠ T.prio T.kworker := by
          rw [hcurrent]
          exact fun hp => hok rfl hstop ⟨hp, hwait⟩
        obtain ⟨s₂, hs₂, hdeq₂, hcurrent₂⟩ :=
          hdead.wakeKworker hstop₁ (by rw [← hwait, ← hstate]) hprio
        refine ⟨s₂, hs₂, hdeq₂.congr fun u => ?_, hcurrent₂.trans hcurrent⟩
        simp only [runnableAfter, hleft, hstop, true_and]
        rw [or_comm]
        refine or_congr_left ⟨fun hu => hu.1, ?_⟩
        rintro rfl
        exact ⟨rfl, hwait⟩
      · have hwait₁ : s₁.state T.kworker ≠ .waitEvent := by rwa [hstate]
        refine ⟨_, by rw [wakeUpCommon, if_pos hwait₁], hdead.congr fun u => ?_, hcurrent⟩
        simp only [runnableAfter, hleft]
        refine or_iff_left ?_
        rintro ⟨rfl, -, hu⟩
        exact hwait hu
    · rw [if_neg fun hs => hstop (hst₁.symm.trans hs)]
      refine ⟨s₁, rfl, hdeq.congr fun u => ?_, hcurrent⟩
      simp only [runnableAfter, hleft]
      exact or_iff_left fun hu => hstop hu.2.1

theorem switchToTask_ready : (switchToTask s t).ready = s.ready := by
  simp only [switchToTask, Pcpu.setState]
  split <;> rfl

theorem switchToTask_lists : (switchToTask s t).localRdyGrp = s.localRdyGrp ∧
    (switchToTask s t).tasksInPrio = s.tasksInPrio ∧ (switchToTask s t).newList = s.newList ∧
    (switchToTask s t).stopList = s.stopList := by
  simp only [switchToTask, Pcpu.setState]
  split <;> exact ⟨rfl, rfl, rfl, rfl⟩

theorem switchToTask_state_next : (switchToTask s t).state t = .running := Function.update_self ..

theorem switchToTask_state_current (hc : t ≠ s.current) : (switchToTask s t).state s.current =
    if s.state s.current = .running then .ready else s.state s.current := by
  simp only [switchToTask, Pcpu.setState]
  rw [Function.update_of_ne (Ne.symm hc)]
  split
  · exact Function.update_self ..
  · rfl

theorem switchToTask_state_other {u : Nat} (hut : u ≠ t) (huc : u ≠ s.current) :
    (switchToTask s t).state u = s.state u := by
  simp only [switchToTask, Pcpu.setState]
  rw [Function.update_of_ne hut]
  split
  · exact Function.update_of_ne huc ..
  · rfl

/-- `switch_to_task`, or going on with the task that runs. -/
theorem Dequeued.switchTo (h : Dequeued T ⟨s, R⟩) (ht : R t) :
    SchedInv T ⟨if t = s.current then s else switchToTask s t, R⟩ := by
  split
  · rename_i hc
    subst hc
    exact { h with current := ht, waiting := fun u hu _ => h.waiting u hu }
  · rename_i hc
    have hnext : (switchToTask s t).state t = .running := switchToTask_state_next
    have hcur := switchToTask_state_current hc
    have hother : ∀ u, u ≠ t → u ≠ s.current → (switchToTask s t).state u = s.state u :=
      fun u => switchToTask_state_other
    obtain ⟨hgrp, hcount, hnew, hstop⟩ : _ ∧ _ ∧ _ ∧ _ := switchToTask_lists (s := s) (t := t)
    refine ⟨⟨h.toQueuesOk.congr switchToTask_ready hgrp hcount fun _ => Iff.rfl, h.idle, ?_, ?_, ?_,
      ?_, fun u => ?_⟩, ht, fun u hu hut => ?_⟩
    · simpa only [hnew] using h.newNodup
    · simpa only [hnew] using h.newFree
    · simpa only [hstop] using h.stopFree
    · simpa only [hnew, hstop] using h.newStop
    · show StateOk T t u ((switchToTask s t).state u)
      have hok := h.state u
      by_cases hut : u = t
      · subst hut
        rw [hnext]
        exact ⟨fun _ => by decide, fun _ => rfl, fun _ => .inl rfl, fun _ => by decide⟩
      by_cases huc : u = s.current
      · -- the task that is left: ready, unless it blocked or died
        subst huc
        rw [hcur]
        split
        · exact ⟨fun hu => absurd hu hut, nofun, fun _ => .inr rfl, fun _ => by decide⟩
        · rename_i hrun
          exact ⟨fun hu => absurd hu hut, fun hu => absurd hu hrun, hok.idle, hok.kworker⟩
      · rw [hother u hut huc]
        exact ⟨fun hu => absurd hu hut, fun hu => absurd (hok.running hu) huc, hok.idle,
          hok.kworker⟩
    · simp only [Pcpu.OffSideLists, hnew, hstop]
      by_cases huc : u = s.current
      · subst huc
        simp only [hcur] at hu
        split at hu
        · cases hu
        · exact h.waiting _ hu
      · simp only [hother u hut huc] at hu
        exact h.waiting u hu

/-- Only the order of the ready lists changed. -/
theorem Dequeued.of_sameTasks (h : Dequeued T ⟨s, R⟩) (hq : QueuesOk T ⟨s', R⟩)
    (hsame : SameTasks s s') : Dequeued T ⟨s', R⟩ := by
  have hbase := h.toSchedBase.of_sameTasks hsame hq h.idle h.newFree h.stopFree
  obtain ⟨hnew, hstop, hcurrent, hstate⟩ := hsame
  refine ⟨hbase, ?_, ?_⟩
  · simpa only [hcurrent, hstate] using h.leaving
  · simpa only [hstate, Pcpu.OffSideLists, hnew, hstop] using h.waiting

/-- **`pick_next_task` passes its `ASSERT`s**, and the switch to what it picks
restores the invariant. -/
theorem SchedInv.pickNextTask (h : SchedInv T ⟨s, R⟩) (hok : ExitOk T ⟨s, R⟩ .resched) :
    ∃ r, Sched.pickNextTask T s = some r ∧
      SchedInv T ⟨if r.1 = s.current then r.2 else switchToTask r.2 r.1,
        runnableAfter T s R .resched⟩ := by
  obtain ⟨s₁, hs₁, hdeq, hcurrent⟩ := h.dequeueCurrent hok
  obtain ⟨t, s₂, hs₂, ht, hq, hsame⟩ :=
    pickFirst_ok hdeq.toQueuesOk ⟨_, hdeq.idle⟩ fun _ => hdeq.offSideLists
  refine ⟨(t, s₂), ?_, ?_⟩
  · rw [Sched.pickNextTask, if_neg h.currentState, hs₁, Option.bind_some, hs₂]
  · have hinv := (hdeq.of_sameTasks hq hsame).switchTo ht
    rwa [hsame.current, hcurrent] at hinv

/-- `wake_up` of a task of this cpu, from its own code or from an interrupt. -/
theorem SchedInv.wake (h : SchedInv T ⟨s, R⟩) (hs' : schedStep T s (.wake t) = some s') :
    SchedInv T ⟨s', runnableAfter T s R (.wake t)⟩ := by
  simp only [schedStep] at hs'
  split at hs'
  · rename_i hc
    cases hs'
    have hR : runnableAfter T s R (.wake t) = R := by
      funext u
      simp [runnableAfter, hc]
    simp only [hR, wakeUpInterrupted]
    split
    · exact h
    · exact h.setState (by simp) (fun _ => rfl) (fun _ => .inl rfl) (by simp) (by simp)
  · rename_i hc
    rw [wakeUpCommon] at hs'
    split at hs'
    · rename_i hwait
      cases hs'
      have hR : runnableAfter T s R (.wake t) = R := by
        funext u
        simp [runnableAfter, hwait]
      simpa only [hR] using h
    · rename_i hwait
      rw [not_not] at hwait
      have hR : runnableAfter T s R (.wake t) = fun u => u = t ∨ R u := by
        funext u
        simp [runnableAfter, hwait, hc]
      have hst : (s.setState t .waking).state t ≠ .waitEvent := by
        simp [Pcpu.setState]
      simpa only [hR] using (h.setWaking hwait).addTask hst hs'

/-- **Every step keeps the invariant.** -/
theorem SchedInv.step {x x' : Sys} {e : Event} (h : SchedInv T x) (hok : ExitOk T x e)
    (hx' : sysStep T x e = some x') : SchedInv T x' := by
  obtain ⟨s, R⟩ := x
  obtain ⟨s', hs', rfl⟩ := Option.map_eq_some_iff.mp hx'
  cases e with
  | ready t =>
    obtain ⟨hst, hs'⟩ := Option.ite_none_right_eq_some.1 hs'
    exact h.addTask (by rw [hst]; decide) hs'
  | remoteReady t =>
    obtain ⟨hst, hs'⟩ := Option.ite_none_right_eq_some.1 hs'
    exact h.smpReady (by rw [hst]; decide) hs'
  | wake t => exact h.wake hs'
  | remoteWake t =>
    simp only [schedStep] at hs'
    split at hs'
    · cases hs'
      exact h
    · rename_i hwait
      rw [not_not] at hwait
      split at hs'
      · cases hs'
      · have hst : (s.setState t .waking).state t ≠ .waitEvent := by
          simp [Pcpu.setState]
        exact (h.setWaking hwait).smpReady hst hs'
  | irqwork => exact h.irqworkLoop s.newList rfl hs'
  | wait =>
    obtain ⟨hc, ⟨⟩⟩ := Option.ite_none_right_eq_some.1 hs'
    exact h.setState (by simp) (by simp) (fun hi => absurd hi hc.2.1) (by simp) (fun _ => rfl)
  | suspend =>
    obtain ⟨hc, ⟨⟩⟩ := Option.ite_none_right_eq_some.1 hs'
    exact h.setState (by simp) (by simp) (fun hi => absurd hi hc.2.1) (by simp) (by simp)
  | exit =>
    obtain ⟨hc, ⟨⟩⟩ := Option.ite_none_right_eq_some.1 hs'
    exact h.setState (by simp) (by simp) (fun hi => absurd hi hc.2.1)
      (fun hk => absurd hk hc.2.2) (by simp)
  | kworkerRun =>
    obtain ⟨hc, hs'⟩ := Option.ite_none_right_eq_some.1 hs'
    split at hs' <;> cases hs'
    · -- the kworker releases the dead
      exact
        { h with
          toQueuesOk := h.toQueuesOk.congr rfl rfl rfl fun _ => Iff.rfl
          stopFree := fun u hu => absurd hu List.not_mem_nil
          newStop := fun u _ => List.not_mem_nil
          waiting := fun u hu hne =>
            ⟨(h.waiting u hu hne).1, (h.waiting u hu hne).2.1, List.not_mem_nil⟩ }
    · have hidle : s.current ≠ T.idle := by
        rw [hc.1]
        intro hi
        have hp := (T.prio_idle T.kworker).mpr hi
        rw [T.prio_kworker] at hp
        exact absurd hp (by decide)
      exact h.setState (by simp) (by simp) (fun hi => absurd hi hidle) (by simp) (fun _ => rfl)
  | resched =>
    obtain ⟨r, hr, hinv⟩ := h.pickNextTask hok
    simp only [schedStep, reschedule, hr, Option.map_some, Option.some.injEq] at hs'
    cases hs'
    exact hinv

/-! ## Whole runs -/

theorem schedInv_init (T : Tasks) : SchedInv T (pcpuInit T) where
  mem p t := by
    show t ∈ (if p = osPrioIdle then [T.idle] else []) ↔ t = T.idle ∧ T.prio t = p
    rw [← T.prio_idle t]
    split
    · rename_i hp
      rw [List.mem_singleton, ← T.prio_idle t, hp]
      exact (and_self_iff).symm
    · rename_i hp
      refine iff_of_false List.not_mem_nil ?_
      rintro ⟨hidle, rfl⟩
      exact hp hidle
  nodup p := by
    simp only [pcpuInit]
    split
    · exact List.nodup_singleton _
    · exact List.nodup_nil
  grp p hp := by
    have hp8 : p < 8 := hp
    simp only [pcpuInit, BitVec.getLsbD_twoPow, osPrioIdle]
    by_cases h7 : p = 7
    · simp [h7]
    · simp [h7, Ne.symm h7]
  count p _ hidle := by simp [pcpuInit, hidle]
  idle := rfl
  newNodup := List.nodup_nil
  newFree t ht := absurd ht List.not_mem_nil
  stopFree t ht := absurd ht List.not_mem_nil
  newStop t ht := absurd ht List.not_mem_nil
  state t := by
    simp only [pcpuInit]
    split
    · exact ⟨fun _ => by decide, fun _ => ‹_›, fun _ => .inl rfl, fun _ => by decide⟩
    · exact ⟨fun ht => absurd ht ‹_›, nofun, fun ht => absurd ht ‹_›, fun _ => by decide⟩
  current := rfl
  waiting t ht _ := by
    simp only [pcpuInit] at ht
    split at ht <;> cases ht

/-- What a step should do: pass its `ASSERT`s and leave good queues. -/
def StepOk (T : Tasks) (x : Sys) (e : Event) : Prop :=
  AssertsOk T x e ∧ ∀ x', sysStep T x e = some x' → QueuesOk T x'

theorem addTask_ready_of_current_off (hprio : T.prio s.current = T.prio t)
    (hoff : ∀ p, s.current ∉ s.ready p) (hs' : addTaskToReadyList T s t = some s') :
    s'.ready = s.ready := by
  rw [addTaskToReadyList, if_neg (not_linked_of_addTask hs')] at hs'
  simp only [hprio, ↓reduceIte] at hs'
  obtain ⟨s₁, hs₁, rfl⟩ := Option.map_eq_some_iff.mp hs'
  split at hs₁
  · cases hs₁
    funext p
    exact insertBefore_of_notMem (hoff p)
  · cases hs₁

/-- Moving the first task to the end brings nobody back. -/
theorem mem_ready_of_pickFirst {r : Nat × Pcpu} (hr : pickFirst s = some r) {p u : Nat}
    (hu : u ∈ r.2.ready p) : ∃ q, u ∈ s.ready q := by
  simp only [pickFirst] at hr
  split at hr
  · cases hr
  split at hr
  · cases hr
  rename_i t rest hlist
  cases hr
  simp only [Pcpu.listAddTail, Pcpu.listDel, Function.update_apply] at hu
  split at hu
  · rcases List.mem_append.mp hu with hu | hu
    · exact ⟨_, List.mem_of_mem_erase hu⟩
    · rw [List.mem_singleton.mp hu]
      exact ⟨_, by rw [hlist]; exact List.mem_cons_self⟩
  · exact ⟨_, List.mem_of_mem_erase hu⟩

/-- A task that exits with the kworker's priority takes the waiting kworker
along to `stop_list`: it ends up in no ready list. -/
theorem SchedInv.not_stepOk (h : SchedInv T ⟨s, R⟩) (hstop : s.state s.current = .stop)
    (hprio : T.prio s.current = T.prio T.kworker)
    (hwait : s.state T.kworker = .waitEvent) : ¬ StepOk T ⟨s, R⟩ .resched := by
  rintro ⟨hassert, hgood⟩
  have hrun : s.state s.current ≠ .running := by rw [hstop]; decide
  obtain ⟨s₁, hs₁, hdeq, -, -, hcurrent, hstate⟩ := h.removeCurrent hrun
  have hstop₁ : s₁.state s₁.current = .stop := by rw [hcurrent, hstate, hstop]
  have hwait₁ : s₁.state T.kworker = .waitEvent := by rw [hstate, hwait]
  have hoff : ∀ p, s₁.current ∉ s₁.ready p := fun p hm => ((hdeq.mem p _).mp hm).1.2 hcurrent
  obtain ⟨r, hr⟩ := Option.ne_none_iff_exists'.mp (hassert rfl)
  have hr' : Sched.pickNextTask T s = some r := hr
  rw [Sched.pickNextTask, if_neg h.currentState, Sched.dequeueCurrent, if_neg hrun, hs₁,
    Option.bind_some, if_pos hstop₁, flagSet, wakeUpCommon, if_neg (not_not.mpr hwait₁)] at hr'
  -- the state the second half of `pick_next_task` starts from
  obtain ⟨s₂, hs₂, hfirst⟩ := Option.bind_eq_some_iff.mp hr'
  have hprio₁ : T.prio s₁.current = T.prio T.kworker := by rw [hcurrent, hprio]
  have hready₂ := addTask_ready_of_current_off (by exact hprio₁) (by exact hoff) hs₂
  have hlost : ∀ p, T.kworker ∉ r.2.ready p := by
    intro p hm
    obtain ⟨q, hq⟩ := mem_ready_of_pickFirst hfirst hm
    simp only [hready₂, Pcpu.setState] at hq
    exact (hdeq.waiting _ hwait₁).1 ((hdeq.mem q _).mp hq).1
  have hq := hgood ⟨if r.1 = s.current then r.2 else switchToTask r.2 r.1,
    runnableAfter T s R .resched⟩ (by
      rw [sysStep, schedStep, reschedule, hr]
      rfl)
  have hmem := (hq.mem (T.prio T.kworker) T.kworker).mpr ⟨.inr ⟨rfl, hstop, hwait⟩, rfl⟩
  simp only at hmem
  split at hmem
  · exact hlost _ hmem
  · rw [switchToTask_ready] at hmem
    exact hlost _ hmem

theorem SchedInv.stepOk_iff {x : Sys} (h : SchedInv T x) (e : Event) :
    StepOk T x e ↔ ExitOk T x e := by
  constructor
  · rintro hstep rfl hstop ⟨hprio, hwait⟩
    exact h.not_stepOk hstop hprio hwait hstep
  · intro hok
    refine ⟨?_, fun x' hx' => (h.step hok hx').toQueuesOk⟩
    rintro rfl hnone
    obtain ⟨r, hr, -⟩ := h.pickNextTask hok
    rw [hr] at hnone
    cases hnone

/-- **The ready queues say what is runnable** in every state of a run, and no
`ASSERT` fires, exactly when the cpu never leaves a task that exits with the
kworker's priority while the kworker waits. -/
theorem sched_queues_iff (T : Tasks) (l : List Event) :
    ((∀ pre, pre <+: l → ∀ x, run (sysStep T) (pcpuInit T) pre = some x → QueuesOk T x) ∧
      Along (sysStep T) (AssertsOk T) (pcpuInit T) l) ↔
      Along (sysStep T) (ExitOk T) (pcpuInit T) l := by
  have hinit := schedInv_init T
  rw [forall_prefix_iff_along, and_iff_right hinit.toQueuesOk, and_comm, ← along_and]
  exact along_congr (I := SchedInv T) (P := StepOk T) (Q := ExitOk T)
    (fun _ _ _ h hok hx' => h.step hok hx') (fun _ e h => h.stepOk_iff e) hinit l

/-- An idle task 0, a kworker 1, a task 2 of the kworker's priority. -/
def threeTasks : Tasks where
  prio t := if t = 0 then 7 else if t ≤ 2 then 1 else 6
  kworker := 1
  idle := 0
  prio_lt t := by
    simp only [osPrioMax]
    split
    · decide
    · split <;> decide
  prio_kworker := rfl
  prio_idle t := by
    simp only [osPrioIdle]
    split
    · simp [*]
    · split <;> simp [*]

/-- The kworker waits, task 2 starts and exits: the reschedule sets the bit of a
list that stays empty, and `ASSERT(!is_list_empty(head))` fires. -/
theorem sched_exit_asserts :
    ∃ x, run (sysStep threeTasks) (pcpuInit threeTasks)
        [.ready 1, .resched, .kworkerRun, .resched, .ready 2, .resched, .exit] = some x ∧
      ¬ AssertsOk threeTasks x .resched := by
  exact exists_found (P := fun x => (pickNextTask threeTasks x.pcpu).isNone)
    (fun x _ hnone hok => hok rfl (Option.isNone_iff_eq_none.mp hnone)) (by decide +kernel)

end Minos.Sched
