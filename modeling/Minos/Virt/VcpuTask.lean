import Minos.Core.Sched
import Minos.Core.WakeUp

/-!
# Tasks of vcpus

What the power management code of a VM sees of a vcpu's task: its state, the
list its `state_list` is in, whether it is on a cpu, and the frame it will
enter the guest with. The steps are those of `core/sched.c` and of
`task_return_to_user` (`core/task.c`), where a task leaves its cpu for good
when `TIF_NEED_FREEZE` is set. Blocking in `wait_event` and waking up are
single steps here.
-/

namespace Minos.Vcpu

open Minos.Sched (TaskState)
open Minos.WakeUp (Place)

/-- How far the task is on its cpu. -/
inductive OnCpu
  /-- not the cpu's current task -/
  | off
  | on
  /-- in `task_return_to_user`, with `TIF_NEED_FREEZE` as it was read -/
  | flags (freeze : Bool)
  /-- the flags are cleared -/
  | cleared (freeze : Bool)
  /-- `TASK_STATE_SUSPEND` is written, before `pick_next_task` -/
  | leaving
  deriving DecidableEq, Repr

structure Task where
  state : TaskState
  /-- the list `state_list` is in -/
  place : Option Place
  cpu : OnCpu
  /-- `TIF_NEED_FREEZE` -/
  needFreeze : Bool
  /-- the entry point in the frame at `stack_base`, when `arch_vcpu_init`
  wrote that frame since the task was last on a cpu -/
  frame : Option Nat
  deriving DecidableEq, Repr

/-- The state `create_vcpu_task` leaves the task in. -/
def Task.created : Task := ⟨.suspend, none, .off, false, none⟩

inductive Os
  | linux
  | xnu
  | other
  deriving DecidableEq, Repr

/-- `arch_vcpu_init`. -/
def archVcpuInit (t : Task) (entry : Nat) : Task := { t with frame := some entry }

/-- `os_vcpu_power_on`: only Linux guests have an operation that writes the
frame. -/
def osVcpuPowerOn (os : Os) (t : Task) (entry : Nat) : Task :=
  match os with
  | .linux => archVcpuInit t entry
  | .xnu => t
  | .other => t

/-- `task_need_freeze`. -/
def Task.freeze (t : Task) : Task := { t with needFreeze := true }

inductive Move
  | irqwork
  | pick
  | preempt
  | block
  | wake
  | readFlags
  | clearFlags
  | returnToUser
  | schedOut
  deriving DecidableEq, Repr

/-- One scheduling step of the task. -/
def Task.move (t : Task) : Move → Option Task
  | .irqwork =>
    if t.place = some .newList then
      if t.state = .running then some { t with place := none }
      else some { t with place := some .readyList, state := .ready }
    else none
  | .pick =>
    if t.place = some .readyList ∧ t.cpu = .off then
      some { t with state := .running, cpu := .on, frame := none }
    else none
  | .preempt =>
    if t.cpu = .on ∧ t.state = .running then
      some { t with state := .ready, cpu := .off, frame := none }
    else none
  | .block =>
    if t.cpu = .on ∧ t.state = .running then
      some { t with state := .waitEvent, place := none, cpu := .off, frame := none }
    else none
  | .wake =>
    if t.state = .waitEvent then some { t with state := .ready, place := some .readyList }
    else none
  | .readFlags => if t.cpu = .on then some { t with cpu := .flags t.needFreeze } else none
  | .clearFlags =>
    match t.cpu with
    | .flags freeze => some { t with needFreeze := false, cpu := .cleared freeze }
    | _ => none
  | .returnToUser =>
    match t.cpu with
    | .cleared true => some { t with state := .suspend, cpu := .leaving }
    | .cleared false => some { t with cpu := .on }
    | _ => none
  | .schedOut =>
    if t.cpu = .leaving then some { t with place := none, cpu := .off, frame := none } else none

/-- Suspended, in no list and off its cpu. -/
structure Task.Off (t : Task) : Prop where
  state : t.state = .suspend
  place : t.place = none
  cpu : t.cpu = .off

instance (t : Task) : Decidable t.Off :=
  decidable_of_iff (t.state = .suspend ∧ t.place = none ∧ t.cpu = .off)
    ⟨fun h => ⟨h.1, h.2.1, h.2.2⟩, fun h => ⟨h.state, h.place, h.cpu⟩⟩

/-- Between its first turn on a cpu and `schedOut`. -/
inductive Task.Up (t : Task) : Prop
  | current (cpu : t.cpu ≠ .off) (place : t.place = some .readyList)
      (state : t.state = if t.cpu = .leaving then .suspend else .running)
  | ready (cpu : t.cpu = .off) (place : t.place = some .readyList) (state : t.state = .ready)
      (frame : t.frame = none)
  | waiting (cpu : t.cpu = .off) (place : t.place = none) (state : t.state = .waitEvent)
      (frame : t.frame = none)

/-- Made ready and not yet on a cpu: in `new_list` with the state it had, or
in the ready list, where `irqwork_handler` writes the state and
`percpu_task_ready` does not. -/
structure Task.Due (t : Task) (frame : Option Nat) : Prop where
  cpu : t.cpu = .off
  frame : t.frame = frame
  place : t.place = some .newList ∧ t.state = .suspend ∨
    t.place = some .readyList ∧ (t.state = .suspend ∨ t.state = .ready)

variable {t : Task}

theorem Task.Off.osVcpuPowerOn (h : t.Off) (os : Os) (entry : Nat) :
    (osVcpuPowerOn os t entry).Off := by
  cases os <;> exact ⟨h.state, h.place, h.cpu⟩

theorem Task.Off.move (h : t.Off) (m : Move) : t.move m = none := by
  obtain ⟨hstate, hplace, hcpu⟩ := h
  cases m <;> simp [Task.move, hstate, hplace, hcpu]

/-- A step on the cpu, up to the write of `TASK_STATE_SUSPEND`. -/
theorem Task.Up.onCpu (h : t.Up) (hcpu : t.cpu ≠ .off) (hleave : t.cpu ≠ .leaving)
    {c : OnCpu} (hc : c ≠ .off) (hc' : c ≠ .leaving) (freeze : Bool) :
    { t with cpu := c, needFreeze := freeze }.Up := by
  cases h with
  | current _ hplace hstate =>
    rw [if_neg hleave] at hstate
    exact .current hc hplace (by rw [if_neg hc']; exact hstate)
  | ready hoff | waiting hoff => exact absurd hoff hcpu

variable {m : Move} {t' : Task}

/-- The steps of a task that is up, but for the last one. -/
theorem Task.Up.move (h : t.Up) (hm : m ≠ .schedOut)
    (hs : t.move m = some t') : t'.Up := by
  cases m with
  | schedOut => exact absurd rfl hm
  | irqwork =>
    obtain ⟨hnew, -⟩ := Option.ite_none_right_eq_some.mp hs
    cases h with
    | current _ hplace | ready _ hplace | waiting _ hplace => simp [hplace] at hnew
  | pick =>
    obtain ⟨⟨hplace, -⟩, ⟨⟩⟩ := Option.ite_none_right_eq_some.mp hs
    exact .current (by simp) hplace rfl
  | preempt =>
    obtain ⟨⟨hcpu, -⟩, ⟨⟩⟩ := Option.ite_none_right_eq_some.mp hs
    cases h with
    | current _ hplace _ => exact .ready rfl hplace rfl rfl
    | ready hoff | waiting hoff => simp [hcpu] at hoff
  | block =>
    obtain ⟨-, ⟨⟩⟩ := Option.ite_none_right_eq_some.mp hs
    exact .waiting rfl rfl rfl rfl
  | wake =>
    obtain ⟨hwait, ⟨⟩⟩ := Option.ite_none_right_eq_some.mp hs
    cases h with
    | current _ _ hstate =>
      rw [hwait] at hstate
      split at hstate <;> cases hstate
    | ready _ _ hstate => simp [hwait] at hstate
    | waiting hcpu _ _ hframe => exact .ready hcpu rfl rfl hframe
  | readFlags =>
    obtain ⟨hcpu, ⟨⟩⟩ := Option.ite_none_right_eq_some.mp hs
    exact h.onCpu (by simp [hcpu]) (by simp [hcpu]) (by simp) (by simp) t.needFreeze
  | clearFlags =>
    simp only [Task.move] at hs
    split at hs
    · rename_i freeze hcpu
      cases hs
      exact h.onCpu (by simp [hcpu]) (by simp [hcpu]) (by simp) (by simp) false
    · cases hs
  | returnToUser =>
    simp only [Task.move] at hs
    split at hs
    · rename_i hcpu
      cases hs
      cases h with
      | current _ hplace _ => exact .current (by simp) hplace rfl
      | ready hoff | waiting hoff => simp [hcpu] at hoff
    · rename_i hcpu
      cases hs
      exact h.onCpu (by simp [hcpu]) (by simp [hcpu]) (by simp) (by simp) t.needFreeze
    · cases hs

/-- The last step takes the task off. -/
theorem Task.Up.schedOut (h : t.Up) (hs : t.move .schedOut = some t') : t'.Off := by
  obtain ⟨hcpu, ⟨⟩⟩ := Option.ite_none_right_eq_some.mp hs
  cases h with
  | current _ _ hstate =>
    rw [if_pos hcpu] at hstate
    exact ⟨hstate, rfl, rfl⟩
  | ready hoff | waiting hoff => simp [hcpu] at hoff

/-- A task that was made ready enters the guest with its frame. -/
theorem Task.Due.move {frame : Option Nat} (h : t.Due frame)
    (hs : t.move m = some t') : m = .irqwork ∧ t'.Due frame ∨ m = .pick ∧ t'.Up := by
  obtain ⟨hcpu, hframe, hplace⟩ := h
  have hstate : t.state = .suspend ∨ t.state = .ready := by
    obtain ⟨-, hsus⟩ | ⟨-, hstate⟩ := hplace
    · exact Or.inl hsus
    · exact hstate
  cases m with
  | irqwork =>
    obtain ⟨hnew, hs⟩ := Option.ite_none_right_eq_some.mp hs
    rw [if_neg (by rintro hrun; simp [hrun] at hstate)] at hs
    cases hs
    exact Or.inl ⟨rfl, hcpu, hframe, Or.inr ⟨rfl, Or.inr rfl⟩⟩
  | pick =>
    obtain ⟨⟨hready, -⟩, ⟨⟩⟩ := Option.ite_none_right_eq_some.mp hs
    exact Or.inr ⟨rfl, .current (by simp) hready rfl⟩
  | wake =>
    obtain ⟨hwait, -⟩ := Option.ite_none_right_eq_some.mp hs
    simp [hwait] at hstate
  | preempt | block | readFlags | clearFlags | returnToUser | schedOut =>
    simp [Task.move, hcpu] at hs

end Minos.Vcpu
