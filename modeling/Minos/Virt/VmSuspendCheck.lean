import Minos.Core.Errno
import Minos.Core.Sched
import Minos.Virt.Virq

/-!
# Suspending a VM: the other vcpus

The first half of `__vm_suspend` of `virt/vm_pm.c`. Vcpu 0 suspends its VM
when the others are off. They are looked at one after the other, and the
modules of each get their `state_suspend` call before the next is looked at.
What a vcpu's task is left in by `CPU_OFF` comes from `vcpu_off` and
`task_return_to_user` (`core/task.c`). `VmSuspend` models what follows.
-/

namespace Minos.VmSuspendCheck

open Minos.Sched (TaskState)
open Minos.Virq (VmState)

/-! ## `CPU_OFF` -/

/-- The two flags of `ti.flags` for a vcpu's task. -/
structure TifFlags where
  needStop : Bool
  needFreeze : Bool
  deriving DecidableEq, Repr

def vcpuOff (f : TifFlags) : TifFlags := { f with needFreeze := true }

/-- `task_return_to_user`: the task's state after it. -/
def taskReturnToUser (f : TifFlags) (st : TaskState) : TaskState :=
  if f.needStop then .stop else if f.needFreeze then .suspend else st

/-- The state of a running vcpu's task once it has called `CPU_OFF`. -/
def offState : TaskState := taskReturnToUser (vcpuOff ⟨false, false⟩) .running

/-! ## Modules -/

/-- `struct vmodule`, of which a vcpu has a context of type `γ`. -/
structure Vmodule (γ : Type) where
  id : Nat
  stateSuspend : Option (γ → γ)

structure Vcpu (γ : Type) where
  state : TaskState
  context : Nat → γ

structure Vm (γ : Type) where
  state : VmState
  /-- the vcpus after vcpu 0 -/
  others : List (Vcpu γ)

variable {γ : Type} (mods : List (Vmodule γ))

/-- `suspend_vcpu_vmodule_state`. -/
def suspendVcpuVmoduleState (v : Vcpu γ) : Vcpu γ :=
  { v with context := mods.foldl (fun ctx m =>
      match m.stateSuspend with
      | some f => Function.update ctx m.id (f (ctx m.id))
      | none => ctx) v.context }

/-- The loop over the vcpus after vcpu 0: what it leaves of them, and
whether it gives up. -/
def suspendOthers : List (Vcpu γ) → List (Vcpu γ) × Option Errno
  | [] => ([], none)
  | v :: vs =>
    if v.state ≠ .stop then (v :: vs, some .einval)
    else
      let r := suspendOthers vs
      (suspendVcpuVmoduleState mods v :: r.1, r.2)

/-- `__vm_suspend` called by vcpu `cur` of the VM, up to where vcpu 0 goes
idle; after that it returns 0. -/
def vmSuspend (cur : Nat) (vm : Vm γ) : Vm γ × Option Errno :=
  if cur ≠ 0 then (vm, some .eperm)
  else
    match suspendOthers mods vm.others with
    | (others, some e) => ({ vm with others }, some e)
    | (others, none) => (⟨.suspend, others⟩, none)

/-- Vcpu 0 can suspend a VM all other vcpus of which are off, and a call that
fails leaves the VM as it is. -/
def Right (vm : Vm γ) : Prop :=
  ((∀ v ∈ vm.others, v.state = offState) → (vmSuspend mods 0 vm).2 = none) ∧
    ((vmSuspend mods 0 vm).2 ≠ none → (vmSuspend mods 0 vm).1 = vm)

/-! ## The loop -/

theorem suspendOthers_ok_iff (vs : List (Vcpu γ)) :
    (suspendOthers mods vs).2 = none ↔ ∀ v ∈ vs, v.state = .stop := by
  induction vs with
  | nil => simp [suspendOthers]
  | cons v vs ih =>
    rw [suspendOthers, List.forall_mem_cons]
    split
    · rename_i hne
      exact ⟨nofun, fun h => absurd h.1 hne⟩
    · rename_i hstop
      rw [ih]
      exact ⟨fun h => ⟨not_not.mp hstop, h⟩, And.right⟩

/-- A loop that gives up has called the modules of the stopped vcpus before
the first that is not. -/
theorem suspendOthers_append {pre : List (Vcpu γ)} {v : Vcpu γ} (vs : List (Vcpu γ))
    (hpre : ∀ u ∈ pre, u.state = .stop) (hv : v.state ≠ .stop) :
    suspendOthers mods (pre ++ v :: vs)
      = (pre.map (suspendVcpuVmoduleState mods) ++ v :: vs, some .einval) := by
  induction pre with
  | nil => rw [List.nil_append, suspendOthers, if_pos hv, List.map_nil, List.nil_append]
  | cons u pre ih =>
    obtain ⟨hu, hpre⟩ := List.forall_mem_cons.mp hpre
    rw [List.cons_append, suspendOthers, if_neg (not_not.mpr hu), ih hpre]
    rfl

theorem vmSuspend_ok_iff (vm : Vm γ) :
    (vmSuspend mods 0 vm).2 = none ↔ ∀ v ∈ vm.others, v.state = .stop := by
  rw [← suspendOthers_ok_iff mods, vmSuspend, if_neg (by decide)]
  rcases suspendOthers mods vm.others with ⟨others, _ | e⟩
  · exact ⟨fun _ => rfl, fun _ => rfl⟩
  · exact ⟨nofun, nofun⟩

/-- The first vcpu that is not stopped. -/
theorem exists_first {vs : List (Vcpu γ)} (h : ¬∀ v ∈ vs, v.state = .stop) :
    ∃ pre v rest, vs = pre ++ v :: rest ∧ (∀ u ∈ pre, u.state = .stop) ∧ v.state ≠ .stop := by
  induction vs with
  | nil => exact absurd (by simp) h
  | cons v vs ih =>
    by_cases hv : v.state = .stop
    · obtain ⟨pre, u, rest, rfl, hpre, hu⟩ := ih fun hall =>
        h (List.forall_mem_cons.mpr ⟨hv, hall⟩)
      exact ⟨v :: pre, u, rest, rfl, List.forall_mem_cons.mpr ⟨hv, hpre⟩, hu⟩
    · exact ⟨[], v, vs, rfl, by simp, hv⟩

/-- The modules leave the vcpus in front of the first that is not stopped as
they are. -/
def ModulesKeep (vm : Vm γ) : Prop :=
  ∀ pre v rest, vm.others = pre ++ v :: rest → (∀ u ∈ pre, u.state = .stop) →
    v.state ≠ .stop → ∀ u ∈ pre, suspendVcpuVmoduleState mods u = u

/-- A module without a `state_suspend` call changes nothing; no module of the
hypervisor has one. -/
theorem modulesKeep_of_none (h : ∀ m ∈ mods, m.stateSuspend = none) (vm : Vm γ) :
    ModulesKeep mods vm := by
  intro pre v rest _ _ _ u _
  have hfold : ∀ (l : List (Vmodule γ)) (ctx : Nat → γ), (∀ m ∈ l, m.stateSuspend = none) →
      l.foldl (fun ctx m => match m.stateSuspend with
        | some f => Function.update ctx m.id (f (ctx m.id))
        | none => ctx) ctx = ctx := by
    intro l
    induction l with
    | nil => exact fun _ _ => rfl
    | cons m l ih =>
      intro ctx hl
      obtain ⟨hm, hl⟩ := List.forall_mem_cons.mp hl
      rw [List.foldl_cons, hm]
      exact ih ctx hl
  rw [suspendVcpuVmoduleState, hfold mods u.context h]

theorem fails_unchanged_iff (vm : Vm γ) :
    ((vmSuspend mods 0 vm).2 ≠ none → (vmSuspend mods 0 vm).1 = vm) ↔
      ModulesKeep mods vm := by
  constructor
  · intro h pre v rest hvs hpre hv
    have hrun := suspendOthers_append mods rest hpre hv
    rw [vmSuspend, if_neg (by decide), hvs, hrun] at h
    have hsame := congrArg Vm.others (h nofun)
    rw [hvs] at hsame
    have hmap := List.append_cancel_right hsame
    exact fun u hu => List.map_eq_map_iff.mp (hmap.trans (List.map_id pre).symm) u hu
  · intro h hfail
    obtain ⟨pre, v, rest, hvs, hpre, hv⟩ :=
      exists_first fun hall => hfail ((vmSuspend_ok_iff mods vm).mpr hall)
    have hkeep := h pre v rest hvs hpre hv
    have hrun := suspendOthers_append mods rest hpre hv
    rw [List.map_congr_left hkeep, List.map_id'] at hrun
    rw [vmSuspend, if_neg (by decide), hvs, hrun, ← hvs]

/-- **Suspend**: vcpu 0 can suspend the VM when the others are off, and
changes nothing when it cannot, exactly when there is no other vcpu or one that
`CPU_OFF` did not turn off, and the modules keep what they may not change. -/
theorem vm_suspend_right_iff (vm : Vm γ) :
    Right mods vm ↔
      (vm.others = [] ∨ ∃ v ∈ vm.others, v.state ≠ offState) ∧ ModulesKeep mods vm := by
  rw [Right, fails_unchanged_iff, vmSuspend_ok_iff]
  refine and_congr_left fun _ => ?_
  constructor
  · intro h
    by_contra hno
    rw [not_or, not_exists] at hno
    obtain ⟨hne, hoff⟩ := hno
    have hall : ∀ v ∈ vm.others, v.state = offState := fun v hv => by
      by_contra hv'
      exact hoff v ⟨hv, hv'⟩
    -- the task of a vcpu that is off is suspended, not stopped
    obtain ⟨v, hv⟩ := List.exists_mem_of_ne_nil _ hne
    have hstop := h hall v hv
    rw [hall v hv] at hstop
    exact absurd hstop (by decide)
  · rintro (hnil | ⟨v, hv, hne⟩) hall
    · simp [hnil]
    · exact absurd (hall v hv) hne

/-- Of the other vcpus of the first VM vcpu 1 is stopped and vcpu 2 runs; those of the second are
both stopped. No module has a `state_suspend` call. -/
theorem vm_suspend_right_stopped :
    let stopped : Vcpu Nat := ⟨.stop, fun _ => 0⟩
    let busy : Vm Nat := ⟨.online, [stopped, ⟨.running, fun _ => 0⟩]⟩
    let idle : Vm Nat := ⟨.online, [stopped, stopped]⟩
    ((vmSuspend [⟨0, none⟩] 0 busy).2 = some .einval ∧ Right [⟨0, none⟩] busy) ∧
      (vmSuspend [⟨0, none⟩] 0 idle).2 = none ∧ Right [⟨0, none⟩] idle := by
  intro stopped busy idle
  have hkeep := modulesKeep_of_none [(⟨0, none⟩ : Vmodule Nat)] (by simp)
  refine ⟨⟨rfl, (vm_suspend_right_iff _ busy).mpr
    ⟨Or.inr ⟨⟨.running, fun _ => 0⟩, ?_, ?_⟩, hkeep _⟩⟩, rfl,
    (vm_suspend_right_iff _ idle).mpr ⟨Or.inr ⟨stopped, ?_, ?_⟩, hkeep _⟩⟩
  · simp [busy]
  · decide
  · simp [idle]
  · decide

/-- A VM with two vcpus of which vcpu 1 called `CPU_OFF`. -/
theorem vm_suspend_refuses_off :
    (vmSuspend [⟨0, none⟩] 0 (⟨.online, [⟨offState, fun _ => 0⟩]⟩ : Vm Nat)).2 = some .einval ∧
      ¬ Right [⟨0, none⟩] (⟨.online, [⟨offState, fun _ => 0⟩]⟩ : Vm Nat) := by
  refine ⟨rfl, fun h => ?_⟩
  have hok := h.1 (by simp)
  cases hok

end Minos.VmSuspendCheck
