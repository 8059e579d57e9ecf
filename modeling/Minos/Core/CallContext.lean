import Minos.Lib.Code
import Minos.Core.TaskReady
import Minos.Core.Timer
import Minos.Virt.Vgic
import Minos.Virt.Vmcs

/-!
# The context a function is called in

The preempt count of the running task and the interrupt mask of its cpu, and what
`smp_function_call`, `__vcpu_trap`, `__create_task` and `__mod_timer` do to them on every path. What
the code reads from memory others write (locks, indices, `need_resched`, a pointer from the
allocator) are inputs. The switch to another task and back, by `svc`, saves both: the count is in
the task, the mask in its saved state. What is done with the locks held, and the functions the
source calls through a pointer, work on a state of any type and are taken to keep the context; for
`task_ready` and `__mod_timer` that work is connected to its models below. Prints, which lock and
unlock for themselves, are left out.

`smp_function_call` returns from its check of the cpu with preemption disabled, and `__vcpu_trap`
returns from a failed `send_virq_to_vm` with interrupts enabled. The rest is balanced.
-/

namespace Minos.CallContext

open Minos.Lib Minos.Lib.Code

/-! ## The context -/

/-- `preempt_count`, the `DAIF` register, and `in_interrupt()`. -/
structure Ctx where
  preempt : Int
  daif : BitVec 4
  inInterrupt : Bool
  deriving DecidableEq, Repr

/-- The bit that masks interrupts. -/
def daifI : BitVec 4 := 2

def Ctx.irqDisabled (c : Ctx) : Prop := c.daif &&& daifI ≠ 0

instance (c : Ctx) : Decidable c.irqDisabled := inferInstanceAs (Decidable (_ ≠ _))

variable {σ α β : Type}

abbrev C (σ α : Type) := Code (Ctx × σ) Nat α

def context : C σ Ctx := do return (← read).1

def setContext (f : Ctx → Ctx) : C σ Unit := update fun s => (f s.1, s.2)

/-- The code returns in the context it was entered in. -/
def Balanced (x : C σ α) : Prop := ∀ c w, Always x (fun _ s => s.1 = c) (c, w)

def archSaveIrqflags : C σ (BitVec 4) := do return (← context).daif

def archRestoreIrqflags (flags : BitVec 4) : C σ Unit :=
  setContext fun c => { c with daif := flags }

def archDisableLocalIrq : C σ Unit := setContext fun c => { c with daif := c.daif ||| daifI }

def archEnableLocalIrq : C σ Unit := setContext fun c => { c with daif := c.daif &&& ~~~ daifI }

def localIrqSave : C σ (BitVec 4) := do
  let flags ← archSaveIrqflags
  archDisableLocalIrq
  return flags

def localIrqRestore (flags : BitVec 4) : C σ Unit := archRestoreIrqflags flags

/-- `sys_sched`: `sched_check` stops the machine, and the task comes back from `svc`. -/
def sysSched : C σ Unit := do
  let c ← context
  if c.inInterrupt = true ∨ c.irqDisabled ∧ c.preempt ≠ 0 then stop

/-- `sched`, until `need_resched` is not set any more. -/
def sched : C σ Unit :=
  loop do
    sysSched
    let need ← input
    return if need ≠ 0 then none else some ()

def condResched : C σ Unit := do
  let need ← input
  let c ← context
  if need ≠ 0 ∧ c.preempt = 0 ∧ ¬ c.irqDisabled then sched

def preemptDisable : C σ Unit := setContext fun c => { c with preempt := c.preempt + 1 }

def preemptEnable : C σ Unit := do
  setContext fun c => { c with preempt := c.preempt - 1 }
  condResched

def spinLock : C σ Unit := preemptDisable

def spinUnlock : C σ Unit := preemptEnable

def spinLockIrqsave : C σ (BitVec 4) := do
  preemptDisable
  let flags ← archSaveIrqflags
  archDisableLocalIrq
  return flags

def spinUnlockIrqrestore (flags : BitVec 4) : C σ Unit := do
  archRestoreIrqflags flags
  preemptEnable

/-- A function the source calls through a pointer, or one whose work is not on the context. -/
structure Callee (σ : Type) where
  call : C σ Unit
  balanced : Balanced call

/-- Work on the state, which may stop the machine. -/
def Callee.work (f : σ → Option σ) : Callee σ where
  call s := (f s.1.2).map fun w => ((), (s.1.1, w), s.2)
  balanced c w t _ s t' h := by
    obtain ⟨w', -, hs⟩ := Option.map_eq_some_iff.mp h
    cases hs
    rfl

/-! ## `smp_function_call` -/

/-- `SMP_CALL_LOCKED`. -/
def smpCallLocked : Nat := 1

/-- `smp_call_wait`: the word `flags` is read until the lock bit is clear. -/
def smpCallWait : C σ Unit :=
  loop do
    let flags ← input
    return if flags &&& smpCallLocked ≠ 0 then none else some ()

/-- `smp_function_call`, on the cpu `cpuid`. The call's record is not part of the context. -/
def smpFunctionCall (nrCpus cpuid cpu : Int) (fn : Callee σ) (wait : Bool) : C σ Int := do
  preemptDisable
  if nrCpus ≤ cpu then return -Errno.einval.code
  if cpu = cpuid then
    let flags ← localIrqSave
    fn.call
    localIrqRestore flags
    preemptEnable
    return 0
  smpCallWait
  if wait then smpCallWait
  preemptEnable
  return 0

/-! ## `__vcpu_trap` -/

/-- The line of the vcpu that traps, with the host VM it is sent to and the number of the vcpu for
`src`; the cpus of the vcpu and of vcpu 0 of the host. -/
structure TrapEnv (σ : Type) where
  vmcsIrq : Int
  vm0 : Virq.Vm
  cur : Nat
  affinity : Nat
  affinity0 : Nat
  kick : Callee σ

/-- A loop of `__vcpu_trap`, until the indices are equal: `false`, or the task has to stop:
`true`. -/
def trapWait (yield : Bool) : C σ Bool :=
  loop do
    let guestIndex ← input
    let hostIndex ← input
    if guestIndex = hostIndex then return some false
    if yield then sched
    let needStop ← input
    return if needStop ≠ 0 then some true else none

/-- `__vcpu_trap`. Its stores to the page of the vcpu are not part of the context, and its result
is what the host left there. -/
def vcpuTrap (e : TrapEnv σ) (type reason : Nat) (nonblock : Bool) : C σ Int := do
  if e.vmcsIrq < 0 then return -Errno.enoent.code
  if VmTrap.vmtrapTypeUnknown ≤ type ∨ VmTrap.vmtrapReasonUnknown ≤ reason then
    return -Errno.einval.code
  let flags ← localIrqSave
  archEnableLocalIrq
  if ← trapWait (e.affinity < e.affinity0) then
    localIrqRestore flags
    return -Errno.eabort.code
  match Virq.sendVirqToVm e.vm0 e.cur e.vmcsIrq.toNat with
  | none => stop
  | some (.error _) => return -Errno.efault.code
  | some (.ok _) => e.kick.call
  if nonblock = false ∨ e.affinity = e.affinity0 then
    if ← trapWait (e.affinity < e.vm0.vcpuNr) then
      localIrqRestore flags
      return -Errno.eabort.code
  localIrqRestore flags
  let trapRet ← input
  return trapRet

/-! ## `__create_task` -/

/-- A call of the allocator, or `alloc_tid`: the answer is read with the lock held. -/
def lockedCall : C σ Nat := do
  spinLock
  let answer ← input
  spinUnlock
  return answer

/-- `free`. -/
def free : C σ Unit := do
  spinLock
  spinUnlock

/-- `init_timer`. -/
def initTimer : C σ Unit := do
  preemptDisable
  preemptEnable

/-- `do_create_task`: `false` if there is no memory for the task or its stack. -/
def doCreateTask : C σ Bool := do
  let task ← lockedCall
  if task = 0 then return false
  let stack ← lockedCall
  if stack = 0 then
    free
    return false
  initTimer
  return true

/-- `do_hooks`. -/
def doHooks : List (Callee σ) → C σ Unit
  | [] => return ()
  | hook :: hooks => do
    hook.call
    doHooks hooks

/-- `task_ready`; `remote` says that the cpu of the task is another one. -/
def taskReady (smpReady addReady : Callee σ) (remote : Bool) : C σ Unit := do
  preemptDisable
  if remote then
    let flags ← spinLockIrqsave
    smpReady.call
    spinUnlockIrqrestore flags
  else
    let flags ← localIrqSave
    addReady.call
    localIrqRestore flags
  preemptEnable

/-- `__create_task`, with the flags of the task that decide what it calls. -/
def createTask (osNrTasks : Nat) (hooks : List (Callee σ))
    (archInitTask smpReady addReady : Callee σ)
    (vcpu noAutoStart remote osIsRunning : Bool) : C σ Bool := do
  let tid ← lockedCall
  if osNrTasks ≤ tid then return false
  preemptDisable
  let created ← doCreateTask
  if created = false then
    preemptEnable
    return false
  doHooks hooks
  if vcpu = false then archInitTask.call
  if noAutoStart = false then taskReady smpReady addReady remote
  preemptEnable
  if osIsRunning then sched
  return true

/-! ## `__mod_timer` -/

/-- `__mod_timer` for a timer of the cpu `timerCpu`. -/
def modTimer (timerCpu : Option Nat) (cpu : Nat) (queue : Callee σ) : C σ Int := do
  preemptDisable
  if ¬ SoftTimer.MayMod timerCpu cpu then stop
  let flags ← spinLockIrqsave
  queue.call
  spinUnlockIrqrestore flags
  preemptEnable
  return 0

/-! ## What the parts do -/

section Rules

variable {c : Ctx} {w : σ} {x : C σ α} {f : α → C σ β} {R : β → Ctx × σ → Prop}

theorem Balanced.always {Q : α → Ctx × σ → Prop} (h : Balanced x) (hQ : ∀ a w, Q a (c, w)) :
    Always x Q (c, w) := by
  refine always_mono ?_ (h c w)
  rintro a ⟨_, w'⟩ rfl
  exact hQ a w'

theorem Balanced.bind (hx : Balanced x) (hf : ∀ a, Balanced (f a)) : Balanced (x >>= f) :=
  fun c _ => always_bind (hx.always fun a w => hf a c w)

theorem Balanced.cond {p : Prop} [Decidable p] {x : C σ Unit} {y : Unit → C σ β}
    (hx : Balanced x) (hy : ∀ w, Always (y ()) R (c, w)) :
    Always (if p then x >>= y else y ()) R (c, w) := by
  split
  · exact always_bind (hx.always fun _ => hy)
  · exact hy w

theorem balanced_pure (a : α) : Balanced (pure a : C σ α) := fun _ _ => always_pure rfl

theorem always_context {Q : Ctx → Ctx × σ → Prop} (h : Q c (c, w)) : Always context Q (c, w) :=
  always_bind (always_read (always_pure h))

theorem keeps_sysSched : Keeps (sysSched : C σ Unit) := by
  rintro ⟨c, w⟩
  refine always_bind (always_context ?_)
  split
  · exact always_stop
  · exact always_pure rfl

theorem keeps_sched : Keeps (sched : C σ Unit) := by
  intro s
  refine always_loop (· = s) ?_ rfl
  rintro _ rfl
  refine always_bind (keeps_sysSched.always fun _ => ?_)
  refine always_bind (always_input fun need => always_pure ?_)
  split <;> rfl

theorem keeps_condResched : Keeps (condResched : C σ Unit) := by
  rintro ⟨c, w⟩
  refine always_bind (always_input fun need => ?_)
  refine always_bind (always_context ?_)
  split
  · exact keeps_sched _
  · exact always_pure rfl

variable {Q : Unit → Ctx × σ → Prop} {Q' : BitVec 4 → Ctx × σ → Prop} {flags : BitVec 4}

theorem always_setContext {g : Ctx → Ctx} (h : Q () (g c, w)) : Always (setContext g) Q (c, w) :=
  always_update h

theorem always_preemptDisable (h : Q () ({ c with preempt := c.preempt + 1 }, w)) :
    Always preemptDisable Q (c, w) :=
  always_setContext h

theorem always_preemptEnable (h : Q () ({ c with preempt := c.preempt - 1 }, w)) :
    Always preemptEnable Q (c, w) :=
  always_bind (always_setContext (keeps_condResched.always fun _ => h))

theorem always_localIrqSave (h : Q' c.daif ({ c with daif := c.daif ||| daifI }, w)) :
    Always localIrqSave Q' (c, w) :=
  always_bind (always_bind (always_context (always_pure
    (always_bind (always_setContext (always_pure h))))))

theorem always_localIrqRestore (h : Q () ({ c with daif := flags }, w)) :
    Always (localIrqRestore flags) Q (c, w) := by
  rw [localIrqRestore, archRestoreIrqflags]
  exact always_setContext h

theorem always_spinLockIrqsave
    (h : Q' c.daif ({ c with preempt := c.preempt + 1, daif := c.daif ||| daifI }, w)) :
    Always spinLockIrqsave Q' (c, w) :=
  always_bind (always_preemptDisable (always_localIrqSave h))

theorem always_spinUnlockIrqrestore
    (h : Q () ({ c with preempt := c.preempt - 1, daif := flags }, w)) :
    Always (spinUnlockIrqrestore flags) Q (c, w) :=
  always_bind (always_localIrqRestore (always_preemptEnable h))

end Rules

section Parts

variable {c : Ctx} {w : σ}

theorem Ctx.enabled_disabled (c : Ctx) : { c with preempt := c.preempt + 1 - 1 } = c := by
  rw [Int.add_sub_cancel]

theorem keeps_smpCallWait : Keeps (smpCallWait : C σ Unit) := by
  intro s
  refine always_loop (· = s) ?_ rfl
  rintro _ rfl
  refine always_bind (always_input fun flags => always_pure ?_)
  split <;> rfl

theorem keeps_trapWait (yield : Bool) : Keeps (trapWait yield : C σ Bool) := by
  intro s₀
  refine always_loop (· = s₀) ?_ rfl
  rintro s rfl
  refine always_bind (always_input fun guestIndex => ?_)
  refine always_bind (always_input fun hostIndex => ?_)
  split
  · exact always_pure rfl
  refine keeps_sched.cond (always_bind (always_input fun needStop => always_pure ?_))
  split <;> rfl

theorem balanced_lockedCall : Balanced (lockedCall : C σ Nat) := by
  intro c w
  refine always_bind (always_preemptDisable ?_)
  refine always_bind (always_input fun answer => ?_)
  refine always_bind (always_preemptEnable ?_)
  exact always_pure c.enabled_disabled

theorem balanced_disableEnable :
    Balanced (preemptDisable >>= fun _ => preemptEnable : C σ Unit) := fun c _ =>
  always_bind (always_preemptDisable (always_preemptEnable c.enabled_disabled))

theorem balanced_doCreateTask : Balanced (doCreateTask : C σ Bool) := by
  refine balanced_lockedCall.bind fun task => ?_
  split
  · exact balanced_pure _
  refine balanced_lockedCall.bind fun stack => ?_
  split
  · exact balanced_disableEnable.bind fun _ => balanced_pure _
  · exact balanced_disableEnable.bind fun _ => balanced_pure _

theorem balanced_doHooks (hooks : List (Callee σ)) : Balanced (doHooks hooks) := by
  induction hooks with
  | nil => exact balanced_pure _
  | cons hook hooks ih => exact hook.balanced.bind fun _ => ih

/-- The code keeps the context and takes the state `w` to one with `P`. -/
def Leaves (x : C σ Unit) (w : σ) (P : σ → Prop) : Prop :=
  ∀ c, Always x (fun _ s => s.1 = c ∧ P s.2) (c, w)

theorem leaves_work (f : σ → Option σ) (w : σ) :
    Leaves (Callee.work f).call w fun w' => f w = some w' := by
  intro c t a s t' h
  obtain ⟨w', hw, hs⟩ := Option.map_eq_some_iff.mp h
  cases hs
  exact ⟨rfl, hw⟩

theorem Callee.leaves (x : Callee σ) (w : σ) : Leaves x.call w fun _ => True := fun _ =>
  x.balanced.always fun _ _ => ⟨rfl, trivial⟩

theorem Leaves.always {x : C σ Unit} {P : σ → Prop} {Q : Unit → Ctx × σ → Prop}
    (h : Leaves x w P) (hQ : ∀ w', P w' → Q () (c, w')) : Always x Q (c, w) := by
  refine always_mono ?_ (h c)
  rintro _ ⟨_, w'⟩ ⟨rfl, hw⟩
  exact hQ w' hw

variable {smpReady addReady queue : Callee σ} {remote : Bool} {P : σ → Prop}

theorem leaves_taskReady (h : Leaves (if remote then smpReady else addReady).call w P) :
    Leaves (taskReady smpReady addReady remote) w P := by
  intro c
  refine always_bind (always_preemptDisable ?_)
  cases remote
  · refine always_bind (always_localIrqSave ?_)
    refine always_bind (h.always fun w' hw => ?_)
    refine always_bind (always_localIrqRestore (always_preemptEnable ?_))
    exact ⟨c.enabled_disabled, hw⟩
  · refine always_bind (always_spinLockIrqsave ?_)
    refine always_bind (h.always fun w' hw => ?_)
    refine always_bind (always_spinUnlockIrqrestore (always_preemptEnable ?_))
    simp only [Int.add_sub_cancel, hw, and_self]

theorem balanced_taskReady (remote : Bool) : Balanced (taskReady smpReady addReady remote) :=
  fun c w => always_mono (fun _ _ h => h.1) (leaves_taskReady (Callee.leaves _ w) c)

/-- On the cpu of the task, the work of `task_ready` is that of its model. -/
theorem taskReady_cpu (T : Sched.Tasks) (s : TaskReady.Cpu) (t : Nat) (preempt remote : Bool) :
    Leaves (taskReady (.work (TaskReady.smpTaskReady · t preempt))
        (.work (TaskReady.addTask T · t preempt)) remote) s
      fun s' => TaskReady.taskReady T s t preempt (!remote) = some s' := by
  refine leaves_taskReady ?_
  cases remote
  · exact leaves_work (TaskReady.addTask T · t preempt) s
  · exact leaves_work (TaskReady.smpTaskReady · t preempt) s

theorem always_modTimer {timerCpu : Option Nat} {cpu : Nat} (h : Leaves queue.call w P) :
    Always (modTimer timerCpu cpu queue)
      (fun _ s => s.1 = c ∧ SoftTimer.MayMod timerCpu cpu ∧ P s.2) (c, w) := by
  refine always_bind (always_preemptDisable ?_)
  dsimp only
  split
  · exact always_bind always_stop
  rename_i hcpu
  refine always_bind (always_spinLockIrqsave ?_)
  refine always_bind (h.always fun w' hw => ?_)
  refine always_bind (always_spinUnlockIrqrestore ?_)
  refine always_bind (always_preemptEnable (always_pure ?_))
  simp only [Int.add_sub_cancel, hw, not_not.mp hcpu, and_self]

theorem balanced_modTimer (timerCpu : Option Nat) (cpu : Nat) :
    Balanced (modTimer timerCpu cpu queue) :=
  fun _ w => always_mono (fun _ _ h => h.1) (always_modTimer (queue.leaves w))

/-- On the timers of the cpu, the work of `__mod_timer` is that of its model. -/
theorem modTimer_cpu (s : SoftTimer.Sys) (t : Nat) (timerCpu : Option Nat) (cpu : Nat) (c : Ctx) :
    Always (modTimer timerCpu cpu (.work fun s => some (SoftTimer.modTimerLocked s t)))
      (fun _ s' => s'.1 = c ∧ SoftTimer.MayMod timerCpu cpu ∧
        some (SoftTimer.modTimerLocked s t) = some s'.2) (c, s) :=
  always_modTimer (leaves_work _ s)

end Parts

/-! ## The four functions -/

section Calls

theorem balanced_smpFunctionCall {nrCpus cpuid cpu : Int} (fn : Callee σ) (wait : Bool)
    (h : cpu < nrCpus) : Balanced (smpFunctionCall nrCpus cpuid cpu fn wait) := by
  intro c w
  refine always_bind (always_preemptDisable ?_)
  rw [if_neg (Int.not_le.mpr h)]
  split
  · refine always_bind (always_localIrqSave ?_)
    refine always_bind (fn.balanced.always fun _ _ => ?_)
    refine always_bind (always_localIrqRestore ?_)
    refine always_bind (always_preemptEnable ?_)
    exact always_pure c.enabled_disabled
  · refine always_bind (keeps_smpCallWait.always fun _ => ?_)
    refine keeps_smpCallWait.cond ?_
    exact always_bind (always_preemptEnable (always_pure c.enabled_disabled))

theorem smpFunctionCall_einval {nrCpus cpuid cpu : Int} (fn : Callee σ) (wait : Bool)
    (h : nrCpus ≤ cpu) (c : Ctx) (w : σ) (t : List Nat) :
    smpFunctionCall nrCpus cpuid cpu fn wait ((c, w), t) =
      some (-Errno.einval.code, ({ c with preempt := c.preempt + 1 }, w), t) := by
  rw [smpFunctionCall, if_pos h]
  rfl

/-- The checks before the context is touched. -/
def TrapRefused (e : TrapEnv σ) (type reason : Nat) : Prop :=
  e.vmcsIrq < 0 ∨ VmTrap.vmtrapTypeUnknown ≤ type ∨ VmTrap.vmtrapReasonUnknown ≤ reason

/-- They are those of the model of the page, where such a trap is not begun. -/
theorem trapRefused_iff (e : TrapEnv σ) (sameCpu : Bool) (s : VmTrap.Sys) (t : VmTrap.Trap)
    (wantsResult nonblock : Bool) :
    TrapRefused e t.type t.reason ↔
      VmTrap.vcpuTrap ⟨0 ≤ e.vmcsIrq, sameCpu⟩ s t wantsResult nonblock = s := by
  have hpush (f : VmTrap.Frame) : { s with stack := f :: s.stack } ≠ s := fun h =>
    List.cons_ne_self _ _ (congrArg VmTrap.Sys.stack h)
  unfold TrapRefused VmTrap.vcpuTrap
  by_cases hirq : e.vmcsIrq < 0
  · simp [hirq, Int.not_le.mpr hirq]
  · by_cases hargs : VmTrap.vmtrapTypeUnknown ≤ t.type ∨ VmTrap.vmtrapReasonUnknown ≤ t.reason
    · simp [hirq, Int.not_lt.mp hirq, hargs]
    · simp [hirq, Int.not_lt.mp hirq, hargs, hpush]

/-- `send_virq_to_vm` returns an error. -/
def TrapEnv.SendFails (e : TrapEnv σ) : Prop :=
  ∃ err, Virq.sendVirqToVm e.vm0 e.cur e.vmcsIrq.toNat = some (.error err)

/-- The context after `local_irq_save` and `local_irq_enable`. -/
def Ctx.opened (c : Ctx) : Ctx := { c with daif := (c.daif ||| daifI) &&& ~~~ daifI }

theorem Ctx.opened_eq_iff (c : Ctx) : c.opened = c ↔ ¬ c.irqDisabled := by
  have hdaif : ∀ d : BitVec 4, (d ||| daifI) &&& ~~~ daifI = d ↔ ¬ (d &&& daifI ≠ 0) := by decide
  rw [irqDisabled, ← hdaif]
  exact ⟨fun h => congrArg Ctx.daif h, fun h => congrArg (fun d => { c with daif := d }) h⟩

variable {e : TrapEnv σ} {type reason : Nat} {nonblock : Bool} {c : Ctx} {w : σ}

theorem always_vcpuTrap (h : TrapRefused e type reason ∨ ¬ e.SendFails ∨ ¬ c.irqDisabled) :
    Always (vcpuTrap e type reason nonblock) (fun _ s => s.1 = c) (c, w) := by
  rw [vcpuTrap]
  split
  · exact always_pure rfl
  split
  · exact always_pure rfl
  rename_i hirq hargs
  have hrefused : ¬ TrapRefused e type reason := not_or.mpr ⟨hirq, hargs⟩
  refine always_bind (always_localIrqSave ?_)
  refine always_bind (always_setContext ?_)
  change Always _ _ (c.opened, w)
  refine always_bind ((keeps_trapWait _).always fun needStop => ?_)
  split
  · exact always_bind (always_localIrqRestore (always_pure rfl))
  have hend (w' : σ) :
      Always (do localIrqRestore c.daif; let trapRet ← input; return (trapRet : Int))
        (fun _ s => s.1 = c) (c.opened, w') :=
    always_bind (always_localIrqRestore (always_bind (always_input fun _ => always_pure rfl)))
  dsimp only
  split
  · exact always_bind always_stop
  · -- the virq is refused: nothing is restored
    rename_i err hsend
    have hopen := (h.resolve_left hrefused).resolve_left (not_not.mpr ⟨err, hsend⟩)
    exact always_pure (c.opened_eq_iff.mpr hopen)
  refine always_bind (e.kick.balanced.always fun _ w' => ?_)
  split
  · refine always_bind ((keeps_trapWait _).always fun needStop => ?_)
    split
    · exact always_bind (always_localIrqRestore (always_pure rfl))
    · exact hend w'
  · exact hend w'

theorem vcpuTrap_efault (nonblock : Bool) (c : Ctx) (w : σ) (hargs : ¬ TrapRefused e type reason)
    (hsend : e.SendFails) :
    vcpuTrap e type reason nonblock ((c, w), [0, 0]) =
      some (-Errno.efault.code, (c.opened, w), []) := by
  obtain ⟨hirq, hargs⟩ := not_or.mp hargs
  obtain ⟨err, hsend⟩ := hsend
  rw [vcpuTrap, if_neg hirq, if_neg hargs]
  simp only [hsend]
  rfl

theorem always_vcpuTrap_iff (e : TrapEnv σ) (type reason : Nat) (nonblock : Bool) (c : Ctx)
    (w : σ) :
    Always (vcpuTrap e type reason nonblock) (fun _ s => s.1 = c) (c, w) ↔
      TrapRefused e type reason ∨ ¬ e.SendFails ∨ ¬ c.irqDisabled := by
  refine ⟨fun h => ?_, always_vcpuTrap⟩
  by_contra hno
  simp only [not_or, not_not] at hno
  exact (c.opened_eq_iff.mp (h _ _ _ _ (vcpuTrap_efault nonblock c w hno.1 hno.2.1))) hno.2.2

theorem balanced_createTask (osNrTasks : Nat) (hooks : List (Callee σ))
    (archInitTask smpReady addReady : Callee σ) (vcpu noAutoStart remote osIsRunning : Bool) :
    Balanced (createTask osNrTasks hooks archInitTask smpReady addReady vcpu noAutoStart remote
      osIsRunning) := by
  refine balanced_lockedCall.bind fun tid => ?_
  split
  · exact balanced_pure _
  intro c w
  refine always_bind (always_preemptDisable ?_)
  refine always_bind (balanced_doCreateTask.always fun created w => ?_)
  split
  · exact always_bind (always_preemptEnable (always_pure c.enabled_disabled))
  refine always_bind ((balanced_doHooks hooks).always fun _ w => ?_)
  refine archInitTask.balanced.cond fun w => ?_
  refine (balanced_taskReady remote).cond fun w => ?_
  refine always_bind (always_preemptEnable ?_)
  exact keeps_sched.cond (always_pure c.enabled_disabled)

end Calls

/-- **Calling context.** `smp_function_call` returns with the preempt count and the interrupt mask
it was entered with exactly if the cpu exists, and `__vcpu_trap` exactly if the virq for the host is
accepted, or the trap is refused before, or interrupts were enabled. `__create_task` and
`__mod_timer` always do. -/
theorem calling_context_balanced_iff (c : Ctx) (w : σ) :
    (∀ (nrCpus cpuid cpu : Int) (fn : Callee σ) (wait : Bool),
      Always (smpFunctionCall nrCpus cpuid cpu fn wait) (fun _ s => s.1 = c) (c, w) ↔
        cpu < nrCpus) ∧
    (∀ (e : TrapEnv σ) (type reason : Nat) (nonblock : Bool),
      Always (vcpuTrap e type reason nonblock) (fun _ s => s.1 = c) (c, w) ↔
        TrapRefused e type reason ∨ ¬ e.SendFails ∨ ¬ c.irqDisabled) ∧
    (∀ (osNrTasks : Nat) (hooks : List (Callee σ)) (archInitTask smpReady addReady : Callee σ)
        (vcpu noAutoStart remote osIsRunning : Bool),
      Always (createTask osNrTasks hooks archInitTask smpReady addReady vcpu noAutoStart remote
        osIsRunning) (fun _ s => s.1 = c) (c, w)) ∧
    ∀ (timerCpu : Option Nat) (cpu : Nat) (queue : Callee σ),
      Always (modTimer timerCpu cpu queue) (fun _ s => s.1 = c) (c, w) := by
  refine ⟨fun nrCpus cpuid cpu fn wait =>
      ⟨fun h => ?_, fun h => balanced_smpFunctionCall fn wait h c w⟩,
    fun e type reason nonblock => always_vcpuTrap_iff e type reason nonblock c w,
    fun osNrTasks hooks archInitTask smpReady addReady vcpu noAutoStart remote osIsRunning =>
      balanced_createTask osNrTasks hooks archInitTask smpReady addReady vcpu noAutoStart remote
        osIsRunning c w,
    fun timerCpu cpu queue => balanced_modTimer timerCpu cpu c w⟩
  by_contra hcpu
  have hcount := congrArg Ctx.preempt
    (h _ _ _ _ (smpFunctionCall_einval fn wait (Int.not_lt.mp hcpu) c w []))
  dsimp only at hcount
  omega

/-- A callee that does nothing. -/
def Callee.nop : Callee Unit := ⟨pure (), balanced_pure ()⟩

-- A task is created and started on another cpu, with one reschedule on the way.
example : createTask 256 [Callee.nop] Callee.nop Callee.nop Callee.nop false false true true
    ((⟨0, 0, false⟩, ()), [7, 0, 1, 0, 1, 0, 0, 0, 0, 1, 0, 0]) =
      some (true, (⟨0, 0, false⟩, ()), []) := by
  decide +kernel

/-- A call for cpu 8 of 8 returns with preemption disabled; a trap whose line the host VM does not
have enabled, made with interrupts masked, returns with them enabled. -/
theorem calling_context_unbalanced :
    smpFunctionCall 8 0 8 Callee.nop true ((⟨0, 0, false⟩, ()), []) =
        some (-Errno.einval.code, (⟨1, 0, false⟩, ()), []) ∧
      vcpuTrap ⟨40, Virq.bootedVm, 0, 1, 0, Callee.nop⟩ 0 0 false
          ((⟨0, daifI, false⟩, ()), [0, 0]) =
        some (-Errno.efault.code, (⟨0, 0, false⟩, ()), []) :=
  ⟨smpFunctionCall_einval Callee.nop true (by decide) _ _ _,
    vcpuTrap_efault false _ _ (by unfold TrapRefused; decide) ⟨.eagain, rfl⟩⟩

end Minos.CallContext
