import Minos.Core.Errno
import Minos.Lib.Run
import Minos.Virt.VcpuTask

/-!
# Powering on a vcpu

`vcpu_power_on` (`virt/vm.c`), which serves PSCI `CPU_ON`, cut at each
access to what the vcpus share: the check of the target's state, the write
of its frame, the `ASSERT` of `vcpu_online`, the `ASSERT` of `task_ready` and
the insertion into a list. No lock is held over any two of them, and the
state the check reads is changed only later, by `irqwork_handler` on the
target's cpu or when the target is first picked.
-/

namespace Minos.CpuOn

open Minos.Lib Minos.Vcpu
open Minos.Sched (TaskState)

/-! ## Data -/

/-- What the calls read of the VM and of the machine. -/
structure Config where
  vcpuNr : Nat
  /-- the physical cpu of each vcpu -/
  affinity : Nat → Nat
  os : Os
  isHostVm : Bool
  /-- `ARM_FEATURE_MPIDR_SHIFT` -/
  mpidrShift : Bool
  nrCpusCluster0 : Nat

def vmNrCpusCluster : Nat := 256

/-- The byte of `affinity` from bit `lsb` on. -/
def affByte (affinity lsb : Nat) : Nat := affinity / 2 ^ lsb % 256

def affinityToCpuid (cfg : Config) (affinity : Nat) : Nat :=
  if cfg.mpidrShift then affByte affinity 16 * cfg.nrCpusCluster0 + affByte affinity 8
  else affByte affinity 8 * cfg.nrCpusCluster0 + affByte affinity 0

def affinityToVcpuid (cfg : Config) (affinity : Nat) : Nat :=
  if cfg.isHostVm then affinityToCpuid cfg affinity
  else affByte affinity 8 * vmNrCpusCluster + affByte affinity 0

/-- Where a vcpu is in `vcpu_power_on(t, entry)`. -/
inductive Call
  | idle
  /-- `vcpu_is_offline` was true -/
  | checked (t entry : Nat)
  /-- past `os_vcpu_power_on` -/
  | written (t entry : Nat)
  /-- past the `ASSERT` of `vcpu_online` -/
  | online (t entry : Nat)
  /-- past the `ASSERT` on `state_list` -/
  | linking (t entry : Nat)
  deriving DecidableEq, Repr

/-- The target of a call under way. -/
def Call.target : Call → Option Nat
  | .idle => none
  | .checked t _ => some t
  | .written t _ => some t
  | .online t _ => some t
  | .linking t _ => some t

/-- What happens, in order. -/
inductive Entry
  /-- a call of `c` returns an error -/
  | refused (c t : Nat) (err : Errno)
  /-- a call of `c` makes `t` ready, whose state is `state`, and returns `0` -/
  | started (c t entry : Nat) (state : TaskState)
  /-- `t` gets a cpu, with its frame -/
  | picked (t : Nat) (frame : Option Nat)
  /-- `t` leaves its cpu, suspended -/
  | off (t : Nat)
  deriving DecidableEq, Repr

structure Sys where
  task : Nat → Task
  call : Nat → Call
  /-- an `ASSERT` failed, or a list was broken by a second insertion -/
  failed : Bool
  log : List Entry

inductive Event
  /-- a call, up to its check -/
  | powerOn (c affinity entry : Nat)
  /-- the next step of the call of `c` -/
  | call (c : Nat)
  /-- `vcpu_off`, by `t` itself -/
  | off (t : Nat)
  | move (t : Nat) (m : Move)
  deriving DecidableEq, Repr

/-! ## Steps -/

def Sys.fail (x : Sys) : Sys := { x with failed := true }

def Sys.setCall (x : Sys) (c : Nat) (s : Call) : Sys :=
  { x with call := Function.update x.call c s }

def Sys.setTask (x : Sys) (t : Nat) (task : Task) : Sys :=
  { x with task := Function.update x.task t task }

def Sys.note (x : Sys) (e : List Entry) : Sys := { x with log := x.log ++ e }

/-- `vcpu_power_on`, up to the check. -/
def vcpuPowerOn (cfg : Config) (x : Sys) (c affinity entry : Nat) : Sys :=
  let t := affinityToVcpuid cfg affinity
  if cfg.vcpuNr ≤ t then x.note [.refused c t .enoent]
  else if (x.task t).state = .suspend then x.setCall c (.checked t entry)
  else x.note [.refused c t .einval]

/-- The rest of `vcpu_power_on`, with `vcpu_online` and `task_ready`. -/
def callStep (cfg : Config) (x : Sys) (c : Nat) : Option Sys :=
  match x.call c with
  | .idle => none
  | .checked t entry =>
    some ((x.setTask t (osVcpuPowerOn cfg.os (x.task t) entry)).setCall c (.written t entry))
  | .written t entry =>
    if (x.task t).state = .suspend then some (x.setCall c (.online t entry))
    else some x.fail
  | .online t entry =>
    if (x.task t).place = none then some (x.setCall c (.linking t entry)) else some x.fail
  | .linking t entry =>
    if (x.task t).place = none then
      let place := if cfg.affinity c = cfg.affinity t then .readyList else .newList
      some (((x.setTask t { x.task t with place := some place }).setCall c .idle).note
        [.started c t entry (x.task t).state])
    else some x.fail

/-- What a scheduling step adds to the log. -/
def moveLog (t : Nat) (task : Task) : Move → List Entry
  | .pick => [.picked t task.frame]
  | .schedOut => [.off t]
  | _ => []

def step (cfg : Config) (x : Sys) (e : Event) : Option Sys :=
  if x.failed then none
  else
    match e with
    | .powerOn c affinity entry =>
      if c < cfg.vcpuNr ∧ x.call c = .idle then some (vcpuPowerOn cfg x c affinity entry)
      else none
    | .call c => callStep cfg x c
    | .off t =>
      if (x.task t).cpu = .on then some (x.setTask t { x.task t with needFreeze := true })
      else none
    | .move t m =>
      ((x.task t).move m).map fun task => (x.setTask t task).note (moveLog t (x.task t) m)

/-! ## What is asked of a vcpu -/

/-- A vcpu as its history tells. -/
inductive Phase
  | off
  /-- made ready by a call with this entry point -/
  | due (entry : Nat)
  | up
  deriving DecidableEq, Repr

/-- A vcpu is made ready when it is off and suspended, gets its first turn
with the entry point of the call, and is off again only after that. -/
def Phase.next (t : Nat) (p : Phase) : Entry → Option Phase
  | .refused _ _ _ => some p
  | .started _ t' entry state =>
    if t' ≠ t then some p
    else if p = .off ∧ state = .suspend then some (.due entry) else none
  | .picked t' frame =>
    if t' ≠ t then some p
    else
      match p, frame with
      | .due entry, some entry' => if entry' = entry then some .up else none
      | .up, none => some .up
      | _, _ => none
  | .off t' =>
    if t' ≠ t then some p else if p = .up then some .off else none

/-- The phase after a history, when it is in order. -/
def life (t : Nat) (p : Phase) : List Entry → Option Phase
  | [] => some p
  | e :: l => (p.next t e).bind fun q => life t q l

/-- A call that finds its target suspended finds it in no list, and no other
call for it under way. -/
def CheckOk (cfg : Config) (x : Sys) : Event → Prop
  | .powerOn _ affinity _ =>
    (x.task (affinityToVcpuid cfg affinity)).state = .suspend →
      (x.task (affinityToVcpuid cfg affinity)).place = none ∧
        ∀ c < cfg.vcpuNr, (x.call c).target ≠ some (affinityToVcpuid cfg affinity)
  | _ => True

instance (cfg : Config) (x : Sys) (e : Event) : Decidable (CheckOk cfg x e) := by
  cases e <;> (unfold CheckOk; infer_instance)

/-! ## Histories -/

section Histories

variable {t : Nat} {p q : Phase}

theorem life_append (t : Nat) (p : Phase) (l l' : List Entry) :
    life t p (l ++ l') = (life t p l).bind fun q => life t q l' := by
  induction l generalizing p with
  | nil => rfl
  | cons e l ih =>
    simp only [List.cons_append, life, Option.bind_assoc]
    exact congrArg _ (funext ih)

/-- The vcpu an entry is about, but for refusals. -/
def Entry.about : Entry → Option Nat
  | .refused _ _ _ => none
  | .started _ t _ _ => some t
  | .picked t _ => some t
  | .off t => some t

theorem next_of_ne {e : Entry} (h : e.about ≠ some t) (p : Phase) : p.next t e = some p := by
  cases e with
  | refused c t' err => rfl
  | started | picked | off => exact if_pos fun heq => h (congrArg some heq)

theorem life_of_ne {l : List Entry} (h : ∀ e ∈ l, e.about ≠ some t) (p : Phase) :
    life t p l = some p := by
  induction l with
  | nil => rfl
  | cons e l ih =>
    obtain ⟨he, hl⟩ := List.forall_mem_cons.mp h
    rw [life, next_of_ne he, Option.bind_some, ih hl]

end Histories

/-! ## The invariant -/

/-- What a phase says of the task. -/
def TaskOk : Phase → Task → Prop
  | .off, task => task.Off
  | .due entry, task => task.Due (some entry)
  | .up, task => task.Up

/-- A call under way has its target to itself: the target is off, and its
frame is the call's once it is written. -/
structure CallOk (cfg : Config) (task : Task) (c entry : Nat) (written : Bool) : Prop where
  caller : c < cfg.vcpuNr
  off : task.Off
  frame : written = true → task.frame = some entry

/-- The call with its target, its entry point and whether it is past
`os_vcpu_power_on`. -/
def Call.args : Call → Option (Nat × Nat × Bool)
  | .idle => none
  | .checked t entry => some (t, entry, false)
  | .written t entry => some (t, entry, true)
  | .online t entry => some (t, entry, true)
  | .linking t entry => some (t, entry, true)

structure Inv (cfg : Config) (ph : Nat → Phase) (x : Sys) : Prop where
  failed : x.failed = false
  tasks : ∀ t, ∃ p, life t (ph t) x.log = some p ∧ TaskOk p (x.task t)
  calls : ∀ c t entry written, (x.call c).args = some (t, entry, written) →
    CallOk cfg (x.task t) c entry written
  alone : ∀ c c' t, (x.call c).target = some t → (x.call c').target = some t → c = c'

/-- No call under way, nothing noted, every vcpu off or up. -/
structure Start (ph : Nat → Phase) (x : Sys) : Prop where
  failed : x.failed = false
  log : x.log = []
  idle : ∀ c, x.call c = .idle
  tasks : ∀ t, TaskOk (ph t) (x.task t)

variable {s : Call}
variable {task : Task}

section Steps

variable {cfg : Config} {ph : Nat → Phase} {x x' : Sys} {c t entry : Nat}

theorem Start.inv (h : Start ph x) : Inv cfg ph x where
  failed := h.failed
  tasks t := ⟨ph t, by rw [h.log]; rfl, h.tasks t⟩
  calls c t entry written hc := by
    rw [h.idle c] at hc
    cases hc
  alone c c' t hc := by
    rw [h.idle c] at hc
    cases hc

theorem target_of_args {written : Bool} (h : s.args = some (t, entry, written)) :
    s.target = some t := by
  cases s <;> cases h <;> rfl

theorem args_of_target (h : s.target = some t) :
    ∃ entry written, s.args = some (t, entry, written) := by
  cases s <;> cases h <;> exact ⟨_, _, rfl⟩

/-- A suspended task in no list is off. -/
theorem Inv.off_of_unlinked (h : Inv cfg ph x) (hstate : (x.task t).state = .suspend)
    (hplace : (x.task t).place = none) :
    life t (ph t) x.log = some .off ∧ (x.task t).Off := by
  obtain ⟨p, hp, hok⟩ := h.tasks t
  cases p with
  | off => exact ⟨hp, hok⟩
  | due entry =>
    have hdue := hok.place
    simp [hplace] at hdue
  | up =>
    cases hok with
    | current _ hready | ready _ hready => simp [hplace] at hready
    | waiting _ _ hwait => simp [hstate] at hwait

theorem Inv.phase_off (h : Inv cfg ph x) (hoff : (x.task t).Off) :
    life t (ph t) x.log = some .off :=
  (h.off_of_unlinked hoff.state hoff.place).1

/-- A change of one task and of what is noted about it, with no call for it
under way. -/
theorem Inv.setTask (h : Inv cfg ph x) {l : List Entry} {p q : Phase}
    (hp : life t (ph t) x.log = some p) (hq : life t p l = some q) (hok : TaskOk q task)
    (hl : ∀ e ∈ l, ∀ u, u ≠ t → e.about ≠ some u)
    (hfree : ∀ c, (x.call c).target ≠ some t) :
    Inv cfg ph ((x.setTask t task).note l) := by
  refine ⟨h.failed, fun u => ?_, fun c u entry written hc => ?_, h.alone⟩
  · by_cases hu : u = t
    · subst hu
      refine ⟨q, ?_, ?_⟩
      · rw [show ((x.setTask u task).note l).log = x.log ++ l from rfl, life_append, hp]
        exact hq
      · simpa [Sys.note, Sys.setTask] using hok
    · obtain ⟨r, hr, hokr⟩ := h.tasks u
      refine ⟨r, ?_, ?_⟩
      · rw [show ((x.setTask t task).note l).log = x.log ++ l from rfl, life_append, hr]
        exact life_of_ne (fun e he => hl e he u hu) r
      · simpa [Sys.note, Sys.setTask, hu] using hokr
  · have hut : u ≠ t := by
      rintro rfl
      exact hfree c (target_of_args hc)
    have hcall := h.calls c u entry written hc
    rw [show ((x.setTask t task).note l).task u = x.task u from Function.update_of_ne hut _ _]
    exact hcall

theorem Inv.setCall (h : Inv cfg ph x) (hok : ∀ t entry written,
      s.args = some (t, entry, written) → CallOk cfg (x.task t) c entry written)
    (hfree : ∀ d t, s.target = some t → d ≠ c → (x.call d).target ≠ some t) :
    Inv cfg ph (x.setCall c s) := by
  have hcall : ∀ d, (x.setCall c s).call d = if d = c then s else x.call d :=
    fun d => Function.update_apply _ _ _ _
  refine ⟨h.failed, h.tasks, fun d t e w hd => ?_, fun d d' t hd hd' => ?_⟩
  · rw [hcall] at hd
    split at hd
    · rename_i hdc
      rw [hdc]
      exact hok t e w hd
    · exact h.calls d t e w hd
  · rw [hcall] at hd hd'
    split at hd <;> split at hd'
    · rename_i hdc hdc'
      rw [hdc, hdc']
    · exact absurd hd' (hfree d' t hd ‹_›)
    · exact absurd hd (hfree d t hd' ‹_›)
    · exact h.alone d d' t hd hd'

/-- A call returns. -/
theorem Inv.release (h : Inv cfg ph x) (c : Nat) : Inv cfg ph (x.setCall c .idle) :=
  h.setCall nofun nofun

/-- The only call for `t` was that of `c`. -/
theorem Inv.free (h : Inv cfg ph x) (hc : (x.call c).target = some t) (d : Nat) :
    ((x.setCall c .idle).call d).target ≠ some t := by
  intro hd
  by_cases hdc : d = c
  · subst hdc
    rw [show (x.setCall d .idle).call d = .idle from Function.update_self _ _ _] at hd
    cases hd
  · rw [show (x.setCall c .idle).call d = x.call d from Function.update_of_ne hdc _ _] at hd
    exact hdc (h.alone d c t hd hc)

/-- A step of the call of `c` that keeps its target. -/
theorem Inv.advance (h : Inv cfg ph x) {written : Bool}
    (hc : (x.call c).target = some t) (hs : s.args = some (t, entry, written))
    (hok : CallOk cfg task c entry written) :
    Inv cfg ph ((x.setTask t task).setCall c s) := by
  obtain ⟨e, w, hargs⟩ := args_of_target hc
  -- the call is taken back, and made again for the new task
  have hset := (h.release c).setTask (l := []) (q := .off)
    (h.phase_off (h.calls c t e w hargs).off) rfl hok.off nofun (h.free hc)
  have hcalled := hset.setCall (c := c) (s := s) ?_ ?_
  · simpa [Sys.setCall, Sys.setTask, Sys.note] using hcalled
  · intro u e w hu
    rw [hs] at hu
    cases hu
    simpa [Sys.note, Sys.setTask] using hok
  · intro d u hu _
    rw [target_of_args hs] at hu
    cases hu
    exact h.free hc d

theorem Inv.refuse (h : Inv cfg ph x) (c t : Nat) (err : Errno) :
    Inv cfg ph (x.note [.refused c t err]) := by
  refine ⟨h.failed, fun u => ?_, h.calls, h.alone⟩
  obtain ⟨p, hp, hok⟩ := h.tasks u
  refine ⟨p, ?_, hok⟩
  rw [show (x.note [.refused c t err]).log = x.log ++ [.refused c t err] from rfl, life_append, hp]
  exact life_of_ne (by simp [Entry.about]) p

theorem Inv.powerOn (h : Inv cfg ph x) {affinity : Nat} (hc : c < cfg.vcpuNr)
    (hok : CheckOk cfg x (.powerOn c affinity entry)) :
    Inv cfg ph (vcpuPowerOn cfg x c affinity entry) := by
  unfold vcpuPowerOn
  simp only
  split
  · exact h.refuse c _ .enoent
  split
  · rename_i hstate
    obtain ⟨hplace, hother⟩ := hok hstate
    generalize affinityToVcpuid cfg affinity = t at hstate hplace hother
    have hfree : ∀ d, (x.call d).target ≠ some t := by
      intro d hd
      obtain ⟨e, w, hargs⟩ := args_of_target hd
      exact hother d (h.calls d t e w hargs).caller hd
    refine h.setCall ?_ fun d u hu _ => ?_
    · rintro u e w ⟨⟩
      exact ⟨hc, (h.off_of_unlinked hstate hplace).2, nofun⟩
    · cases hu
      exact hfree d
  · exact h.refuse c _ .einval

/-- The steps of a call: its target stays off up to the last, which makes it
ready. -/
theorem Inv.callStep (h : Inv cfg ph x) (hos : cfg.os = .linux)
    (hs : callStep cfg x c = some x') : Inv cfg ph x' := by
  have hsame : ∀ t, x.setTask t (x.task t) = x := by
    intro t
    simp [Sys.setTask]
  unfold CpuOn.callStep at hs
  cases hcall : x.call c with
  | idle =>
    rw [hcall] at hs
    cases hs
  | checked t entry =>
    rw [hcall] at hs
    cases hs
    have hc := h.calls c t entry false (by rw [hcall]; rfl)
    rw [hos]
    exact h.advance (by rw [hcall]; rfl) rfl
      ⟨hc.caller, hc.off.osVcpuPowerOn .linux entry, fun _ => rfl⟩
  | written t entry =>
    have hc := h.calls c t entry true (by rw [hcall]; rfl)
    simp only [hcall, if_pos hc.off.state] at hs
    cases hs
    have hadv := h.advance (s := .online t entry) (by rw [hcall]; rfl) rfl hc
    rwa [hsame] at hadv
  | online t entry =>
    have hc := h.calls c t entry true (by rw [hcall]; rfl)
    simp only [hcall, if_pos hc.off.place] at hs
    cases hs
    have hadv := h.advance (s := .linking t entry) (by rw [hcall]; rfl) rfl hc
    rwa [hsame] at hadv
  | linking t entry =>
    have hc := h.calls c t entry true (by rw [hcall]; rfl)
    simp only [hcall, if_pos hc.off.place] at hs
    cases hs
    have hstart : life t .off [.started c t entry (x.task t).state] = some (.due entry) := by
      simp [life, Phase.next, hc.off.state]
    refine (h.release c).setTask (h.phase_off hc.off) hstart ?_ ?_
      (h.free (by rw [hcall]; rfl))
    · refine ⟨hc.off.cpu, hc.frame rfl, ?_⟩
      split
      · exact Or.inr ⟨rfl, Or.inl hc.off.state⟩
      · exact Or.inl ⟨rfl, hc.off.state⟩
    · intro e he u hu
      rw [List.mem_singleton.mp he]
      exact fun heq => hu (Option.some.inj heq).symm

/-- A step of the task, in whatever phase it is. -/
theorem TaskOk.move {p : Phase} {task' : Task} {m : Move} (h : TaskOk p task) (t : Nat)
    (hs : task.move m = some task') :
    p ≠ .off ∧ ∃ q, life t p (moveLog t task m) = some q ∧ TaskOk q task' := by
  cases p with
  | off =>
    rw [Task.Off.move h m] at hs
    cases hs
  | due entry =>
    refine ⟨by simp, ?_⟩
    obtain ⟨rfl, hdue⟩ | ⟨rfl, hup⟩ := Task.Due.move h hs
    · exact ⟨.due entry, rfl, hdue⟩
    · exact ⟨.up, by simp [life, moveLog, Phase.next, Task.Due.frame h], hup⟩
  | up =>
    refine ⟨by simp, ?_⟩
    by_cases hm : m = .schedOut
    · subst hm
      exact ⟨.off, by simp [life, moveLog, Phase.next], Task.Up.schedOut h hs⟩
    · refine ⟨.up, ?_, Task.Up.move h hm hs⟩
      cases m with
      | schedOut => exact absurd rfl hm
      | pick =>
        obtain ⟨⟨-, hoff⟩, -⟩ := Option.ite_none_right_eq_some.mp hs
        have hframe : task.frame = none := by
          cases h with
          | current hcpu => exact absurd hoff hcpu
          | ready _ _ _ hframe | waiting _ _ _ hframe => exact hframe
        simp [life, moveLog, Phase.next, hframe]
      | _ => rfl

theorem Inv.move (h : Inv cfg ph x) {m : Move}
    (hs : (x.task t).move m = some task) :
    Inv cfg ph ((x.setTask t task).note (moveLog t (x.task t) m)) := by
  obtain ⟨p, hp, hok⟩ := h.tasks t
  obtain ⟨hne, q, hq, hokq⟩ := hok.move t hs
  refine h.setTask hp hq hokq (fun e he u hu => ?_) fun c hc => ?_
  · cases m <;> simp only [moveLog, List.mem_singleton, List.not_mem_nil] at he <;> subst he <;>
      exact fun heq => hu (Option.some.inj heq).symm
  · obtain ⟨e, w, hargs⟩ := args_of_target hc
    have hoff := h.phase_off (h.calls c t e w hargs).off
    rw [hp] at hoff
    exact hne (Option.some.inj hoff)

/-- `vcpu_off` only sets a flag. -/
theorem Inv.off (h : Inv cfg ph x) (hcpu : (x.task t).cpu = .on) :
    Inv cfg ph (x.setTask t { x.task t with needFreeze := true }) := by
  obtain ⟨p, hp, hok⟩ := h.tasks t
  have hnote : ∀ y : Sys, y.note [] = y := fun y => by simp [Sys.note]
  have hup : TaskOk p { x.task t with needFreeze := true } ∧ p ≠ .off := by
    cases p with
    | off => simp [Task.Off.cpu hok] at hcpu
    | due entry => simp [Task.Due.cpu hok] at hcpu
    | up =>
      have hup := Task.Up.onCpu hok (by simp [hcpu]) (by simp [hcpu]) (c := .on) (by simp)
        (by simp) true
      rw [← hcpu] at hup
      exact ⟨hup, by simp⟩
  have hset := h.setTask (l := []) hp rfl hup.1 (by simp) fun c hc => by
    obtain ⟨e, w, hargs⟩ := args_of_target hc
    have hoff := h.phase_off (h.calls c t e w hargs).off
    rw [hp] at hoff
    exact hup.2 (Option.some.inj hoff)
  rwa [hnote] at hset

theorem Inv.step (h : Inv cfg ph x) (hos : cfg.os = .linux) {e : Event} (hok : CheckOk cfg x e)
    (hs : step cfg x e = some x') : Inv cfg ph x' := by
  simp only [CpuOn.step, h.failed, Bool.false_eq_true, if_false] at hs
  cases e with
  | powerOn c affinity entry =>
    obtain ⟨⟨hc, -⟩, ⟨⟩⟩ := Option.ite_none_right_eq_some.mp hs
    exact h.powerOn hc hok
  | call c => exact h.callStep hos hs
  | off t =>
    obtain ⟨hcpu, ⟨⟩⟩ := Option.ite_none_right_eq_some.mp hs
    exact h.off hcpu
  | move t m =>
    obtain ⟨task, htask, rfl⟩ := Option.map_eq_some_iff.mp hs
    exact h.move htask

end Steps

/-- **CPU_ON.** From every state without calls under way and over every
interleaving of calls with each other, with `vcpu_off` and with scheduling
in which no call finds its target suspended while it is still in a list or
another call for it is under way, in a VM that runs Linux: no `ASSERT`
fails; every vcpu is made ready only when it is off and suspended, once, and
gets its first turn with the entry point of that call; at most one call for
a vcpu is past its check; and a call for a vcpu that is not off returns
`-EINVAL`. -/
theorem cpu_on_ok {cfg : Config} (hos : cfg.os = .linux) {ph : Nat → Phase} {x y : Sys}
    (hx : Start ph x) {l : List Event} (hl : Along (step cfg) (CheckOk cfg) x l)
    (hy : run (step cfg) x l = some y) :
    y.failed = false ∧ (∀ t, (life t (ph t) y.log).isSome) ∧
      (∀ c c' t, (y.call c).target = some t → (y.call c').target = some t → c = c') ∧
      ∀ c affinity entry t, c < cfg.vcpuNr → y.call c = .idle →
        affinityToVcpuid cfg affinity = t → t < cfg.vcpuNr →
        life t (ph t) y.log ≠ some .off → CheckOk cfg y (.powerOn c affinity entry) →
        step cfg y (.powerOn c affinity entry) = some (y.note [.refused c t .einval]) := by
  have hinv : Inv cfg ph y := run_invariant (fun _ _ _ hi hok hs => hi.step hos hok hs) hx.inv hl hy
  refine ⟨hinv.failed, fun t => ?_, hinv.alone, ?_⟩
  · obtain ⟨p, hp, -⟩ := hinv.tasks t
    rw [hp]
    rfl
  · rintro c affinity entry t hc hidle rfl ht hphase hok
    have hstate : (y.task (affinityToVcpuid cfg affinity)).state ≠ .suspend := by
      intro hsus
      exact hphase ((hinv.off_of_unlinked hsus (hok hsus).1).1)
    simp only [step, hinv.failed, Bool.false_eq_true, if_false, if_pos (And.intro hc hidle),
      vcpuPowerOn, if_neg (Nat.not_le.mpr ht), if_neg hstate]

/-- A guest with three vcpus, one to a cpu. -/
def threeVcpus : Config where
  vcpuNr := 3
  affinity := id
  os := .linux
  isHostVm := false
  mpidrShift := false
  nrCpusCluster0 := 4

/-- Vcpus 0 and 1 are running, vcpu 2 is off. -/
def twoRunning : Sys where
  task := fun t => if t < 2 then ⟨.running, some .readyList, .on, false, none⟩ else .created
  call := fun _ => .idle
  failed := false
  log := []

def twoUp (t : Nat) : Phase := if t < 2 then .up else .off

theorem start_twoRunning : Start twoUp twoRunning := by
  refine ⟨rfl, rfl, fun _ => rfl, fun t => ?_⟩
  by_cases ht : t < 2
  · simp only [twoUp, twoRunning, if_pos ht]
    exact Task.Up.current (by simp) rfl rfl
  · simp only [twoUp, twoRunning, if_neg ht]
    exact ⟨rfl, rfl, rfl⟩

/-- All of a call. -/
def powerOn (c t entry : Nat) : List Event := .powerOn c t entry :: List.replicate 4 (.call c)

/-- `vcpu_off`, down to the switch to another task. -/
def powerOff (t : Nat) : List Event :=
  .off t :: [Move.readFlags, .clearFlags, .returnToUser, .schedOut].map (.move t)

/-- Vcpu 0 starts vcpu 2, vcpu 1 is refused; vcpu 2 powers off, and vcpu 1
starts it again. -/
def onOffOn : List Event :=
  powerOn 0 2 0x1000 ++ [.move 2 .irqwork, .powerOn 1 2 0x2000, .move 2 .pick] ++
    powerOff 2 ++ powerOn 1 2 0x2000 ++ [.move 2 .irqwork, .move 2 .pick]

theorem cpu_on_ok_twice :
    ∃ y, run (step threeVcpus) twoRunning onOffOn = some y ∧
      y.log = [.started 0 2 0x1000 .suspend, .refused 1 2 .einval, .picked 2 (some 0x1000),
        .off 2, .started 1 2 0x2000 .suspend, .picked 2 (some 0x2000)] ∧
      y.failed = false ∧ ∀ t, (life t (twoUp t) y.log).isSome := by
  have hl : Along (step threeVcpus) (CheckOk threeVcpus) twoRunning onOffOn := by
    decide +kernel
  refine exists_found_more (fun y hy _ => ?_) (by decide +kernel)
  have hok := cpu_on_ok rfl start_twoRunning hl hy
  exact ⟨hok.1, hok.2.1⟩

/-- Four ways to go wrong:
* two calls pass the check before either makes vcpu 2 ready: it enters the
  guest where the other call wanted it, and the other call fails the `ASSERT`
  of `vcpu_online`;
* with vcpu 2 on the cpu of vcpu 0 its state stays `TASK_STATE_SUSPEND` until
  it is picked: a second call of vcpu 0 fails the `ASSERT` on `state_list`;
* vcpu 1 powers itself off and is not yet out of its ready list: a call for
  it fails the same `ASSERT`;
* a guest that is not Linux: vcpu 2 enters with no frame from the call. -/
theorem cpu_on_broken :
    (run (step threeVcpus) twoRunning ([.powerOn 0 2 0x1000, .powerOn 1 2 0x2000, .call 0,
        .call 1, .call 0, .call 0, .call 0, .move 2 .irqwork, .move 2 .pick, .call 1])).map
        (fun y => (y.failed, y.log))
      = some (true, [.started 0 2 0x1000 .suspend, .picked 2 (some 0x2000)]) ∧
    (run (step { threeVcpus with affinity := fun t => if t = 2 then 0 else t }) twoRunning
        (powerOn 0 2 0x1000 ++ [.powerOn 0 2 0x2000, .call 0, .call 0, .call 0])).map Sys.failed
      = some true ∧
    (run (step threeVcpus) twoRunning ([.off 1, .move 1 .readFlags, .move 1 .clearFlags,
        .move 1 .returnToUser, .powerOn 0 1 0x1000, .call 0, .call 0, .call 0])).map Sys.failed
      = some true ∧
    (run (step { threeVcpus with os := .other }) twoRunning
        (powerOn 0 2 0x1000 ++ [.move 2 .irqwork, .move 2 .pick])).map Sys.log
      = some [.started 0 2 0x1000 .suspend, .picked 2 none] := by
  decide +kernel

end Minos.CpuOn
