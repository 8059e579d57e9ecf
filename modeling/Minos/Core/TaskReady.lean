import Minos.Core.Sched

/-!
# Readying a task from another cpu

`task_ready` on the cpu of the task puts it into a ready list and asks for a reschedule there.
On another cpu it leaves the task on the `new_list` of its cpu, with the preempt request in the
flags of the task, and sends an interrupt; `irqwork_handler` then does the rest. Both are modelled
on the state of the cpu the task belongs to, with the `flags` of every task's `task_info`:
`need_resched` is a bit in the flags of the running task.

`task_set_resched` and its siblings use the number of that bit, which is 0, for its mask. The
request is lost on the way, and the two paths differ where nothing else asks for a reschedule.
-/

namespace Minos.TaskReady

open Minos.Lib Minos.Sched

/-! ## Model -/

/-- `TIF_NEED_RESCHED`. -/
def tifNeedReschedBit : BitVec 64 := 0

/-- `__TIF_NEED_RESCHED`. -/
def tifNeedReschedMask : BitVec 64 := 1 <<< tifNeedReschedBit.toNat

/-- A cpu, and `ti.flags` of every task. -/
structure Cpu where
  pcpu : Pcpu
  flags : Nat → BitVec 64

namespace Cpu

def setFlags (s : Cpu) (t : Nat) (f : BitVec 64) : Cpu :=
  { s with flags := Function.update s.flags t f }

/-- `set_need_resched`. -/
def setNeedResched (s : Cpu) : Cpu :=
  s.setFlags s.pcpu.current (s.flags s.pcpu.current ||| tifNeedReschedMask)

/-- `need_resched`. -/
def needResched (s : Cpu) : Prop := s.flags s.pcpu.current &&& tifNeedReschedMask ≠ 0

instance (s : Cpu) : Decidable s.needResched := inferInstanceAs (Decidable (_ ≠ _))

/-- `task_set_resched`. -/
def taskSetResched (s : Cpu) (t : Nat) : Cpu := s.setFlags t (s.flags t ||| tifNeedReschedBit)

/-- `task_clear_resched`. -/
def taskClearResched (s : Cpu) (t : Nat) : Cpu :=
  s.setFlags t (s.flags t &&& ~~~ tifNeedReschedBit)

/-- `task_need_resched`. -/
def taskNeedResched (s : Cpu) (t : Nat) : BitVec 64 := s.flags t &&& tifNeedReschedBit

end Cpu

/-- `add_task_to_ready_list`, with its request. -/
def addTask (T : Tasks) (s : Cpu) (t : Nat) (preempt : Bool) : Option Cpu :=
  (addTaskToReadyList T s.pcpu t).map fun p =>
    let s := { s with pcpu := p }
    if preempt ∨ T.prio t < T.prio s.pcpu.current then s.setNeedResched else s

/-- `smp_percpu_task_ready`. -/
def smpTaskReady (s : Cpu) (t : Nat) (preempt : Bool) : Option Cpu :=
  let s := if preempt then s.taskSetResched t else s
  (smpPercpuTaskReady s.pcpu t).map fun p => { s with pcpu := p }

/-- `task_ready`, on the cpu of the task or on another one. -/
def taskReady (T : Tasks) (s : Cpu) (t : Nat) (preempt onTarget : Bool) : Option Cpu :=
  if onTarget then addTask T s t preempt else smpTaskReady s t preempt

/-- One turn of the loop of `irqwork_handler`, with the sum of the requests. -/
def irqworkTurn (T : Tasks) (r : Cpu × Nat) (t : Nat) : Option (Cpu × Nat) :=
  let s := { r.1 with pcpu := r.1.pcpu.listDel t }
  if s.pcpu.state t = .running then some (s, r.2)
  else
    let need := s.taskNeedResched t
    (addTask T (s.taskClearResched t) t (need ≠ 0)).map fun s =>
      ({ s with pcpu := s.pcpu.setState t .ready }, r.2 + need.toNat)

/-- `irqwork_handler`. -/
def irqwork (T : Tasks) (s : Cpu) : Option Cpu :=
  (s.pcpu.newList.foldlM (irqworkTurn T) (s, 0)).map fun r =>
    if r.2 ≠ 0 ∨ r.1.pcpu.current = T.idle then r.1.setNeedResched else r.1

/-- The interrupt is taken if one was sent. -/
def handlePending (T : Tasks) (s : Cpu) : Option Cpu :=
  if s.pcpu.newList = [] then some s else irqwork T s

/-- The same ready lists, and the same request. -/
structure SameEffect (a b : Cpu) : Prop where
  ready : a.pcpu.ready = b.pcpu.ready
  tasksInPrio : a.pcpu.tasksInPrio = b.pcpu.tasksInPrio
  localRdyGrp : a.pcpu.localRdyGrp = b.pcpu.localRdyGrp
  needResched : a.needResched ↔ b.needResched

/-! ## The flags -/

section Flags

variable {s : Cpu} {t : Nat}

@[simp] theorem taskSetResched_eq (s : Cpu) (t : Nat) : s.taskSetResched t = s := by
  simp [Cpu.taskSetResched, Cpu.setFlags, tifNeedReschedBit]

@[simp] theorem taskClearResched_eq (s : Cpu) (t : Nat) : s.taskClearResched t = s := by
  have hall : ~~~ tifNeedReschedBit = BitVec.allOnes 64 := by decide
  rw [Cpu.taskClearResched, Cpu.setFlags, hall, BitVec.and_allOnes, Function.update_eq_self]

@[simp] theorem taskNeedResched_eq (s : Cpu) (t : Nat) : s.taskNeedResched t = 0 := by
  simp [Cpu.taskNeedResched, tifNeedReschedBit]

theorem needResched_set (s : Cpu) : s.setNeedResched.needResched := by
  have hmask (x : BitVec 64) : (x ||| tifNeedReschedMask) &&& tifNeedReschedMask =
      tifNeedReschedMask := by
    ext i hi
    simpa using fun h => Or.inr h
  have hflags : s.setNeedResched.flags s.setNeedResched.pcpu.current =
      s.flags s.pcpu.current ||| tifNeedReschedMask := by
    simp [Cpu.setNeedResched, Cpu.setFlags]
  rw [Cpu.needResched, hflags, hmask]
  decide

end Flags

/-! ## Adding a task -/

section Add

variable {T : Tasks} {p p' : Pcpu} {s s' : Cpu} {t x c n : Nat}

theorem mem_insertBefore_of_ne {head u : Nat} {l : List Nat} (hu : u ≠ x) :
    u ∈ insertBefore head x l ↔ u ∈ l := by
  induction l with
  | nil => rfl
  | cons a l ih =>
    rw [insertBefore]
    split
    · simp [hu]
    · simp [ih]

/-- The task is on no list. -/
structure Off (p : Pcpu) (t : Nat) : Prop where
  ready : ∀ q, t ∉ p.ready q
  newList : t ∉ p.newList
  stopList : t ∉ p.stopList

theorem Off.not_linked (h : Off p t) : ¬ p.Linked t := by
  rintro (⟨q, -, hq⟩ | hnew | hstop)
  · exact h.ready q hq
  · exact h.newList hnew
  · exact h.stopList hstop

/-- What `add_task_to_ready_list` leaves alone. -/
structure Added (p p' : Pcpu) (x : Nat) : Prop where
  current : p'.current = p.current
  state : p'.state = p.state
  mem : ∀ u, u ≠ x → ∀ q, u ∈ p'.ready q ↔ u ∈ p.ready q
  off : ∀ u, u ≠ x → Off p u → Off p' u

/-- The counts and the mask with one more task of the priority `q`. -/
def counted (p : Pcpu) (q : Nat) : Pcpu :=
  { p with
    tasksInPrio := Function.update p.tasksInPrio q (p.tasksInPrio q + 1)
    localRdyGrp := p.localRdyGrp ||| BitVec.twoPow 8 q }

theorem addTaskToReadyList_eq (T : Tasks) (hx : ¬ p.Linked x) :
    addTaskToReadyList T p x =
      if T.prio p.current = T.prio x then
        if p.Linked p.current then some (counted (p.listInsertBefore p.current x) (T.prio x))
        else none
      else some (counted (p.listAddTail (T.prio x) x) (T.prio x)) := by
  rw [addTaskToReadyList, if_neg hx]
  by_cases hprio : T.prio p.current = T.prio x
  · rw [if_pos hprio]
    by_cases hcur : p.Linked p.current
    · rw [if_pos hcur]
      have hcur' : Pcpu.Linked { p with
          tasksInPrio := Function.update p.tasksInPrio (T.prio x)
            (p.tasksInPrio (T.prio x) + 1) } p.current := hcur
      simp only [hprio, hcur', if_true]
      rfl
    · rw [if_neg hcur]
      have hcur' : ¬ Pcpu.Linked { p with
          tasksInPrio := Function.update p.tasksInPrio (T.prio x)
            (p.tasksInPrio (T.prio x) + 1) } p.current := hcur
      simp only [hprio, hcur', if_true, if_false, Option.map_none]
  · simp only [hprio, if_false, Option.map_some]
    rfl

theorem not_linked_of_added (h : addTaskToReadyList T p x = some p') : ¬ p.Linked x := by
  intro hx
  rw [addTaskToReadyList, if_pos hx] at h
  cases h

theorem added_of_addTask (h : addTaskToReadyList T p x = some p') : Added p p' x := by
  rw [addTaskToReadyList_eq T (not_linked_of_added h)] at h
  split at h
  · obtain ⟨-, ⟨⟩⟩ := Option.ite_none_right_eq_some.mp h
    refine ⟨rfl, rfl, fun u hu q => mem_insertBefore_of_ne hu, fun u hu hoff => ⟨?_, ?_, ?_⟩⟩
    · exact fun q => mt (mem_insertBefore_of_ne hu).mp (hoff.ready q)
    · exact mt (mem_insertBefore_of_ne hu).mp hoff.newList
    · exact mt (mem_insertBefore_of_ne hu).mp hoff.stopList
  · cases h
    have hmem : ∀ u, u ≠ x → ∀ q, u ∈ Function.update p.ready (T.prio x)
        (p.ready (T.prio x) ++ [x]) q ↔ u ∈ p.ready q := by
      intro u hu q
      by_cases hq : q = T.prio x
      · subst hq
        simp [hu]
      · rw [Function.update_of_ne hq]
    exact ⟨rfl, rfl, hmem, fun u hu hoff =>
      ⟨fun q => mt (hmem u hu q).mp (hoff.ready q), hoff.newList, hoff.stopList⟩⟩

theorem addTask_isSome (T : Tasks) (hx : ¬ p.Linked x) (hc : p.Linked p.current) :
    ∃ p', addTaskToReadyList T p x = some p' ∧
      p'.tasksInPrio (T.prio x) = p.tasksInPrio (T.prio x) + 1 := by
  rw [addTaskToReadyList_eq T hx, if_pos hc]
  split
  · exact ⟨_, rfl, Function.update_self ..⟩
  · exact ⟨_, rfl, Function.update_self ..⟩

end Add

/-! ## Tasks left on `new_list` -/

/-- `t` is left on the list, behind the others. -/
def leave (p : Pcpu) (t : Nat) : Pcpu := { p with newList := p.newList ++ [t] }

variable {b : Bool}

section Leave

variable {T : Tasks} {p p' : Pcpu} {s s' : Cpu} {t x c n : Nat}

@[simp] theorem leave_current (p : Pcpu) (t : Nat) : (leave p t).current = p.current := rfl

@[simp] theorem listDel_state (p : Pcpu) (t : Nat) : (p.listDel t).state = p.state := rfl

theorem linked_leave (hx : x ≠ t) : (leave p t).Linked x ↔ p.Linked x := by
  simp [Pcpu.Linked, leave, hx]

theorem listDel_leave (hx : x ≠ t) : (leave p t).listDel x = leave (p.listDel x) t := by
  have herase : (p.newList ++ [t]).erase x = p.newList.erase x ++ [t] := by
    rw [List.erase_append]
    split
    · rfl
    · rename_i hnot
      rw [List.erase_of_not_mem hnot, List.erase_of_not_mem (by simpa using hx)]
  simp only [Pcpu.listDel, leave, herase]

theorem insertBefore_append {head : Nat} {l : List Nat} (hne : head ≠ t) :
    insertBefore head x (l ++ [t]) = insertBefore head x l ++ [t] := by
  induction l with
  | nil => simp [insertBefore, Ne.symm hne]
  | cons a l ih =>
    rw [List.cons_append, insertBefore, insertBefore, ih]
    split <;> rfl

/-- Others are added past it. -/
theorem addTask_leave (hx : x ≠ t) (hc : p.current ≠ t) :
    addTaskToReadyList T (leave p t) x = (addTaskToReadyList T p x).map (leave · t) := by
  by_cases hfree : p.Linked x
  · rw [addTaskToReadyList, addTaskToReadyList, if_pos hfree,
      if_pos ((linked_leave hx).mpr hfree), Option.map_none]
  rw [addTaskToReadyList_eq T hfree, addTaskToReadyList_eq T (mt (linked_leave hx).mp hfree)]
  have hlinked : (leave p t).Linked p.current ↔ p.Linked p.current := linked_leave hc
  have hinsert : (leave p t).listInsertBefore p.current x =
      leave (p.listInsertBefore p.current x) t := by
    simp only [Pcpu.listInsertBefore, leave, insertBefore_append hc]
  simp only [hlinked, hinsert, leave_current]
  by_cases hprio : T.prio p.current = T.prio x
  · rw [if_pos hprio, if_pos hprio]
    split <;> rfl
  · rw [if_neg hprio, if_neg hprio]
    rfl

/-- `t` is left on the list of the cpu. -/
def left (s : Cpu) (t : Nat) : Cpu := { s with pcpu := leave s.pcpu t }

theorem addTask_left (hx : x ≠ t) (hc : s.pcpu.current ≠ t) :
    addTask T (left s t) x b = (addTask T s x b).map (left · t) := by
  rw [addTask, addTask, left, addTask_leave hx hc, Option.map_map, Option.map_map]
  refine congrArg (Option.map · _) (funext fun p => ?_)
  by_cases hask : b = true ∨ T.prio x < T.prio p.current
  · simp only [Function.comp_apply, leave, hask, if_true]
    rfl
  · simp only [Function.comp_apply, leave, hask, if_false]
    rfl

theorem irqworkTurn_left (hx : x ≠ t) (hc : s.pcpu.current ≠ t) :
    irqworkTurn T (left s t, n) x =
      (irqworkTurn T (s, n) x).map fun r => (left r.1 t, r.2) := by
  have hdel : ({ left s t with pcpu := (left s t).pcpu.listDel x } : Cpu) =
      left { s with pcpu := s.pcpu.listDel x } t := by
    simp only [left, listDel_leave hx]
  have hstate' : ((left s t).pcpu.listDel x).state x = s.pcpu.state x := rfl
  simp only [irqworkTurn, hdel, hstate', listDel_state, taskNeedResched_eq, taskClearResched_eq]
  by_cases hstate : s.pcpu.state x = .running
  · rw [if_pos hstate, if_pos hstate, Option.map_some]
  · have hc' : ({ s with pcpu := s.pcpu.listDel x } : Cpu).pcpu.current ≠ t := hc
    rw [if_neg hstate, if_neg hstate, addTask_left hx hc', Option.map_map, Option.map_map]
    rfl

end Leave

/-! ## The loop -/

/-- The running task `c` is on its ready list, and `t` is on no list. -/
structure Watched (T : Tasks) (t c : Nat) (st : TaskState) (p : Pcpu) : Prop where
  current : p.current = c
  queued : c ∈ p.ready (T.prio c)
  off : Off p t
  state : p.state t = st

section Loop

variable {T : Tasks} {p p' : Pcpu} {s s' : Cpu} {t x c n : Nat} {st : TaskState}

theorem Watched.linked (h : Watched T t c st p) : p.Linked p.current :=
  .inl ⟨T.prio c, T.prio_lt c, h.current ▸ h.queued⟩

theorem Watched.ne (h : Watched T t c st p) : c ≠ t := fun heq =>
  h.off.ready _ (heq ▸ h.queued)

theorem addTask_pcpu (h : addTask T s x b = some s') :
    addTaskToReadyList T s.pcpu x = some s'.pcpu := by
  rw [addTask, Option.map_eq_some_iff] at h
  obtain ⟨p, hp, rfl⟩ := h
  rw [hp]
  dsimp only
  split <;> rfl

/-- A turn for another task. -/
theorem Watched.turn (h : Watched T t c st s.pcpu) (hx : x ≠ t) (hxc : x ≠ c) {r : Cpu × Nat}
    (hr : irqworkTurn T (s, 0) x = some r) : r.2 = 0 ∧ Watched T t c st r.1.pcpu := by
  have hdel : Watched T t c st (s.pcpu.listDel x) := by
    refine ⟨h.current, (List.mem_erase_of_ne (Ne.symm hxc)).mpr h.queued, ⟨?_, ?_, ?_⟩, h.state⟩
    · exact fun q hq => h.off.ready q (List.mem_of_mem_erase hq)
    · exact fun hq => h.off.newList (List.mem_of_mem_erase hq)
    · exact fun hq => h.off.stopList (List.mem_of_mem_erase hq)
  simp only [irqworkTurn, taskNeedResched_eq, taskClearResched_eq] at hr
  split at hr
  · cases hr
    exact ⟨rfl, hdel⟩
  · obtain ⟨s', hs', rfl⟩ := Option.map_eq_some_iff.mp hr
    have hadd := added_of_addTask (addTask_pcpu hs')
    refine ⟨rfl, hadd.current.trans hdel.current, ?_, ?_, ?_⟩
    · exact (hadd.mem c (Ne.symm hxc) _).mpr hdel.queued
    · have hoff := hadd.off t (Ne.symm hx) hdel.off
      exact ⟨hoff.ready, hoff.newList, hoff.stopList⟩
    · rw [← hdel.state, ← hadd.state]
      exact Function.update_of_ne (Ne.symm hx) ..

/-- The turns for the tasks that were there before `t`. -/
theorem Watched.turns (l : List Nat) :
    ∀ {s : Cpu}, Watched T t c st s.pcpu → t ∉ l → c ∉ l →
      (l.foldlM (irqworkTurn T) (left s t, 0) =
        (l.foldlM (irqworkTurn T) (s, 0)).map fun r => (left r.1 t, r.2)) ∧
      ∀ r, l.foldlM (irqworkTurn T) (s, 0) = some r → r.2 = 0 ∧ Watched T t c st r.1.pcpu := by
  induction l with
  | nil =>
    intro s h _ _
    refine ⟨rfl, fun r hr => ?_⟩
    cases hr
    exact ⟨rfl, h⟩
  | cons x l ih =>
    intro s h ht hc
    rw [List.mem_cons, not_or] at ht hc
    have hne : s.pcpu.current ≠ t := h.current ▸ h.ne
    rw [List.foldlM_cons, List.foldlM_cons, irqworkTurn_left (Ne.symm ht.1) hne]
    cases hr : irqworkTurn T (s, 0) x with
    | none => exact ⟨rfl, fun r hr => by cases hr⟩
    | some r =>
      obtain ⟨s', n⟩ := r
      obtain ⟨hn, hw⟩ := h.turn (Ne.symm ht.1) (Ne.symm hc.1) hr
      obtain rfl : n = 0 := hn
      exact ih hw ht.2 hc.2

theorem irqwork_left (h : Watched T t c st s.pcpu) (hc : c ∉ s.pcpu.newList)
    {u : Cpu} (hu : s.pcpu.newList.foldlM (irqworkTurn T) (s, 0) = some (u, 0)) :
    irqwork T (left s t) = (irqworkTurn T (left u t, 0) t).map fun r =>
      if r.2 ≠ 0 ∨ r.1.pcpu.current = T.idle then r.1.setNeedResched else r.1 := by
  have hlist : (left s t).pcpu.newList = s.pcpu.newList ++ [t] := rfl
  rw [irqwork, hlist, List.foldlM_append, (h.turns _ h.off.newList hc).1, hu]
  simp

theorem listDel_leave_self (h : Off p t) : (leave p t).listDel t = p := by
  have hready : (fun q => (p.ready q).erase t) = p.ready :=
    funext fun q => List.erase_of_not_mem (h.ready q)
  have hnew : (p.newList ++ [t]).erase t = p.newList := by
    rw [List.erase_append_right _ h.newList, List.erase_cons_head, List.append_nil]
  simp only [Pcpu.listDel, leave, hready, hnew, List.erase_of_not_mem h.stopList]

theorem irqworkTurn_self (h : Off s.pcpu t) :
    irqworkTurn T (left s t, 0) t =
      if s.pcpu.state t = .running then some (s, 0)
      else (addTask T s t false).map fun s => ({ s with pcpu := s.pcpu.setState t .ready }, 0) := by
  have hpcpu : (left s t).pcpu.listDel t = s.pcpu := listDel_leave_self h
  simp only [irqworkTurn, hpcpu, taskNeedResched_eq, taskClearResched_eq]
  rfl

theorem needResched_ite (s : Cpu) (P : Prop) [Decidable P] :
    (if P then s.setNeedResched else s).needResched ↔ P ∨ s.needResched := by
  by_cases hP : P
  · rw [if_pos hP]
    exact iff_of_true (needResched_set s) (.inl hP)
  · rw [if_neg hP, or_iff_right hP]

theorem addTask_needResched (h : addTask T s x b = some s') :
    s'.needResched ↔ (b ∨ T.prio x < T.prio s.pcpu.current) ∨ s.needResched := by
  rw [addTask, Option.map_eq_some_iff] at h
  obtain ⟨p, hp, rfl⟩ := h
  have hcur := (added_of_addTask hp).current
  dsimp only
  rw [needResched_ite, hcur]
  refine or_congr_right ?_
  simp only [Cpu.needResched, hcur]

theorem addTask_spec (h : Watched T t c st s.pcpu) :
    ∃ s', addTask T s t b = some s' ∧ addTaskToReadyList T s.pcpu t = some s'.pcpu ∧
      s'.pcpu.current = c ∧
      s'.pcpu.tasksInPrio (T.prio t) = s.pcpu.tasksInPrio (T.prio t) + 1 ∧
      (s'.needResched ↔ (b ∨ T.prio t < T.prio c) ∨ s.needResched) := by
  obtain ⟨p', hp', hcount⟩ := addTask_isSome T h.off.not_linked h.linked
  have hcur : p'.current = c := (added_of_addTask hp').current.trans h.current
  obtain ⟨s', hs'⟩ : ∃ s', addTask T s t b = some s' := ⟨_, by rw [addTask, hp', Option.map_some]⟩
  obtain rfl : p' = s'.pcpu := Option.some.inj (hp'.symm.trans (addTask_pcpu hs'))
  exact ⟨s', hs', hp', hcur, hcount, h.current ▸ addTask_needResched hs'⟩

/-- The task is not dropped and has a higher priority than the running one. -/
def Asks (T : Tasks) (p : Pcpu) (x : Nat) : Prop :=
  p.state x ≠ .running ∧ T.prio x < T.prio p.current

/-- A turn asks for a reschedule if its task has the higher priority. -/
theorem turn_asks {r : Cpu × Nat} (hr : irqworkTurn T (s, n) x = some r) :
    (r.1.needResched ↔ Asks T s.pcpu x ∨ s.needResched) ∧
      ∀ y, Asks T r.1.pcpu y ↔ Asks T s.pcpu y := by
  simp only [irqworkTurn, taskNeedResched_eq, taskClearResched_eq] at hr
  split at hr
  · rename_i hrun
    cases hr
    have hno : ¬ Asks T s.pcpu x := fun hasks => hasks.1 hrun
    exact ⟨(or_iff_right hno).symm, fun _ => Iff.rfl⟩
  · rename_i hrun
    obtain ⟨s', hs', rfl⟩ := Option.map_eq_some_iff.mp hr
    have hadd := added_of_addTask (addTask_pcpu hs')
    constructor
    · refine (addTask_needResched hs').trans (or_congr_left ?_)
      simp only [ne_eq, not_true_eq_false, decide_false, Bool.false_eq_true, false_or]
      exact (and_iff_right hrun).symm
    · intro y
      have hcur : (s'.pcpu.setState x .ready).current = s.pcpu.current := hadd.current
      have hstate : (s'.pcpu.setState x .ready).state = Function.update s.pcpu.state x .ready := by
        rw [Pcpu.setState, hadd.state]
        rfl
      simp only [Asks, hcur, hstate]
      by_cases hy : y = x
      · subst hy
        rw [Function.update_self]
        exact and_congr_left' (iff_of_true (by simp) hrun)
      · rw [Function.update_of_ne hy]

theorem turns_ask (l : List Nat) :
    ∀ {r r' : Cpu × Nat}, l.foldlM (irqworkTurn T) r = some r' →
      (r'.1.needResched ↔ (∃ x ∈ l, Asks T r.1.pcpu x) ∨ r.1.needResched) := by
  induction l with
  | nil =>
    intro r r' h
    cases h
    simp
  | cons x l ih =>
    intro r r' h
    rw [List.foldlM_cons] at h
    obtain ⟨r₁, hr₁, h⟩ := Option.bind_eq_some_iff.mp h
    obtain ⟨hneed, hasks⟩ := turn_asks hr₁
    rw [ih h, hneed, List.exists_mem_cons_iff]
    simp only [hasks, or_left_comm, or_assoc]

/-- What was pending: the loop, and then a request if the cpu is idle. -/
theorem handlePending_spec (h : Watched T t c st s.pcpu) (hc : c ∉ s.pcpu.newList)
    (hs : handlePending T s = some s') :
    ∃ u, s.pcpu.newList.foldlM (irqworkTurn T) (s, 0) = some (u, 0) ∧
      Watched T t c st u.pcpu ∧ s'.pcpu = u.pcpu ∧
      (u.needResched ↔ (∃ x ∈ s.pcpu.newList, Asks T s.pcpu x) ∨ s.needResched) ∧
      (c ≠ T.idle → s' = u) := by
  rw [handlePending] at hs
  split at hs
  · rename_i hnil
    cases hs
    exact ⟨s, by rw [hnil]; rfl, h, rfl, by simp [hnil], fun _ => rfl⟩
  · obtain ⟨⟨u, n⟩, hu, rfl⟩ := Option.map_eq_some_iff.mp hs
    obtain ⟨hn, hw⟩ := (h.turns _ h.off.newList hc).2 _ hu
    obtain rfl : n = 0 := hn
    refine ⟨u, hu, hw, ?_, turns_ask _ hu, fun hne => ?_⟩
    · dsimp only
      split <;> rfl
    · have hidle : ¬ u.pcpu.current = T.idle := hw.current.symm ▸ hne
      rw [if_neg (not_or.mpr ⟨not_not.mpr rfl, hidle⟩)]

theorem Watched.prio_lt_of_idle (h : Watched T t c st p) (hc : c = T.idle) :
    T.prio t < T.prio c := by
  have hne : T.prio t ≠ osPrioIdle := fun heq => h.ne (hc.trans ((T.prio_idle t).mp heq).symm)
  have hidle : T.prio c = osPrioIdle := (T.prio_idle c).mpr hc
  have hlt := T.prio_lt t
  simp only [osPrioIdle, osPrioMax] at hne hidle hlt
  omega

/-- With the same queues, only the requests can differ. -/
theorem sameEffect_iff {a b : Cpu} (h : a.pcpu = b.pcpu) (P : Prop) [Decidable P] :
    SameEffect
        (if P then Cpu.setNeedResched { a with pcpu := a.pcpu.setState t .ready }
          else { a with pcpu := a.pcpu.setState t .ready }) b ↔
      (P ∨ a.needResched ↔ b.needResched) := by
  have hneed := needResched_ite { a with pcpu := a.pcpu.setState t .ready } P
  constructor
  · intro hsame
    exact hneed.symm.trans hsame.needResched
  · intro hiff
    refine ⟨?_, ?_, ?_, hneed.trans hiff⟩
    all_goals
      rw [← h]
      split <;> rfl

end Loop

/-! ## The two paths -/

/-- **Local and remote wake-ups.** The call on the target cpu, after the interrupt that was
pending, and the call on another cpu, with the interrupt after it, have the same effect exactly if
the task is not marked as running and a preempt request is not the only one: the task has the
higher priority, or a task that was waiting has it, or a reschedule was asked for before. -/
theorem task_ready_remote_agrees_iff (T : Tasks) (s s₁ : Cpu) (t : Nat) (preempt : Bool)
    (hoff : Off s.pcpu t) (hcur : s.pcpu.current ∈ s.pcpu.ready (T.prio s.pcpu.current))
    (hnew : s.pcpu.current ∉ s.pcpu.newList) (hs : handlePending T s = some s₁) :
    ∃ a b, (taskReady T s t preempt false).bind (irqwork T) = some a ∧
      taskReady T s₁ t preempt true = some b ∧
      (SameEffect a b ↔ s.pcpu.state t ≠ .running ∧
        (preempt = true → T.prio t < T.prio s.pcpu.current ∨
          (∃ x ∈ s.pcpu.newList, Asks T s.pcpu x) ∨ s.needResched)) := by
  have hw : Watched T t s.pcpu.current (s.pcpu.state t) s.pcpu := ⟨rfl, hcur, hoff, rfl⟩
  obtain ⟨u, hu, hwu, hs₁, hasks, hne⟩ := handlePending_spec hw hnew hs
  rw [← hasks]
  generalize s.pcpu.current = c at *
  generalize s.pcpu.state t = st at *
  have hleft : taskReady T s t preempt false = some (left s t) := by
    simp only [taskReady, smpTaskReady, taskSetResched_eq, ite_self, smpPercpuTaskReady,
      if_neg hoff.not_linked]
    rfl
  obtain ⟨b, hb, hbp, hbc, hbn, hbr⟩ := addTask_spec (b := preempt) (hs₁ ▸ hwu)
  have hremote := irqwork_left hw hnew hu
  rw [irqworkTurn_self hwu.off, hwu.state] at hremote
  by_cases hrun : st = .running
  · -- the task is dropped, and its list has one task less
    rw [if_pos hrun] at hremote
    refine ⟨_, b, by rw [hleft]; exact hremote, hb, iff_of_false (fun hsame => ?_)
      (fun hno => hno.1 hrun)⟩
    have hcount := congrFun hsame.tasksInPrio (T.prio t)
    have hu' : ∀ P : Prop, ∀ _ : Decidable P,
        (if P then u.setNeedResched else u).pcpu = s₁.pcpu := by
      intro P _
      rw [hs₁]
      split <;> rfl
    rw [hu', hbn] at hcount
    omega
  · obtain ⟨a, ha, hap, hac, -, har⟩ := addTask_spec (b := false) hwu
    obtain heq : a.pcpu = b.pcpu := by
      rw [hs₁, hap] at hbp
      exact Option.some.inj hbp
    rw [if_neg hrun, ha] at hremote
    refine ⟨_, b, by rw [hleft]; exact hremote, hb, ?_⟩
    have hneed : (a.needResched ∨ c = T.idle ↔ b.needResched) ↔
        (preempt = true → T.prio t < T.prio c ∨ u.needResched) := by
      rw [har, hbr]
      by_cases hidle : c = T.idle
      · simp [hidle, hidle ▸ hwu.prio_lt_of_idle hidle]
      · rw [hne hidle]
        by_cases hlt : T.prio t < T.prio c
        · simp [hlt]
        · simp [hlt, hidle]
    have hask : ((0 : Nat) ≠ 0 ∨ a.pcpu.current = T.idle) ↔ c = T.idle := by simp [hac]
    rw [← hneed, and_iff_right hrun, or_comm, ← hask]
    exact sameEffect_iff heq _

/-- The kworker runs, and task 2 of its priority is being woken. -/
def kworkerRuns : Cpu where
  pcpu :=
    { ready := fun p => if p = osPrioIdle then [0] else if p = 1 then [1] else []
      newList := []
      stopList := []
      localRdyGrp := BitVec.twoPow 8 osPrioIdle ||| BitVec.twoPow 8 1
      tasksInPrio := fun p => if p = 1 then 1 else 0
      current := 1
      kworkerFlag := true
      state := fun t => if t = 1 then .running else .waking }
  flags _ := 0

theorem kworkerRuns_off : Off kworkerRuns.pcpu 2 where
  ready q := by
    simp only [kworkerRuns]
    split
    · decide
    · split <;> decide
  newList := by decide
  stopList := by decide

/-- Without a preempt request the two agree. -/
theorem task_ready_remote_agrees_kworker :
    ∃ a b, (taskReady threeTasks kworkerRuns 2 false false).bind (irqwork threeTasks) = some a ∧
      taskReady threeTasks kworkerRuns 2 false true = some b ∧ SameEffect a b := by
  obtain ⟨a, b, ha, hb, hsame⟩ := task_ready_remote_agrees_iff threeTasks kworkerRuns kworkerRuns 2
    false kworkerRuns_off (by decide) (by decide) rfl
  exact ⟨a, b, ha, hb, hsame.mpr ⟨by decide, by simp⟩⟩

/-- With one, only the call on the cpu of the task asks for a reschedule. -/
theorem task_ready_remote_loses_preempt :
    ∃ a b, (taskReady threeTasks kworkerRuns 2 true false).bind (irqwork threeTasks) = some a ∧
      taskReady threeTasks kworkerRuns 2 true true = some b ∧
      ¬ a.needResched ∧ b.needResched ∧ ¬ SameEffect a b := by
  have ha : ((taskReady threeTasks kworkerRuns 2 true false).bind (irqwork threeTasks)).map
      (fun a => decide a.needResched) = some false := by decide
  have hb : (taskReady threeTasks kworkerRuns 2 true true).map
      (fun b => decide b.needResched) = some true := by decide
  obtain ⟨a, ha, hna⟩ := Option.map_eq_some_iff.mp ha
  obtain ⟨b, hb, hnb⟩ := Option.map_eq_some_iff.mp hb
  have hna' : ¬ a.needResched := of_decide_eq_false hna
  have hnb' : b.needResched := of_decide_eq_true hnb
  exact ⟨a, b, ha, hb, hna', hnb', fun hsame => hna' (hsame.needResched.mpr hnb')⟩

end Minos.TaskReady
