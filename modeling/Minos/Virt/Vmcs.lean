import Minos.Core.Errno
import Minos.Lib.Run

/-!
# Traps to the host VM

The page `struct vmcs` through which a vcpu hands a trap to the mvm process
of the host VM: `__vcpu_trap` of `virt/vmcs.c` on one side, the vcpu thread
of `tools/mvm/main/mvm.c` on the other. A trap is posted by adding one to
`host_index` and acknowledged by adding one to `guest_index`.

Every access to the page is a step, so the two sides interleave freely.
`__vcpu_trap` runs with interrupts enabled: the activations of a vcpu are a
stack, and a timer interrupt that raises a trap pushes one onto it. The
virq is a flag that the host turns into a count of its event descriptor,
which the thread reads and clears. The number of a trap, and the lists of
the traps posted, handled and returned, are there to speak about them.
-/

namespace Minos.VmTrap

open Minos.Lib

/-! ## State -/

/-- The trap fields, as written by `__vcpu_trap`; `result` is the value
passed in. -/
structure Trap where
  type : Nat
  reason : Nat
  data : Nat
  result : Nat
  deriving DecidableEq, Repr

/-- `struct vmcs`. -/
structure Vmcs where
  trapType : Nat
  trapReason : Nat
  trapRet : Int
  trapData : Nat
  trapResult : Nat
  hostIndex : BitVec 64
  guestIndex : BitVec 64
  deriving DecidableEq, Repr

inductive Store
  | type (n : Nat)
  | reason (n : Nat)
  | data (n : Nat)
  | ret (r : Int)
  | result (n : Nat)
  deriving DecidableEq, Repr

def Vmcs.store (m : Vmcs) : Store → Vmcs
  | .type n => { m with trapType := n }
  | .reason n => { m with trapReason := n }
  | .data n => { m with trapData := n }
  | .ret r => { m with trapRet := r }
  | .result n => { m with trapResult := n }

/-- Where an activation of `__vcpu_trap` is. -/
inductive Pc
  /-- in the loop that waits for the last trap to complete -/
  | wait
  /-- before these stores, and then `host_index++` -/
  | stores (ws : List Store)
  /-- before `send_virq_to_vm` -/
  | send
  /-- before `host_index--` -/
  | undo
  /-- before these stores, and then the return of `-EFAULT` -/
  | undoStores (ws : List Store)
  /-- in the loop that waits for this trap, number `k` -/
  | blocked (k : Nat)
  /-- past that loop, before the load of `trap_result` -/
  | loadResult (k : Nat)
  /-- before the load of `trap_ret` -/
  | loadRet (k : Nat) (result : Option Nat)
  deriving DecidableEq, Repr

/-- An activation. `wantsResult` is `result != NULL`. -/
structure Frame where
  trap : Trap
  wantsResult : Bool
  nonblock : Bool
  pc : Pc
  deriving DecidableEq, Repr

/-- Where the thread is in `handle_vcpu_event`. -/
inductive Mvm
  | idle
  | loadType
  | loadReason (type : Nat)
  | loadData (type reason : Nat)
  | loadResult (type reason data : Nat)
  /-- the trap is handled, with these fields -/
  | handle (t : Trap)
  | stores (ws : List Store)
  /-- in `vmcs_ack`, before the comparison -/
  | ack
  | ackIncr
  deriving DecidableEq, Repr

structure Handled where
  trap : Trap
  ret : Int
  result : Nat
  deriving DecidableEq, Repr

/-- What a blocking `__vcpu_trap` returned for the trap number `k`. -/
structure Returned where
  k : Nat
  trap : Trap
  ret : Int
  result : Option Nat
  deriving DecidableEq, Repr

structure Sys where
  vmcs : Vmcs
  stack : List Frame
  virq : Bool
  eventfd : Nat
  mvm : Mvm
  posted : List Trap
  handled : List Handled
  returned : List Returned
  deriving DecidableEq, Repr

/-- A page of zeros, with nobody using it. -/
def vmcsInit : Sys where
  vmcs := ⟨0, 0, 0, 0, 0, 0, 0⟩
  stack := []
  virq := false
  eventfd := 0
  mvm := .idle
  posted := []
  handled := []
  returned := []

/-! ## The vcpu -/

def vmtrapTypeUnknown : Nat := 2
def vmtrapReasonUnknown : Nat := 9

/-- `hasIrq`: the host gave the vcpu a virq. `sameCpu`: the vcpu shares its
cpu with vcpu 0 of the host VM. -/
structure Config where
  hasIrq : Bool
  sameCpu : Bool

/-- The entry of `__vcpu_trap`, from the vcpu or from an interrupt. -/
def vcpuTrap (cfg : Config) (s : Sys) (t : Trap) (wantsResult nonblock : Bool) : Sys :=
  if cfg.hasIrq = false then s
  else if vmtrapTypeUnknown ≤ t.type ∨ vmtrapReasonUnknown ≤ t.reason then s
  else { s with stack := ⟨t, wantsResult, nonblock, .wait⟩ :: s.stack }

/-- The stores that prepare a trap. -/
def prepare (t : Trap) : List Store :=
  [.type t.type, .reason t.reason, .data t.data, .ret 0, .result t.result]

/-- The page once the trap is posted. -/
def Vmcs.post (m : Vmcs) (t : Trap) : Vmcs :=
  ⟨t.type, t.reason, 0, t.data, t.result, m.hostIndex + 1, m.guestIndex⟩

/-- The page once a trap whose virq was refused is taken back. -/
def Vmcs.takeBack (m : Vmcs) : Vmcs :=
  { m with hostIndex := m.hostIndex - 1, trapRet := -Errno.eperm.code, trapResult := 0 }

/-- The next step of the activation `f` on top of the stack; `ok` is what
`send_virq_to_vm` says. -/
def vcpuStep (cfg : Config) (s : Sys) (f : Frame) (rest : List Frame) (ok : Bool) : Sys :=
  let goto (s : Sys) (pc : Pc) : Sys := { s with stack := { f with pc := pc } :: rest }
  let quit (s : Sys) : Sys := { s with stack := rest }
  match f.pc with
  | .wait =>
    if s.vmcs.guestIndex = s.vmcs.hostIndex then goto s (.stores (prepare f.trap)) else s
  | .stores (w :: ws) => goto { s with vmcs := s.vmcs.store w } (.stores ws)
  | .stores [] =>
    goto { s with
      vmcs := { s.vmcs with hostIndex := s.vmcs.hostIndex + 1 }
      posted := s.posted ++ [f.trap] } .send
  | .send =>
    if ok then
      let s := { s with virq := true }
      if f.nonblock && !cfg.sameCpu then quit s else goto s (.blocked (s.posted.length - 1))
    else goto s .undo
  | .undo =>
    goto { s with
      vmcs := { s.vmcs with hostIndex := s.vmcs.hostIndex - 1 }
      posted := s.posted.dropLast } (.undoStores [.ret (-Errno.eperm.code), .result 0])
  | .undoStores (w :: ws) => goto { s with vmcs := s.vmcs.store w } (.undoStores ws)
  | .undoStores [] => quit s
  | .blocked k =>
    if s.vmcs.guestIndex = s.vmcs.hostIndex then goto s (.loadResult k) else s
  | .loadResult k =>
    goto s (.loadRet k (if f.wantsResult then some s.vmcs.trapResult else none))
  | .loadRet k result =>
    quit { s with returned := ⟨k, f.trap, s.vmcs.trapRet, result⟩ :: s.returned }

/-- The activation sees `is_task_need_stop` in one of its loops. -/
def vcpuStop (s : Sys) (f : Frame) (rest : List Frame) : Option Sys :=
  match f.pc with
  | .wait | .blocked _ =>
    if s.vmcs.guestIndex = s.vmcs.hostIndex then none else some { s with stack := rest }
  | _ => none

/-! ## The mvm thread -/

/-- The next step of the thread; `ret` and `result` are what handling the
trap gives. -/
def mvmStep (s : Sys) (ret : Int) (result : Nat) : Option Sys :=
  let m := s.vmcs
  match s.mvm with
  | .idle =>
    -- `epoll_wait` and `eventfd_read`
    if 0 < s.eventfd then some { s with eventfd := 0, mvm := .loadType } else none
  | .loadType => some { s with mvm := .loadReason m.trapType }
  | .loadReason type => some { s with mvm := .loadData type m.trapReason }
  | .loadData type reason => some { s with mvm := .loadResult type reason m.trapData }
  | .loadResult type reason data =>
    some { s with mvm := .handle ⟨type, reason, data, m.trapResult⟩ }
  | .handle t =>
    some { s with
      handled := s.handled ++ [⟨t, ret, result⟩]
      mvm := .stores [.ret ret, .result result] }
  | .stores (w :: ws) => some { s with vmcs := m.store w, mvm := .stores ws }
  | .stores [] => some { s with mvm := .ack }
  | .ack =>
    some { s with mvm := if m.guestIndex = m.hostIndex then .idle else .ackIncr }
  | .ackIncr =>
    some { s with vmcs := { m with guestIndex := m.guestIndex + 1 }, mvm := .idle }

/-! ## Interleavings -/

inductive Event
  /-- a trap of the vcpu, or of an interrupt when an activation is running -/
  | trap (t : Trap) (wantsResult nonblock : Bool)
  | vcpu (ok : Bool)
  | stop
  /-- the virq reaches the host, which signals the event descriptor -/
  | deliver
  /-- the same virq is delivered once more -/
  | redeliver
  | mvm (ret : Int) (result : Nat)
  deriving DecidableEq, Repr

def vmcsStep (cfg : Config) (s : Sys) : Event → Option Sys
  | .trap t wantsResult nonblock => some (vcpuTrap cfg s t wantsResult nonblock)
  | .vcpu ok =>
    match s.stack with
    | [] => none
    | f :: rest => some (vcpuStep cfg s f rest ok)
  | .stop =>
    match s.stack with
    | [] => none
    | f :: rest => vcpuStop s f rest
  | .deliver =>
    if s.virq then some { s with virq := false, eventfd := s.eventfd + 1 } else none
  | .redeliver => some { s with eventfd := s.eventfd + 1 }
  | .mvm ret result => mvmStep s ret result

/-- A call of `__vcpu_trap` that need not wait, on its own: it posts the trap, and takes it back
if the virq is refused. -/
theorem run_trap_alone (s : Sys) {t : Trap} (htype : t.type < vmtrapTypeUnknown)
    (hreason : t.reason < vmtrapReasonUnknown)
    (hidle : s.vmcs.guestIndex = s.vmcs.hostIndex) (ok : Bool) :
    ∃ n s', run (vmcsStep ⟨true, false⟩) s
        (.trap t false true :: List.replicate n (.vcpu ok)) = some s' ∧
      s'.stack = s.stack ∧
        s'.vmcs = if ok then s.vmcs.post t else (s.vmcs.post t).takeBack := by
  have henter : vmcsStep ⟨true, false⟩ s (.trap t false true)
      = some { s with stack := ⟨t, false, true, .wait⟩ :: s.stack } := by
    have hknown : ¬ (vmtrapTypeUnknown ≤ t.type ∨ vmtrapReasonUnknown ≤ t.reason) :=
      not_or.mpr ⟨Nat.not_le.mpr htype, Nat.not_le.mpr hreason⟩
    rw [vmcsStep, vcpuTrap, if_neg Bool.noConfusion, if_neg hknown]
  have hwait : vmcsStep ⟨true, false⟩ { s with stack := ⟨t, false, true, .wait⟩ :: s.stack }
      (.vcpu ok) = some { s with stack := ⟨t, false, true, .stores (prepare t)⟩ :: s.stack } :=
    congrArg some (if_pos hidle)
  cases ok with
  | true =>
    refine ⟨8, { s with vmcs := s.vmcs.post t, virq := true, posted := s.posted ++ [t] }, ?_,
      rfl, rfl⟩
    rw [run_cons, henter, Option.bind_some, List.replicate_succ, run_cons, hwait]
    rfl
  | false =>
    refine ⟨12, { s with
      vmcs := (s.vmcs.post t).takeBack, posted := (s.posted ++ [t]).dropLast }, ?_, rfl, rfl⟩
    rw [run_cons, henter, Option.bind_some, List.replicate_succ, run_cons, hwait]
    rfl

/-! ## What the protocol promises -/

/-- The page holds the trap `t`, up to the value passed in, which the answer
overwrites. -/
def Vmcs.Holds (m : Vmcs) (t : Trap) : Prop :=
  m.trapType = t.type ∧ m.trapReason = t.reason ∧ m.trapData = t.data

/-- Somebody will still look at the trap posted last: its virq, the event
descriptor, the thread, or the vcpu that has not sent the virq yet. -/
def OnItsWay (s : Sys) : Prop :=
  s.virq = true ∨ 0 < s.eventfd ∨ s.mvm ≠ .idle ∨
    ∃ f, s.stack.head? = some f ∧ (f.pc = .send ∨ f.pc = .undo)

/-- The indices differ by at most one; a trap that is outstanding is on the
page as it was posted; the traps handled are those posted, in their order
and each once, up to at most one that is on its way; and a blocking trap
returned what was computed for it. -/
structure TrapOk (s : Sys) : Prop where
  index : s.vmcs.hostIndex = s.vmcs.guestIndex ∨
    s.vmcs.hostIndex = s.vmcs.guestIndex + 1
  kept : s.vmcs.hostIndex ≠ s.vmcs.guestIndex → ∃ t, s.posted.getLast? = some t ∧
    s.vmcs.Holds t ∧ (s.handled.length < s.posted.length → s.vmcs.trapResult = t.result)
  once : s.handled.map Handled.trap <+: s.posted ∧ s.posted.length ≤ s.handled.length + 1
  coming : s.handled.length < s.posted.length → OnItsWay s
  answer : ∀ r ∈ s.returned, ∃ result, s.handled[r.k]? = some ⟨r.trap, r.ret, result⟩ ∧
    ∀ x, r.result = some x → x = result

/-- An interrupt raises a trap only while the activations it interrupts still
wait for the last trap to complete, and a virq is delivered once. -/
def Tame (s : Sys) : Event → Prop
  | .trap _ _ _ => ∀ f ∈ s.stack, f.pc = .wait
  | .redeliver => False
  | _ => True

instance (s : Sys) : (e : Event) → Decidable (Tame s e)
  | .trap _ _ _ => inferInstanceAs (Decidable (∀ f ∈ s.stack, f.pc = .wait))
  | .redeliver => inferInstanceAs (Decidable False)
  | .vcpu _ | .stop | .deliver | .mvm _ _ => inferInstanceAs (Decidable True)

/-! ## Phases -/

/-- What the thread has loaded so far is the trap. -/
def Mvm.Reading (t : Trap) : Mvm → Prop
  | .loadType => True
  | .loadReason type => type = t.type
  | .loadData type reason => type = t.type ∧ reason = t.reason
  | .loadResult type reason data => type = t.type ∧ reason = t.reason ∧ data = t.data
  | .handle t' => t' = t
  | _ => False

/-- The thread is writing the answer `h`, or done with that. -/
def Mvm.Answering (m : Vmcs) (h : Handled) : Mvm → Prop
  | .stores ws => ws = [.ret h.ret, .result h.result] ∨
      (ws = [.result h.result] ∧ m.trapRet = h.ret) ∨
      (ws = [] ∧ m.trapRet = h.ret ∧ m.trapResult = h.result)
  | .ack | .ackIncr => m.trapRet = h.ret ∧ m.trapResult = h.result
  | _ => False

/-- The answer to the trap number `k`, which is `f`'s, is on the page. -/
def Answered (s : Sys) (f : Frame) (k : Nat) : Prop :=
  s.handled[k]? = some ⟨f.trap, s.vmcs.trapRet, s.vmcs.trapResult⟩

/-- An activation while no trap is outstanding. -/
def QuietFrame (s : Sys) (f : Frame) : Prop :=
  match f.pc with
  | .wait => True
  | .stores ws => (ws.foldl Vmcs.store s.vmcs).Holds f.trap ∧
      (ws.foldl Vmcs.store s.vmcs).trapResult = f.trap.result
  | .send | .undo => False
  | .undoStores _ => True
  | .blocked k | .loadResult k => Answered s f k
  | .loadRet k result => Answered s f k ∧ ∀ x, result = some x → x = s.vmcs.trapResult

/-- An activation while the trap `t`, number `k`, is outstanding. -/
def WaitingFrame (k : Nat) (t : Trap) (f : Frame) : Prop :=
  f.pc = .wait ∨ (f.pc = .blocked k ∧ f.trap = t)

/-- The virq of the outstanding trap `t` is in one place. -/
def Doorbell (s : Sys) (t : Trap) : Prop :=
  (s.virq = true ∧ s.eventfd = 0 ∧ s.mvm = .idle) ∨
    (s.virq = false ∧ s.eventfd = 1 ∧ s.mvm = .idle) ∨
    (s.virq = false ∧ s.eventfd = 0 ∧ s.mvm.Reading t)

/-- No virq is under way and the thread sleeps. -/
def Silent (s : Sys) : Prop := s.virq = false ∧ s.eventfd = 0 ∧ s.mvm = .idle

/-- The trap `t` is posted and not handled. -/
structure Outstanding (s : Sys) (t : Trap) : Prop where
  index : s.vmcs.hostIndex = s.vmcs.guestIndex + 1
  log : s.posted = s.handled.map Handled.trap ++ [t]
  page : s.vmcs.Holds t ∧ s.vmcs.trapResult = t.result

/-- The last trap handled, after those of `hs`, is `h`, and its answer is being given. -/
structure Answer (s : Sys) (hs : List Handled) (h : Handled) : Prop where
  index : s.vmcs.hostIndex = s.vmcs.guestIndex + 1
  handled : s.handled = hs ++ [h]
  log : s.posted = s.handled.map Handled.trap
  bell : s.virq = false ∧ s.eventfd = 0
  mvm : s.mvm.Answering s.vmcs h
  page : s.vmcs.Holds h.trap

/-- The four phases of the protocol. -/
inductive Phase (s : Sys) : Prop
  | quiet (hindex : s.vmcs.hostIndex = s.vmcs.guestIndex)
      (hlog : s.posted = s.handled.map Handled.trap) (hsilent : Silent s)
      (htop : ∀ f, s.stack.head? = some f → QuietFrame s f)
  | posting (t : Trap) (hout : Outstanding s t) (hsilent : Silent s)
      (htop : ∃ f, s.stack.head? = some f ∧ (f.pc = .send ∨ f.pc = .undo) ∧ f.trap = t)
  | calling (t : Trap) (hout : Outstanding s t) (hbell : Doorbell s t)
      (htop : ∀ f, s.stack.head? = some f → WaitingFrame s.handled.length t f)
  | answering (hs : List Handled) (h : Handled) (hans : Answer s hs h)
      (htop : ∀ f, s.stack.head? = some f → WaitingFrame hs.length h.trap f)

structure Inv (s : Sys) : Prop where
  phase : Phase s
  /-- only the activation on top is past its first loop -/
  below : ∀ f ∈ s.stack.tail, f.pc = .wait
  answer : ∀ r ∈ s.returned, ∃ result, s.handled[r.k]? = some ⟨r.trap, r.ret, result⟩ ∧
    ∀ x, r.result = some x → x = result

theorem Inv.init : Inv vmcsInit where
  phase := .quiet rfl rfl ⟨rfl, rfl, rfl⟩ nofun
  below := nofun
  answer := nofun

/-! ## The phases are kept -/

theorem add_one_ne (x : BitVec 64) : x + 1 ≠ x := by
  simp

@[simp] theorem store_hostIndex (m : Vmcs) (w : Store) :
    (m.store w).hostIndex = m.hostIndex := by
  cases w <;> rfl

@[simp] theorem store_guestIndex (m : Vmcs) (w : Store) :
    (m.store w).guestIndex = m.guestIndex := by
  cases w <;> rfl

variable {f : Frame} {s : Sys}

theorem quietFrame_of_wait (h : f.pc = .wait) : QuietFrame s f := by
  simp [QuietFrame, h]

variable {rest : List Frame}

theorem head_of_below (h : ∀ g ∈ rest, g.pc = .wait)
    (hf : rest.head? = some f) : f.pc = .wait :=
  h f (List.mem_of_head? hf)

theorem Inv.below_of_cons (h : Inv s)
    (hstack : s.stack = f :: rest) : ∀ g ∈ rest, g.pc = .wait := by
  have hbelow := h.below
  rwa [hstack] at hbelow

variable {t : Trap}

theorem Outstanding.trapOk (hout : Outstanding s t) (h : Inv s) (hcoming : OnItsWay s) :
    TrapOk s := by
  have hlen : s.posted.length = s.handled.length + 1 := by simp [hout.log]
  refine ⟨Or.inr hout.index, fun _ => ⟨t, ?_, hout.page.1, fun _ => hout.page.2⟩,
    ⟨⟨[t], hout.log.symm⟩, Nat.le_of_eq hlen⟩, fun _ => hcoming, h.answer⟩
  simp [hout.log]

/-- **Every state of the four phases is as promised.** -/
theorem Inv.trapOk (h : Inv s) : TrapOk s := by
  have hanswer := h.answer
  cases h.phase with
  | quiet hindex hlog hsilent htop =>
    have hlen : s.posted.length = s.handled.length := by rw [hlog, List.length_map]
    refine ⟨Or.inl hindex, fun hne => absurd hindex hne, ⟨?_, ?_⟩, fun hlt => ?_, hanswer⟩
    · exact ⟨[], by rw [List.append_nil, hlog]⟩
    · omega
    · omega
  | posting t hout _ htop =>
    obtain ⟨f, hf, hpc, -⟩ := htop
    exact hout.trapOk h (Or.inr (Or.inr (Or.inr ⟨f, hf, hpc⟩)))
  | calling t hout hbell htop =>
    refine hout.trapOk h ?_
    rcases hbell with ⟨hv, -, -⟩ | ⟨-, he, -⟩ | ⟨-, -, hr⟩
    · exact Or.inl hv
    · exact Or.inr (Or.inl (by omega))
    · refine Or.inr (Or.inr (Or.inl fun hidle => ?_))
      rw [hidle] at hr
      exact hr
  | answering hs h' hans htop =>
    have hlen : s.posted.length = s.handled.length := by rw [hans.log, List.length_map]
    refine ⟨Or.inr hans.index, fun _ => ⟨h'.trap, ?_, hans.page, fun hlt => ?_⟩, ⟨?_, ?_⟩,
      fun hlt => ?_, hanswer⟩
    · simp [hans.log, hans.handled]
    · omega
    · exact ⟨[], by rw [List.append_nil, hans.log]⟩
    · omega
    · omega

variable {cfg : Config}

theorem Inv.trap (h : Inv s) (hwait : ∀ f ∈ s.stack, f.pc = .wait)
    (t : Trap) (wantsResult nonblock : Bool) :
    Inv (vcpuTrap cfg s t wantsResult nonblock) := by
  unfold vcpuTrap
  split
  · exact h
  split
  · exact h
  refine ⟨?_, hwait, h.answer⟩
  cases h.phase with
  | quiet hindex hlog hsilent _ =>
    refine .quiet hindex hlog hsilent fun f hf => ?_
    cases hf
    trivial
  | posting t _ _ htop =>
    obtain ⟨f, hf, hpc, -⟩ := htop
    have := hwait f (List.mem_of_head? hf)
    rcases hpc with hpc | hpc <;> rw [this] at hpc <;> cases hpc
  | calling t hout hbell htop =>
    refine .calling t { hout with } hbell fun f hf => ?_
    cases hf
    exact Or.inl rfl
  | answering hs h' hans htop =>
    refine .answering hs h' { hans with } fun f hf => ?_
    cases hf
    exact Or.inl rfl

/-- A waiting activation does not move while the trap is outstanding. -/
theorem vcpuStep_waiting {k : Nat} (hf : WaitingFrame k t f)
    (hindex : s.vmcs.hostIndex = s.vmcs.guestIndex + 1)
    (ok : Bool) : vcpuStep cfg s f rest ok = s := by
  have hne : ¬ s.vmcs.guestIndex = s.vmcs.hostIndex := by
    rw [hindex]
    exact fun h => add_one_ne _ h.symm
  rcases hf with hpc | ⟨hpc, -⟩ <;> simp only [vcpuStep, hpc, if_neg hne]

/-- The vcpu's steps while no trap is outstanding. -/
theorem Inv.vcpu_quiet (h : Inv s)
    (hstack : s.stack = f :: rest) (hindex : s.vmcs.hostIndex = s.vmcs.guestIndex)
    (hlog : s.posted = s.handled.map Handled.trap) (hsilent : Silent s)
    (hf : QuietFrame s f) (ok : Bool) : Inv (vcpuStep cfg s f rest ok) := by
  have hbelow := h.below_of_cons hstack
  -- the activation returns: the next one waits
  have hquit : ∀ s' : Sys, s'.vmcs = s.vmcs → s'.posted = s.posted → s'.handled = s.handled →
      Silent s' → s'.stack = rest → Phase s' := by
    intro s' hv hp hh hs' hst
    refine .quiet (by rw [hv]; exact hindex) (by rw [hp, hh]; exact hlog) hs' fun g hg => ?_
    rw [hst] at hg
    exact quietFrame_of_wait (head_of_below hbelow hg)
  -- or it goes on
  have hgoto : ∀ (v : Vmcs) (pc : Pc), v.hostIndex = v.guestIndex →
      QuietFrame { s with vmcs := v, stack := { f with pc := pc } :: rest } { f with pc := pc } →
      Inv { s with vmcs := v, stack := { f with pc := pc } :: rest } := by
    intro v pc hv hframe
    refine ⟨.quiet hv hlog hsilent fun g hg => ?_, hbelow, h.answer⟩
    cases hg
    exact hframe
  unfold QuietFrame at hf
  unfold vcpuStep
  cases hpc : f.pc <;> simp only [hpc] at hf ⊢
  case wait =>
    rw [if_pos hindex.symm]
    exact hgoto s.vmcs _ hindex ⟨⟨rfl, rfl, rfl⟩, rfl⟩
  case stores ws =>
    cases ws with
    | nil =>
      refine ⟨.posting f.trap ⟨?_, ?_, hf⟩ hsilent ⟨_, rfl, Or.inl rfl, rfl⟩, hbelow, h.answer⟩
      · rw [hindex]
      · rw [hlog]
    | cons w ws => exact hgoto _ _ (by simpa using hindex) hf
  case undoStores ws =>
    cases ws with
    | nil => exact ⟨hquit _ rfl rfl rfl hsilent rfl,
        fun g hg => hbelow g (List.mem_of_mem_tail hg), h.answer⟩
    | cons w ws => exact hgoto _ _ (by simpa using hindex) trivial
  case blocked k =>
    rw [if_pos hindex.symm]
    exact hgoto s.vmcs _ hindex hf
  case loadResult k =>
    refine hgoto s.vmcs _ hindex ⟨hf, fun x hx => ?_⟩
    split at hx
    · exact (Option.some.inj hx).symm
    · cases hx
  case loadRet k result =>
    refine ⟨hquit _ rfl rfl rfl hsilent rfl, fun g hg => hbelow g (List.mem_of_mem_tail hg), ?_⟩
    refine List.forall_mem_cons.mpr ⟨⟨_, hf.1, hf.2⟩, h.answer⟩

/-- The vcpu's steps between its `host_index++` and its virq. -/
theorem Inv.vcpu_posting (h : Inv s) (hstack : s.stack = f :: rest)
    (hout : Outstanding s t) (hsilent : Silent s) (hpc : f.pc = .send ∨ f.pc = .undo)
    (ht : f.trap = t) (ok : Bool) : Inv (vcpuStep cfg s f rest ok) := by
  have hbelow := h.below_of_cons hstack
  have hbell : Doorbell { s with virq := true } t := Or.inl ⟨rfl, hsilent.2⟩
  unfold vcpuStep
  rcases hpc with hpc | hpc <;> simp only [hpc]
  · split_ifs with hok hnon
    · refine ⟨.calling t { hout with } hbell fun g hg => ?_,
        fun g hg => hbelow g (List.mem_of_mem_tail hg), h.answer⟩
      exact Or.inl (head_of_below hbelow hg)
    · refine ⟨.calling t { hout with } hbell fun g hg => ?_, hbelow, h.answer⟩
      cases hg
      refine Or.inr ⟨?_, ht⟩
      simp [hout.log]
    · exact ⟨.posting t { hout with } hsilent ⟨_, rfl, Or.inr rfl, ht⟩, hbelow, h.answer⟩
  · -- the virq was refused: the trap is taken back
    refine ⟨.quiet ?_ ?_ hsilent fun g hg => ?_, hbelow, h.answer⟩
    · rw [hout.index]
      exact BitVec.add_sub_cancel _ _
    · simp [hout.log]
    · cases hg
      trivial

variable {s' : Sys}

theorem Inv.vcpu {ok : Bool} (h : Inv s)
    (hs : vmcsStep cfg s (.vcpu ok) = some s') : Inv s' := by
  cases hstack : s.stack with
  | nil => simp [vmcsStep, hstack] at hs
  | cons f rest =>
    simp only [vmcsStep, hstack, Option.some.injEq] at hs
    subst hs
    have htop : s.stack.head? = some f := by rw [hstack]; rfl
    cases h.phase with
    | quiet hindex hlog hsilent hf =>
      exact h.vcpu_quiet hstack hindex hlog hsilent (hf f htop) ok
    | posting t hout hsilent hf =>
      obtain ⟨g, hg, hpc, ht⟩ := hf
      cases htop.symm.trans hg
      exact h.vcpu_posting hstack hout hsilent hpc ht ok
    | calling _ hout _ hf | answering _ _ hout hf =>
      rw [vcpuStep_waiting (hf f htop) hout.index ok]
      exact h

theorem Inv.stop (h : Inv s)
    (hs : vmcsStep cfg s .stop = some s') : Inv s' := by
  cases hstack : s.stack with
  | nil => simp [vmcsStep, hstack] at hs
  | cons f rest =>
    have hbelow := h.below_of_cons hstack
    have hne : ¬ s.vmcs.guestIndex = s.vmcs.hostIndex ∧ (f.pc = .wait ∨ ∃ k, f.pc = .blocked k) ∧
        s' = { s with stack := rest } := by
      simp only [vmcsStep, hstack] at hs
      unfold vcpuStop at hs
      split at hs
      · rename_i hpc
        split at hs
        · cases hs
        · rename_i hne
          exact ⟨hne, Or.inl hpc, (Option.some.inj hs).symm⟩
      · rename_i k hpc
        split at hs
        · cases hs
        · rename_i hne
          exact ⟨hne, Or.inr ⟨k, hpc⟩, (Option.some.inj hs).symm⟩
      · cases hs
    obtain ⟨hne, hpc, rfl⟩ := hne
    refine ⟨?_, fun g hg => hbelow g (List.mem_of_mem_tail hg), h.answer⟩
    cases h.phase with
    | quiet hindex hlog hsilent hf => exact absurd hindex.symm hne
    | posting t _ _ hf =>
      obtain ⟨g, hg, hpc', -⟩ := hf
      rw [hstack] at hg
      cases hg
      rcases hpc with hpc | ⟨k, hpc⟩ <;> rw [hpc] at hpc' <;>
        rcases hpc' with hpc' | hpc' <;> cases hpc'
    | calling t hout hbell hf =>
      exact .calling t { hout with } hbell fun g hg => Or.inl (head_of_below hbelow hg)
    | answering hs h' hans hf =>
      exact .answering hs h' { hans with } fun g hg => Or.inl (head_of_below hbelow hg)

theorem Inv.deliver (h : Inv s)
    (hs : vmcsStep cfg s .deliver = some s') : Inv s' := by
  obtain ⟨hvirq, ⟨⟩⟩ := Option.ite_none_right_eq_some.1 hs
  refine ⟨?_, h.below, h.answer⟩
  cases h.phase with
  | quiet _ _ hsilent | posting _ _ hsilent =>
    rw [hsilent.1] at hvirq
    cases hvirq
  | calling t hout hbell hf =>
    refine .calling t { hout with } ?_ hf
    rcases hbell with ⟨-, he, hm⟩ | ⟨hv, -⟩ | ⟨hv, -⟩
    · exact Or.inr (Or.inl ⟨rfl, by rw [he], hm⟩)
    all_goals
      rw [hv] at hvirq
      cases hvirq
  | answering hs h' hans hf =>
    rw [hans.bell.1] at hvirq
    cases hvirq

/-- The thread from the event descriptor to the end of handling the trap. -/
theorem Inv.mvm_calling {ret : Int} {result : Nat} (h : Inv s)
    (hout : Outstanding s t) (hbell : Doorbell s t)
    (hf : ∀ f, s.stack.head? = some f → WaitingFrame s.handled.length t f)
    (hs : mvmStep s ret result = some s') : Inv s' := by
  obtain ⟨⟨htype, hreason, hdata⟩, hresult⟩ := hout.page
  -- the thread goes on reading
  have hread : ∀ m : Mvm, s.virq = false → m.Reading t →
      Inv { s with eventfd := 0, mvm := m } := fun m hv hm =>
    ⟨.calling t { hout with } (Or.inr (Or.inr ⟨hv, rfl, hm⟩)) hf, h.below, h.answer⟩
  unfold mvmStep at hs
  rcases hbell with ⟨-, he, hm⟩ | ⟨hv, he, hm⟩ | ⟨hv, he, hm⟩
  · simp [hm, he] at hs
  · simp only [hm, he, Nat.zero_lt_one, if_true, Option.some.injEq] at hs
    subst hs
    exact hread .loadType hv trivial
  · have heta : ∀ m : Mvm, { s with mvm := m } = { s with eventfd := 0, mvm := m } := by
      intro m
      rw [← he]
    cases hmvm : s.mvm <;> rw [hmvm] at hm <;> simp only [Mvm.Reading] at hm <;>
      simp only [hmvm, Option.some.injEq] at hs <;> subst hs
    case loadType =>
      rw [heta]
      exact hread _ hv htype
    case loadReason type =>
      rw [heta]
      exact hread _ hv ⟨hm, hreason⟩
    case loadData type reason =>
      rw [heta]
      exact hread _ hv ⟨hm.1, hm.2, hdata⟩
    case loadResult type reason data =>
      rw [heta]
      obtain ⟨rfl, rfl, rfl⟩ := hm
      refine hread _ hv ?_
      show Trap.mk _ _ _ _ = t
      rw [hresult]
    case handle t' =>
      subst hm
      refine ⟨.answering s.handled ⟨t', ret, result⟩ ⟨hout.index, rfl, ?_, ⟨hv, he⟩, Or.inl rfl,
        hout.page.1⟩ hf, h.below, fun r hr => ?_⟩
      · rw [hout.log, List.map_append]
        rfl
      · obtain ⟨x, hx, hx'⟩ := h.answer r hr
        exact ⟨x, List.getElem?_append_left (List.getElem?_eq_some_iff.mp hx).1 ▸ hx, hx'⟩

/-- The thread from the answer to the end of `vmcs_ack`. -/
theorem Inv.mvm_answering {hs : List Handled} {h' : Handled} {ret : Int}
    {result : Nat} (h : Inv s) (hans : Answer s hs h')
    (hf : ∀ f, s.stack.head? = some f → WaitingFrame hs.length h'.trap f)
    (hstep : mvmStep s ret result = some s') : Inv s' := by
  -- the answer goes on, on a page that differs in the answer only
  have hgo : ∀ (v : Vmcs) (m : Mvm), v.hostIndex = s.vmcs.hostIndex →
      v.guestIndex = s.vmcs.guestIndex → v.Holds h'.trap → m.Answering v h' →
      Inv { s with vmcs := v, mvm := m } := fun v m hv hv' hp hm =>
    ⟨.answering hs h' { hans with
      index := by rw [hv, hv']; exact hans.index, mvm := hm, page := hp } hf, h.below, h.answer⟩
  have hpage := hans.page
  have hmvm := hans.mvm
  unfold mvmStep at hstep
  cases hm : s.mvm <;> rw [hm] at hmvm <;> simp only [Mvm.Answering] at hmvm <;>
    simp only [hm] at hstep
  case stores ws =>
    rcases hmvm with rfl | ⟨rfl, hret⟩ | ⟨rfl, hdone⟩ <;>
      simp only [Option.some.injEq] at hstep <;> subst hstep
    · exact hgo _ _ rfl rfl hpage (Or.inr (Or.inl ⟨rfl, rfl⟩))
    · exact hgo _ _ rfl rfl hpage (Or.inr (Or.inr ⟨rfl, hret, rfl⟩))
    · exact hgo _ _ rfl rfl hpage hdone
  case ack =>
    have hne : ¬ s.vmcs.guestIndex = s.vmcs.hostIndex := by
      rw [hans.index]
      exact fun heq => add_one_ne _ heq.symm
    rw [if_neg hne] at hstep
    cases hstep
    exact hgo _ _ rfl rfl hpage hmvm
  case ackIncr =>
    cases hstep
    refine ⟨.quiet hans.index hans.log ⟨hans.bell.1, hans.bell.2, rfl⟩ fun f hf' => ?_, h.below,
      h.answer⟩
    rcases hf f hf' with hpc | ⟨hpc, ht⟩
    · exact quietFrame_of_wait hpc
    · -- this is the activation whose answer has just been given
      simp only [QuietFrame, hpc, Answered]
      rw [hans.handled, List.getElem?_concat_length, hmvm.1, hmvm.2, ht]

theorem Inv.step {e : Event} (h : Inv s) (htame : Tame s e)
    (hs : vmcsStep cfg s e = some s') : Inv s' := by
  cases e with
  | trap t wantsResult nonblock =>
    cases hs
    exact h.trap htame t wantsResult nonblock
  | vcpu ok => exact h.vcpu hs
  | stop => exact h.stop hs
  | deliver => exact h.deliver hs
  | redeliver => exact htame.elim
  | mvm ret result =>
    cases h.phase with
    | quiet _ _ hsilent | posting _ _ hsilent =>
      simp [vmcsStep, mvmStep, hsilent.2.2, hsilent.2.1] at hs
    | calling t hout hbell hf => exact h.mvm_calling hout hbell hf hs
    | answering l h' hans hf => exact h.mvm_answering hans hf hs

/-- **The trap protocol.** In every interleaving in which interrupts raise a
trap only while the activations they interrupt still wait for the last trap,
and in which no virq is delivered twice, the indices differ by at most one,
an outstanding trap is kept, every trap is handled once and in order, and a
blocking trap returns its own result. -/
theorem vmcs_trap_ok (cfg : Config) (l : List Event)
    (hl : Along (vmcsStep cfg) Tame vmcsInit l) :
    ∀ pre, pre <+: l → ∀ t, run (vmcsStep cfg) vmcsInit pre = some t → TrapOk t := by
  intro pre hpre t ht
  have hstep : ∀ s e s', Inv s → Tame s e → vmcsStep cfg s e = some s' → Inv s' :=
    fun s e s' h htame hs => h.step htame hs
  exact (run_invariant hstep Inv.init (along_of_pre hpre hl) ht).trapOk

/-! ## One vcpu on a cpu of its own -/

def ownCpu : Config := ⟨true, false⟩

/-- `trap_mmio_read` of a device register. -/
def mmioRead : Trap := ⟨0, 0, 0x1000, 7⟩

/-- `VMTRAP_REASON_WDT_TIMEOUT`, from the watchdog's timer. -/
def wdtTimeout : Trap := ⟨1, 7, 0, 0⟩

/-- The watchdog expires while the read waits for its turn; then the host
handles both. -/
def twoTraps : List Event :=
  [Event.trap mmioRead true false, .trap wdtTimeout false true] ++
    List.replicate 8 (Event.vcpu true) ++ [Event.deliver] ++ List.replicate 11 (Event.mvm 0 0) ++
    List.replicate 8 (Event.vcpu true) ++ [Event.deliver] ++ List.replicate 11 (Event.mvm 0 42) ++
    List.replicate 3 (Event.vcpu true)

theorem vmcs_trap_ok_twoTraps :
    ((run (vmcsStep ownCpu) vmcsInit twoTraps).map Sys.returned
      = some [⟨1, mmioRead, 0, some 42⟩]) ∧
    ∀ pre, pre <+: twoTraps → ∀ t, run (vmcsStep ownCpu) vmcsInit pre = some t → TrapOk t :=
  ⟨by decide +kernel, vmcs_trap_ok ownCpu twoTraps (by decide +kernel)⟩

/-- The watchdog expires when the read has found the page free and has
stored its type. -/
def watchdogInBetween : List Event :=
  [Event.trap mmioRead true false, .vcpu true, .vcpu true, .trap wdtTimeout false true] ++
    List.replicate 8 (Event.vcpu true) ++ List.replicate 5 (Event.vcpu true)

/-- Two traps are outstanding, and the page holds a mixture of them. -/
theorem vmcs_two_outstanding :
    ∃ t, run (vmcsStep ownCpu) vmcsInit watchdogInBetween = some t ∧
      t.vmcs.hostIndex = t.vmcs.guestIndex + 2 ∧ t.posted = [wdtTimeout, mmioRead] ∧
      t.vmcs.trapType = wdtTimeout.type ∧ t.vmcs.trapData = mmioRead.data ∧ ¬ TrapOk t := by
  obtain ⟨t, ht, hhost, hguest, hposted, htype, hdata⟩ : ∃ t, run (vmcsStep ownCpu) vmcsInit
      watchdogInBetween = some t ∧ t.vmcs.hostIndex = 2 ∧ t.vmcs.guestIndex = 0 ∧ t.posted =
      [wdtTimeout, mmioRead] ∧ t.vmcs.trapType = 1 ∧ t.vmcs.trapData = 0x1000 := by
    decide +kernel
  refine ⟨t, ht, ?_, hposted, htype, hdata, fun hok => ?_⟩
  · rw [hhost, hguest]
    rfl
  · have hindex := hok.index
    rw [hhost, hguest] at hindex
    exact absurd hindex (by decide)

end Minos.VmTrap
