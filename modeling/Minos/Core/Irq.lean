import Mathlib.Data.List.Basic

/-!
# Completion of physical interrupts

`do_irq_handler` of `core/irq.c`. The loop takes the pending interrupts one
after the other until the chip has none. Taking one activates it; `irq_eoi`
ends it on the cpu and `irq_dir` deactivates it, unless it was sent to a vcpu,
which does that itself.

The handlers, the affinities and the flags of the descriptors may change from
one turn to the next, so each turn comes with the descriptors it finds.
-/

namespace Minos.Irq

def nrPercpuIrqs : Nat := 32
def badIrq : Nat := 1023

/-- Whose function `handler` of a descriptor is: `guest_irq_handler`, or one
of the hypervisor. -/
inductive Handler
  | guest
  | host
  deriving DecidableEq, Repr

/-- `struct irq_desc`; `vcpu` is `IRQ_FLAGS_VCPU` of its flags. -/
structure IrqDesc where
  hno : Nat
  affinity : Nat
  vcpu : Bool
  handler : Handler
  deriving DecidableEq, Repr

/-- `percpu_irq_descs` and `spi_irq_descs`, of `nrSpi` entries. -/
structure Descs where
  nrSpi : Nat
  percpu : Nat → IrqDesc
  spi : Nat → IrqDesc

def getIrqDescCpu (d : Descs) (cpu irq : Nat) : Option IrqDesc :=
  if d.nrSpi + nrPercpuIrqs ≤ irq then none
  else if irq < nrPercpuIrqs then some (d.percpu (cpu * nrPercpuIrqs + irq))
  else some (d.spi (irq - nrPercpuIrqs))

/-- What is asked of the interrupt chip. -/
inductive ChipCall
  | eoi (irq : Nat)
  | dir (irq : Nat)
  deriving DecidableEq, Repr

/-- `do_handle_host_irq`, with what the handler returns. -/
def doHandleHostIrq (cpu : Nat) (desc : IrqDesc) (ret : Int) : List ChipCall :=
  if cpu ≠ desc.affinity then [.dir desc.hno]
  else .eoi desc.hno :: if ret ≠ 0 ∨ desc.vcpu = false then [.dir desc.hno] else []

/-- A turn of the loop: what `get_pending_irq` returns, the descriptors, and
what the handler returns if it is called. -/
structure Turn where
  irq : Nat
  descs : Descs
  ret : Int

/-- The calls for one interrupt. -/
def handleTurn (cpu : Nat) (t : Turn) : List ChipCall :=
  match getIrqDescCpu t.descs cpu t.irq with
  | none => [.eoi t.irq, .dir t.irq]
  | some desc => doHandleHostIrq cpu desc t.ret

/-- `do_irq_handler`: the interrupts taken, each with the calls that follow
before the next is taken. -/
def doIrqHandler (cpu : Nat) : List Turn → List (Turn × List ChipCall)
  | [] => []
  | t :: ts => if badIrq ≤ t.irq then [] else (t, handleTurn cpu t) :: doIrqHandler cpu ts

/-- The interrupt was sent to a vcpu. -/
def Forwarded (cpu : Nat) (t : Turn) : Prop :=
  ∃ desc, getIrqDescCpu t.descs cpu t.irq = some desc ∧ cpu = desc.affinity ∧
    desc.handler = .guest ∧ t.ret = 0

/-- One end of interrupt, and one deactivation unless a vcpu has it. -/
def Completed (cpu : Nat) (t : Turn) (calls : List ChipCall) : Prop :=
  calls.count (.eoi t.irq) = 1 ∧ (¬ Forwarded cpu t → calls.count (.dir t.irq) = 1)

/-- The descriptor is that of the interrupt, on this cpu, and one that is
marked for a vcpu has a handler that sends it there or fails. -/
def DescOk (cpu : Nat) (t : Turn) : Prop :=
  ∀ desc, getIrqDescCpu t.descs cpu t.irq = some desc →
    desc.affinity = cpu ∧ desc.hno = t.irq ∧
      (desc.vcpu = true → desc.handler = .guest ∨ t.ret ≠ 0)

/-- A number without a descriptor is always completed. -/
theorem completed_unknown {cpu : Nat} {t : Turn} (h : getIrqDescCpu t.descs cpu t.irq = none) :
    Completed cpu t (handleTurn cpu t) := by
  simp [Completed, handleTurn, h]

/-- What is asked of the chip for an interrupt with a descriptor. -/
theorem count_handle {cpu : Nat} {desc : IrqDesc} {ret : Int} (irq : Nat) :
    (doHandleHostIrq cpu desc ret).count (.eoi irq)
        = (if cpu = desc.affinity ∧ desc.hno = irq then 1 else 0) ∧
      (doHandleHostIrq cpu desc ret).count (.dir irq)
        = if (cpu ≠ desc.affinity ∨ ret ≠ 0 ∨ desc.vcpu = false) ∧ desc.hno = irq then 1
          else 0 := by
  unfold doHandleHostIrq
  by_cases haff : cpu = desc.affinity
  · by_cases hdir : ret ≠ 0 ∨ desc.vcpu = false
    · simp [haff, hdir, List.count_cons]
    · simp [haff, hdir, List.count_cons]
  · simp [haff, List.count_cons]

theorem completed_iff (cpu : Nat) (t : Turn) :
    Completed cpu t (handleTurn cpu t) ↔ DescOk cpu t := by
  cases hdesc : getIrqDescCpu t.descs cpu t.irq with
  | none => exact ⟨fun _ desc h => (nomatch hdesc.symm.trans h), fun _ => completed_unknown hdesc⟩
  | some desc =>
    obtain ⟨heoi, hdir⟩ := @count_handle cpu desc t.ret t.irq
    have hfwd : Forwarded cpu t ↔ cpu = desc.affinity ∧ desc.handler = .guest ∧ t.ret = 0 := by
      simp [Forwarded, hdesc]
    have hok : DescOk cpu t ↔ desc.affinity = cpu ∧ desc.hno = t.irq ∧
        (desc.vcpu = true → desc.handler = .guest ∨ t.ret ≠ 0) := by
      simp [DescOk, hdesc]
    have hturn : handleTurn cpu t = doHandleHostIrq cpu desc t.ret := by
      simp only [handleTurn, hdesc]
    rw [Completed, hturn, heoi, hdir, hfwd, hok]
    constructor
    · rintro ⟨hone, hunless⟩
      have hboth : cpu = desc.affinity ∧ desc.hno = t.irq := by
        by_contra hno
        rw [if_neg hno] at hone
        cases hone
      refine ⟨hboth.1.symm, hboth.2, fun hvcpu => ?_⟩
      -- a host handler that returns 0 would leave the interrupt active
      by_contra hbad
      rw [not_or, not_not] at hbad
      have hdir := hunless fun hf => hbad.1 hf.2.1
      rw [if_neg (by simp [hboth, hbad.2, hvcpu])] at hdir
      cases hdir
    · rintro ⟨haff, hhno, hvcpu⟩
      refine ⟨if_pos ⟨haff.symm, hhno⟩, fun hnot => if_pos ⟨?_, hhno⟩⟩
      by_contra hkeep
      rw [not_or, not_or, not_not, not_not, Bool.not_eq_false] at hkeep
      obtain ⟨-, hret, hv⟩ := hkeep
      exact hnot ⟨haff.symm, (hvcpu hv).resolve_right (not_not.mpr hret), hret⟩

/-- The turns the loop takes. -/
def taken (ts : List Turn) : List Turn := ts.takeWhile fun t => decide (t.irq < badIrq)

theorem doIrqHandler_eq (cpu : Nat) (ts : List Turn) :
    doIrqHandler cpu ts = (taken ts).map fun t => (t, handleTurn cpu t) := by
  induction ts with
  | nil => rfl
  | cons t ts ih =>
    rw [doIrqHandler, taken]
    by_cases hbad : badIrq ≤ t.irq
    · rw [if_pos hbad, List.takeWhile_cons_of_neg (by simpa using hbad)]
      rfl
    · rw [if_neg hbad, List.takeWhile_cons_of_pos (by simpa using hbad), ih]
      rfl

/-- **Completion**: every interrupt that the loop takes is completed exactly
when each is taken on the cpu its descriptor names, the descriptor has its
number, and no handler of the hypervisor succeeds under a descriptor that is
marked for a vcpu. -/
theorem irq_completed_iff (cpu : Nat) (ts : List Turn) :
    (∀ r ∈ doIrqHandler cpu ts, Completed cpu r.1 r.2) ↔ ∀ t ∈ taken ts, DescOk cpu t := by
  rw [doIrqHandler_eq, List.forall_mem_map]
  exact forall_congr' fun t => imp_congr_right fun _ => completed_iff cpu t

/-- Descriptors of which only that of the shared interrupt 40 was requested:
it is on cpu 1. -/
def descsMoved : Descs where
  nrSpi := 480
  percpu _ := ⟨0, 0, false, .host⟩
  spi i := if i = 8 then ⟨40, 1, false, .host⟩ else ⟨0, 0, false, .host⟩

/-- Interrupt 40 comes to cpu 1, then one without a descriptor. -/
theorem irq_completed_moved :
    ∀ r ∈ doIrqHandler 1 [⟨40, descsMoved, 0⟩, ⟨600, descsMoved, 0⟩, ⟨1023, descsMoved, 0⟩],
      Completed 1 r.1 r.2 := by
  refine (irq_completed_iff _ _).mpr fun t ht desc hdesc => ?_
  have htaken : taken [⟨40, descsMoved, 0⟩, ⟨600, descsMoved, 0⟩, ⟨1023, descsMoved, 0⟩]
      = [⟨40, descsMoved, 0⟩, ⟨600, descsMoved, 0⟩] := rfl
  rw [htaken] at ht
  rcases List.mem_pair.mp ht with rfl | rfl
  · cases hdesc
    decide
  · cases hdesc

/-- Interrupt 40 comes to cpu 0, which deactivates it and never ends it; and
for interrupt 41 the calls go to interrupt 0. -/
theorem irq_not_completed :
    (doIrqHandler 0 [⟨40, descsMoved, 0⟩, ⟨41, descsMoved, 0⟩]).map Prod.snd
        = [[.dir 40], [.eoi 0, .dir 0]] ∧
      ¬ ∀ r ∈ doIrqHandler 0 [⟨40, descsMoved, 0⟩, ⟨41, descsMoved, 0⟩],
        Completed 0 r.1 r.2 := by
  refine ⟨rfl, fun h => ?_⟩
  have hone := (h (⟨40, descsMoved, 0⟩, [.dir 40]) List.mem_cons_self).1
  exact absurd hone (by decide)

end Minos.Irq
