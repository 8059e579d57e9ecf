import Minos.Virt.Vwdt

/-!
# The watchdog and its history

What the watchdog of `Vwdt` is to do, said of what happened to it since its
last reset: whether it is locked, which of its outputs are enabled, whether an
expiry raised an interrupt that was not cleared, and whether one asked for a
reset since the timer was started. These are read off the list of accesses
and expiries; none of the fields of `struct vwdt_dev` is used. The fields
agree with it over every run. What an expiry does is read off the machine it
leaves: a trap on a page of the VM, or its line pending.
-/

namespace Minos.Vwdt

open Minos.Lib Minos.Hypercall
open Minos.Virq (vmLocalVirqNr vmIrqCount)

/-! ## Histories -/

/-- What an event is to a watchdog. Creation and removal count as a reset. -/
inductive Op
  | lock (locked : Bool)
  | ctl (int reset : Bool)
  | intclr
  | expire
  | reset
  | other
  deriving DecidableEq, Repr

/-- A register write, whether the watchdog is locked or not. -/
def opOfWrite (offset value : Nat) : Op :=
  if offset = sp805WdtCtl then .ctl ((u32 value).testBit 0) ((u32 value).testBit 1)
  else if offset = sp805WdtIntclr then .intclr
  else if offset = sp805WdtLock ∧ u32 value = wdtUnlock then .lock false
  else if offset = sp805WdtLock ∧ u32 value = wdtLock then .lock true
  else .other

def opOf (i : Nat) : Event → Op
  | .write _ j _ offset value => if j = i then opOfWrite offset value else .other
  | .expire _ j _ _ => if j = i then .expire else .other
  | .create j _ | .reset j | .deinit j => if j = i then .reset else .other
  | .sched _ _ | .vm .. => .other

/-- What happened to watchdog `i`, the newest first. -/
def history (i : Nat) (l : List Event) : List Op := (l.map (opOf i)).reverse

def locked : List Op → Bool
  | [] | .reset :: _ => true
  | .lock b :: _ => b
  | _ :: h => locked h

/-- The interrupt is enabled: by the last write of the control register that
was not made while locked. -/
def intOn : List Op → Bool
  | [] | .reset :: _ => false
  | .ctl int _ :: h => if locked h then intOn h else int
  | _ :: h => intOn h

def resetOn : List Op → Bool
  | [] | .reset :: _ => false
  | .ctl _ reset :: h => if locked h then resetOn h else reset
  | _ :: h => resetOn h

/-- An expiry raised the interrupt, and it was neither cleared nor disabled
since. -/
def raised : List Op → Bool
  | [] | .reset :: _ => false
  | .expire :: h => raised h || intOn h
  | .intclr :: h => locked h && raised h
  | .ctl int _ :: h => if locked h then raised h else int && raised h
  | _ :: h => raised h

/-- An expiry now asks for a reset of the VM. -/
def asksReset (h : List Op) : Bool := resetOn h && raised h

/-- An expiry asked for a reset, and the timer was not started since. It is
started when the interrupt gets enabled, when the interrupt is cleared, and by
an expiry that raises it. -/
def askedReset : List Op → Bool
  | [] | .reset :: _ => false
  | .expire :: h => asksReset h || (!intOn h && askedReset h)
  | .intclr :: h => (locked h || !intOn h) && askedReset h
  | .ctl int _ :: h => (locked h || !int || intOn h) && askedReset h
  | _ :: h => askedReset h

/-! ## What the registers and the timer say of it -/

structure Tracks (w : VwdtDev) (h : List Op) : Prop where
  lock : w.accessLock = locked h
  int : w.intEnable = intOn h
  reset : w.resetEnable = resetOn h
  trigger : w.intTrigger = raised h
  pending : w.timer.pending = (intOn h && !askedReset h)
  -- only an enabled interrupt is raised
  enabled : raised h = true → intOn h = true
  placed : w.timer.cpu = none → w.timer.pending = false

variable {w w' : VwdtDev} {h : List Op} {s s' : Sys} {e : Event} {i cpu now offset value : Nat}
  {acked : Bool}

theorem tracks_init (vm : Nat) : Tracks (vwdtInit vm) (.reset :: h) :=
  ⟨rfl, rfl, rfl, rfl, rfl, nofun, fun _ => rfl⟩

theorem stopTimer_pending {t : WdtTimer} (ht : t.cpu = none → t.pending = false) :
    (stopTimer t).pending = false := by
  unfold stopTimer
  split
  · exact ht ‹_›
  · rfl

theorem Tracks.resets (ht : Tracks w h) : Tracks (vwdtReset w) (.reset :: h) :=
  have hstop := stopTimer_pending ht.placed
  ⟨rfl, rfl, rfl, rfl, hstop, nofun, fun _ => hstop⟩

theorem Tracks.other (ht : Tracks w h) : Tracks w (.other :: h) := { ht with }

/-- A restart leaves the flags and arms the timer. -/
theorem restart_arms (hr : w.restart cpu now = .ok w') :
    ∃ timeout t, w' = { w with timeoutValue := timeout, timer := t } ∧ t.pending = true ∧
      t.cpu = some cpu := by
  simp only [VwdtDev.restart, modTimer] at hr
  split at hr
  · cases hr
    exact ⟨_, _, rfl, rfl, rfl⟩
  · cases hr

/-- While the watchdog is locked the history does not see an access to its
registers. -/
theorem Tracks.refused (ht : Tracks w h) (hlock : locked h = true) {op : Op}
    (hop : op = .intclr ∨ ∃ int reset, op = .ctl int reset) : Tracks w (op :: h) := by
  have hsame : locked (op :: h) = locked h ∧ intOn (op :: h) = intOn h ∧
      resetOn (op :: h) = resetOn h ∧ raised (op :: h) = raised h ∧
      askedReset (op :: h) = askedReset h := by
    rcases hop with rfl | ⟨int, reset, rfl⟩ <;>
      simp [locked, intOn, resetOn, raised, askedReset, hlock]
  obtain ⟨hl, hi, hr, ha, hk⟩ := hsame
  exact ⟨hl ▸ ht.lock, hi ▸ ht.int, hr ▸ ht.reset, ha ▸ ht.trigger, hi ▸ hk ▸ ht.pending,
    hi ▸ ha ▸ ht.enabled, ht.placed⟩

theorem Tracks.configCtrl (ht : Tracks w h) (hlock : locked h = false) {int reset : Bool}
    (hr : vwdtConfigCtrl w cpu now int reset = .ok w') : Tracks w' (.ctl int reset :: h) := by
  have hint := ht.int
  have henabled := ht.enabled
  simp only [vwdtConfigCtrl] at hr
  split at hr
  · -- nothing changes for the interrupt
    rename_i heq
    cases hr
    refine ⟨ht.lock, ?_, ?_, ?_, ?_, ?_, ht.placed⟩
    all_goals simp only [intOn, resetOn, raised, askedReset, hlock, Bool.false_eq_true, if_false]
    · exact heq
    · rw [← heq, hint, ht.trigger]
      cases hraised : raised h with
      | false => rw [Bool.and_false]
      | true => rw [henabled hraised, Bool.and_true]
    · rw [ht.pending, ← heq, hint]
      cases intOn h <;> rfl
    · intro hand
      exact (Bool.and_eq_true_iff.mp hand).1
  · rename_i hne
    split at hr
    · -- enabled: the timer starts
      rename_i hon
      subst hon
      have hoff : intOn h = false := by
        rw [← hint]
        simpa using hne
      have hraised : raised h = false := by
        cases hr : raised h with
        | false => rfl
        | true => exact absurd (henabled hr) (by simp [hoff])
      obtain ⟨w₁, hrestart, rfl⟩ := map_eq_ok hr
      obtain ⟨timeout, t, rfl, hpending, hcpu⟩ := restart_arms hrestart
      refine ⟨ht.lock, ?_, ?_, ?_, ?_, ?_, ?_⟩
      all_goals simp only [intOn, resetOn, raised, askedReset, hlock, hoff, hraised]
      · rfl
      · rfl
      · exact ht.trigger.trans hraised
      · exact hpending
      · rintro ⟨⟩
      · intro hnone
        cases hcpu.symm.trans hnone
    · -- disabled: the interrupt is withdrawn and the timer stops
      rename_i hoff
      rw [Bool.not_eq_true] at hoff
      subst hoff
      cases hr
      have hstop := stopTimer_pending ht.placed
      refine ⟨ht.lock, ?_, ?_, ?_, ?_, ?_, fun _ => hstop⟩
      all_goals simp only [intOn, resetOn, raised, hlock]
      · rfl
      · rfl
      · rfl
      · exact hstop
      · rintro ⟨⟩

theorem Tracks.configIntclr (ht : Tracks w h) (hlock : locked h = false)
    (hr : vwdtConfigIntclr w cpu now = .ok w') : Tracks w' (.intclr :: h) := by
  have hint := ht.int
  simp only [vwdtConfigIntclr] at hr
  split at hr
  · rename_i hon
    rw [hint] at hon
    obtain ⟨timeout, t, rfl, hpending, hcpu⟩ := restart_arms hr
    refine ⟨ht.lock, ht.int, ht.reset, ?_, ?_, ?_, fun hnone => by cases hcpu.symm.trans hnone⟩
    all_goals simp only [intOn, raised, askedReset, hlock, hon]
    · rfl
    · exact hpending
    · rintro ⟨⟩
  · rename_i hoff
    rw [hint, Bool.not_eq_true] at hoff
    cases hr
    refine ⟨ht.lock, ht.int, ht.reset, ?_, ?_, ?_, ht.placed⟩
    all_goals simp only [intOn, raised, askedReset, hlock, hoff]
    · rfl
    · rw [ht.pending, hoff]
      rfl
    · rintro ⟨⟩

theorem Tracks.locks (ht : Tracks w h) (b : Bool) :
    Tracks { w with accessLock := b } (.lock b :: h) :=
  { ht with lock := rfl }

/-- A write the watchdog takes. -/
theorem Tracks.mmioWrite (ht : Tracks w h)
    (hr : vwdtMmioWrite w cpu now offset value = .ok (.ok w')) :
    Tracks w' (opOfWrite offset value :: h) := by
  simp only [vwdtMmioWrite] at hr
  split at hr
  · cases hr
  · rename_i hopen
    have hlock : offset ≠ sp805WdtLock → locked h = false := by
      intro hne
      rw [← ht.lock]
      simpa using fun hl => hopen ⟨hne, hl⟩
    unfold opOfWrite
    split_ifs at hr with hload hctl hclr hreg hunlock hlocked
    · cases hr
      subst hload
      exact { ht with }
    · obtain ⟨w₁, hw₁, heq⟩ := map_eq_ok hr
      cases heq
      rw [if_pos hctl]
      exact ht.configCtrl (hlock (by rw [hctl]; decide)) hw₁
    · obtain ⟨w₁, hw₁, heq⟩ := map_eq_ok hr
      cases heq
      rw [if_neg hctl, if_pos hclr]
      exact ht.configIntclr (hlock (by rw [hclr]; decide)) hw₁
    all_goals
      cases hr
      rw [if_neg hctl, if_neg hclr]
    · rw [if_pos ⟨hreg, hunlock⟩]
      exact ht.locks false
    · rw [if_neg (fun hu => hunlock hu.2), if_pos ⟨hreg, hlocked⟩]
      exact ht.locks true
    · rw [if_neg (fun hu => hunlock hu.2), if_neg (fun hl => hlocked hl.2)]
      exact ht.other
    · rw [if_neg (fun hu => hreg hu.1), if_neg (fun hl => hreg hl.1)]
      exact ht.other

/-- A write the watchdog refuses. -/
theorem Tracks.mmioRefused (ht : Tracks w h) {e : Errno}
    (hr : vwdtMmioWrite w cpu now offset value = .ok (.error e)) :
    Tracks w (opOfWrite offset value :: h) := by
  simp only [vwdtMmioWrite] at hr
  split_ifs at hr with hclosed
  · obtain ⟨hne, hlock⟩ := hclosed
    rw [ht.lock] at hlock
    unfold opOfWrite
    split_ifs with hctl hclr hunlock hlocked
    · exact ht.refused hlock (Or.inr ⟨_, _, rfl⟩)
    · exact ht.refused hlock (Or.inl rfl)
    · exact absurd hunlock.1 hne
    · exact absurd hlocked.1 hne
    · exact ht.other
  all_goals first
    | cases hr
    | (obtain ⟨w₁, -, heq⟩ := map_eq_ok hr
       cases heq)

/-! ## Expiry -/

/-- The timer of the watchdog has fired. -/
def VwdtDev.fired (w : VwdtDev) : VwdtDev := { w with timer := { w.timer with pending := false } }

theorem Tracks.asks_iff (ht : Tracks w h) :
    (w.fired.intTrigger = true ∧ w.fired.resetEnable = true) ↔ asksReset h = true := by
  rw [asksReset, Bool.and_eq_true, ← ht.reset, ← ht.trigger, and_comm]
  rfl

theorem Tracks.on_of_pending (ht : Tracks w h) (hpending : w.timer.pending = true) :
    intOn h = true := by
  rw [ht.pending] at hpending
  exact (Bool.and_eq_true_iff.mp hpending).1

theorem Tracks.expires (ht : Tracks w h) (hpending : w.timer.pending = true)
    {m m' : Machine} {current : Option (Nat × Nat)}
    (hr : vwdtTimerExpire m current w.fired cpu now acked = .ok (m', w')) :
    Tracks w' (.expire :: h) := by
  have hon := ht.on_of_pending hpending
  have hint : w.fired.intEnable = true := ht.int.trans hon
  have hraised : raised (.expire :: h) = true := by simp only [raised, hon, Bool.or_true]
  cases expires_of_ok hr with
  | asks c v hreset _ hw =>
    -- nothing but the timer changes
    have hasks := ht.asks_iff.mp hreset
    subst hw
    have hbefore : raised h = true := (Bool.and_eq_true_iff.mp hasks).2
    refine ⟨ht.lock, ht.int, ht.reset, ?_, ?_, fun _ => hon, fun _ => rfl⟩
    · rw [hraised, ← hbefore]
      exact ht.trigger
    · simp only [askedReset, hasks, Bool.true_or, Bool.not_true, Bool.and_false]
      rfl
  | raises hreset _ hrestart =>
    -- the timer starts again
    have hasks := mt ht.asks_iff.mpr hreset
    obtain ⟨timeout, t, rfl, harmed, hcpu⟩ := restart_arms hrestart
    refine ⟨ht.lock, ht.int, ht.reset, hraised.symm, ?_, fun _ => hon,
      fun hnone => nomatch hcpu.symm.trans hnone⟩
    simp only [intOn, askedReset, hasks, hon]
    exact harmed
  | off _ hoff => exact nomatch hint.symm.trans hoff

/-! ## Runs -/

theorem setWdt_wdt (s : Sys) (j : Nat) (o : Option VwdtDev) (i : Nat) :
    (s.setWdt j o).wdt i = if i = j then o else s.wdt i := by
  simp [Sys.setWdt, Function.update_apply]

/-- The watchdog an event is about. -/
def target : Event → Option Nat
  | .write _ i _ _ _ | .expire _ i _ _ | .create i _ | .reset i | .deinit i => some i
  | .sched _ _ | .vm .. => none

theorem opOf_of_target (h : target e ≠ some i) : opOf i e = .other := by
  cases e with
  | sched | vm => rfl
  | write | expire | create | reset | deinit => exact if_neg fun hji => h (congrArg some hji)

/-- How watchdog `i` can come to be `w'` in a step. -/
inductive Moves (s : Sys) (i : Nat) (w' : VwdtDev) : Event → Prop
  | other {e : Event} (he : target e ≠ some i) (hw : s.wdt i = some w') : Moves s i w' e
  | create {vm : Nat} (hw' : w' = vwdtInit vm) : Moves s i w' (.create i vm)
  | reset {w : VwdtDev} (hw : s.wdt i = some w) (hw' : w' = vwdtReset w) : Moves s i w' (.reset i)
  | write {w : VwdtDev} {cpu now offset value : Nat} (hw : s.wdt i = some w)
      (hr : vwdtMmioWrite w cpu now offset value = .ok (.ok w')) :
      Moves s i w' (.write cpu i now offset value)
  | refused {cpu now offset value : Nat} {err : Errno} (hw : s.wdt i = some w')
      (hr : vwdtMmioWrite w' cpu now offset value = .ok (.error err)) :
      Moves s i w' (.write cpu i now offset value)
  | expire {w : VwdtDev} {cpu now : Nat} {acked : Bool} {m' : Machine} (hw : s.wdt i = some w)
      (hpending : w.timer.pending = true)
      (hr : vwdtTimerExpire s.machine (s.current cpu) w.fired cpu now acked = .ok (m', w')) :
      Moves s i w' (.expire cpu i now acked)

theorem moves_of_step (hs : step s e = some s') (hw' : s'.wdt i = some w') : Moves s i w' e := by
  obtain ⟨r, hout, hok⟩ := Option.bind_eq_some_iff.mp hs
  have hr : r = .ok s' := by
    cases r with
    | error f => cases hok
    | ok t => rw [Option.some.inj hok]
  subst hr
  -- a step that puts `o` in place of watchdog `j`
  have hset : ∀ {j : Nat} {o : Option VwdtDev} {t : Sys}, t.wdt = s.wdt → target e = some j →
      (t.setWdt j o).wdt i = some w' → (i = j → o = some w' → Moves s i w' e) →
      Moves s i w' e := by
    intro j o t hsame htarget hw hmove
    rw [setWdt_wdt, hsame] at hw
    split_ifs at hw with hij
    · exact hmove hij hw
    · refine .other (fun hi => hij ?_) hw
      rw [htarget] at hi
      exact (Option.some.inj hi).symm
  cases e with
  | sched cpu task =>
    simp only [outcome] at hout
    split_ifs at hout
    cases hout
    exact .other (by simp [target]) hw'
  | vm j vm =>
    cases hout
    exact .other (by simp [target]) hw'
  | create j vm =>
    simp only [outcome] at hout
    split_ifs at hout
    cases hout
    refine hset rfl rfl hw' ?_
    rintro rfl ⟨⟩
    exact .create rfl
  | reset j =>
    obtain ⟨w₀, hw₀, heq⟩ := Option.map_eq_some_iff.mp hout
    cases heq
    refine hset rfl rfl hw' ?_
    rintro rfl ⟨⟩
    exact .reset hw₀ rfl
  | deinit j =>
    obtain ⟨w₀, hw₀, heq⟩ := Option.map_eq_some_iff.mp hout
    cases heq
    exact hset rfl rfl hw' nofun
  | write cpu j now offset value =>
    obtain ⟨w₀, hw₀, hout⟩ := Option.bind_eq_some_iff.mp hout
    split_ifs at hout
    obtain ⟨res, hres, heq⟩ := map_eq_ok (Option.some.inj hout)
    cases res with
    | ok w₁ =>
      cases heq
      refine hset rfl rfl hw' ?_
      rintro rfl ⟨⟩
      exact .write hw₀ hres
    | error err =>
      cases heq
      by_cases hij : j = i
      · subst hij
        rw [hw₀] at hw'
        cases hw'
        exact .refused hw₀ hres
      · exact .other (fun h => hij (Option.some.inj h)) hw'
  | expire cpu j now acked =>
    obtain ⟨w₀, hw₀, hout⟩ := Option.bind_eq_some_iff.mp hout
    split_ifs at hout with hdue
    obtain ⟨res, hres, heq⟩ := map_eq_ok (Option.some.inj hout)
    cases heq
    refine hset rfl rfl hw' ?_
    rintro rfl ⟨⟩
    exact .expire hw₀ hdue.1 hres

/-- The watchdogs an event does not concern stay, and the one it concerns
agrees with its longer history. -/
theorem tracks_step (ht : ∀ w, s.wdt i = some w → Tracks w h) (hs : step s e = some s') :
    ∀ w, s'.wdt i = some w → Tracks w (opOf i e :: h) := by
  intro w' hw'
  have hself : ∀ op : Op, (if i = i then op else .other) = op := fun op => if_pos rfl
  cases moves_of_step hs hw' with
  | other he hw =>
    rw [opOf_of_target he]
    exact (ht w' hw).other
  | create hinit =>
    rw [opOf, hself, hinit]
    exact tracks_init _
  | reset hw hreset =>
    rw [opOf, hself, hreset]
    exact (ht _ hw).resets
  | write hw hr =>
    rw [opOf, hself]
    exact (ht _ hw).mmioWrite hr
  | refused hw hr =>
    rw [opOf, hself]
    exact (ht _ hw).mmioRefused hr
  | expire hw hpending hr =>
    rw [opOf, hself]
    exact (ht _ hw).expires hpending hr

/-! ## What an expiry is to do -/

/-- A trap for the timeout is posted on the page of a vcpu of the VM. -/
def TrapPosted (m : Machine) (vm : Nat) (m' : Machine) : Prop :=
  ∃ v p p', (m.vm vm).vmcs v = some p ∧ (m'.vm vm).vmcs v = some p' ∧
    p'.hostIndex = p.hostIndex + 1 ∧ p'.trapReason = vmtrapReasonWdtTimeout

/-- The reset of the VM is requested: with `panic` for a native VM, and else by a trap. -/
def ResetRequested (m : Machine) (vm : Nat) (r : Except Fault Sys) : Prop :=
  ((m.vm vm).native = true ∧ r = .error .panic) ∨ ∃ s', r = .ok s' ∧ TrapPosted m vm s'.machine

/-- The line of the watchdog is pending at the vcpu it goes to. -/
def LinePending (vm : Vm) : Prop :=
  testBit sp805Irq (vm.virq.vcpu (vm.spi sp805Irq).vcpuId).pendingBitmap = true

instance (vm : Vm) : Decidable (LinePending vm) := inferInstanceAs (Decidable (_ = true))

/-- A state, and what happened to the watchdog until then. -/
abbrev Recorded := Sys × List Op

def record (i : Nat) (x : Recorded) (e : Event) : Option Recorded :=
  (step x.1 e).map fun s => (s, opOf i e :: x.2)

/-- What is asked of watchdog `i` at an event: its timer is armed as its history says, an access
returns and changes nothing while it is locked, and an expiry requests a reset exactly when its
history says so, and raises the interrupt otherwise. -/
structure StepRight (i : Nat) (x : Recorded) (e : Event) : Prop where
  armed : ∀ w ∈ x.1.wdt i,
    (w.timer.pending = true ↔ intOn x.2 = true ∧ askedReset x.2 = false)
  returns : ∀ cpu now offset value, e = .write cpu i now offset value →
    ∀ r ∈ outcome x.1 e, ∃ s', r = .ok s' ∧
      (locked x.2 = true → offset ≠ sp805WdtLock → s' = x.1)
  requests : ∀ cpu now acked, e = .expire cpu i now acked → ∀ w ∈ x.1.wdt i,
    ∀ r ∈ outcome x.1 e, (ResetRequested x.1.machine w.vm r ↔ asksReset x.2 = true)
  raises : ∀ cpu now acked, e = .expire cpu i now acked → ∀ w ∈ x.1.wdt i,
    ∀ r ∈ outcome x.1 e, asksReset x.2 = false →
      ∃ s', r = .ok s' ∧ LinePending (s'.machine.vm w.vm)

/-! ## When it holds -/

/-- The trap of the vcpu is heard by the host VM: no trap is outstanding or the mvm answers it, and
the vcpu need not call `sched` to wait for that or for the answer. -/
def TrapHeard (m : Machine) (c v : Nat) (acked : Bool) : Prop :=
  ∃ irq ∈ (m.vm c).vmcsIrq v, ∃ p ∈ (m.vm c).vmcs v, ∃ h ∈ m.host,
    Accepted (m.vm h) irq ∧ Deliverable (m.vm h) irq ∧ ¬ Blocks m c v h ∧
      (p.guestIndex ≠ p.hostIndex → (m.vm h).affinity 0 ≤ (m.vm c).affinity v ∧ acked = true)

/-- The VM is native, or a vcpu of it has the cpu whose trap is heard. -/
def ResetReaches (m : Machine) (vm : Nat) (current : Option (Nat × Nat)) (acked : Bool) : Prop :=
  (m.vm vm).native = true ∨ ∃ t ∈ current, t.1 = vm ∧ TrapHeard m t.1 t.2 acked

/-- The line is pending already, or it is one that is accepted and delivered under its number. -/
def LineReaches (vm : Vm) : Prop :=
  LinePending vm ∨ Accepted vm sp805Irq ∧ Deliverable vm sp805Irq ∧
    (vm.spi sp805Irq).vno = sp805Irq

def ExpiryReaches (i : Nat) (x : Recorded) (cpu : Nat) (acked : Bool) : Prop :=
  ∀ w ∈ x.1.wdt i,
    if asksReset x.2 then ResetReaches x.1.machine w.vm (x.1.current cpu) acked
    else LineReaches (x.1.machine.vm w.vm)

/-- Of the events of watchdog `i` that can happen, a write that starts the timer comes from the cpu
the timer is on, and an expiry reaches the VM or the host VM. -/
def HistoryOk (i : Nat) (x : Recorded) : Event → Prop
  | .write cpu j now offset value =>
    j = i → (outcome x.1 (.write cpu j now offset value)).isSome = true →
      ∀ w ∈ x.1.wdt i, WriteOk w cpu offset value
  | .expire cpu j now acked =>
    j = i → (outcome x.1 (.expire cpu j now acked)).isSome = true → ExpiryReaches i x cpu acked
  | _ => True

/-! ## Expiries, by what they leave -/

section Effects

variable {m m' : Machine} {vm c v irq : Nat} {p : VmTrap.Vmcs}

theorem not_trapPosted (hsame : ∀ v p p', (m.vm vm).vmcs v = some p →
    (m'.vm vm).vmcs v = some p' → p'.hostIndex = p.hostIndex) : ¬ TrapPosted m vm m' := by
  rintro ⟨v, p, p', hp, hp', hindex, -⟩
  rw [hsame v p p' hp hp'] at hindex
  simp at hindex

theorem not_trapPosted_of_pages (h : (m'.vm vm).vmcs = (m.vm vm).vmcs) :
    ¬ TrapPosted m vm m' := by
  refine not_trapPosted fun v p p' hp hp' => ?_
  rw [h, hp] at hp'
  cases hp'
  rfl

theorem not_trapPosted_takenBack (hp : (m.vm c).vmcs v = some p) :
    ¬ TrapPosted m vm (takenBack m c v p) := by
  by_cases hvm : vm = c
  · subst hvm
    refine not_trapPosted fun w q q' hq hq' => ?_
    rw [takenBack, setVm_self] at hq'
    by_cases hw : w = v
    · subst hw
      rw [setVmcs_self] at hq'
      cases hq'
      cases hp.symm.trans hq
      exact BitVec.add_sub_cancel _ _
    · rw [setVmcs_of_ne hw, hq] at hq'
      cases hq'
      rfl
  · refine not_trapPosted_of_pages ?_
    rw [takenBack, spares_setVm m c _ vm hvm]

theorem trapPosted_posted_iff {h : Nat} (hp : (m.vm c).vmcs v = some p) :
    TrapPosted m vm (posted m c v irq h p) ↔ c = vm := by
  constructor
  · intro hposted
    by_contra hne
    refine not_trapPosted_of_pages ?_ hposted
    rw [posted, spares_setVm _ c _ vm (Ne.symm hne)]
    by_cases hvm : vm = h
    · rw [hvm, setVm_self]
      rfl
    · rw [spares_setVm m h _ vm hvm]
  · rintro rfl
    refine ⟨v, p, p.post timeoutTrap, hp, ?_, rfl, rfl⟩
    rw [posted, setVm_self, setVmcs_self]

/-- When a trap that need not wait is posted for the VM. -/
theorem postFromIrq_posts_iff (hm : LinesOk m) (hirq : (m.vm c).vmcsIrq v = some irq)
    (hp : (m.vm c).vmcs v = some p) (hidle : p.guestIndex = p.hostIndex) :
    (∃ m', postFromIrq m c v = .ok m' ∧ TrapPosted m vm m') ↔
      c = vm ∧ ∃ h, Hears m irq h ∧ ¬ Blocks m c v h := by
  obtain ⟨h, hears, hblocks, hr⟩ | ⟨h, hears, hblocks, hr⟩ | ⟨hno, hr⟩ :=
    postFromIrq_cases hm hirq hp hidle
  · refine iff_of_false (fun ⟨_, hr', _⟩ => nomatch hr.symm.trans hr') ?_
    rintro ⟨-, h', hears', hblocks'⟩
    obtain rfl := Option.some.inj (hears.1.symm.trans hears'.1)
    exact hblocks' hblocks
  · constructor
    · rintro ⟨m', hr', hposted⟩
      cases hr.symm.trans hr'
      exact ⟨(trapPosted_posted_iff hp).mp hposted, h, hears, hblocks⟩
    · rintro ⟨hvm, -⟩
      exact ⟨_, hr, (trapPosted_posted_iff hp).mpr hvm⟩
  · refine iff_of_false ?_ fun ⟨_, h, hears, _⟩ => hno ⟨h, hears⟩
    rintro ⟨m', hr', hposted⟩
    cases hr.symm.trans hr'
    exact not_trapPosted_takenBack hp hposted

theorem trapPosted_answered_iff (hp : (m.vm c).vmcs v = some p) :
    TrapPosted (answered m c v p) vm m' ↔ TrapPosted m vm m' := by
  by_cases hvm : vm = c
  · subst hvm
    have hindex : ∀ w, ((answered m vm v p).vm vm).vmcs w = none ∧ (m.vm vm).vmcs w = none ∨
        ∃ q q', ((answered m vm v p).vm vm).vmcs w = some q ∧ (m.vm vm).vmcs w = some q' ∧
          q.hostIndex = q'.hostIndex := by
      intro w
      rw [answered, setVm_self]
      by_cases hw : w = v
      · subst hw
        rw [setVmcs_self]
        exact Or.inr ⟨_, p, rfl, hp, rfl⟩
      · rw [setVmcs_of_ne hw]
        cases (m.vm vm).vmcs w with
        | none => exact Or.inl ⟨rfl, rfl⟩
        | some q => exact Or.inr ⟨q, q, rfl, rfl, rfl⟩
    refine exists_congr fun w => ?_
    obtain ⟨h₁, h₂⟩ | ⟨q, q', h₁, h₂, heq⟩ := hindex w
    · rw [h₁, h₂]
    · simp [h₁, h₂, heq]
  · have hsame : (answered m c v p).vm vm = m.vm vm := spares_setVm m c _ vm hvm
    rw [TrapPosted, TrapPosted, hsame]

theorem hears_answered_iff {h : Nat} : Hears (answered m c v p) irq h ↔ Hears m irq h := by
  by_cases hc : h = c
  · subst hc
    unfold Hears
    rw [answered, setVm_self]
    rfl
  · have hsame : (answered m c v p).vm h = m.vm h := spares_setVm m c _ h hc
    unfold Hears
    rw [hsame]
    rfl

theorem blocks_answered_iff {h : Nat} : Blocks (answered m c v p) c v h ↔ Blocks m c v h := by
  have hsame : SamePlaces m (answered m c v p) := samePlaces_answered
  unfold Blocks
  rw [hsame.affinity, hsame.affinity, hsame.vcpuNr]

/-- When a trap in an interrupt is posted for the VM. -/
theorem trapFromIrq_posts_iff (hm : LinesOk m) :
    (∃ m', trapFromIrq m c v acked = .ok m' ∧ TrapPosted m vm m') ↔
      c = vm ∧ TrapHeard m c v acked := by
  have herror : ∀ {f}, trapFromIrq m c v acked = .error f →
      ¬ ∃ m', trapFromIrq m c v acked = .ok m' ∧ TrapPosted m vm m' := by
    rintro f hr ⟨m', hr', -⟩
    cases hr.symm.trans hr'
  have hnone : trapFromIrq m c v acked = .ok m →
      ¬ ∃ m', trapFromIrq m c v acked = .ok m' ∧ TrapPosted m vm m' := by
    rintro hr ⟨m', hr', hposted⟩
    cases hr.symm.trans hr'
    exact not_trapPosted_of_pages rfl hposted
  cases trapFromIrq_cases m c v acked with
  | noLine hirq hr =>
    refine iff_of_false (hnone hr) ?_
    rintro ⟨-, irq, hirq', -⟩
    cases hirq.symm.trans hirq'
  | noPage irq hirq hp hr =>
    refine iff_of_false (herror hr) ?_
    rintro ⟨-, irq, -, p, hp', -⟩
    cases hp.symm.trans hp'
  | atOnce irq p hirq hp hidle hr =>
    rw [hr, postFromIrq_posts_iff hm hirq hp hidle]
    refine and_congr_right fun _ => ?_
    simp [TrapHeard, Hears, hirq, hp, hidle, and_assoc]
  | faults irq p hirq hp hbusy hlt hr =>
    refine iff_of_false (herror hr) ?_
    rintro ⟨-, irq', -, p', hp', h, hhost, -, -, -, hbefore⟩
    cases hp.symm.trans hp'
    exact Nat.not_lt.mpr (hbefore hbusy).1 (hlt h hhost)
  | later irq h p hirq hp hbusy hhost hle hacked hr =>
    have hirq' : ((answered m c v p).vm c).vmcsIrq v = some irq := by
      rw [answered_irq]
      exact hirq
    rw [hr]
    simp only [← trapPosted_answered_iff hp]
    rw [postFromIrq_posts_iff hm.answered hirq' answered_page rfl]
    simp only [hears_answered_iff, blocks_answered_iff]
    refine and_congr_right fun _ => ?_
    simp [TrapHeard, Hears, hirq, hp, hhost, hle, hacked, and_assoc]
  | givesUp irq p hirq hp hbusy hacked hr =>
    refine iff_of_false (hnone hr) ?_
    rintro ⟨-, irq', -, p', hp', h, -, -, -, -, hbefore⟩
    cases hp.symm.trans hp'
    cases hacked.symm.trans (hbefore hbusy).2

/-- When the line is pending once it was sent. -/
theorem linePending_sent_iff (hm : LinesOk m) {cur : Nat}
    (hr : sendTimeout m c cur = .ok m') : LinePending (m'.vm c) ↔ LineReaches (m.vm c) := by
  rw [sendTimeout_eq hm] at hr
  cases hr
  split
  · rename_i hsent
    have hdesc : (m.vm c).virq.HasDesc (.spi (sp805Irq - vmLocalVirqNr)) := by
      have hcount := hsent.1.2.1
      unfold vmIrqCount at hcount
      exact Nat.pos_of_ne_zero fun hzero => by
        rw [hzero, Nat.zero_add] at hcount
        exact absurd hcount (by decide)
    have hid := (Virq.Delivery.sendVirqPending_frame (m.vm c).virq cur
      ((m.vm c).spi sp805Irq).vcpuId (.spi (sp805Irq - vmLocalVirqNr))).vcpuId
        (.spi (sp805Irq - vmLocalVirqNr))
    have hpend := Virq.Delivery.sendVirqPending_pending (hm c).sized hdesc cur
      ((m.vm c).spi sp805Irq).vcpuId ((m.vm c).spi sp805Irq).vcpuId sp805Irq
    rw [setVm_self]
    unfold LinePending LineReaches
    have hspi : ((heard (m.vm c) cur sp805Irq).spi sp805Irq).vcpuId
        = ((m.vm c).spi sp805Irq).vcpuId := hid
    rw [hspi, heard_virq, hpend, Bool.or_eq_true, decide_eq_true_iff, and_iff_right rfl]
    exact or_congr_right ⟨fun h => ⟨hsent.1, hsent.2, h.symm⟩, fun h => h.2.2.symm⟩
  · rename_i hsent
    exact ⟨Or.inl, fun h => h.resolve_right fun hand => hsent ⟨hand.1, hand.2.1⟩⟩

end Effects

/-! ## Results -/

variable {r : Except Fault Sys}

/-- What a write to the watchdog comes to. -/
theorem write_outcome (hw : s.wdt i = some w) : outcome s (.write cpu i now offset value) =
    if (s.current cpu).map Prod.fst = some w.vm then
      some ((vwdtMmioWrite w cpu now offset value).map fun
        | .ok w => s.setWdt i (some w)
        | .error _ => s)
    else none := by
  rw [outcome, hw]
  rfl

theorem expire_outcome (hw : s.wdt i = some w) (hr : outcome s (.expire cpu i now acked) = some r) :
    w.timer.pending = true ∧ w.timer.cpu = some cpu ∧
      r = (vwdtTimerExpire s.machine (s.current cpu) w.fired cpu now acked).map fun r =>
        { s with machine := r.1 }.setWdt i (some r.2) := by
  rw [outcome, hw] at hr
  obtain ⟨⟨hpending, hcpu, -⟩, hr⟩ := Option.ite_none_right_eq_some.mp hr
  exact ⟨hpending, hcpu, (Option.some.inj hr).symm⟩

theorem Tracks.armed (ht : Tracks w h) :
    w.timer.pending = true ↔ intOn h = true ∧ askedReset h = false := by
  rw [ht.pending, Bool.and_eq_true, Bool.not_eq_true']

theorem Tracks.returns_iff (ht : Tracks w h) (hw : s.wdt i = some w)
    (hr : outcome s (.write cpu i now offset value) = some r) :
    (∃ s', r = .ok s' ∧ (locked h = true → offset ≠ sp805WdtLock → s' = s)) ↔
      WriteOk w cpu offset value := by
  rw [write_outcome hw] at hr
  obtain ⟨-, ⟨⟩⟩ := Option.ite_none_right_eq_some.mp hr
  rw [← vwdtMmioWrite_ok_iff w cpu now offset value]
  constructor
  · rintro ⟨s', hs', -⟩
    obtain ⟨res, hres, -⟩ := map_eq_ok hs'
    exact ⟨res, hres⟩
  · rintro ⟨res, hres⟩
    rw [hres]
    refine ⟨_, rfl, fun hlocked hne => ?_⟩
    rw [vwdtMmioWrite, if_pos ⟨hne, ht.lock.trans hlocked⟩] at hres
    cases hres
    rfl

/-- **An expiry** does what the history says exactly when it reaches the VM or the host VM. -/
theorem Tracks.expiry_iff (ht : Tracks w h) (hm : LinesOk s.machine) (hw : s.wdt i = some w)
    (hr : outcome s (.expire cpu i now acked) = some r) :
    ((ResetRequested s.machine w.vm r ↔ asksReset h = true) ∧
      (asksReset h = false → ∃ s', r = .ok s' ∧ LinePending (s'.machine.vm w.vm))) ↔
      if asksReset h then ResetReaches s.machine w.vm (s.current cpu) acked
      else LineReaches (s.machine.vm w.vm) := by
  obtain ⟨hpending, hcpu, rfl⟩ := expire_outcome hw hr
  have hint : w.fired.intEnable = true := ht.int.trans (ht.on_of_pending hpending)
  by_cases hasks : asksReset h = true
  · simp only [vwdtTimerExpire, ht.asks_iff, hasks, if_true, iff_true, Bool.true_eq_false,
      false_imp_iff, and_true]
    cases hnative : (s.machine.vm w.vm).native with
    | true =>
      have hfired : (s.machine.vm w.fired.vm).native = true := hnative
      simp only [hfired, if_true]
      exact iff_of_true (Or.inl ⟨hnative, rfl⟩) (Or.inl hnative)
    | false =>
      have hfired : (s.machine.vm w.fired.vm).native = false := hnative
      simp only [hfired, Bool.false_eq_true, if_false, ResetRequested, ResetReaches, hnative,
        false_and, false_or]
      cases s.current cpu with
      | none => simp [Except.map]
      | some t =>
        simp only [Option.mem_some_iff, exists_eq_left', ← trapFromIrq_posts_iff hm]
        cases trapFromIrq s.machine t.1 t.2 acked with
        | error f => exact iff_of_false (by simp [Except.map]) (by simp)
        | ok m' => simp [Except.map, Sys.setWdt]
  · obtain ⟨w', hw'⟩ := (restart_ok_iff { w.fired with intTrigger := true } cpu now).mpr
      (Or.inr hcpu)
    obtain ⟨m', hsend⟩ : ∃ m', sendTimeout s.machine w.fired.vm
        (((s.current cpu).map Prod.snd).getD 0) = .ok m' := ⟨_, sendTimeout_eq hm _ _⟩
    have hline := linePending_sent_iff hm hsend
    have hposted : ¬ TrapPosted s.machine w.vm m' := not_trapPosted_of_pages (by
      rw [sendTimeout_eq hm] at hsend
      cases hsend
      split
      · rw [show w.vm = w.fired.vm from rfl, setVm_self]
        rfl
      · rfl)
    have hexpire : vwdtTimerExpire s.machine (s.current cpu) w.fired cpu now acked
        = .ok (m', w') := by
      simp only [vwdtTimerExpire]
      rw [if_neg (mt ht.asks_iff.mp hasks), if_pos hint, hsend, Except.bind, hw']
      rfl
    rw [hexpire, if_neg hasks]
    simp only [Except.map, ResetRequested, reduceCtorEq, and_false, false_or, Except.ok.injEq,
      exists_eq_left', Sys.setWdt, hposted, hasks, iff_self, true_and]
    exact true_imp_iff.trans hline

/-- Every state of a run: the watchdog agrees with its history. -/
structure RecordedInv (i : Nat) (x : Recorded) : Prop where
  lines : LinesOk x.1.machine
  tracks : ∀ w, x.1.wdt i = some w → Tracks w x.2

theorem RecordedInv.init {m : Machine} (hm : LinesOk m) : RecordedInv i (init m, []) :=
  ⟨hm, fun w hw => by cases hw⟩

theorem RecordedInv.step {x x' : Recorded} (h : RecordedInv i x)
    (hx : record i x e = some x') : RecordedInv i x' := by
  obtain ⟨s', hs', rfl⟩ := Option.map_eq_some_iff.mp hx
  exact ⟨lines_step h.lines hs', tracks_step h.tracks hs'⟩

/-- One event of a watchdog that agrees with its history. -/
theorem RecordedInv.right_iff {x : Recorded} (h : RecordedInv i x) (e : Event) :
    StepRight i x e ↔ HistoryOk i x e := by
  obtain ⟨hm, ht⟩ := h
  have harmed : ∀ w ∈ x.1.wdt i,
      (w.timer.pending = true ↔ intOn x.2 = true ∧ askedReset x.2 = false) :=
    fun w hw => (ht w hw).armed
  cases e with
  | sched | vm | create | reset | deinit =>
    exact iff_of_true ⟨harmed, nofun, nofun, nofun⟩ trivial
  | write cpu j now offset value =>
    constructor
    · rintro hright rfl hsome w hw
      obtain ⟨r, hr⟩ := Option.isSome_iff_exists.mp hsome
      exact ((ht w hw).returns_iff hw hr).mp (hright.returns cpu now offset value rfl r hr)
    · intro hok
      refine ⟨harmed, ?_, nofun, nofun⟩
      rintro _ _ _ _ ⟨⟩ r hr
      obtain ⟨w, hw, -⟩ := Option.bind_eq_some_iff.mp hr
      exact ((ht w hw).returns_iff hw hr).mpr (hok rfl (Option.isSome_of_mem hr) w hw)
  | expire cpu j now acked =>
    constructor
    · rintro hright rfl hsome w hw
      obtain ⟨r, hr⟩ := Option.isSome_iff_exists.mp hsome
      exact ((ht w hw).expiry_iff hm hw hr).mp ⟨hright.requests cpu now acked rfl w hw r hr,
        hright.raises cpu now acked rfl w hw r hr⟩
    · intro hok
      have hiff : ∀ w ∈ x.1.wdt i, j = i → ∀ r ∈ outcome x.1 (.expire cpu j now acked), _ :=
        fun w hw hj r hr => ((ht w hw).expiry_iff hm hw (hj ▸ hr)).mpr
          (hok hj (Option.isSome_of_mem hr) w hw)
      refine ⟨harmed, nofun, ?_, ?_⟩
      · rintro _ _ _ ⟨⟩ w hw r hr
        exact (hiff w hw rfl r hr).1
      · rintro _ _ _ ⟨⟩ w hw r hr
        exact (hiff w hw rfl r hr).2

/-- **Watchdog**: in every run, at each event, its timer is armed exactly while the interrupt is
enabled and no expiry requested a reset since it was started, accesses return and have no effect
while it is locked, and an expiry requests a reset exactly when resets are enabled and an interrupt
raised before is neither cleared nor disabled, and raises it otherwise, exactly if the timer is
started on its cpu and the expiries get through. -/
theorem watchdog_history_iff (m : Machine) (hm : LinesOk m) (i : Nat) (l : List Event) :
    Along (record i) (StepRight i) (init m, []) l ↔
      Along (record i) (HistoryOk i) (init m, []) l := by
  exact along_congr (fun _ _ _ h _ hx => h.step hx) (fun _ e h => h.right_iff e)
    (RecordedInv.init hm) l

instance (m : Machine) (c v h : Nat) : Decidable (Blocks m c v h) :=
  inferInstanceAs (Decidable (_ ∧ _))

instance (m : Machine) (c v : Nat) (acked : Bool) : Decidable (TrapHeard m c v acked) :=
  inferInstanceAs (Decidable (∃ irq ∈ (m.vm c).vmcsIrq v, ∃ p ∈ (m.vm c).vmcs v, ∃ h ∈ m.host,
    Accepted (m.vm h) irq ∧ Deliverable (m.vm h) irq ∧ ¬ Blocks m c v h ∧
      (p.guestIndex ≠ p.hostIndex →
        (m.vm h).affinity 0 ≤ (m.vm c).affinity v ∧ acked = true)))

instance (m : Machine) (vm : Nat) (current : Option (Nat × Nat)) (acked : Bool) :
    Decidable (ResetReaches m vm current acked) :=
  inferInstanceAs (Decidable (_ ∨ ∃ t ∈ current, t.1 = vm ∧ TrapHeard m t.1 t.2 acked))

instance (vm : Vm) : Decidable (LineReaches vm) :=
  inferInstanceAs (Decidable (_ ∨ _ ∧ _ ∧ _))

instance (i : Nat) (x : Recorded) (cpu : Nat) (acked : Bool) :
    Decidable (ExpiryReaches i x cpu acked) :=
  inferInstanceAs (Decidable (∀ w ∈ x.1.wdt i,
    if asksReset x.2 then ResetReaches x.1.machine w.vm (x.1.current cpu) acked
    else LineReaches (x.1.machine.vm w.vm)))

instance (i : Nat) (x : Recorded) : (e : Event) → Decidable (HistoryOk i x e)
  | .write cpu j now offset value =>
    inferInstanceAs (Decidable (j = i →
      (outcome x.1 (.write cpu j now offset value)).isSome = true →
        ∀ w ∈ x.1.wdt i, WriteOk w cpu offset value))
  | .expire cpu j now acked =>
    inferInstanceAs (Decidable (j = i → (outcome x.1 (.expire cpu j now acked)).isSome = true →
      ExpiryReaches i x cpu acked))
  | .sched .. | .create .. | .reset _ | .deinit _ | .vm .. => isTrue trivial

/-- VM 2 starts its watchdog with both outputs, and does not clear its interrupt: the second
expiry requests its reset. -/
theorem watchdog_history_own :
    Along (record 0) (StepRight 0) (init twoGuests, []) ownReset ∧
      asksReset (history 0 (startWatchdog 2 4)) = true :=
  ⟨(watchdog_history_iff twoGuests linesOk_twoGuests 0 ownReset).mpr (by decide +kernel),
    by decide⟩

theorem right_last {m : Machine} {l : List Event}
    (hright : Along (record i) (StepRight i) (init m, []) (l ++ [e])) {x : Recorded}
    (hx : run (record i) (init m, []) l = some x) : StepRight i x e :=
  (along_of_append hright hx).1

/-- Vcpu 1 of VM 2 clears the interrupt on cpu 5, and `__mod_timer` fails its `ASSERT`; and the
second expiry of the watchdog of VM 2, on top of VM 4, requests no reset of VM 2. -/
theorem watchdog_history_fails :
    ((run (record 0) (init smpGuest, []) startOnFour).map fun x =>
        (outcome x.1 clearOnFive).map fault) = some (some (some .assertion)) ∧
      ¬ Along (record 0) (StepRight 0) (init smpGuest, []) (startOnFour ++ [clearOnFive]) ∧
        ¬ Along (record 0) (StepRight 0) (init twoGuests, [])
          (foreignReset ++ [.expire 4 0 2000000000 true]) := by
  have hassert : ((run (record 0) (init smpGuest, []) startOnFour).map fun x =>
      (outcome x.1 clearOnFive).map fault) = some (some (some .assertion)) := by decide +kernel
  refine ⟨hassert, fun hright => ?_, fun hright => ?_⟩
  · obtain ⟨x, hx, hout⟩ := Option.map_eq_some_iff.mp hassert
    obtain ⟨r, hr, hfault⟩ := Option.map_eq_some_iff.mp hout
    obtain ⟨s', rfl, -⟩ := (right_last hright hx).returns 5 0 sp805WdtIntclr 0 rfl r hr
    cases hfault
  · have hlost : ((run (record 0) (init twoGuests, []) foreignReset).map fun x =>
        decide (HistoryOk 0 x (.expire 4 0 2000000000 true))) = some false := by decide +kernel
    obtain ⟨x, hx, hno⟩ := Option.map_eq_some_iff.mp hlost
    have hinv : RecordedInv 0 x := run_invariant (P := fun _ _ => True)
      (fun _ _ _ h _ hx => h.step hx) (RecordedInv.init linesOk_twoGuests) (along_true _ _) hx
    exact of_decide_eq_false hno ((hinv.right_iff _).mp (right_last hright hx))

end Minos.Vwdt
