import Minos.Virt.VwdtHistory

/-!
# The timeout of the watchdog

The watchdog of `Vwdt` counts at 32768 Hz: a guest that writes `LOAD` asks for
`LOAD / 32768` seconds. `vwdt_config_load` rounds that up to whole seconds, in
32 bits, and keeps nanoseconds; `wdt_timeleft` converts what is left of them
back to ticks. The deadline and the register `VALUE` are compared with the
last `LOAD` the watchdog took, which is read off the events of the run.
-/

namespace Minos.Vwdt

open Minos.Lib Minos.Hypercall

/-! ## Reads -/

def sp805WdtValue : Nat := 0x04
def sp805WdtRis : Nat := 0x10
def sp805WdtMis : Nat := 0x14

/-- The registers that identify the device, with what they hold. -/
def sp805Ids : List (Nat × Nat) :=
  [(0xfe0, 0x5), (0xfe4, 0x18), (0xfe8, 0x14), (0xfec, 0x0), (0xff0, 0x0d), (0xff4, 0xf0),
    (0xff8, 0x05), (0xffc, 0xb1)]

def wdtTimeleft (w : VwdtDev) (now : Nat) : Nat :=
  u32 (sub64 w.timeoutValue now / 1000000000 * wdtClkRate)

/-- `none` where `*value` is left as it is. -/
def vwdtMmioRead (w : VwdtDev) (now offset : Nat) : Option Nat :=
  if offset = sp805WdtValue then some (wdtTimeleft w now)
  else if offset = sp805WdtCtl then some (w.resetEnable.toNat * 2 + w.intEnable.toNat)
  else if offset = sp805WdtLock then some w.accessLock.toNat
  else if offset = sp805WdtRis then some w.intTrigger.toNat
  else if offset = sp805WdtMis then some w.intEnable.toNat
  else sp805Ids.lookup offset

/-! ## What the guest asked for -/

/-- The last `LOAD` that watchdog `i` took since its last reset, of the events
`h`, the newest first. -/
def lastLoad (i : Nat) : List Event → Nat
  | [] => 0
  | .write _ j _ offset value :: h =>
    if j = i ∧ offset = sp805WdtLoad ∧ locked (h.map (opOf i)) = false then u32 value
    else lastLoad i h
  | .create j _ :: h | .reset j :: h | .deinit j :: h => if j = i then 0 else lastLoad i h
  | .sched _ _ :: h | .vm .. :: h | .expire _ _ _ _ :: h => lastLoad i h

/-- What the code makes of a `LOAD`, in nanoseconds. -/
def loadNs (load : Nat) : Nat := u32 (load + (wdtClkRate - 1)) / wdtClkRate * 1000000000

/-- When a timer started at `now` is due. -/
def armedDeadline (now load : Nat) : Nat := SoftTimer.modExpires now (u64 (now + loadNs load))

/-- The watchdog was started at `now` with `load`: it is due after at least
`load / 32768` seconds and less than a second more, a smaller load is not due
later, and until then `VALUE` is at most `load` rounded up to seconds. -/
structure TimeoutOk (now load : Nat) (w : VwdtDev) : Prop where
  armed : w.timer.pending = true
  early : now * wdtClkRate + load * 1000000000 ≤ w.timer.expires * wdtClkRate
  late : w.timer.expires * wdtClkRate < now * wdtClkRate + (load + wdtClkRate) * 1000000000
  monotone : ∀ less ≤ load, armedDeadline now less ≤ w.timer.expires
  value : ∀ t, now ≤ t → t < w.timer.expires → ∀ v, vwdtMmioRead w t sp805WdtValue = some v →
    v ≤ (load + (wdtClkRate - 1)) / wdtClkRate * wdtClkRate

/-- The round up of the load stays in 32 bits. -/
def LoadOk (load : Nat) : Prop := 0 < load ∧ load + (wdtClkRate - 1) < 2 ^ 32

/-! ## The load -/

section Load

variable {w w' : VwdtDev} {cpu now offset value : Nat}

theorem restart_loadValue (hr : w.restart cpu now = .ok w') : w'.loadValue = w.loadValue := by
  obtain ⟨timeout, t, rfl, -, -⟩ := restart_arms hr
  rfl

theorem configCtrl_loadValue {int reset : Bool}
    (hr : vwdtConfigCtrl w cpu now int reset = .ok w') : w'.loadValue = w.loadValue := by
  obtain ⟨w₁, hw₁, rfl⟩ := map_eq_ok hr
  split_ifs at hw₁
  · cases hw₁
    rfl
  · exact (restart_loadValue hw₁ :)
  · cases hw₁
    rfl

theorem configIntclr_loadValue (hr : vwdtConfigIntclr w cpu now = .ok w') :
    w'.loadValue = w.loadValue := by
  simp only [vwdtConfigIntclr] at hr
  split_ifs at hr
  · exact (restart_loadValue hr :)
  · cases hr
    rfl

theorem mmioWrite_loadValue (hr : vwdtMmioWrite w cpu now offset value = .ok (.ok w')) :
    w'.loadValue = if offset = sp805WdtLoad then loadNs (u32 value) else w.loadValue := by
  simp only [vwdtMmioWrite] at hr
  split_ifs at hr with hclosed hload hctl hclr hreg hunlock hlocked
  · cases hr
  · cases hr
    rw [if_pos hload]
    rfl
  · obtain ⟨w₁, hw₁, heq⟩ := map_eq_ok hr
    cases heq
    rw [if_neg hload]
    exact configCtrl_loadValue hw₁
  · obtain ⟨w₁, hw₁, heq⟩ := map_eq_ok hr
    cases heq
    rw [if_neg hload]
    exact configIntclr_loadValue hw₁
  all_goals
    cases hr
    rw [if_neg hload]

theorem expire_loadValue {m m' : Machine} {current : Option (Nat × Nat)} {acked : Bool}
    (hr : vwdtTimerExpire m current w cpu now acked = .ok (m', w')) :
    w'.loadValue = w.loadValue := by
  cases expires_of_ok hr with
  | asks _ _ _ _ hw | off _ _ _ hw => rw [hw]
  | raises _ _ hrestart => exact (restart_loadValue hrestart :)

/-- A write the watchdog takes comes while it is open. -/
theorem open_of_mmioWrite (hr : vwdtMmioWrite w cpu now offset value = .ok (.ok w'))
    (hne : offset ≠ sp805WdtLock) : w.accessLock = false := by
  by_contra hlock
  rw [vwdtMmioWrite, if_pos ⟨hne, by simpa using hlock⟩] at hr
  cases hr

theorem closed_of_refused {err : Errno}
    (hr : vwdtMmioWrite w cpu now offset value = .ok (.error err)) : w.accessLock = true := by
  simp only [vwdtMmioWrite] at hr
  split_ifs at hr with hclosed
  · exact hclosed.2
  all_goals first
    | cases hr
    | (obtain ⟨w₁, -, heq⟩ := map_eq_ok hr
       cases heq)

theorem lastLoad_of_target {i : Nat} {e : Event} (he : target e ≠ some i) (h : List Event) :
    lastLoad i (e :: h) = lastLoad i h := by
  cases e with
  | sched | vm | expire => rfl
  | write => exact if_neg fun hji => he (congrArg some hji.1)
  | create | reset | deinit => exact if_neg fun hji => he (congrArg some hji)

/-- The watchdog agrees with the events `h`, and `load_value` is that of the last `LOAD`. -/
structure Loaded (i : Nat) (w : VwdtDev) (h : List Event) : Prop where
  tracks : Tracks w (h.map (opOf i))
  load : w.loadValue = loadNs (lastLoad i h)

theorem loaded_step {s s' : Sys} {e : Event} {i : Nat} {h : List Event}
    (hs : ∀ w, s.wdt i = some w → Loaded i w h) (hstep : step s e = some s') :
    ∀ w, s'.wdt i = some w → Loaded i w (e :: h) := by
  intro w' hw'
  refine ⟨tracks_step (fun w hw => (hs w hw).tracks) hstep w' hw', ?_⟩
  cases moves_of_step hstep hw' with
  | other he hw =>
    rw [lastLoad_of_target he]
    exact (hs w' hw).load
  | create hinit =>
    rw [lastLoad, if_pos rfl, hinit]
    rfl
  | reset hw hreset =>
    rw [lastLoad, if_pos rfl, hreset]
    rfl
  | @write w cpu now offset value hw hwrite =>
    rw [mmioWrite_loadValue hwrite, lastLoad]
    by_cases hload : offset = sp805WdtLoad
    · have hopen := open_of_mmioWrite hwrite (by rw [hload]; decide)
      rw [(hs w hw).tracks.lock] at hopen
      rw [if_pos hload, if_pos ⟨rfl, hload, hopen⟩]
    · rw [if_neg hload, if_neg fun hand => hload hand.2.1]
      exact (hs w hw).load
  | refused hw hrefused =>
    have hclosed := closed_of_refused hrefused
    rw [(hs w' hw).tracks.lock] at hclosed
    rw [lastLoad, if_neg fun hand => Bool.noConfusion (hclosed.symm.trans hand.2.2)]
    exact (hs w' hw).load
  | expire hw _ hexpire =>
    rw [expire_loadValue hexpire]
    exact ((hs _ hw).load :)

theorem loaded_run {m : Machine} {l : List Event} {s : Sys} {i : Nat}
    (hr : run step (init m) l = some s) : ∀ w, s.wdt i = some w → Loaded i w l.reverse := by
  induction l using List.reverseRecOn generalizing s with
  | nil =>
    cases hr
    exact nofun
  | append_singleton l e ih =>
    obtain ⟨s₁, hs₁, hlast⟩ := run_append_eq_some hr
    obtain ⟨s₂, hs₂, ⟨⟩⟩ := run_cons_eq_some hlast
    rw [List.reverse_append, List.reverse_singleton, List.singleton_append]
    exact loaded_step (ih hs₁) hs₂

theorem restart_expires (hr : w.restart cpu now = .ok w') :
    w'.timer.pending = true ∧ w'.timeoutValue = u64 (now + w.loadValue) ∧
      w'.timer.expires = SoftTimer.modExpires now (u64 (now + w.loadValue)) := by
  simp only [VwdtDev.restart, modTimer] at hr
  -- `rfl` would compute with the constants of `mod_timer`
  generalize SoftTimer.modExpires now (u64 (now + w.loadValue)) = expires at hr ⊢
  split_ifs at hr
  · cases hr
    exact ⟨rfl, rfl, rfl⟩
  · cases hr

/-- A write that starts the timer arms it with the load, if it may run on the cpu. -/
theorem start_arms (now : Nat) (hstart : StartsTimer w offset value)
    (hcpu : SoftTimer.MayMod w.timer.cpu cpu) :
    ∃ w', vwdtMmioWrite w cpu now offset value = .ok (.ok w') ∧ w'.timer.pending = true ∧
      w'.timeoutValue = u64 (now + w.loadValue) ∧
        w'.timer.expires = SoftTimer.modExpires now (u64 (now + w.loadValue)) := by
  obtain ⟨w₁, reset, htimer, hload, hr⟩ := vwdtMmioWrite_of_starts cpu now hstart
  obtain ⟨w₂, hw₂⟩ := (restart_ok_iff w₁ cpu now).mpr (by rwa [htimer])
  have harms := restart_expires hw₂
  rw [hload] at harms
  rw [hr, hw₂]
  exact ⟨_, rfl, harms⟩

end Load

/-! ## The deadline -/

theorem loadNs_of_fits {load : Nat} (h : load + (wdtClkRate - 1) < 2 ^ 32) :
    loadNs load = (load + (wdtClkRate - 1)) / wdtClkRate * 1000000000 := by
  rw [loadNs, u32_of_lt h]

theorem loadNs_of_wraps {load : Nat} (hlt : load < 2 ^ 32)
    (h : ¬ load + (wdtClkRate - 1) < 2 ^ 32) : loadNs load = 0 := by
  unfold loadNs u32 wdtClkRate at *
  omega

theorem loadNs_le (load : Nat) : loadNs load ≤ 131071 * 1000000000 := by
  have := u32_lt (load + (wdtClkRate - 1))
  unfold loadNs wdtClkRate at *
  omega

section Deadline

variable {now load : Nat} (hclock : now + 131072 * 1000000000 < 2 ^ 64)

include hclock

theorem timeout_eq (load : Nat) : u64 (now + loadNs load) = now + loadNs load := by
  have hle := loadNs_le load
  exact u64_of_lt (by omega)

theorem armedDeadline_eq (load : Nat) :
    armedDeadline now load = now + max SoftTimer.timerPrecision (loadNs load) := by
  have hprec : now + SoftTimer.timerPrecision < 2 ^ 64 := by
    unfold SoftTimer.timerPrecision
    omega
  rw [armedDeadline, timeout_eq hclock, SoftTimer.modExpires_spec hprec, Nat.add_max_add_left]

/-- Of a load that fits, the deadline is the whole number of seconds. -/
theorem armedDeadline_of_loadOk (h : LoadOk load) :
    armedDeadline now load = now + loadNs load ∧
      load * 1000000000 ≤ loadNs load * wdtClkRate ∧
        loadNs load * wdtClkRate < (load + wdtClkRate) * 1000000000 := by
  obtain ⟨hpos, hfit⟩ := h
  rw [armedDeadline_eq hclock, loadNs_of_fits hfit]
  unfold SoftTimer.timerPrecision wdtClkRate
  omega

theorem armedDeadline_mono {less : Nat} (hle : less ≤ load) (h : LoadOk load) :
    armedDeadline now less ≤ armedDeadline now load := by
  have hns : loadNs less ≤ loadNs load := by
    rw [loadNs_of_fits h.2, loadNs_of_fits (Nat.lt_of_le_of_lt (Nat.add_le_add_right hle _) h.2)]
    exact Nat.mul_le_mul_right _ (Nat.div_le_div_right (Nat.add_le_add_right hle _))
  rw [armedDeadline_eq hclock, armedDeadline_eq hclock]
  omega

/-- What is left of the load, in ticks. -/
theorem wdtTimeleft_le {w : VwdtDev} {t : Nat} (h : LoadOk load)
    (hw : w.timeoutValue = now + loadNs load) (hnow : now ≤ t) (ht : t ≤ w.timeoutValue) :
    wdtTimeleft w t ≤ (load + (wdtClkRate - 1)) / wdtClkRate * wdtClkRate := by
  have hle := loadNs_le load
  have hleft : sub64 w.timeoutValue t ≤ loadNs load := by
    rw [sub64_of_le ht (by omega)]
    omega
  have hseconds : sub64 w.timeoutValue t / 1000000000
      ≤ (load + (wdtClkRate - 1)) / wdtClkRate := by
    rw [loadNs_of_fits h.2] at hleft
    exact Nat.div_le_of_le_mul (by rwa [Nat.mul_comm] at hleft)
  exact (Nat.mod_le _ _).trans (Nat.mul_le_mul_right _ hseconds)

theorem timeoutOk_iff {w : VwdtDev} (hload : load < 2 ^ 32) (harmed : w.timer.pending = true)
    (htimeout : w.timeoutValue = u64 (now + loadNs load))
    (hexpires : w.timer.expires = armedDeadline now load) :
    TimeoutOk now load w ↔ LoadOk load := by
  rw [timeout_eq hclock] at htimeout
  constructor
  · intro hok
    have hexp := hexpires.trans (armedDeadline_eq hclock load)
    refine ⟨Nat.pos_of_ne_zero ?_, ?_⟩
    · -- nothing is left of an empty load, but the timer is due later
      rintro rfl
      have hzero : loadNs 0 = 0 := rfl
      rw [hzero] at htimeout hexp
      have hread := hok.value (now + 1) (Nat.le_succ now)
        (by rw [hexp]; exact Nat.add_lt_add_left (by decide) now) _ rfl
      have hleft : sub64 w.timeoutValue (now + 1) = 2 ^ 64 - 1 := by
        rw [htimeout]
        unfold sub64
        omega
      rw [wdtTimeleft, hleft] at hread
      revert hread
      decide
    · by_contra hwraps
      have hearly := hok.early
      rw [hexp, loadNs_of_wraps hload hwraps] at hearly
      unfold wdtClkRate SoftTimer.timerPrecision at *
      omega
  · intro h
    obtain ⟨hdue, hearly, hlate⟩ := armedDeadline_of_loadOk hclock h
    refine ⟨harmed, ?_, ?_, fun less hle => ?_, fun t hnow ht v hv => ?_⟩
    · rw [hexpires, hdue, Nat.add_mul]
      exact Nat.add_le_add_left hearly _
    · rw [hexpires, hdue, Nat.add_mul]
      exact Nat.add_lt_add_left hlate _
    · rw [hexpires]
      exact armedDeadline_mono hclock hle h
    · cases hv
      refine wdtTimeleft_le hclock h htimeout hnow ?_
      rw [hexpires, hdue] at ht
      omega

end Deadline

theorem lastLoad_lt (i : Nat) (h : List Event) : lastLoad i h < 2 ^ 32 := by
  induction h with
  | nil => exact Nat.two_pow_pos 32
  | cons e h ih =>
    cases e with
    | sched | vm | expire => exact ih
    | create | reset | deinit =>
      rw [lastLoad]
      split
      · exact Nat.two_pow_pos 32
      · exact ih
    | write =>
      rw [lastLoad]
      split
      · exact u32_lt _
      · exact ih

/-- **Timeout.** After every run, a write that enables the watchdog or clears its
interrupt gives the timeout of the last `LOAD`, exactly when the timer is on the cpu of
the write or on none, the load is not zero and its rounding does not leave 32 bits, as
long as the clock is not about to. -/
theorem watchdog_timeout_iff (m : Machine) (l : List Event) (s : Sys) (i : Nat)
    (w : VwdtDev) (cpu now offset value : Nat) (hr : run step (init m) l = some s)
    (hw : s.wdt i = some w) (hvm : (s.current cpu).map Prod.fst = some w.vm)
    (hstart : StartsTimer w offset value) (hclock : now + 131072 * 1000000000 < 2 ^ 64) :
    (∃ s' w', outcome s (.write cpu i now offset value) = some (.ok s') ∧
        s'.wdt i = some w' ∧ TimeoutOk now (lastLoad i l.reverse) w') ↔
      (w.timer.cpu = none ∨ w.timer.cpu = some cpu) ∧ LoadOk (lastLoad i l.reverse) := by
  have hload := (loaded_run hr w hw).load
  rw [write_outcome hw, if_pos hvm]
  by_cases hcpu : w.timer.cpu = none ∨ w.timer.cpu = some cpu
  · obtain ⟨w', hwrite, harmed, htimeout, hexpires⟩ := start_arms now hstart hcpu
    rw [hload] at htimeout hexpires
    have hiff := timeoutOk_iff hclock (lastLoad_lt i _) harmed htimeout hexpires
    rw [hwrite, and_iff_right hcpu, ← hiff]
    constructor
    · rintro ⟨s', w₂, hs', hw₂, hok⟩
      cases hs'
      rw [setWdt_wdt, if_pos rfl] at hw₂
      cases hw₂
      exact hok
    · intro hok
      exact ⟨_, w', rfl, by rw [setWdt_wdt, if_pos rfl], hok⟩
  · -- the assertion of `__mod_timer`
    refine iff_of_false ?_ fun h => hcpu h.1
    rintro ⟨s', w', hs', -⟩
    obtain ⟨res, hres, -⟩ := map_eq_ok (Option.some.inj hs')
    exact hcpu ((vwdtMmioWrite_ok_iff w cpu now offset value).mp ⟨res, hres⟩ hstart)

/-- VM 2 unlocks its watchdog and writes `LOAD`. -/
def loadWatchdog (load : Nat) : List Event :=
  [.create 0 2, .sched 4 (some (2, 0)), .write 4 0 0 sp805WdtLock wdtUnlock,
    .write 4 0 0 sp805WdtLoad load]

/-- Two seconds, for 40000 ticks. -/
theorem watchdog_timeout_rounded :
    ∃ s, run step (init twoGuests) (loadWatchdog 40000) = some s ∧
      ∃ s' w', outcome s (.write 4 0 7 sp805WdtCtl 1) = some (.ok s') ∧ s'.wdt 0 = some w' ∧
        TimeoutOk 7 40000 w' := by
  obtain ⟨s, hs, hvm, w, hw, hstart, hcpu⟩ :
      ∃ s, run step (init twoGuests) (loadWatchdog 40000) = some s ∧
        (s.current 4).map Prod.fst = some 2 ∧
          ∃ w, s.wdt 0 = some w ∧ StartsTimer w sp805WdtCtl 1 ∧ w.vm = 2 ∧
            w.timer.cpu = none := by
    decide +kernel
  exact ⟨s, hs, (watchdog_timeout_iff twoGuests (loadWatchdog 40000) s 0 w 4 7 sp805WdtCtl 1
    hs hw (by rw [hcpu.1]; exact hvm) hstart (by decide)).mpr
      ⟨Or.inl hcpu.2, by decide, by decide⟩⟩

/-- The largest load asks for 36 hours: its seconds are rounded to zero, and the
watchdog is due after a millisecond. -/
theorem watchdog_timeout_wraps :
    ∃ s, run step (init twoGuests) (loadWatchdog 0xffffffff) = some s ∧
      ∃ s', step s (.write 4 0 7 sp805WdtCtl 1) = some s' ∧ ∃ w', s'.wdt 0 = some w' ∧
        w'.timer.expires = 7 + 1000000 ∧
          ¬ TimeoutOk 7 (lastLoad 0 (loadWatchdog 0xffffffff).reverse) w' := by
  obtain ⟨s, hs, s', hs', w', hw', hexpires⟩ :
      ∃ s, run step (init twoGuests) (loadWatchdog 0xffffffff) = some s ∧
        ∃ s', step s (.write 4 0 7 sp805WdtCtl 1) = some s' ∧
          ∃ w', s'.wdt 0 = some w' ∧ w'.timer.expires = 7 + 1000000 := by
    decide +kernel
  refine ⟨s, hs, s', hs', w', hw', hexpires, fun hok => ?_⟩
  have hearly := hok.early
  rw [hexpires] at hearly
  revert hearly
  decide

end Minos.Vwdt
