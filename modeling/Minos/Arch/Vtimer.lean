import Minos.Lib.Word
import Mathlib.Data.Nat.Bitwise

/-!
# The emulated physical timer

The accesses of a vcpu to `CNTP_CTL`, `CNTP_CVAL` and `CNTP_TVAL`
(`arch/aarch64/virt/vtimer.c`). The counter of the VM is the counter of the
machine less the VM's time offset; `cnt_cval` is kept on the machine's counter.
Host timers are set in nanoseconds of `NOW()`, which is the machine's counter
converted by `ticks_to_ns`; the ticks at boot are not taken off
(`arch_enable_timer` converts back and compares with the machine's counter).

A timer is armed with what `mod_timer` is given, which puts off a deadline that is
closer than its precision (`SoftTimer.modExpires`). The sequences of accesses are those
between two expiries of the host timer: `phys_timer_expire_function`, which stores 0 in
`cnt_cval`, is left out, and with it the bits `CNT_CTL_ISTATUS` and `CNT_CTL_IMASK`.
-/

namespace Minos.PhyTimer

open Minos.Lib

/-- `ticks_to_ns`: `muldiv64(ticks, SECONDS(1), 1000 * cpu_khz)`, whose upper word is
cut to 32 bits. -/
def ticksToNs (cpuKhz ticks : Nat) : Nat := u64 (ticks * 1000000000 / u32 (1000 * cpuKhz))

/-- The bit of `CNT_CTL_ENABLE`. -/
def cntCtlEnable : Nat := 0

/-- What does not change: the frequency, and `offset` of `struct vtimer_context`. -/
structure Config where
  cpuKhz : Nat
  offset : Nat

/-- `struct vtimer` of the physical timer; `armed` is the deadline of its host timer. -/
structure Vtimer where
  enable : Bool
  cntCval : Nat
  armed : Option Nat
  deriving DecidableEq, Repr

/-- `vtimer_state_init`. -/
def init : Vtimer := ⟨false, 0, none⟩

inductive Access
  | ctlWrite (value : Nat)
  | ctlRead
  | cvalWrite (value : Nat)
  | cvalRead
  /-- `ticks` is the machine's counter -/
  | tvalWrite (ticks value : Nat)
  | tvalRead (ticks : Nat)
  deriving DecidableEq, Repr

variable (c : Config)

def handleCntpCtl (t : Vtimer) (value : Nat) : Vtimer :=
  let enable := value.testBit cntCtlEnable
  { t with
    enable := enable
    armed := if enable ∧ t.cntCval ≠ 0 then some (ticksToNs c.cpuKhz (u64 (t.cntCval + c.offset)))
      else none }

/-- A write that sets `cnt_cval` also arms the timer when it is enabled. -/
def setCval (t : Vtimer) (cval : Nat) : Vtimer :=
  if t.enable then
    { t with cntCval := cval, armed := some (ticksToNs c.cpuKhz cval) }
  else { t with cntCval := cval }

def handleCntpCval (t : Vtimer) (value : Nat) : Vtimer := setCval c t (u64 (value + c.offset))

def handleCntpTval (t : Vtimer) (ticks value : Nat) : Vtimer := setCval c t (u64 (ticks + value))

def readCval (t : Vtimer) : Nat := sub64 t.cntCval c.offset

def readTval (t : Vtimer) (ticks : Nat) : Nat :=
  let now := sub64 ticks c.offset
  sub64 (sub64 t.cntCval now) c.offset % 2 ^ 32

/-- `arm_phy_timer_trap`. -/
def armPhyTimerTrap (t : Vtimer) : Access → Vtimer
  | .ctlWrite value => handleCntpCtl c t value
  | .cvalWrite value => handleCntpCval c t value
  | .tvalWrite ticks value => handleCntpTval c t ticks value
  | .ctlRead | .cvalRead | .tvalRead _ => t

/-! ## What the guest programmed -/

/-- The low word of a register, with its sign. -/
def sext32 (value : Nat) : Nat :=
  if value.testBit 31 then u32 value + (2 ^ 64 - 2 ^ 32) else u32 value

/-- The guest's counter. -/
def guestTicks (ticks : Nat) : Nat := sub64 ticks c.offset

/-- What follows from the accesses: the compare value, whether its sign was in the
whole register, and whether the last write was one of `CNTP_CTL`. -/
structure Programmed where
  compare : Option Nat
  signOk : Bool
  byCtl : Bool
  deriving DecidableEq, Repr

def Programmed.access (p : Programmed) : Access → Programmed
  | .ctlWrite _ => { p with byCtl := true }
  | .cvalWrite value => ⟨some (u64 value), true, false⟩
  | .tvalWrite ticks value =>
    ⟨some (u64 (guestTicks c ticks + sext32 value)), sext32 value = u64 value, false⟩
  | .ctlRead | .cvalRead | .tvalRead _ => p

def programmed (l : List Access) : Programmed := l.foldl (Programmed.access c) ⟨none, true, true⟩

def exec (l : List Access) : Vtimer := l.foldl (armPhyTimerTrap c) init

/-- The deadline is when the guest's counter comes to the compare value, and the
registers read as it says. -/
def Right (t : Vtimer) (compare : Nat) : Prop :=
  t.armed = some (ticksToNs c.cpuKhz (u64 (compare + c.offset))) ∧
    readCval c t = compare ∧
    ∀ ticks, readTval c t ticks = sub64 compare (guestTicks c ticks) % 2 ^ 32

/-! ## Agreement -/

/-- What the timer has of what was programmed. -/
structure Agrees (p : Programmed) (t : Vtimer) : Prop where
  cval : ∀ v, p.compare = some v →
    v < 2 ^ 64 ∧ t.cntCval < 2 ^ 64 ∧ (t.cntCval = u64 (v + c.offset) ↔ p.signOk = true)
  armed : t.enable = true → t.armed =
    if p.byCtl then
      if t.cntCval ≠ 0 then some (ticksToNs c.cpuKhz (u64 (t.cntCval + c.offset))) else none
    else some (ticksToNs c.cpuKhz t.cntCval)

variable {c} {p : Programmed} {t : Vtimer}

theorem tval_sign (ticks value : Nat) :
    u64 (ticks + value) = u64 (u64 (guestTicks c ticks + sext32 value) + c.offset) ↔
      sext32 value = u64 value := by
  have hlt : sext32 value < 2 ^ 64 := by
    unfold sext32 u32
    split <;> omega
  unfold u64 guestTicks sub64
  omega

theorem Agrees.setCval {v cval : Nat} {ok : Bool} (hv : v < 2 ^ 64) (hcval : cval < 2 ^ 64)
    (hok : cval = u64 (v + c.offset) ↔ ok = true) :
    Agrees c ⟨some v, ok, false⟩ (setCval c t cval) := by
  have hset : (PhyTimer.setCval c t cval).cntCval = cval := by
    unfold PhyTimer.setCval
    split <;> rfl
  constructor
  · intro w hw
    cases hw
    rw [hset]
    exact ⟨hv, hcval, hok⟩
  · intro hen
    unfold PhyTimer.setCval at hen ⊢
    split
    · rfl
    · rename_i hoff
      rw [if_neg hoff] at hen
      exact absurd hen hoff

theorem Agrees.access (h : Agrees c p t) (a : Access) :
    Agrees c (p.access c a) (armPhyTimerTrap c t a) := by
  cases a with
  | ctlWrite value =>
    refine ⟨h.cval, fun hen => ?_⟩
    have hbit : value.testBit cntCtlEnable = true := hen
    simp only [Programmed.access, armPhyTimerTrap, handleCntpCtl, hbit, true_and, if_true]
  | cvalWrite value =>
    refine Agrees.setCval (u64_lt _) (u64_lt _) ?_
    simp only [u64, Nat.mod_add_mod]
  | tvalWrite ticks value =>
    refine Agrees.setCval (u64_lt _) (u64_lt _) ?_
    rw [tval_sign, decide_eq_true_iff]
  | ctlRead | cvalRead | tvalRead ticks => exact h

theorem agrees_exec (c : Config) (l : List Access) : Agrees c (programmed c l) (exec c l) := by
  have hfold : ∀ (l : List Access) (p : Programmed) (t : Vtimer), Agrees c p t →
      Agrees c (l.foldl (Programmed.access c) p) (l.foldl (armPhyTimerTrap c) t) := by
    intro l
    induction l with
    | nil => exact fun _ _ h => h
    | cons a l ih => exact fun p t h => ih _ _ (h.access a)
  exact hfold l _ _ ⟨nofun, nofun⟩

/-- What is read back is right exactly when `cnt_cval` is. -/
theorem reads_iff {v : Nat} (hv : v < 2 ^ 64) (hcval : t.cntCval < 2 ^ 64) :
    (readCval c t = v ∧ ∀ ticks, readTval c t ticks = sub64 v (guestTicks c ticks) % 2 ^ 32) ↔
      t.cntCval = u64 (v + c.offset) := by
  constructor
  · rintro ⟨hread, -⟩
    unfold readCval sub64 at hread
    unfold u64
    omega
  · intro heq
    refine ⟨?_, fun ticks => ?_⟩
    · unfold readCval sub64
      rw [heq]
      unfold u64
      omega
    · unfold readTval guestTicks sub64
      rw [heq]
      unfold u64
      simp only
      omega

/-- **The physical timer**: after every sequence of accesses that leaves the timer
enabled with a compare value, its deadline and its registers are right exactly when
the sign of the last `CNTP_TVAL` was in the whole register and, if the last write was
one of `CNTP_CTL`, `cnt_cval` is not 0 and adding the offset a second time does not
move the deadline. -/
theorem phy_timer_right_iff (c : Config) (l : List Access) (v : Nat)
    (hen : (exec c l).enable = true) (hv : (programmed c l).compare = some v) :
    Right c (exec c l) v ↔ (programmed c l).signOk = true ∧
      ((programmed c l).byCtl = true → u64 (v + c.offset) ≠ 0 ∧
        ticksToNs c.cpuKhz (u64 (u64 (v + c.offset) + c.offset))
          = ticksToNs c.cpuKhz (u64 (v + c.offset))) := by
  have h := agrees_exec c l
  obtain ⟨hlt, hcval, hsign⟩ := h.cval v hv
  rw [Right, reads_iff hlt hcval, h.armed hen, hsign, and_comm]
  refine and_congr_right fun hok => ?_
  rw [hsign.mpr hok]
  cases (programmed c l).byCtl with
  | false => simp
  | true =>
    by_cases hzero : u64 (v + c.offset) = 0
    · simp [hzero]
    · simp [hzero]

/-- Compare value 5000 set while the timer is enabled. -/
theorem phy_timer_right_cval :
    Right ⟨62500, 1000000⟩ (exec ⟨62500, 1000000⟩ [.ctlWrite 1, .cvalWrite 5000]) 5000 :=
  (phy_timer_right_iff _ _ 5000 (by decide) (by decide)).mpr (by decide)

/-- The same value set before the timer is enabled: the offset is added twice. -/
theorem phy_timer_ctl_last :
    (exec ⟨62500, 1000000⟩ [.cvalWrite 5000, .ctlWrite 1]).armed
        = some (ticksToNs 62500 2005000) ∧
      ticksToNs 62500 (u64 (5000 + 1000000)) ≠ ticksToNs 62500 2005000 ∧
      ¬ Right ⟨62500, 1000000⟩ (exec ⟨62500, 1000000⟩ [.cvalWrite 5000, .ctlWrite 1]) 5000 := by
  refine ⟨by decide, by decide, fun h => ?_⟩
  exact absurd h.1 (by decide)

end Minos.PhyTimer
