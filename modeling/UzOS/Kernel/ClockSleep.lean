import UzOS.Lib.Runs

/-! clock_nanosleep (syscalls/clock_nanosleep) and the bounds of a sleep (defence
sleep_bounds): how many ticks a call asks for, and when that is the time that is left
until the moment it names. -/
namespace UzOS.Kernel

def timerHz : Nat := 100
def sleepMaxTicks : Nat := 0x7FFFFFFF
def nsecPerSec : Nat := 1000000000

/-- A difference cast to int32_t. -/
def wrap32 (x : Int) : Int := x.bmod (2 ^ 32)

inductive Clock where
  | realtime
  | monotonic
  deriving DecidableEq

/-- A fraction of a second in ticks, rounded up. -/
def fracTicks (frac : Int) (fracPerSec : Nat) : Nat :=
  (frac.toNat * timerHz + fracPerSec - 1) / fracPerSec

/-- def_sleep_time_ticks; `none` for a time that is refused. -/
def defSleepTimeTicks (sec frac : Int) (fracPerSec : Nat) : Option Nat :=
  if sec < 0 ∨ frac < 0 ∨ fracPerSec ≤ frac then none
  else some (min (sec.toNat * timerHz + fracTicks frac fracPerSec) sleepMaxTicks)

/-- The ticks sys_clock_nanosleep sleeps for, `none` for CNS_EINVAL. The calendar clock
shows `time` seconds, and `timerTicks` ticks were counted since boot. -/
def clockSleepTicks (clock : Clock) (abstime : Bool) (time timerTicks : Nat) (sec nsec : Int) :
    Option Nat :=
  match clock, abstime with
  | .realtime, true =>
    if wrap32 (sec - time) < 0 then some 0
    else defSleepTimeTicks (wrap32 (sec - time)) nsec nsecPerSec
  | .monotonic, true => (defSleepTimeTicks sec nsec nsecPerSec).map fun (ticks : Nat) =>
    (wrap32 (ticks - timerTicks)).toNat
  | _, false => defSleepTimeTicks sec nsec nsecPerSec

/-- The ticks from now to the moment, 0 once it is not in the future. -/
def ticksUntil (clock : Clock) (time timerTicks : Nat) (sec nsec : Int) : Nat :=
  match clock with
  | .realtime => if sec < time then 0
    else ((sec - time) * timerHz + fracTicks nsec nsecPerSec).toNat
  | .monotonic => (sec * timerHz + fracTicks nsec nsecPerSec - timerTicks).toNat

/-- The difference fits the 32 bits it is computed in: the moment is not more than `2 ^ 31`
ticks in the future of the clock, nor (but for times that come out as past all the same)
more than `2 ^ 31` seconds or ticks back. -/
def fitsClock (clock : Clock) (time timerTicks : Nat) (sec nsec : Int) : Prop :=
  match clock with
  | .realtime =>
    let away := sec - time
    0 ≤ away ∧ away * timerHz + fracTicks nsec nsecPerSec ≤ sleepMaxTicks ∨
      -2 ^ 31 ≤ away ∧ away < 0 ∨ away < -2 ^ 32 ∨ away = -2 ^ 32 ∧ nsec = 0
  | .monotonic =>
    let moment := sec * timerHz + fracTicks nsec nsecPerSec
    sec < 0 ∨ moment ≤ sleepMaxTicks ∧ timerTicks ≤ moment + 2 ^ 31 ∨
      sleepMaxTicks < moment ∧ moment ≤ timerTicks

theorem wrap32_cases {x : Int} (low : -3 * 2 ^ 31 ≤ x) (high : x < 2 ^ 31) :
    -2 ^ 31 ≤ x ∧ wrap32 x = x ∨ x < -2 ^ 31 ∧ wrap32 x = x + 2 ^ 32 := by
  rw [wrap32, Int.bmod_def]
  omega

variable {nsec : Int} (nanoseconds : 0 ≤ nsec ∧ nsec < 1000000000)
include nanoseconds

theorem defSleepTimeTicks_eq (sec : Int) : defSleepTimeTicks sec nsec nsecPerSec =
    if sec < 0 then none
    else some (min (sec.toNat * timerHz + fracTicks nsec nsecPerSec) sleepMaxTicks) := by
  have sane : (sec < 0 ∨ nsec < 0 ∨ (nsecPerSec : Int) ≤ nsec) ↔ sec < 0 := by
    rw [nsecPerSec]
    omega
  simp only [defSleepTimeTicks, sane]

/-- An absolute sleep is for the time that is left if and only if the difference fits. -/
theorem absolute_sleep_exact_iff (clock : Clock) {time timerTicks : Nat} {sec : Int}
    (clocks : time < 2 ^ 32 ∧ timerTicks < 2 ^ 32) (seconds : -2 ^ 31 ≤ sec ∧ sec < 2 ^ 31) :
    (clockSleepTicks clock true time timerTicks sec nsec).getD 0 =
      ticksUntil clock time timerTicks sec nsec ↔ fitsClock clock time timerTicks sec nsec := by
  have frac : (fracTicks nsec nsecPerSec = 0 ↔ nsec = 0) ∧ fracTicks nsec nsecPerSec ≤ 100 := by
    rw [fracTicks, timerHz, nsecPerSec]
    omega
  cases clock with
  | realtime =>
    have slept : (clockSleepTicks .realtime true time timerTicks sec nsec).getD 0 =
        if wrap32 (sec - time) < 0 then 0 else
          min ((wrap32 (sec - time)).toNat * timerHz + fracTicks nsec nsecPerSec) sleepMaxTicks := by
      rw [clockSleepTicks, defSleepTimeTicks_eq nanoseconds]
      split_ifs <;> exact Option.getD_some
    have away := @wrap32_cases (sec - time) (by omega) (by omega)
    rw [slept, ticksUntil, fitsClock, timerHz, sleepMaxTicks]
    generalize wrap32 (sec - time) = w at away
    generalize fracTicks nsec nsecPerSec = f at frac
    split_ifs <;> omega
  | monotonic =>
    have slept : (clockSleepTicks .monotonic true time timerTicks sec nsec).getD 0 =
        if sec < 0 then 0 else (wrap32 ((min (sec.toNat * timerHz + fracTicks nsec nsecPerSec)
          sleepMaxTicks : Nat) - timerTicks)).toNat := by
      rw [clockSleepTicks, defSleepTimeTicks_eq nanoseconds]
      split_ifs
      · rfl
      · rw [Option.map_some, Option.getD_some]
    rw [slept, ticksUntil, fitsClock, timerHz, sleepMaxTicks]
    generalize fracTicks nsec nsecPerSec = f at frac
    split_ifs
    · omega
    · have left := @wrap32_cases ((min (sec.toNat * 100 + f) 2147483647 : Nat) - timerTicks)
        (by omega) (by omega)
      generalize wrap32 _ = w at left
      omega

omit nanoseconds
/-- Half a second from now on the calendar clock. -/
theorem absolute_sleep_exact_half : (clockSleepTicks .realtime true 1700000000 0 1700000000
    500000000).getD 0 = ticksUntil .realtime 1700000000 0 1700000000 500000000 :=
  (absolute_sleep_exact_iff (by decide) .realtime (by decide) (by decide)).mpr
    (Or.inl ⟨by decide, by decide +kernel⟩)

/-- The earliest moment of all, seen from today, is 68 years and more ahead: the sleep ends
after the 248 days of the cap. -/
theorem earliest_moment_sleeps :
    clockSleepTicks .realtime true 1700000000 0 (-2 ^ 31) 0 = some sleepMaxTicks ∧
      ticksUntil .realtime 1700000000 0 (-2 ^ 31) 0 = 0 := by decide +kernel

end UzOS.Kernel
