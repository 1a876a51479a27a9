import Krystallos.Ffi.Session
import Krystallos.Lib.Checked
import Krystallos.Smb.Actor

namespace Krystallos.Ffi

open Checked

/-!
# Timestamps, from the server to the facade

`timestamp` is what the session thread makes of libsmb2's two fields, and `to_millis` what the
facade makes of that.  libsmb2 subtracts the Windows epoch without a look at the sign: a `FILETIME`
before 1970 wraps to a number of seconds that is far behind the bound of `timestamp`, so nothing but
times between the first second of 1970 and the year 3000 comes out (`toMillis_filetime`).
-/

/-! ### The times of the standard library -/

/-- `NANOS_PER_SEC`. -/
def nanosPerSec : Nat := 1000000000

/-- `Duration`. -/
structure Duration where
  secs : UInt64
  nanos : Nat
  nanos_lt : nanos < nanosPerSec

/-- `Duration::from_secs`. -/
def Duration.fromSecs (secs : UInt64) : Duration := ⟨secs, 0, by decide⟩

/-- `Duration::new`. It panics where the carry from the nanoseconds overflows the seconds. -/
def Duration.new (secs : UInt64) (nanos : Nat) : Except Panic Duration := do
  let secs ← addU 64 secs.toNat (nanos / nanosPerSec)
  return ⟨.ofNat secs, nanos % nanosPerSec, Nat.mod_lt _ (by decide)⟩

/-- `Duration::as_millis`, a `u128`. -/
def Duration.asMillis (d : Duration) : Nat := d.secs.toNat * 1000 + d.nanos / 1000000

/-- `SystemTime` on Unix: the seconds of an `i64` since the epoch, and nanoseconds. -/
structure Timespec where
  secs : Int
  nanos : Nat
  secs_ge : -(2 ^ 63) ≤ secs
  secs_lt : secs < 2 ^ 63
  nanos_lt : nanos < nanosPerSec

namespace Timespec

/-- `UNIX_EPOCH`. -/
def epoch : Timespec := ⟨0, 0, by decide, by decide, by decide⟩

@[simp] theorem epoch_secs : epoch.secs = 0 := rfl

@[simp] theorem epoch_nanos : epoch.nanos = 0 := rfl

/-- A time whose seconds must fit. -/
def make? (secs : Int) (nanos : Nat) (hnanos : nanos < nanosPerSec) : Option Timespec :=
  if h : -(2 ^ 63) ≤ secs ∧ secs < 2 ^ 63 then some ⟨secs, nanos, h.1, h.2, hnanos⟩ else none

/-- `SystemTime::checked_add`. -/
def checkedAdd (t : Timespec) (d : Duration) : Option Timespec :=
  if h : t.nanos + d.nanos < nanosPerSec then
    make? (t.secs + d.secs.toNat) (t.nanos + d.nanos) h
  else make? (t.secs + d.secs.toNat + 1) (t.nanos + d.nanos - nanosPerSec) (by
    have := t.nanos_lt
    have := d.nanos_lt
    omega)

/-- `SystemTime::duration_since`, without its error. -/
def durationSince (t u : Timespec) : Option Duration :=
  if u.secs < t.secs ∨ u.secs = t.secs ∧ u.nanos ≤ t.nanos then
    if h : u.nanos ≤ t.nanos then
      some ⟨.ofNat (t.secs - u.secs).toNat, t.nanos - u.nanos, by
        have := t.nanos_lt
        omega⟩
    else
      some ⟨.ofNat (t.secs - u.secs - 1).toNat, t.nanos + nanosPerSec - u.nanos, by
        have := u.nanos_lt
        omega⟩
  else none

/-- The time as metadata holds it. -/
def toSystemTime (t : Timespec) : SystemTime := ⟨t.secs.toNat, t.nanos⟩

end Timespec

/-! ### The two conversions -/

/-- `u32::try_from`. -/
def tryU32 (n : UInt64) : Option Nat := if n.toNat < 2 ^ 32 then some n.toNat else none

/-- `timestamp`, with every step that can panic. -/
def timestampChecked (secs nsecs : UInt64) : Except Panic (Option Timespec) :=
  if secs = 0 ∨ secs > 32503680000 then .ok none
  else
    match (tryU32 nsecs).filter (· < nanosPerSec) with
    | some n => do return Timespec.epoch.checkedAdd (← Duration.new secs n)
    | none => .ok (Timespec.epoch.checkedAdd (.fromSecs secs))

/-- `to_millis`, on the times of the standard library. -/
def toMillisChecked (t : Option Timespec) : Option Nat := do
  let d ← (← t).durationSince .epoch
  if d.asMillis < 2 ^ 64 then some d.asMillis else none

/-- What libsmb2 makes of a `FILETIME`: seconds, and nanoseconds in whole microseconds. -/
def winToTimeval (ft : UInt64) : UInt64 × UInt64 :=
  let x := ft - 116444736000000000
  (x / 10000000, x % 10000000 * 100 / 1000 * 1000)

/-- The time since 1970 that a `FILETIME` stands for, in units of 100 nanoseconds. -/
def sinceEpoch (ft : UInt64) : Int := ft.toNat - 116444736000000000

/-! ### No panic -/

variable {secs nsecs : UInt64} {nanos : Nat}

/-- Nanoseconds that fill no second carry nothing. -/
theorem new_of_lt (h : nanos < nanosPerSec) :
    Duration.new secs nanos = .ok ⟨secs, nanos, h⟩ := by
  have hcarry : nanos / nanosPerSec = 0 := Nat.div_eq_of_lt h
  have hsecs : secs.toNat + 0 < 2 ^ 64 := secs.toNat_lt
  simp [Duration.new, hcarry, addU_ok hsecs, Nat.mod_eq_of_lt h]

/-- A duration of so few seconds as `timestamp` admits is a time. -/
theorem checkedAdd_epoch (h : secs.toNat ≤ 32503680000) (hnanos : nanos < nanosPerSec) :
    ∃ t, Timespec.epoch.checkedAdd ⟨secs, nanos, hnanos⟩ = some t ∧ 0 ≤ t.secs ∧
      t.toSystemTime = ⟨secs.toNat, nanos⟩ := by
  have hlt : Timespec.epoch.nanos + nanos < nanosPerSec := by simpa using hnanos
  have hfits : -(2 ^ 63) ≤ Timespec.epoch.secs + secs.toNat ∧
      Timespec.epoch.secs + secs.toNat < 2 ^ 63 := by
    rw [Timespec.epoch_secs]
    omega
  rw [Timespec.checkedAdd, dif_pos hlt, Timespec.make?, dif_pos hfits]
  exact ⟨_, rfl, by simp, by simp [Timespec.toSystemTime]⟩

/-- **No panic.** Whatever the two fields hold, there is a time in metadata's sense. -/
theorem timestampChecked_ok (secs nsecs : UInt64) : ∃ t, timestampChecked secs nsecs = .ok t ∧
    t.map Timespec.toSystemTime = Smb.timestamp secs.toNat nsecs.toNat ∧ ∀ t' ∈ t, 0 ≤ t'.secs := by
  have hzero : secs = 0 ↔ secs.toNat = 0 := by
    rw [← UInt64.toNat_inj]
    rfl
  have hbound : secs > 32503680000 ↔ secs.toNat > 32503680000 := UInt64.lt_iff_toNat_lt
  have hout : (secs = 0 ∨ secs > 32503680000) ↔ (secs.toNat = 0 ∨ secs.toNat > 32503680000) := by
    rw [hzero, hbound]
  by_cases habsent : secs.toNat = 0 ∨ secs.toNat > 32503680000
  · rw [timestampChecked, if_pos (hout.mpr habsent), Smb.timestamp, if_pos habsent]
    exact ⟨none, rfl, rfl, by simp⟩
  · rw [timestampChecked, if_neg (mt hout.mp habsent), Smb.timestamp, if_neg habsent]
    have hle : secs.toNat ≤ 32503680000 := by omega
    by_cases hnanos : nsecs.toNat < nanosPerSec
    · -- nanoseconds of a second are kept
      have hu32 : (tryU32 nsecs).filter (· < nanosPerSec) = some nsecs.toNat := by
        have hfits : nsecs.toNat < 2 ^ 32 := hnanos.trans (by decide)
        rw [tryU32, if_pos hfits]
        simp [hnanos]
      obtain ⟨t, hadd, hsecs, htime⟩ := checkedAdd_epoch hle hnanos
      have hlt : nsecs.toNat < 1000000000 := hnanos
      refine ⟨some t, ?_, by simp [htime, hlt], by simpa using hsecs⟩
      simp only [hu32, new_of_lt hnanos]
      exact congrArg Except.ok hadd
    · -- anything larger is replaced by none
      have hu32 : (tryU32 nsecs).filter (· < nanosPerSec) = none := by
        simp only [tryU32, Option.filter_eq_none_iff, Option.ite_none_right_eq_some,
          Option.some.injEq, and_imp]
        rintro n - rfl
        simpa using hnanos
      have hzero : 0 < nanosPerSec := by decide
      obtain ⟨t, hadd, hsecs, htime⟩ := checkedAdd_epoch hle hzero
      have hnot : ¬ nsecs.toNat < 1000000000 := hnanos
      refine ⟨some t, ?_, by simp [htime, hnot], by simpa using hsecs⟩
      simp only [hu32]
      exact congrArg Except.ok hadd

/-- Milliseconds are counted alike. -/
theorem toMillisChecked_eq {t : Option Timespec} (h : ∀ t' ∈ t, 0 ≤ t'.secs) :
    toMillisChecked t = toMillis (t.map Timespec.toSystemTime) := by
  cases t with
  | none => rfl
  | some t =>
    have hpos : 0 ≤ t.secs := h t rfl
    have hlater : Timespec.epoch.secs < t.secs ∨
        Timespec.epoch.secs = t.secs ∧ Timespec.epoch.nanos ≤ t.nanos := by
      rw [Timespec.epoch_secs, Timespec.epoch_nanos]
      omega
    have hsince : t.durationSince .epoch = some ⟨.ofNat t.secs.toNat, t.nanos, t.nanos_lt⟩ := by
      have hnanos : Timespec.epoch.nanos ≤ t.nanos := Nat.zero_le _
      rw [Timespec.durationSince, if_pos hlater, dif_pos hnanos]
      simp
    have hmod : t.secs.toNat % 2 ^ 64 = t.secs.toNat := by
      have := t.secs_lt
      apply Nat.mod_eq_of_lt
      omega
    simp only [toMillisChecked, toMillis, Timespec.toSystemTime, Option.bind_eq_bind,
      Option.bind_some, Option.map_some, hsince, Duration.asMillis, UInt64.toNat_ofNat', hmod]

/-! ### What comes out -/

/-- The difference to the Windows epoch, which wraps in front of 1970. -/
def wrapped (ft : Nat) : Nat := (2 ^ 64 - 116444736000000000 + ft) % 2 ^ 64

/-- The seconds, from the difference as it wraps. -/
theorem winToTimeval_fst (ft : UInt64) :
    (winToTimeval ft).1.toNat = wrapped ft.toNat / 10000000 := by
  show (_ / _ : UInt64).toNat = _
  rw [UInt64.toNat_div, UInt64.toNat_sub]
  rfl

/-- The microseconds, as nanoseconds. -/
theorem winToTimeval_snd (ft : UInt64) :
    (winToTimeval ft).2.toNat = wrapped ft.toNat % 10000000 * 100 / 1000 * 1000 := by
  have hmicros : wrapped ft.toNat % 10000000 * 100 < 2 ^ 64 := by omega
  have hnanos : wrapped ft.toNat % 10000000 * 100 / 1000 * 1000 < 2 ^ 64 := by omega
  have hmod : ((ft - 116444736000000000) % 10000000).toNat = wrapped ft.toNat % 10000000 := by
    rw [UInt64.toNat_mod, UInt64.toNat_sub]
    rfl
  show (_ / 1000 * 1000 : UInt64).toNat = _
  rw [UInt64.toNat_mul, UInt64.toNat_div, UInt64.toNat_mul, hmod]
  show wrapped ft.toNat % 10000000 * 100 % 2 ^ 64 / 1000 * 1000 % 2 ^ 64 = _
  rw [Nat.mod_eq_of_lt hmicros, Nat.mod_eq_of_lt hnanos]

/-- Behind the Windows epoch the difference is the time since 1970, and in front of it more than
    the bound admits. -/
theorem wrapped_cases (ft : UInt64) :
    (0 ≤ sinceEpoch ft ∧ (wrapped ft.toNat : Int) = sinceEpoch ft) ∨
    (sinceEpoch ft < 0 ∧ (32503680000 + 1) * 10000000 ≤ wrapped ft.toNat) := by
  have hlt := ft.toNat_lt
  unfold sinceEpoch wrapped
  omega

/-- What the two conversions make of a difference. -/
theorem toMillis_timestamp (x : Nat) :
    toMillis (Smb.timestamp (x / 10000000) (x % 10000000 * 100 / 1000 * 1000)) =
      if 10000000 ≤ x ∧ x < (32503680000 + 1) * 10000000 then some (x / 10000) else none := by
  have hnanos : x % 10000000 * 100 / 1000 * 1000 < 1000000000 := by omega
  by_cases hin : 10000000 ≤ x ∧ x < (32503680000 + 1) * 10000000
  · have hadmit : ¬ (x / 10000000 = 0 ∨ x / 10000000 > 32503680000) := by omega
    have hms : x / 10000000 * 1000 + x % 10000000 * 100 / 1000 * 1000 / 1000000 = x / 10000 := by
      omega
    have hfits : x / 10000 < 2 ^ 64 := by omega
    rw [if_pos hin, Smb.timestamp, if_neg hadmit, if_pos hnanos, toMillis]
    simp only [Option.bind_eq_bind, Option.bind_some, hms]
    exact if_pos hfits
  · have hreject : x / 10000000 = 0 ∨ x / 10000000 > 32503680000 := by omega
    rw [if_neg hin, Smb.timestamp, if_pos hreject]
    rfl

/-- The conversions with their checks agree with what metadata is made of. -/
theorem toMillisChecked_timestamp (secs nsecs : UInt64) :
    ∃ t, timestampChecked secs nsecs = .ok t ∧
      toMillisChecked t = toMillis (Smb.timestamp secs.toNat nsecs.toNat) := by
  obtain ⟨t, hok, htime, hpos⟩ := timestampChecked_ok secs nsecs
  exact ⟨t, hok, by rw [toMillisChecked_eq hpos, htime]⟩

/-- **Timestamps.** A `FILETIME` between the first second of 1970 and the year 3000 comes out as its
    milliseconds since 1970, and nothing else comes out; and no fields make the conversion panic. -/
theorem toMillis_filetime :
    (∀ ft : UInt64, ∃ t,
      timestampChecked (winToTimeval ft).1 (winToTimeval ft).2 = .ok t ∧
      toMillisChecked t =
        if 10000000 ≤ sinceEpoch ft ∧ sinceEpoch ft < (32503680000 + 1) * 10000000 then
          some (sinceEpoch ft / 10000).toNat
        else none) ∧
    ∀ secs nsecs : UInt64, ∃ t, timestampChecked secs nsecs = .ok t ∧
      toMillisChecked t = toMillis (Smb.timestamp secs.toNat nsecs.toNat) := by
  refine ⟨fun ft => ?_, toMillisChecked_timestamp⟩
  obtain ⟨t, hok, hmillis⟩ := toMillisChecked_timestamp (winToTimeval ft).1 (winToTimeval ft).2
  refine ⟨t, hok, ?_⟩
  rw [hmillis, winToTimeval_fst, winToTimeval_snd, toMillis_timestamp]
  rcases wrapped_cases ft with ⟨hnonneg, heq⟩ | ⟨hneg, hfar⟩
  · -- from 1970 on the difference is the time
    rw [← heq]
    by_cases hin : 10000000 ≤ wrapped ft.toNat ∧ wrapped ft.toNat < (32503680000 + 1) * 10000000
    · have hin' : (10000000 : Int) ≤ wrapped ft.toNat ∧
          (wrapped ft.toNat : Int) < (32503680000 + 1) * 10000000 := by omega
      rw [if_pos hin, if_pos hin']
      rfl
    · have hout : ¬ ((10000000 : Int) ≤ wrapped ft.toNat ∧
          (wrapped ft.toNat : Int) < (32503680000 + 1) * 10000000) := by omega
      rw [if_neg hin, if_neg hout]
  · -- in front of 1970 it is past the bound
    rw [if_neg (by omega), if_neg (by omega)]

end Krystallos.Ffi
