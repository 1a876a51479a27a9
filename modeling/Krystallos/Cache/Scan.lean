import Krystallos.Cache.Cost

namespace Krystallos

open Checked Prog Slices

/-!
# Reading a file from its start to its end

`readAll` reads in requests of one size until a read comes back empty.  `Scanned` is the walk it
takes over the windows: which window is held at each offset, and how many calls of the handle it
took beyond one for each window.  `readAll_cost` says that this is the cost, and `readAll_cost_iff`
when it is within one call for each window and two more.
-/

namespace FileHandle

variable {σ : Type}

/-- One turn of the loop, with `out` read so far. -/
def readAllTurn (h : FileHandle σ) (chunk : Nat) (out : List UInt8) :
    Prog Error σ (Turn (List UInt8) (List UInt8)) := do
  let bytes ← h.readAt out.length chunk
  if bytes = [] then pure (.leave out) else pure (.again (out ++ bytes))

/-- Read the whole file in steps of `chunk` bytes. -/
def readAll (h : FileHandle σ) (chunk fuel : Nat) : Prog Error σ (List UInt8) :=
  iterate fuel (h.readAllTurn chunk) []

variable {h : FileHandle σ} {offset chunk fuel : Nat} {out bs : List UInt8} {s s' : σ}

/-- A turn that read something. -/
theorem run_readAll_more (hout : out.length = offset)
    (hread : h.readAt offset chunk s = .ok (.ok bs, s')) (hne : bs ≠ []) :
    iterate (fuel + 1) (h.readAllTurn chunk) out s =
      iterate fuel (h.readAllTurn chunk) (out ++ bs) s' := by
  apply run_iterate_again
  simp only [readAllTurn, bind, hout, hread]
  rw [if_neg hne, run_pure]

/-- The turn that read nothing. -/
theorem run_readAll_end (hout : out.length = offset)
    (hread : h.readAt offset chunk s = .ok (.ok [], s')) :
    iterate (fuel + 1) (h.readAllTurn chunk) out s = .ok (.ok out, s') := by
  simp only [iterate, readAllTurn, bind, hout, hread]
  rfl

end FileHandle

/-- A handle that serves `data` and counts how many reads it was asked for. -/
def countingHandle (data : List UInt8) : FileHandle Nat where
  readAt := fun offset len reads => .ok (.ok (slice data offset len), reads + 1)
  writeAt := fun _ _ => fail (.backend "not writable")
  setLen := fun _ => fail (.backend "not writable")
  flush := pure ()
  close := pure ()
  len := fun _ => data.length

theorem countingHandle_readsFully (data : List UInt8) :
    ReadsFully (countingHandle data) data id where
  readAt := fun _ _ reads => ⟨reads + 1, rfl, rfl⟩
  len := fun _ => rfl

/-! ### The walk over the windows -/

/-- A request at `offset` that ends with its window, or before, and with the file. -/
def Fits (total window chunk offset : Nat) : Prop :=
  min (offset + chunk) (umax 64) ≤ min ((offset / window + 1) * window) total

instance (total window chunk offset : Nat) : Decidable (Fits total window chunk offset) :=
  inferInstanceAs (Decidable (_ ≤ _))

/-- The offset, the number of the window that is held, and the calls of the handle beyond one for
    each window so far. -/
inductive Scanned (total window chunk : Nat) : Nat → Option Nat → Nat → Prop
  | start : Scanned total window chunk 0 none 0
  | read {offset extra : Nat} {held : Option Nat} (h : Scanned total window chunk offset held extra)
      (hlt : offset < total) :
      Scanned total window chunk (min (offset + chunk) total) (some (offset / window))
        (extra + if Fits total window chunk offset then 0
          else if held = some (offset / window) then 2 else 1)

section Multiples

variable {d a b : Nat}

/-- The next multiple is not beyond a larger one. -/
theorem add_le_of_dvd_of_lt (ha : d ∣ a) (hb : d ∣ b) (h : a < b) : a + d ≤ b := by
  obtain ⟨x, rfl⟩ := ha
  obtain ⟨y, rfl⟩ := hb
  have hlt : x < y := lt_of_mul_lt_mul_left h (Nat.zero_le d)
  calc d * x + d = d * (x + 1) := by ring
    _ ≤ d * y := Nat.mul_le_mul_left d hlt

/-- Steps of `d` do not stop where `d` does not divide. -/
theorem lt_add_of_not_dvd (ha : d ∣ a) (hb : ¬ d ∣ b) (h : b ≤ a + d) : b < a + d := by
  apply lt_of_le_of_ne h
  rintro rfl
  exact hb ((Nat.dvd_add_right ha).mpr dvd_rfl)

end Multiples

namespace Scanned

variable {total window chunk offset extra : Nat} {held : Option Nat}

theorem offset_le (h : Scanned total window chunk offset held extra) : offset ≤ total := by
  induction h with
  | start => exact Nat.zero_le _
  | read => exact Nat.min_le_right _ _

/-- Every request but the last is whole. -/
theorem dvd_offset (h : Scanned total window chunk offset held extra) (hlt : offset < total) :
    chunk ∣ offset := by
  induction h with
  | start => exact dvd_zero _
  | read _ hlt' ih =>
    have hwhole := Nat.dvd_add (ih hlt') (dvd_refl chunk)
    rw [Nat.min_eq_left (by omega)]
    exact hwhole

/-- Before the first read no window is held, and none was paid for. -/
theorem eq_zero_of_none (h : Scanned total window chunk offset held extra) (hnone : held = none) :
    offset = 0 ∧ extra = 0 := by
  cases h with
  | start => exact ⟨rfl, rfl⟩
  | read => cases hnone

/-- The window that is held begins before the offset, and the next one does not end before it. -/
theorem held_window (hchunk : 0 < chunk) (hwin : chunk ≤ window)
    (h : Scanned total window chunk offset held extra) :
    ∀ j ∈ held, j * window < offset ∧ j * window < total ∧ offset / window ≤ j + 1 := by
  cases h with
  | start => exact nofun
  | @read offset extra held h hlt =>
    rintro j ⟨⟩
    have hbegin := Nat.div_mul_le_self offset window
    have hnext : min (offset + chunk) total / window ≤ (offset + window) / window :=
      Nat.div_le_div_right (by omega)
    rw [Nat.add_div_right offset (by omega)] at hnext
    exact ⟨by omega, by omega, hnext⟩

theorem lt_next_window (hpos : 0 < window) (offset : Nat) :
    offset < (offset / window + 1) * window := by
  rw [Nat.mul_comm]
  exact Nat.lt_mul_div_succ offset hpos

/-- A request that its window does not hold costs a call more. -/
theorem not_fits {limit : Nat} (hin : (offset / window + 1) * window ≤ limit)
    (hout : limit < offset + chunk) (hmax : limit < umax 64) :
    ¬ Fits total window chunk offset := by
  unfold Fits
  omega

/-- Chunks that divide the window never straddle one. -/
theorem extra_eq_zero (hchunk : chunk ∣ window) (hpos : 0 < window)
    (hend : window ∣ total ∨ total = umax 64)
    (h : Scanned total window chunk offset held extra) : extra = 0 := by
  induction h with
  | start => rfl
  | @read offset extra held h hlt ih =>
    have hwindow := Scanned.lt_next_window hpos offset
    have hstop : offset + chunk ≤ (offset / window + 1) * window :=
      add_le_of_dvd_of_lt (h.dvd_offset hlt) (dvd_mul_of_dvd_right hchunk _) hwindow
    have hfits : Fits total window chunk offset := by
      unfold Fits
      rcases hend with hdvd | hmax
      · have hlast : offset / window * window + window ≤ total := by
          apply add_le_of_dvd_of_lt (dvd_mul_left window _) hdvd
          exact lt_of_le_of_lt (Nat.div_mul_le_self _ _) hlt
        rw [Nat.add_one_mul] at hstop ⊢
        omega
      · omega
    rw [ih, if_pos hfits]

/-- A window that ends beyond the largest offset is never straddled. -/
theorem extra_eq_zero_of_le (hmax : total = umax 64) (hwin : total ≤ window)
    (h : Scanned total window chunk offset held extra) : extra = 0 := by
  induction h with
  | start => rfl
  | @read offset extra held h hlt ih =>
    have hfits : Fits total window chunk offset := by
      unfold Fits
      rw [Nat.add_one_mul]
      omega
    rw [ih, if_pos hfits]

/-- The window that is held reaches the offset, unless a request straddled it. -/
theorem le_held_or_pos (hmax : total ≤ umax 64) (h : Scanned total window chunk offset held extra) :
    ∀ j ∈ held, offset ≤ (j + 1) * window ∨ 0 < extra := by
  cases h with
  | start => exact nofun
  | @read offset extra held h hlt =>
    rintro j ⟨⟩
    by_cases hin : min (offset + chunk) total ≤ (offset / window + 1) * window
    · exact .inl hin
    · right
      rw [if_neg (not_fits (le_refl _) (by omega) (by omega))]
      split <;> omega

/-- The first boundary that a request straddles costs two calls: its window is held. -/
theorem lt_or_two_le (hchunk : ¬ chunk ∣ window) (hpos : 0 < chunk) (hwin : chunk ≤ window)
    (hmax : window < umax 64) (h : Scanned total window chunk offset held extra) :
    offset < window ∨ 2 ≤ extra := by
  induction h with
  | start => exact .inl (by omega)
  | @read offset extra held h hlt ih =>
    rcases ih with hin | htwo
    · -- so far every chunk was inside the first window: this one is, or reaches over its end
      by_cases hstay : min (offset + chunk) total < window
      · exact .inl hstay
      · right
        have hout := lt_add_of_not_dvd (h.dvd_offset hlt) hchunk (by omega)
        have hzero : offset / window = 0 := Nat.div_eq_of_lt hin
        -- the window was fetched by the chunks before
        have hheld : held = some (offset / window) := by
          cases held with
          | none =>
            have hstart := (h.eq_zero_of_none rfl).1
            omega
          | some j =>
            have hbegin := (h.held_window hpos hwin j rfl).1
            rcases j with _ | j
            · rw [hzero]
            · rw [Nat.add_one_mul] at hbegin
              omega
        have hmiss : ¬ Fits total window chunk offset :=
          not_fits (by rw [hzero]; omega) hout hmax
        rw [if_neg hmiss, if_pos hheld]
        omega
    · exact .inr (by omega)

/-- A second boundary that is straddled costs one more at least. -/
theorem lt_or_three_le {boundary : Nat} (hchunk : ¬ chunk ∣ window) (hpos : 0 < chunk)
    (hwin : chunk ≤ window) (hmax : boundary < umax 64) (hboundary : window ∣ boundary)
    (hsecond : window < boundary) (hstraddled : ¬ chunk ∣ boundary)
    (h : Scanned total window chunk offset held extra) : offset < boundary ∨ 3 ≤ extra := by
  induction h with
  | start => exact .inl (by omega)
  | @read offset extra held h hlt ih =>
    rcases ih with hin | hthree
    · by_cases hstay : min (offset + chunk) total < boundary
      · exact .inl hstay
      · right
        have hout := lt_add_of_not_dvd (h.dvd_offset hlt) hstraddled (by omega)
        have hnext : offset / window * window + window ≤ boundary :=
          add_le_of_dvd_of_lt (dvd_mul_left window _) hboundary
            (lt_of_le_of_lt (Nat.div_mul_le_self _ _) hin)
        have hmiss : ¬ Fits total window chunk offset :=
          not_fits (by rw [Nat.add_one_mul]; exact hnext) hout hmax
        have hfirst := h.lt_or_two_le hchunk hpos hwin (by omega)
        have htwice : window + window ≤ boundary :=
          add_le_of_dvd_of_lt dvd_rfl hboundary hsecond
        rw [if_neg hmiss]
        split <;> omega
    · exact .inr (by omega)

/-- Three windows that end with the largest offset, and chunks that divide two of them. -/
theorem extra_le_two (hpos : 0 < window) (hmax : total = umax 64) (hthree : 3 * window = total)
    (hchunk : chunk ∣ 2 * window) (h : Scanned total window chunk offset held extra) :
    extra ≤ 2 ∧ (offset < window → extra = 0) := by
  induction h with
  | start => exact ⟨Nat.zero_le _, fun _ => rfl⟩
  | @read offset extra held h hlt ih =>
    have hbegin := Nat.div_mul_le_self offset window
    have hnext := lt_next_window hpos offset
    by_cases hfirst : offset < window
    · -- in the first window: the chunk may reach over its end, but none before it did
      have hzero : offset / window = 0 := Nat.div_eq_of_lt hfirst
      rw [ih.2 hfirst, Nat.zero_add]
      constructor
      · split
        · exact Nat.zero_le _
        · split <;> omega
      · intro hin
        have hfits : Fits total window chunk offset := by
          unfold Fits
          rw [hzero]
          omega
        rw [if_pos hfits]
    · -- only the first window's end is straddled
      have hfits : Fits total window chunk offset := by
        unfold Fits
        -- the second ends where a chunk does, and the third where the file does
        rcases Nat.lt_or_ge offset (2 * window) with hsecond | hthird
        · have hstop := add_le_of_dvd_of_lt (h.dvd_offset hlt) hchunk hsecond
          have hone : 1 ≤ offset / window := (Nat.one_le_div_iff hpos).mpr (by omega)
          have htwice : (1 + 1) * window ≤ (offset / window + 1) * window :=
            Nat.mul_le_mul_right window (by omega)
          omega
        · have htwo : 2 ≤ offset / window := (Nat.le_div_iff_mul_le hpos).mpr hthird
          have hthrice : (2 + 1) * window ≤ (offset / window + 1) * window :=
            Nat.mul_le_mul_right window (by omega)
          omega
      rw [if_pos hfits]
      exact ⟨ih.1, fun hin => by omega⟩

end Scanned

/-! ### What the walk costs -/

/-- The calls for the windows up to the one that is held, one each. -/
def paid : Option Nat → Nat
  | none => 0
  | some j => j + 1

/-- The calls for the read that finds the end. -/
def probeCost (total window : Nat) (held : Option Nat) : Nat :=
  if total = umax 64 ∧ total ≤ paid held * window then 0
  else if window ∣ total ∨ total = umax 64 then 1
  else 2

namespace Scanned

variable {total window chunk extra j : Nat} {held : Option Nat}

/-- A file that its windows divide is read with one call for each and one more for the end, and
    with what the straddled boundaries cost. -/
theorem within_iff_of_dvd (hchunk : 0 < chunk) (hwin : chunk ≤ window) (hdvd : window ∣ total)
    (hmax : total < umax 64) (h : Scanned total window chunk total (some j) extra) :
    j + 1 + extra + 1 ≤ total / window + 2 ↔ chunk ∣ window := by
  obtain ⟨-, hlt, hnext⟩ := h.held_window hchunk hwin j rfl
  obtain ⟨m, rfl⟩ := hdvd
  have hpos : 0 < window := by omega
  rw [Nat.mul_div_cancel_left m hpos] at hnext ⊢
  have hheld : j < m := by
    rw [Nat.mul_comm] at hlt
    exact lt_of_mul_lt_mul_left hlt (Nat.zero_le window)
  constructor
  · intro hwithin
    by_contra hstraddles
    have hone : window * 1 ≤ window * m := Nat.mul_le_mul_left window (by omega)
    have hfirst := h.lt_or_two_le hstraddles hchunk hwin (by omega)
    omega
  · intro hwhole
    have hzero := h.extra_eq_zero hwhole hpos (.inl (dvd_mul_right window m))
    omega

/-- A file that its windows do not divide costs a call too many: the end is found only by another
    fetch of its last window, and a call after that. -/
theorem not_within (hchunk : 0 < chunk) (hwin : chunk ≤ window) (hdvd : ¬ window ∣ total)
    (hmax : total ≤ umax 64) (h : Scanned total window chunk total (some j) extra) :
    total / window + 2 < j + 1 + extra + 2 := by
  obtain ⟨-, hlt, hnext⟩ := h.held_window hchunk hwin j rfl
  rcases h.le_held_or_pos hmax j rfl with hreach | hpos
  · have hinside : total < (j + 1) * window := by
      apply lt_of_le_of_ne hreach
      rintro rfl
      exact hdvd (dvd_mul_left window _)
    have hlast := Nat.div_lt_of_lt_mul (Nat.mul_comm (j + 1) window ▸ hinside)
    omega
  · omega

/-- The longest file: its end is known from the last window, since no offset lies behind it. -/
theorem within_iff_of_max (hchunk : 0 < chunk) (hwin : chunk ≤ window) (hmax : total = umax 64)
    (h : Scanned total window chunk total (some j) extra) :
    j + 1 + extra + probeCost total window (some j) ≤ total / window + 2 ↔
      chunk ∣ window ∨ total ≤ window ∨ 3 * window = total ∧ chunk ∣ 2 * window := by
  obtain ⟨-, hlt, hnext⟩ := h.held_window hchunk hwin j rfl
  have hpos : 0 < window := by omega
  by_cases hdvd : window ∣ total
  · -- two more than the windows are allowed
    obtain ⟨m, hm⟩ := hdvd
    have hdiv : total / window = m := by rw [hm, Nat.mul_div_cancel_left m hpos]
    have hheld : j < m := by
      rw [hm, Nat.mul_comm] at hlt
      exact lt_of_mul_lt_mul_left hlt (Nat.zero_le window)
    have hlast : j + 1 = m := by omega
    -- the window that reaches the longest file's end answers the probe
    have hprobe : probeCost total window (some j) = 0 := by
      rw [probeCost, paid, hlast, if_pos ⟨hmax, by rw [hm, Nat.mul_comm]⟩]
    rw [hdiv, hprobe, hlast]
    constructor
    · intro hwithin
      by_contra hno
      obtain ⟨hstraddles, hmore, hthree⟩ : ¬ chunk ∣ window ∧ ¬ total ≤ window ∧
          ¬ (3 * window = total ∧ chunk ∣ 2 * window) := by tauto
      have hvalue : umax 64 = 18446744073709551615 := rfl
      -- an odd number of windows, more than one
      have hodd : 2 < m := by
        rcases m with _ | _ | _ | m
        · omega
        · omega
        · omega
        · omega
      have htwo : window * 2 < window * m := Nat.mul_lt_mul_of_pos_left hodd hpos
      by_cases hdouble : chunk ∣ 2 * window
      · have hfour : 3 < m := by
          apply lt_of_le_of_ne hodd
          rintro rfl
          exact hthree ⟨by omega, hdouble⟩
        have hlarge : window * 3 < window * m := Nat.mul_lt_mul_of_pos_left hfour hpos
        -- two windows are whole chunks, and one is not, so that three are not
        have hodd' : ¬ chunk ∣ 3 * window := by
          intro htriple
          have hdiff := Nat.dvd_sub htriple hdouble
          rw [← Nat.sub_mul, Nat.one_mul] at hdiff
          exact hstraddles hdiff
        have hcost := h.lt_or_three_le hstraddles hchunk hwin (by omega) (dvd_mul_left window 3)
          (by omega) hodd'
        omega
      · have hcost := h.lt_or_three_le hstraddles hchunk hwin (by omega) (dvd_mul_left window 2)
          (by omega) hdouble
        omega
    · rintro (hwhole | hsingle | ⟨hthree, hdouble⟩)
      · have hzero := h.extra_eq_zero hwhole hpos (.inr hmax)
        omega
      · have hzero := h.extra_eq_zero_of_le hmax hsingle
        omega
      · have htwo := (h.extra_le_two hpos hmax hthree hdouble).1
        omega
  · -- one more than the windows is allowed
    have hallowed : j + 1 + extra + probeCost total window (some j) ≤ total / window + 2 ↔
        extra ≤ 1 := by
      unfold probeCost paid
      by_cases hreach : total ≤ (j + 1) * window
      · have hinside : total < window * (j + 1) := by
          rw [Nat.mul_comm]
          apply lt_of_le_of_ne hreach
          rintro rfl
          exact hdvd (dvd_mul_left window _)
        have hlast := Nat.div_lt_of_lt_mul hinside
        have hleast : j ≤ total / window := (Nat.le_div_iff_mul_le hpos).mpr (le_of_lt hlt)
        rw [if_pos ⟨hmax, hreach⟩]
        omega
      · have hleast : j + 1 ≤ total / window := (Nat.le_div_iff_mul_le hpos).mpr (by omega)
        rw [if_neg (fun hfull => hreach hfull.2), if_pos (.inr hmax)]
        omega
    rw [hallowed]
    constructor
    · intro hwithin
      by_contra hno
      obtain ⟨hstraddles, hmore⟩ : ¬ chunk ∣ window ∧ ¬ total ≤ window := by tauto
      have hfirst := h.lt_or_two_le hstraddles hchunk hwin (by omega)
      omega
    · rintro (hwhole | hsingle | ⟨hthree, -⟩)
      · have hzero := h.extra_eq_zero hwhole hpos (.inr hmax)
        omega
      · have hzero := h.extra_eq_zero_of_le hmax hsingle
        omega
      · exact absurd ⟨3, by omega⟩ hdvd

/-- When a walk over a whole file takes no more than one call for each window, and two. -/
theorem within_iff (hchunk : 0 < chunk) (hwin : chunk ≤ window) (hmax : total ≤ umax 64)
    (h : Scanned total window chunk total held extra) :
    paid held + extra + probeCost total window held ≤ total / window + 2 ↔
      total = 0 ∨ chunk ∣ window ∧ window ∣ total ∨
        total = umax 64 ∧
          (chunk ∣ window ∨ total ≤ window ∨ 3 * window = total ∧ chunk ∣ 2 * window) := by
  cases held with
  | none =>
    obtain ⟨rfl, rfl⟩ := h.eq_zero_of_none rfl
    simp [paid, probeCost, umax]
  | some j =>
    obtain ⟨-, hlt, -⟩ := h.held_window hchunk hwin j rfl
    -- nothing can be asked for behind the longest file
    by_cases hlongest : total = umax 64
    · rw [paid, h.within_iff_of_max hchunk hwin hlongest]
      constructor
      · exact fun hcond => .inr (.inr ⟨hlongest, hcond⟩)
      · rintro (hzero | ⟨hwhole, -⟩ | ⟨-, hcond⟩)
        · omega
        · exact .inl hwhole
        · exact hcond
    · rw [probeCost, if_neg (fun hfull => hlongest hfull.1), paid]
      by_cases hdvd : window ∣ total
      · rw [if_pos (.inl hdvd), h.within_iff_of_dvd hchunk hwin hdvd (by omega)]
        constructor
        · exact fun hwhole => .inr (.inl ⟨hwhole, hdvd⟩)
        · rintro (hzero | ⟨hwhole, -⟩ | ⟨hfull, -⟩)
          · omega
          · exact hwhole
          · exact absurd hfull hlongest
      · have hover := h.not_within hchunk hwin hdvd hmax
        rw [if_neg (by tauto)]
        constructor
        · intro hwithin
          omega
        · rintro (hzero | ⟨-, hwhole⟩ | ⟨hfull, -⟩)
          · omega
          · exact absurd hwhole hdvd
          · exact absurd hfull hlongest

end Scanned

namespace ReadAhead

variable {σ : Type} {cfg : Config} {h : FileHandle σ} {F : List UInt8} {calls : σ → Nat}
  {offset chunk extra : Nat} {held : Option Nat} {w : σ} {ra : ReadAhead}

/-- The wrapper has the window that the walk holds. -/
def Holds (cfg : Config) (F : List UInt8) (ra : ReadAhead) : Option Nat → Prop
  | none => ra.state = Window.empty
  | some j => ra.state = fetchedFrom cfg F (j * cfg.windowSize)

/-- What the window that is held covers. -/
def HeldCovers (total window chunk offset : Nat) : Option Nat → Prop
  | none => False
  | some j => min (offset + chunk) (umax 64) ≤ min ((j + 1) * window) total

instance (total window chunk offset : Nat) (held : Option Nat) :
    Decidable (HeldCovers total window chunk offset held) :=
  match held with
  | none => inferInstanceAs (Decidable False)
  | some _ => inferInstanceAs (Decidable (_ ≤ _))

/-- The windows behind an offset that were fetched for bytes of the file. -/
def Behind (cfg : Config) (F : List UInt8) (offset : Nat) (held : Option Nat) : Prop :=
  ∀ j ∈ held, j * cfg.windowSize ≤ offset ∧ j * cfg.windowSize < F.length

/-- A window that is held serves what it covers. -/
theorem Holds.serveFrom (hheld : Holds cfg F ra held) (hchunk : 0 < chunk)
    (hF : F.length < 2 ^ 64) (hptr : F.length < 2 ^ cfg.ptr) (hoff : offset < 2 ^ 64)
    (hbehind : Behind cfg F offset held) :
    ra.state.serveFrom cfg.ptr offset chunk =
      .ok (if HeldCovers F.length cfg.windowSize chunk offset held then some (slice F offset chunk)
        else none) := by
  have hroom : ∀ start, F.length - start < 2 ^ cfg.ptr :=
    fun start => lt_of_le_of_lt (Nat.sub_le _ _) hptr
  have humax : umax 64 = 2 ^ 64 - 1 := rfl
  cases held with
  | none =>
    -- nothing is held, and an empty window covers nothing
    have hempty : ra.state = Window.empty := hheld
    have hno : ¬ HeldCovers F.length cfg.windowSize chunk offset none := id
    rw [hempty, if_neg hno]
    apply Window.serveFrom_missed (by decide) hchunk
    simp [Window.empty]
    omega
  | some j =>
    obtain ⟨hbegin, hinside⟩ := hbehind j rfl
    have hstate : ra.state = fetchedFrom cfg F (j * cfg.windowSize) := hheld
    -- to cover the chunk is to reach its end, or the end of the file
    have hcovers : (fetchedFrom cfg F (j * cfg.windowSize)).Covers offset chunk ↔
        HeldCovers F.length cfg.windowSize chunk offset (some j) := by
      rw [covers_fetchedFrom (hroom _) hbegin, HeldCovers, Nat.add_one_mul,
        or_iff_left (by omega)]
    rw [hstate]
    by_cases hcov : HeldCovers F.length cfg.windowSize chunk offset (some j)
    · have hnear : offset - j * cfg.windowSize < 2 ^ cfg.ptr := by
        have hfits := cfg.fits
        have hreach : min (offset + chunk) (umax 64) ≤
            min ((j + 1) * cfg.windowSize) F.length := hcov
        rw [Nat.add_one_mul] at hreach
        omega
      rw [serveFrom_fetched (hroom _) hF hoff hchunk hbegin hnear, if_pos (hcovers.mpr hcov),
        if_pos hcov]
    · have hrange := fetchedFrom_range (hroom _) hF (show j * cfg.windowSize < 2 ^ 64 by omega)
      rw [if_neg hcov]
      exact Window.serveFrom_missed hrange hchunk fun hcov' => hcov (hcovers.mp hcov')

/-- It never says that the file has ended. -/
theorem Holds.knownPastEnd (hheld : Holds cfg F ra held) (hbehind : Behind cfg F offset held) :
    ra.state.knownPastEnd offset = .ok false := by
  apply knownPastEnd_of_not_eof
  cases held with
  | none => rw [show ra.state = Window.empty from hheld, Window.empty]
  | some j =>
    have hinside := (hbehind j rfl).2
    rw [show ra.state = _ from hheld, ← Bool.not_eq_true, fetchedFrom_eof]
    omega

/-- A read while the walk holds a window: nothing, or the cost of a fetch. -/
theorem read_holding (hfull : ReadsFully h F calls) (hchunk : 0 < chunk)
    (hwin : chunk ≤ cfg.windowSize) (hF : F.length < 2 ^ 64) (hptr : F.length < 2 ^ cfg.ptr)
    (hoff : offset < 2 ^ 64) (hheld : Holds cfg F ra held) (hbehind : Behind cfg F offset held) :
    ∃ w' ra', (asHandle cfg h).readAt offset chunk (w, ra) =
        .ok (.ok (slice F offset chunk), (w', ra')) ∧
      Holds cfg F ra' (if HeldCovers F.length cfg.windowSize chunk offset held then held
        else some (offset / cfg.windowSize)) ∧
      calls w' = calls w +
        if HeldCovers F.length cfg.windowSize chunk offset held then 0
        else if (fetchedFrom cfg F (offset / cfg.windowSize * cfg.windowSize)).Covers offset chunk
          then 1 else 2 := by
  have hserve := hheld.serveFrom hchunk hF hptr hoff hbehind
  by_cases hcov : HeldCovers F.length cfg.windowSize chunk offset held
  · rw [if_pos hcov] at hserve
    rw [if_pos hcov, if_pos hcov]
    exact ⟨w, ra, read_served hchunk hwin hserve, hheld, rfl⟩
  · rw [if_neg hcov] at hserve
    rw [if_neg hcov, if_neg hcov]
    exact read_missed hfull hchunk hwin hF hoff rfl (lt_of_le_of_lt (Nat.sub_le _ _) hptr) hserve
      (hheld.knownPastEnd hbehind)

/-- A read within the file takes the walk one step on. -/
theorem read_step (hfull : ReadsFully h F calls) (hchunk : 0 < chunk)
    (hwin : chunk ≤ cfg.windowSize) (hF : F.length < 2 ^ 64) (hptr : F.length < 2 ^ cfg.ptr)
    (hwalk : Scanned F.length cfg.windowSize chunk offset held extra) (hlt : offset < F.length)
    (hheld : Holds cfg F ra held) :
    ∃ w' ra', (asHandle cfg h).readAt offset chunk (w, ra) =
        .ok (.ok (slice F offset chunk), (w', ra')) ∧
      Holds cfg F ra' (some (offset / cfg.windowSize)) ∧
      calls w' + paid held = calls w + paid (some (offset / cfg.windowSize)) +
        if Fits F.length cfg.windowSize chunk offset then 0
        else if held = some (offset / cfg.windowSize) then 2 else 1 := by
  have hpos : 0 < cfg.windowSize := by omega
  have hwindows := hwalk.held_window hchunk hwin
  have hbehind : Behind cfg F offset held :=
    fun j hj => ⟨le_of_lt (hwindows j hj).1, (hwindows j hj).2.1⟩
  obtain ⟨w', ra', hread, hheld', hcalls⟩ :=
    read_holding (w := w) hfull hchunk hwin hF hptr (lt_trans hlt hF) hheld hbehind
  -- the window that is fetched has the request if it fits
  have hcovers : (fetchedFrom cfg F (offset / cfg.windowSize * cfg.windowSize)).Covers offset
      chunk ↔ Fits F.length cfg.windowSize chunk offset := by
    have hbegin := Nat.div_mul_le_self offset cfg.windowSize
    rw [covers_fetchedFrom (lt_of_le_of_lt (Nat.sub_le _ _) hptr) hbegin, Fits, Nat.add_one_mul,
      or_iff_left (by omega)]
  -- the window that is held has it if it is the current one, and the request fits
  have hsame : HeldCovers F.length cfg.windowSize chunk offset held ↔
      held = some (offset / cfg.windowSize) ∧ Fits F.length cfg.windowSize chunk offset := by
    cases held with
    | none => simp [HeldCovers]
    | some j =>
      obtain ⟨hbegin, -, hnext⟩ := hwindows j rfl
      have humax : umax 64 = 2 ^ 64 - 1 := rfl
      rw [HeldCovers, Fits, Option.some.injEq]
      constructor
      · intro hcov
        -- the window before would end before the request begins
        have hlast : offset / cfg.windowSize < j + 1 := by
          by_contra hlater
          have hend := (Nat.le_div_iff_mul_le hpos).mp (Nat.le_of_not_lt hlater)
          omega
        have hleast : j ≤ offset / cfg.windowSize :=
          (Nat.le_div_iff_mul_le hpos).mpr (le_of_lt hbegin)
        obtain rfl : j = offset / cfg.windowSize := by omega
        exact ⟨rfl, hcov⟩
      · rintro ⟨rfl, hfits⟩
        exact hfits
  -- a new window is one more fetch
  have hpaid : paid (some (offset / cfg.windowSize)) =
      paid held + if held = some (offset / cfg.windowSize) then 0 else 1 := by
    cases held with
    | none =>
      obtain rfl := (hwalk.eq_zero_of_none rfl).1
      simp [paid]
    | some j =>
      obtain ⟨hbegin, -, hnext⟩ := hwindows j rfl
      have hleast : j ≤ offset / cfg.windowSize :=
        (Nat.le_div_iff_mul_le hpos).mpr (le_of_lt hbegin)
      simp only [paid, Option.some.injEq]
      split <;> omega
  refine ⟨w', ra', hread, ?_, ?_⟩
  · by_cases hcov : HeldCovers F.length cfg.windowSize chunk offset held
    · rw [if_pos hcov, (hsame.mp hcov).1] at hheld'
      exact hheld'
    · rw [if_neg hcov] at hheld'
      exact hheld'
  · rw [hcalls, hpaid]
    simp only [hsame, hcovers]
    by_cases hcurrent : held = some (offset / cfg.windowSize)
    · simp only [hcurrent, true_and, if_true]
      split
      · omega
      · omega
    · simp only [hcurrent, false_and, if_false]
      split
      · omega
      · omega

/-- The read at the end of the file. -/
theorem read_probe (hfull : ReadsFully h F calls) (hchunk : 0 < chunk)
    (hwin : chunk ≤ cfg.windowSize) (hF : F.length < 2 ^ 64) (hptr : F.length < 2 ^ cfg.ptr)
    (hwalk : Scanned F.length cfg.windowSize chunk F.length held extra)
    (hheld : Holds cfg F ra held) :
    ∃ w' ra', (asHandle cfg h).readAt F.length chunk (w, ra) = .ok (.ok [], (w', ra')) ∧
      calls w' = calls w + probeCost F.length cfg.windowSize held := by
  have hpos : 0 < cfg.windowSize := by omega
  have hwindows := hwalk.held_window hchunk hwin
  obtain ⟨w', ra', hread, -, hcalls⟩ :=
    read_holding (w := w) hfull hchunk hwin hF hptr hF hheld
      fun j hj => ⟨le_of_lt (hwindows j hj).1, (hwindows j hj).2.1⟩
  rw [slice_of_length_le (le_refl _)] at hread
  have humax : umax 64 = 2 ^ 64 - 1 := rfl
  -- what is held answers at the end of the longest file only, if it reaches it
  have hsame : HeldCovers F.length cfg.windowSize chunk F.length held ↔
      F.length = umax 64 ∧ F.length ≤ paid held * cfg.windowSize := by
    cases held with
    | none =>
      rw [(hwalk.eq_zero_of_none rfl).1]
      simp [HeldCovers, umax]
    | some j =>
      rw [HeldCovers, paid]
      omega
  -- and what is fetched, there or where a new window would begin
  have hcovers : (fetchedFrom cfg F (F.length / cfg.windowSize * cfg.windowSize)).Covers F.length
      chunk ↔ cfg.windowSize ∣ F.length ∨ F.length = umax 64 := by
    have hbegin := Nat.div_mul_le_self F.length cfg.windowSize
    have hnext := Scanned.lt_next_window hpos F.length
    have hdvd : cfg.windowSize ∣ F.length ↔
        F.length ≤ F.length / cfg.windowSize * cfg.windowSize := by
      constructor
      · intro hdvd
        rw [Nat.div_mul_cancel hdvd]
      · intro hle
        exact ⟨F.length / cfg.windowSize, by rw [Nat.mul_comm]; omega⟩
    rw [Nat.add_one_mul] at hnext
    rw [covers_fetchedFrom (lt_of_le_of_lt (Nat.sub_le _ _) hptr) hbegin, hdvd]
    omega
  refine ⟨w', ra', hread, ?_⟩
  rw [hcalls, probeCost]
  simp only [hsame, hcovers]

/-- **The walk of a scan**: every turn but the last reads on, and the calls are those for the
    windows, for what was straddled, and for the end. -/
theorem readAll_walk (hfull : ReadsFully h F calls) (hchunk : 0 < chunk)
    (hwin : chunk ≤ cfg.windowSize) (hF : F.length < 2 ^ 64) (hptr : F.length < 2 ^ cfg.ptr)
    {base fuel : Nat} (hfuel : F.length - offset < fuel)
    (hwalk : Scanned F.length cfg.windowSize chunk offset held extra) (hheld : Holds cfg F ra held)
    (hcalls : calls w = base + paid held + extra) :
    ∃ s' held' extra',
      iterate fuel ((asHandle cfg h).readAllTurn chunk) (F.take offset) (w, ra) = .ok (.ok F, s') ∧
      Scanned F.length cfg.windowSize chunk F.length held' extra' ∧
      calls s'.1 = base + paid held' + extra' + probeCost F.length cfg.windowSize held' := by
  have hout : (F.take offset).length = offset := by
    rw [List.length_take, Nat.min_eq_left hwalk.offset_le]
  -- every turn leaves less of the file, so the fuel lasts
  induction fuel generalizing offset held extra w ra with
  | zero => exact absurd hfuel (Nat.not_lt_zero _)
  | succ fuel ih =>
    by_cases hlt : offset < F.length
    · -- a chunk is read and the scan goes on behind it
      obtain ⟨w', ra', hread, hheld', hcalls'⟩ :=
        read_step (w := w) hfull hchunk hwin hF hptr hwalk hlt hheld
      have hne : slice F offset chunk ≠ [] := by
        rw [← List.length_pos_iff, length_slice]
        omega
      have hnext : F.take offset ++ slice F offset chunk =
          F.take (min (offset + chunk) F.length) := by
        rw [take_append_slice, List.take_eq_take_iff]
        omega
      have hlength : (F.take (min (offset + chunk) F.length)).length =
          min (offset + chunk) F.length := by
        rw [List.length_take]
        omega
      have hcloser : F.length - min (offset + chunk) F.length < fuel := by omega
      rw [FileHandle.run_readAll_more hout hread hne, hnext]
      exact ih hcloser (hwalk.read hlt) hheld' (by rw [← Nat.add_assoc]; omega) hlength
    · -- at the end, where one more read tells that nothing is left
      obtain rfl : offset = F.length := by have := hwalk.offset_le; omega
      obtain ⟨w', ra', hread, hcalls'⟩ := read_probe (w := w) hfull hchunk hwin hF hptr hwalk hheld
      rw [FileHandle.run_readAll_end hout hread, List.take_length]
      exact ⟨(w', ra'), held, extra, rfl, hwalk, by rw [hcalls', hcalls]⟩

/-- **What a scan costs**: the file, within one call of the handle for each window and two more
    if and only if the window divides the file and the chunk divides the window, or there is
    nothing to read.  Only a file that ends at the largest offset has more room. -/
theorem readAll_within_iff (cfg : Config) (F : FileContent) (h : FileHandle σ) (calls : σ → Nat)
    (chunk fuel : Nat) (w : σ) (hfull : ReadsFully h F.bytes calls) (hchunk : 0 < chunk)
    (hwin : chunk ≤ cfg.windowSize) (hptr : F.bytes.length < 2 ^ cfg.ptr)
    (hfuel : F.bytes.length < fuel) :
    ∃ s', (asHandle cfg h).readAll chunk fuel (w, init) = .ok (.ok F.bytes, s') ∧
      (calls s'.1 ≤ calls w + (F.bytes.length / cfg.windowSize + 2) ↔
        F.bytes.length = 0 ∨ chunk ∣ cfg.windowSize ∧ cfg.windowSize ∣ F.bytes.length ∨
          F.bytes.length = 2 ^ 64 - 1 ∧ (chunk ∣ cfg.windowSize ∨
            F.bytes.length ≤ cfg.windowSize ∨
            3 * cfg.windowSize = F.bytes.length ∧ chunk ∣ 2 * cfg.windowSize)) := by
  have hmax : F.bytes.length ≤ umax 64 := lt_two_pow_iff_le_umax.mpr F.bound
  have hstart : Scanned F.bytes.length cfg.windowSize chunk 0 none 0 := .start
  have hfresh : Holds cfg F.bytes init none := rfl
  obtain ⟨s', held, extra, hrun, hwalk, hcalls⟩ :=
    readAll_walk hfull hchunk hwin F.bound hptr hfuel hstart hfresh
      (show calls w = calls w + paid none + 0 from rfl)
  have hwithin := hwalk.within_iff hchunk hwin hmax
  refine ⟨s', hrun, ?_⟩
  have humax : umax 64 = 2 ^ 64 - 1 := rfl
  rw [hcalls, ← humax, ← hwithin]
  omega

/-- Two windows of two chunks each. -/
theorem readAll_within_aligned :
    ∃ s', (asHandle ⟨64, 4, by decide⟩ (countingHandle [1, 2, 3, 4, 5, 6, 7, 8])).readAll 2 9
        (0, init) = .ok (.ok [1, 2, 3, 4, 5, 6, 7, 8], s') ∧ s'.1 ≤ 4 := by
  obtain ⟨s', hrun, hwithin⟩ := readAll_within_iff ⟨64, 4, by decide⟩
    ⟨[1, 2, 3, 4, 5, 6, 7, 8], by decide⟩ (countingHandle [1, 2, 3, 4, 5, 6, 7, 8]) id 2 9 0
    (countingHandle_readsFully _) (by decide) (by decide) (by decide) (by decide)
  exact ⟨s', hrun, hwithin.mpr (.inr (.inl ⟨by decide, by decide⟩))⟩

/-- **Straddled windows cost three calls.** Twelve bytes in windows of four, read three at a time:
    each of the two requests that cross from one window to the next fetches the first again and
    then asks the handle. -/
theorem readAll_costs_seven :
    ∃ s', (asHandle ⟨64, 4, by decide⟩
        (countingHandle [1, 2, 3, 4, 5, 6, 7, 8, 9, 10, 11, 12])).readAll 3 13 (0, init) =
          .ok (.ok [1, 2, 3, 4, 5, 6, 7, 8, 9, 10, 11, 12], s') ∧
      s'.1 = 7 ∧ ¬ s'.1 ≤ 12 / 4 + 2 :=
  ⟨(7, ⟨⟨[], 12, true⟩, 5, 20⟩), by decide +kernel, rfl, by decide⟩

end ReadAhead

end Krystallos
