import Krystallos.Cache.Sequential

namespace Krystallos

open Checked Prog Slices

/-!
# What a `read_at` costs

The calls that one `read_at` makes of a handle that always reads in full: none where the window
serves it, one for a fetch, and one more where the window that was fetched does not cover it
(`read_served`, `read_missed`).
-/

/-- A handle that reads in full, knows the size of the file, and counts its `read_at` calls. -/
structure ReadsFully {σ : Type} (h : FileHandle σ) (F : List UInt8) (calls : σ → Nat) : Prop where
  readAt : ∀ offset n s, ∃ s', h.readAt offset n s = .ok (.ok (slice F offset n), s') ∧
    calls s' = calls s + 1
  len : ∀ s, h.len s = F.length

/-- Slices that end in the same place are the same. -/
theorem slice_congr {F : List UInt8} {off m n : Nat}
    (h : min m (F.length - off) = min n (F.length - off)) : slice F off m = slice F off n := by
  rw [slice, slice, List.take_eq_take_iff, List.length_drop]
  exact h

namespace Window

/-- Requests that a window covers up to the end of it. -/
def Covers (w : Window) (offset len : Nat) : Prop :=
  w.start ≤ offset ∧ (min (offset + len) (umax 64) ≤ w.start + w.data.length ∨ w.eof = true)

instance (w : Window) (offset len : Nat) : Decidable (w.Covers offset len) :=
  inferInstanceAs (Decidable (_ ∧ _))

end Window

namespace ReadAhead

variable {σ : Type} {cfg : Config} {h : FileHandle σ} {F : List UInt8} {calls : σ → Nat}
  {offset len : Nat} {w : σ} {ra ra' : ReadAhead} {pc pc' : ReadPc}

/-! ### Turns -/

/-- A turn that takes the lock. -/
theorem run_turn_lock {fuel : Nat} (hres : resume cfg offset len ra pc .lock = some (ra', pc')) :
    iterate (fuel + 1) (turn cfg h offset len) pc (w, ra) =
      iterate fuel (turn cfg h offset len) pc' (w, ra') := by
  apply run_iterate_again
  cases pc with
  | size start => cases hres
  | fetch start want buf pos => cases hres
  | pass counted => cases hres
  | done r => cases hres
  | _ => simp only [turn, goOn, supply, request, bind, pure, current, update, hres]

/-- The turn that asks for the size. -/
theorem run_turn_size (hfull : ReadsFully h F calls) {fuel start : Nat} :
    iterate (fuel + 1) (turn cfg h offset len) (.size start) (w, ra) =
      iterate fuel (turn cfg h offset len)
        (fillNext start (min cfg.windowSize (remainingFrom cfg start F.length)) []) (w, ra) := by
  apply run_iterate_again
  simp only [turn, goOn, supply, request, bind, pure, current, update, resume, hfull.len]

/-- A turn that reads from the handle. -/
theorem run_turn_answer (hfull : ReadsFully h F calls) {pos n fuel : Nat}
    (hreq : request offset len pc = some (pos, n))
    (hres : resume cfg offset len ra pc (.answer (.ok (slice F pos n))) = some (ra', pc')) :
    ∃ w', calls w' = calls w + 1 ∧
      iterate (fuel + 1) (turn cfg h offset len) pc (w, ra) =
        iterate fuel (turn cfg h offset len) pc' (w', ra') := by
  obtain ⟨w', hread, hcalls⟩ := hfull.readAt pos n w
  refine ⟨w', hcalls, run_iterate_again ?_⟩
  cases pc with
  | fetch start want buf pos' =>
    simp only [turn, goOn, supply, hreq, ask, inner, capture, zoom, bind, pure, current, update,
      hread, hres]
  | pass counted =>
    simp only [turn, goOn, supply, hreq, ask, inner, capture, zoom, bind, pure, current, update,
      hread, hres]
  | _ => cases hreq

/-- The turn that ends a call. -/
theorem run_turn_done {fuel : Nat} {bs : List UInt8} :
    iterate (fuel + 1) (turn cfg h offset len) (.done (.ok (.ok bs))) (w, ra) =
      .ok (.ok bs, (w, ra)) := rfl

/-! ### Calls -/

theorem readAt_look (hlen : 0 < len) (hwin : len ≤ cfg.windowSize) : readAt cfg len = .look := by
  rw [readAt, if_neg (by omega), if_neg (by omega)]

/-- A request that the window serves costs nothing. -/
theorem read_served (hlen : 0 < len) (hwin : len ≤ cfg.windowSize) {bs : List UInt8}
    (hserve : ra.state.serveFrom cfg.ptr offset len = .ok (some bs)) :
    (asHandle cfg h).readAt offset len (w, ra) = .ok (.ok bs, (w, ra)) := by
  have hlook : resume cfg offset len ra .look .lock = some (ra, .done (.ok (.ok bs))) := by
    simp only [resume, hserve]
  show iterate (cfg.windowSize + 8) _ (readAt cfg len) (w, ra) = _
  rw [readAt_look hlen hwin, run_turn_lock hlook, run_turn_done]

/-- The window that a fetch at `start` publishes. -/
def fetchedFrom (cfg : Config) (F : List UInt8) (start : Nat) : Window :=
  if F.length ≤ start then ⟨[], start, true⟩
  else ⟨slice F start (min cfg.windowSize (remainingFrom cfg start F.length)), start, false⟩

theorem fetchedFrom_eta (start : Nat) :
    (⟨(fetchedFrom cfg F start).data, start, (fetchedFrom cfg F start).eof⟩ : Window) =
      fetchedFrom cfg F start := by
  unfold fetchedFrom
  split <;> rfl

@[simp] theorem fetchedFrom_start (start : Nat) : (fetchedFrom cfg F start).start = start := by
  unfold fetchedFrom
  split <;> rfl

/-- A request that the window does not serve costs a fetch, which one call of the handle
    answers. -/
theorem run_fetch (hfull : ReadsFully h F calls) (hlen : 0 < len) (hwin : len ≤ cfg.windowSize)
    (hoff : offset < 2 ^ 64) {start : Nat}
    (hstart : start = offset / cfg.windowSize * cfg.windowSize)
    (hroom : F.length ≤ start ∨ 0 < remainingFrom cfg start F.length)
    (hmiss : ra.state.serveFrom cfg.ptr offset len = .ok none)
    (hknown : ra.state.knownPastEnd offset = .ok false) {fuel : Nat} :
    ∃ w' ra', calls w' = calls w + 1 ∧ ra'.state = fetchedFrom cfg F start ∧
      iterate (fuel + 5) (turn cfg h offset len) .look (w, ra) =
        iterate fuel (turn cfg h offset len) .serve (w', ra') := by
  have hstart64 : start < 2 ^ 64 := by
    rw [hstart]
    exact lt_of_le_of_lt (Nat.div_mul_le_self _ _) hoff
  let want := min cfg.windowSize (remainingFrom cfg start F.length)
  have hwant : 0 < want := by
    rcases hroom with hpast | hpos
    · have hfull' : remainingFrom cfg start F.length = cfg.windowSize := if_pos hpast
      show 0 < min cfg.windowSize (remainingFrom cfg start F.length)
      omega
    · show 0 < min cfg.windowSize (remainingFrom cfg start F.length)
      omega
  -- the steps of the read, one by one
  have hlook : resume cfg offset len ra .look .lock = some (ra, .probe) := by
    simp only [resume, hmiss, afterMiss, if_neg (Nat.not_lt.mpr hwin)]
  have hprobe : resume cfg offset len ra .probe .lock = some (ra, .size start) := by
    simp only [resume, hknown, hstart]
  have hfetch : fillNext start want [] = .fetch start want [] start := by
    rw [fillNext, if_pos (by simpa using hwant), addU_ok (by simpa using hstart64)]
    simp
  have hanswer : resume cfg offset len ra (.fetch start want [] start)
      (.answer (.ok (slice F start want))) = some (ra.count want,
        .publish start (fetchedFrom cfg F start).data (fetchedFrom cfg F start).eof) := by
    rw [fetchedFrom]
    by_cases hpast : F.length ≤ start
    · -- an empty answer is the end
      rw [if_pos hpast, slice_of_length_le hpast]
      rfl
    · rw [if_neg hpast]
      have hcast := Nat.mod_le (F.length - start) (2 ^ cfg.ptr)
      have hrem : remainingFrom cfg start F.length =
          min (castU cfg.ptr (F.length - start)) cfg.windowSize := if_neg hpast
      -- there is as much as is wanted, so that the handle is asked once
      have hall : (slice F start want).length = want := by
        rw [length_slice]
        unfold castU at hrem
        omega
      rcases hbytes : slice F start want with _ | ⟨b, bs⟩
      · rw [hbytes] at hall
        exact absurd hall (ne_of_lt hwant)
      · rw [hbytes] at hall
        simp only [resume, fillNext, List.nil_append, hall, lt_irrefl, if_false, List.length_nil,
          Nat.sub_zero]
  have hpublish : resume cfg offset len (ra.count want)
      (.publish start (fetchedFrom cfg F start).data (fetchedFrom cfg F start).eof) .lock =
        some ({ ra.count want with state := fetchedFrom cfg F start }, .serve) := by
    rw [resume, fetchedFrom_eta]
  have hreq : request offset len (.fetch start want [] start) = some (start, want) := rfl
  obtain ⟨w', hcalls, hrun⟩ : ∃ w', calls w' = calls w + 1 ∧
      iterate (fuel + 1 + 1) (turn cfg h offset len) (.fetch start want [] start) (w, ra) =
        iterate (fuel + 1) (turn cfg h offset len) _ (w', ra.count want) :=
    run_turn_answer hfull hreq hanswer
  refine ⟨w', { ra.count want with state := fetchedFrom cfg F start }, hcalls, rfl, ?_⟩
  rw [run_turn_lock hlook, run_turn_lock hprobe, run_turn_size hfull, hfetch, hrun,
    run_turn_lock hpublish]

/-- The bytes of a window that was fetched. -/
theorem fetchedFrom_data {start : Nat} (hroom : F.length - start < 2 ^ cfg.ptr) :
    (fetchedFrom cfg F start).data = slice F start cfg.windowSize := by
  unfold fetchedFrom
  by_cases hpast : F.length ≤ start
  · rw [if_pos hpast, slice_of_length_le hpast]
  · rw [if_neg hpast]
    apply slice_congr
    rw [remainingFrom, if_neg hpast, castU_of_lt hroom]
    omega

theorem fetchedFrom_eof (start : Nat) :
    (fetchedFrom cfg F start).eof = true ↔ F.length ≤ start := by
  unfold fetchedFrom
  split
  · next hpast => exact ⟨fun _ => hpast, fun _ => rfl⟩
  · next hpast => exact ⟨nofun, fun hin => absurd hin hpast⟩

/-- The requests that a window covers which was fetched for them: those within it, and every one
    behind the end. -/
theorem covers_fetchedFrom {start : Nat} (hroom : F.length - start < 2 ^ cfg.ptr)
    (hstart : start ≤ offset) :
    (fetchedFrom cfg F start).Covers offset len ↔
      min (offset + len) (umax 64) ≤ min (start + cfg.windowSize) F.length ∨ F.length ≤ start := by
  rw [Window.Covers, fetchedFrom_eof, fetchedFrom_data hroom, fetchedFrom_start, length_slice]
  omega

theorem fetchedFrom_range {start : Nat} (hroom : F.length - start < 2 ^ cfg.ptr)
    (hF : F.length < 2 ^ 64) (hstart : start < 2 ^ 64) :
    (fetchedFrom cfg F start).start + (fetchedFrom cfg F start).data.length < 2 ^ 64 := by
  rw [fetchedFrom_start, fetchedFrom_data hroom, length_slice]
  omega

/-- A request that a window covers which was fetched for it gets the bytes of the file. -/
theorem serveFrom_fetched {start : Nat} (hroom : F.length - start < 2 ^ cfg.ptr)
    (hF : F.length < 2 ^ 64) (hoff : offset < 2 ^ 64) (hlen : 0 < len) (hstart : start ≤ offset)
    (hnear : offset - start < 2 ^ cfg.ptr) :
    (fetchedFrom cfg F start).serveFrom cfg.ptr offset len =
      .ok (if (fetchedFrom cfg F start).Covers offset len then some (slice F offset len)
        else none) := by
  have hrange := fetchedFrom_range hroom hF (lt_of_le_of_lt hstart hoff)
  have hdata : (fetchedFrom cfg F start).data.length < 2 ^ cfg.ptr := by
    rw [fetchedFrom_data hroom, length_slice]
    exact lt_of_le_of_lt (Nat.min_le_left _ _) cfg.fits
  by_cases hcov : (fetchedFrom cfg F start).Covers offset len
  · rw [if_pos hcov,
      Window.serveFrom_covered hrange hdata hlen hcov.1 (by simpa using hnear) hcov.2,
      fetchedFrom_data hroom, fetchedFrom_start, slice_slice, Nat.add_sub_cancel' hstart]
    rw [covers_fetchedFrom hroom hstart] at hcov
    have humax : umax 64 = 2 ^ 64 - 1 := rfl
    congr 2
    apply slice_congr
    omega
  · rw [if_neg hcov, Window.serveFrom_missed hrange hlen hcov]

/-- A window that is not known to be the last never says that a request lies behind the end. -/
theorem knownPastEnd_of_not_eof {v : Window} (heof : v.eof = false) :
    v.knownPastEnd offset = .ok false := by
  rw [Window.knownPastEnd, heof]
  rfl

/-- **What a read that is not served costs**: one call, and another where what was fetched does
    not cover it.  Either way it gets what the file holds. -/
theorem read_missed (hfull : ReadsFully h F calls) (hlen : 0 < len) (hwin : len ≤ cfg.windowSize)
    (hF : F.length < 2 ^ 64) (hoff : offset < 2 ^ 64) {start : Nat}
    (hstart : start = offset / cfg.windowSize * cfg.windowSize)
    (hroom : F.length - start < 2 ^ cfg.ptr)
    (hmiss : ra.state.serveFrom cfg.ptr offset len = .ok none)
    (hknown : ra.state.knownPastEnd offset = .ok false) :
    ∃ w' ra', (asHandle cfg h).readAt offset len (w, ra) =
        .ok (.ok (slice F offset len), (w', ra')) ∧
      ra'.state = fetchedFrom cfg F start ∧
      calls w' = calls w + if (fetchedFrom cfg F start).Covers offset len then 1 else 2 := by
  have hpos : 0 < cfg.windowSize := lt_of_lt_of_le hlen hwin
  have hle : start ≤ offset := by
    rw [hstart]
    exact Nat.div_mul_le_self _ _
  have hnear : offset - start < 2 ^ cfg.ptr := by
    have hmod := Nat.mod_lt offset hpos
    have hdiv := Nat.div_add_mod' offset cfg.windowSize
    have hfits := cfg.fits
    omega
  have hroom' : F.length ≤ start ∨ 0 < remainingFrom cfg start F.length := by
    by_cases hpast : F.length ≤ start
    · exact .inl hpast
    · right
      rw [remainingFrom, if_neg hpast, castU_of_lt hroom]
      omega
  obtain ⟨w', ra', hcalls, hstate, hrun⟩ : ∃ w' ra', calls w' = calls w + 1 ∧
      ra'.state = fetchedFrom cfg F start ∧
      iterate (cfg.windowSize + 3 + 5) (turn cfg h offset len) .look (w, ra) =
        iterate (cfg.windowSize + 3) (turn cfg h offset len) .serve (w', ra') :=
    run_fetch hfull hlen hwin hoff hstart hroom' hmiss hknown
  have hserve := serveFrom_fetched hroom hF hoff hlen hle hnear
  rw [← hstate] at hserve
  have hbegin : (asHandle cfg h).readAt offset len (w, ra) =
      iterate (cfg.windowSize + 3) (turn cfg h offset len) .serve (w', ra') := by
    rw [← hrun]
    show iterate (cfg.windowSize + 8) _ (readAt cfg len) (w, ra) = _
    rw [readAt_look hlen hwin]
  -- the second look, at what was fetched
  by_cases hcov : ra'.state.Covers offset len
  · have hsecond : resume cfg offset len ra' .serve .lock =
        some (ra', .done (.ok (.ok (slice F offset len)))) := by
      simp only [resume, hserve, if_pos hcov]
    refine ⟨w', ra', ?_, hstate, ?_⟩
    · rw [hbegin, run_turn_lock hsecond, run_turn_done]
    · rw [hcalls, if_pos (hstate ▸ hcov)]
  · -- what was fetched is not enough: the handle is asked again
    have hsecond : resume cfg offset len ra' .serve .lock = some (ra', .pass false) := by
      simp only [resume, hserve, if_neg hcov]
    have hpass : resume cfg offset len ra' (.pass false) (.answer (.ok (slice F offset len))) =
        some (ra', .done (.ok (.ok (slice F offset len)))) := rfl
    obtain ⟨w'', hcalls', hrun'⟩ : ∃ w'', calls w'' = calls w' + 1 ∧
        iterate (cfg.windowSize + 1 + 1) (turn cfg h offset len) (.pass false) (w', ra') =
          iterate (cfg.windowSize + 1) (turn cfg h offset len) _ (w'', ra') :=
      run_turn_answer hfull rfl hpass
    refine ⟨w'', ra', ?_, hstate, ?_⟩
    · rw [hbegin, run_turn_lock hsecond, hrun', run_turn_done]
    · rw [hcalls', hcalls, if_neg (hstate ▸ hcov)]

end ReadAhead

end Krystallos
