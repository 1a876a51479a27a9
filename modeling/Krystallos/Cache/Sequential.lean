import Krystallos.Cache.ReadAhead

namespace Krystallos

open Checked Prog

/-!
# `ReadAhead` as a handle, one call at a time

A caller that waits for each call drives `resume` with the wrapped handle's answers.  The
handle that results keeps the contract of the one it wraps (`asHandle_reads`): every call
returns, in at most `windowSize + 8` turns, since each fetch brings at least one byte.
-/

namespace ReadAhead

variable {σ : Type}

/-- Run a call of the wrapped handle. -/
def inner {α : Type} (m : Prog Error σ α) : Prog Error (σ × ReadAhead) α :=
  zoom Prod.fst (fun w s => (w, s.2)) m

/-- Read from the wrapped handle, and take the answer as it comes. -/
def ask (h : FileHandle σ) (pos n : Nat) : Prog Error (σ × ReadAhead) Input := do
  let r ← capture (inner (h.readAt pos n))
  pure (.answer r)

/-- What the call at `pc` waits for. -/
def supply (h : FileHandle σ) (offset len : Nat) (pc : ReadPc) :
    Prog Error (σ × ReadAhead) Input :=
  match request offset len pc with
  | some (pos, n) => ask h pos n
  | none =>
    match pc with
    | .size _ => do
      let s ← current
      pure (.total (h.len s.1))
    | _ => pure .lock

/-- Wait for what the call at `pc` needs and run it to its next wait. -/
def goOn (cfg : Config) (h : FileHandle σ) (offset len : Nat) (pc : ReadPc) :
    Prog Error (σ × ReadAhead) (Turn ReadPc (List UInt8)) := do
  let inp ← supply h offset len pc
  let s ← current
  match resume cfg offset len s.2 pc inp with
  | none => pure (.again pc)
  | some (ra, pc') => do
    update fun s => (s.1, ra)
    pure (.again pc')

/-- One turn of a call: end it, or wait and go on. -/
def turn (cfg : Config) (h : FileHandle σ) (offset len : Nat) :
    ReadPc → Prog Error (σ × ReadAhead) (Turn ReadPc (List UInt8))
  | .done (.error p) => checked (.error p)
  | .done (.ok r) => do
    let bs ← ofExcept r
    pure (.leave bs)
  | pc => goOn cfg h offset len pc

/-- The wrapper around `h`, for a caller that waits for each call. -/
def asHandle (cfg : Config) (h : FileHandle σ) : FileHandle (σ × ReadAhead) where
  readAt offset len := iterate (cfg.windowSize + 8) (turn cfg h offset len) (readAt cfg len)
  writeAt offset buf := do
    let n ← inner (h.writeAt offset buf)
    update fun s => (s.1, s.2.invalidate)
    pure n
  setLen n := do
    inner (h.setLen n)
    update fun s => (s.1, s.2.invalidate)
  flush := inner h.flush
  close := do
    update fun s => (s.1, s.2.invalidate)
    inner h.close
  len s := h.len s.1

/-! ### A call ends -/

/-- How many turns a call still needs. -/
def turns (cfg : Config) : ReadPc → Nat
  | .look => cfg.windowSize + 7
  | .probe => cfg.windowSize + 6
  | .size _ => cfg.windowSize + 5
  | .fetch _ want buf _ => want - buf.length + 4
  | .publish _ _ _ => 3
  | .serve => 2
  | .pass _ => 1
  | .done _ => 0

theorem turns_le (cfg : Config) (len : Nat) : turns cfg (readAt cfg len) < cfg.windowSize + 8 := by
  unfold readAt
  split
  · exact Nat.succ_pos _
  · split
    · show 1 < cfg.windowSize + 8
      omega
    · show cfg.windowSize + 7 < cfg.windowSize + 8
      omega

theorem turns_fillNext (cfg : Config) (start want : Nat) (buf : List UInt8) :
    turns cfg (fillNext start want buf) ≤ max 3 (want - buf.length + 4) := by
  unfold fillNext
  split
  · split
    · exact Nat.zero_le _
    · exact Nat.le_max_right _ _
  · exact Nat.le_max_left _ _

variable {cfg : Config} {F : List UInt8} {offset len : Nat} {ra ra' : ReadAhead}

/-- Every step brings a call closer to its end. -/
theorem turns_resume {pc pc' : ReadPc} {inp : Input} (hinv : ReadInv F offset len pc)
    (h : resume cfg offset len ra pc inp = some (ra', pc')) : turns cfg pc' < turns cfg pc := by
  cases resumed_of_resume h with
  | lookPanic hpc | hit hpc => rcases hpc with rfl | rfl <;> exact Nat.succ_pos _
  | miss =>
    unfold afterMiss
    split
    · show 1 < cfg.windowSize + 7
      omega
    · show cfg.windowSize + 6 < cfg.windowSize + 7
      omega
  | fallback => exact Nat.lt_succ_self 1
  | probePanic => exact Nat.succ_pos _
  | pastEnd =>
    show 1 < cfg.windowSize + 6
    omega
  | worth => exact Nat.lt_succ_self _
  | @sized start n =>
    have := turns_fillNext cfg start (min cfg.windowSize (remainingFrom cfg start n)) []
    show _ < cfg.windowSize + 5
    have hmin : min cfg.windowSize (remainingFrom cfg start n) ≤ cfg.windowSize :=
      Nat.min_le_left _ _
    rw [List.length_nil] at this
    omega
  | fetchFailed => exact Nat.succ_pos _
  | @fetchEnded start want pos buf =>
    show 3 < want - buf.length + 4
    omega
  -- an answer that is not empty makes less of what is wanted
  | @fetched start want pos buf bs hbs =>
    have := turns_fillNext cfg start want (buf ++ bs)
    have hpos := List.length_pos_iff.mpr hbs
    have hmore := hinv.2.2.1
    show _ < want - buf.length + 4
    rw [List.length_append] at this
    omega
  | published => exact Nat.lt_succ_self 2
  | passed => exact Nat.succ_pos _

/-! ### The wrapper keeps the contract -/

/-- The input is the one a call at `pc` waits for. -/
def Expects : ReadPc → Input → Prop
  | .size _, .total _ => True
  | .fetch .., .answer _ => True
  | .pass _, .answer _ => True
  | .look, .lock => True
  | .probe, .lock => True
  | .publish .., .lock => True
  | .serve, .lock => True
  | _, _ => False

/-- A call that gets what it waits for goes on. -/
theorem exists_resume {pc : ReadPc} {inp : Input} (h : Expects pc inp) :
    ∃ ra' pc', resume cfg offset len ra pc inp = some (ra', pc') := by
  cases pc <;> cases inp <;> try exact h.elim
  case look.lock =>
    simp only [resume]
    split <;> exact ⟨_, _, rfl⟩
  case probe.lock =>
    simp only [resume]
    split <;> exact ⟨_, _, rfl⟩
  case serve.lock =>
    simp only [resume]
    split <;> exact ⟨_, _, rfl⟩
  case fetch.answer r =>
    simp only [resume]
    split <;> exact ⟨_, _, rfl⟩
  all_goals exact ⟨_, _, rfl⟩

/-- The wrapper's invariant: the handle's own, and a window that agrees with the file. -/
def Wraps (cfg : Config) (I : σ → Prop) (F : List UInt8) (s : σ × ReadAhead) : Prop :=
  I s.1 ∧ Window.Agrees F s.2.state ∧ s.2.state.data.length ≤ cfg.windowSize

/-- A fresh wrapper. -/
theorem wraps_init {I : σ → Prop} {w : σ} (h : I w) : Wraps cfg I F (w, init) :=
  ⟨h, Window.agrees_empty F, Nat.zero_le _⟩

/-- What the driver supplies is what the call waits for, and within the contract. -/
theorem wp_supply {h : FileHandle σ} {I : σ → Prop}
    (hreads : h.Reads I F (· < 2 ^ 64)) (hoff : offset < 2 ^ 64) {pc : ReadPc}
    (hinv : ReadInv F offset len pc) (hpc : ∀ r, pc ≠ .done r) {s : σ × ReadAhead} (hI : I s.1) :
    wp (supply h offset len pc)
      ⟨fun inp s' => I s'.1 ∧ s'.2 = s.2 ∧ AnswerOk F offset len pc inp ∧ Expects pc inp,
        fun _ _ => False, fun _ => False⟩ s := by
  -- a read that is waited for is made on the handle, and its error is an answer too
  have hread : ∀ pos n, pos < 2 ^ 64 → request offset len pc = some (pos, n) →
      (∀ r, Expects pc (.answer r)) →
      wp (ask h pos n)
        ⟨fun inp s' => I s'.1 ∧ s'.2 = s.2 ∧ AnswerOk F offset len pc inp ∧ Expects pc inp,
          fun _ _ => False, fun _ => False⟩ s := by
    intro pos n hpos hreq hexp
    rw [ask, wp_bind, wp_capture, inner, wp_zoom]
    refine wp_mono (hreads.readAt pos n s.1 hpos hI) ?_ ?_ (fun _ h => h)
    · rintro bs w ⟨hI', hok⟩
      refine ⟨hI', rfl, ?_, hexp _⟩
      intro pos' n' hreq'
      rw [hreq] at hreq'
      cases hreq'
      exact hok
    · intro e w hI'
      exact ⟨hI', rfl, trivial, hexp _⟩
  cases pc with
  | fetch start want buf pos => exact hread _ _ hinv.2.2.2.2 rfl (fun _ => trivial)
  | pass counted => exact hread _ _ hoff rfl (fun _ => trivial)
  | done r => exact absurd rfl (hpc r)
  | _ => exact ⟨hI, rfl, trivial, trivial⟩

/-- A turn of a call that has not ended keeps what is known and brings the end closer. -/
theorem wp_goOn {h : FileHandle σ} {I : σ → Prop} (hF : F.length < 2 ^ 64)
    (hreads : h.Reads I F (· < 2 ^ 64)) (hoff : offset < 2 ^ 64)
    (hfit : offset ≤ F.length ∨ offset < 2 ^ cfg.ptr) {pc : ReadPc}
    (hpc : ∀ r, pc ≠ .done r) {s : σ × ReadAhead}
    (hs : Wraps cfg I F s ∧ ReadInv F offset len pc ∧ Bounded cfg pc)
    {p : Post Error (σ × ReadAhead) (List UInt8)} :
    wp (goOn cfg h offset len pc)
      (turnPost (fun pc s => Wraps cfg I F s ∧ ReadInv F offset len pc ∧ Bounded cfg pc)
        (fun pc _ => turns cfg pc) p (turns cfg pc)) s := by
  obtain ⟨w, ra₀⟩ := s
  obtain ⟨⟨hI, hag, hdata⟩, hinv, hb⟩ := hs
  rw [goOn, wp_bind]
  refine wp_mono (wp_supply hreads hoff hinv hpc hI) ?_ (fun _ _ => False.elim)
    (fun _ => False.elim)
  rintro inp ⟨w', ra⟩ ⟨hI', rfl, hok, hexp⟩
  have hskip : F.length < offset → offset - ra.state.start < 2 ^ cfg.ptr := by
    intro hpast
    rcases hfit with hin | hfit
    · omega
    · exact lt_of_le_of_lt (Nat.sub_le _ _) hfit
  obtain ⟨ra', pc', hres⟩ : ∃ ra' pc', resume cfg offset len ra pc inp = some (ra', pc') :=
    exists_resume hexp
  have hsound := resume_sound hF hoff hskip (lt_of_le_of_lt hdata cfg.fits) hag hinv hok hres
  have hb' := resume_bounded hb hok hres
  -- the window is the one that was there, or the one that was published
  have hdata' : ra'.state.data.length ≤ cfg.windowSize := by
    rcases resume_window hres with hsame | ⟨start, buf, hitEof, rfl, -, hpub⟩
    · rw [hsame]
      exact hdata
    · rw [hpub]
      exact hb
  simp only [wp_bind, wp_current, hres, wp_update, wp_pure]
  exact ⟨⟨⟨hI', hsound.1, hdata'⟩, hsound.2, hb'⟩, turns_resume hinv hres⟩

/-- **The wrapper keeps the contract** of the handle it wraps, for any window size; past the
    end of the file, offsets have to fit in `usize`. -/
theorem asHandle_reads {h : FileHandle σ} {I : σ → Prop} (hF : F.length < 2 ^ 64)
    (hreads : h.Reads I F (· < 2 ^ 64)) :
    (asHandle cfg h).Reads (Wraps cfg I F) F
      (fun offset => offset < 2 ^ 64 ∧ (offset ≤ F.length ∨ offset < 2 ^ cfg.ptr)) where
  readAt := by
    rintro offset len s ⟨hoff, hfit⟩ hs
    refine wp_iterate
      (fun pc s => Wraps cfg I F s ∧ ReadInv F offset len pc ∧ Bounded cfg pc)
      (fun pc _ => turns cfg pc) ?_ ⟨hs, readAt_inv cfg F offset len, ?_⟩
      (.inl (turns_le cfg len))
    · rintro pc s ⟨hwraps, hinv, hb⟩
      -- the read has ended, or waits for an answer
      match pc with
      | .done (.error p) => exact hinv.elim
      | .done (.ok (.error e)) => exact hwraps
      | .done (.ok (.ok bs)) => exact ⟨hwraps, hinv⟩
      | .look | .probe | .size _ | .fetch .. | .publish .. | .serve | .pass _ =>
        exact wp_goOn hF hreads hoff hfit (fun _ hdone => by cases hdone) ⟨hwraps, hinv, hb⟩
    · unfold readAt
      split
      · trivial
      · split <;> trivial

end ReadAhead

end Krystallos
