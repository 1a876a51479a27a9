import Krystallos.Cache.FailedWrite
import Krystallos.Cache.Scan

namespace Krystallos

open Checked Prog Slices Lts

/-!
# Reads behind the end of a file that does not change

A window learns that the file has ended from an empty fetch, and a fetch comes back empty only
where it begins at the end or behind it: `KnowsEnd`.  A window that holds the last bytes of the
file never learns it, so that a read behind them in the same window asks the handle each time:
`learnt_once_iff`.
-/

namespace Window

/-- What a window knows of where the file ends. -/
structure KnowsEnd (cfg : Config) (F : List UInt8) (w : Window) : Prop where
  aligned : cfg.windowSize ∣ w.start
  range : w.start + w.data.length < 2 ^ 64
  small : w.data.length ≤ cfg.windowSize
  past : w.eof = true → F.length ≤ w.start ∧ w.data = []
  inside : w.eof = false → w.start + w.data.length ≤ F.length

theorem knowsEnd_empty (cfg : Config) (F : List UInt8) : KnowsEnd cfg F empty where
  aligned := dvd_zero _
  range := (by decide : 0 + ([] : List UInt8).length < 2 ^ 64)
  small := Nat.zero_le _
  past := nofun
  inside := fun _ => Nat.zero_le _

variable {cfg : Config} {F : List UInt8} {w : Window} {offset len : Nat}

/-- An empty buffer gives nothing, whatever the distance from its start. -/
theorem copyOut_nil {ptr : Nat} (hdata : w.data = []) (hstart : w.start ≤ offset) :
    w.copyOut ptr offset len = .ok [] := by
  unfold copyOut
  rw [subU_ok hstart]
  simp [hdata, subU, addU, sliceRange, bind, Except.bind]

/-- Behind the end, what a window covers it serves with nothing. -/
theorem KnowsEnd.serveFrom (h : KnowsEnd cfg F w) (hlen : 0 < len) (hpast : F.length ≤ offset)
    (hoff : offset < 2 ^ 64) :
    w.serveFrom cfg.ptr offset len = .ok (if w.Covers offset len then some [] else none) := by
  have hdata : w.data.length < 2 ^ cfg.ptr := lt_of_le_of_lt h.small cfg.fits
  by_cases hcov : w.Covers offset len
  · rw [if_pos hcov]
    cases heof : w.eof with
    | true =>
      rw [Window.serveFrom, covers_eq h.range hlen, decide_eq_true ⟨hcov.1, hcov.2⟩]
      show (w.copyOut cfg.ptr offset len >>= _) = _
      rw [copyOut_nil (h.past heof).2 hcov.1]
      rfl
    | false =>
      have hinside := h.inside heof
      have hreach := hcov.2.resolve_right (by simp [heof])
      have humax : umax 64 = 2 ^ 64 - 1 := rfl
      rw [serveFrom_covered h.range hdata hlen hcov.1 (by omega) hcov.2,
        slice_of_length_le (by omega)]
  · rw [if_neg hcov]
    exact serveFrom_missed h.range hlen hcov

/-- A request that is not covered does not lie behind an end that is known. -/
theorem KnowsEnd.knownPastEnd (h : KnowsEnd cfg F w) (hcov : ¬ w.Covers offset len) :
    w.knownPastEnd offset = .ok false := by
  rw [knownPastEnd_eq h.range]
  cases heof : w.eof with
  | false => rfl
  | true =>
    have hbelow : offset < w.start := by
      by_contra hge
      exact hcov ⟨by omega, .inr heof⟩
    rw [(h.past heof).2]
    simp
    omega

end Window

namespace ReadAhead

variable {cfg : Config} {F : List UInt8} {offset len : Nat} {ra ra' : ReadAhead} {pc pc' : ReadPc}
  {inp : Input}

/-! ### What a fetch can learn -/

theorem fetchedFrom_knowsEnd {start : Nat} (hdvd : cfg.windowSize ∣ start) (hstart : start < 2 ^ 64)
    (hF : F.length < 2 ^ 64) : (fetchedFrom cfg F start).KnowsEnd cfg F := by
  unfold fetchedFrom
  by_cases hpast : F.length ≤ start
  · rw [if_pos hpast]
    exact ⟨hdvd, hstart, Nat.zero_le _, fun _ => ⟨hpast, rfl⟩, nofun⟩
  · rw [if_neg hpast]
    refine ⟨hdvd, ?_, ?_, nofun, fun _ => ?_⟩
    · simp only [length_slice]
      omega
    · simp only [length_slice]
      omega
    · simp only [length_slice]
      omega

/-- The handle answers in full, and knows the size of the file; any read may fail. -/
def FullAnswer (F : List UInt8) (offset len : Nat) (pc : ReadPc) : Input → Prop
  | .answer (.ok bs) => ∀ pos n, request offset len pc = some (pos, n) → bs = slice F pos n
  | .total n => n = F.length
  | _ => True

/-- What a call in flight will know of where the file ends. -/
def Learning (cfg : Config) (F : List UInt8) : ReadPc → Prop
  | .size start => cfg.windowSize ∣ start ∧ start < 2 ^ 64
  | .fetch start want buf pos => cfg.windowSize ∣ start ∧ start < 2 ^ 64 ∧ buf = [] ∧ pos = start ∧
      0 < want ∧ want ≤ cfg.windowSize ∧ (start < F.length → want ≤ F.length - start)
  | .publish start buf hitEof => Window.KnowsEnd cfg F ⟨buf, start, hitEof⟩
  | _ => True

/-- With full answers a fetch takes one: all that it wants, or nothing. -/
theorem resume_learning (hwin : 0 < cfg.windowSize) (hF : F.length < 2 ^ 64)
    (hoff : offset < 2 ^ 64) (hpc : Learning cfg F pc) (hin : FullAnswer F offset len pc inp)
    (h : resume cfg offset len ra pc inp = some (ra', pc')) : Learning cfg F pc' := by
  cases resumed_of_resume h with
  | miss =>
    unfold afterMiss
    split
    · trivial
    · trivial
  | worth => exact ⟨dvd_mul_left _ _, lt_of_le_of_lt (Nat.div_mul_le_self _ _) hoff⟩
  | @sized start n =>
    obtain ⟨hdvd, hstart⟩ := hpc
    obtain rfl : n = F.length := hin
    have hcast := Nat.mod_le (F.length - start) (2 ^ cfg.ptr)
    unfold fillNext
    split
    · next hwant =>
      rw [addU_ok (by simpa using hstart)]
      refine ⟨hdvd, hstart, rfl, rfl, hwant, Nat.min_le_left _ _, fun hlt => ?_⟩
      rw [remainingFrom, if_neg (by omega), castU]
      omega
    · next hnone =>
      -- nothing is wanted only where the size that is left was cut to no bits
      have hlt : start < F.length := by
        by_contra hpast
        rw [remainingFrom, if_pos (by omega), List.length_nil] at hnone
        omega
      exact ⟨hdvd, by simpa using hstart, Nat.zero_le _, by simp,
        fun _ => le_of_lt (by simpa using hlt)⟩
  | @fetchEnded start want pos buf =>
    obtain ⟨hdvd, hstart, rfl, rfl, hwant, -, -⟩ := hpc
    have hbytes : [] = slice F pos want := hin _ _ rfl
    have hlength := congrArg List.length hbytes
    rw [length_slice, List.length_nil] at hlength
    exact ⟨hdvd, hstart, Nat.zero_le _, fun _ => ⟨by simp only; omega, rfl⟩, by simp⟩
  | @fetched start want pos buf bs hbs =>
    obtain ⟨hdvd, hstart, rfl, rfl, hwant, hsmall, hleft⟩ := hpc
    have hbytes : bs = slice F pos want := hin _ _ rfl
    have hpos := List.length_pos_iff.mpr hbs
    have hlength := congrArg List.length hbytes
    rw [length_slice] at hlength
    have hall : bs.length = want := by omega
    rw [List.nil_append, fillNext, if_neg (by omega)]
    refine ⟨hdvd, ?_, ?_, by simp, fun _ => ?_⟩
    · simp only
      omega
    · simp only
      omega
    · simp only
      omega
  | _ => trivial

end ReadAhead

/-! ### Runs over a file that does not change -/

namespace Sys

variable {cfg : Config} {F : FileContent} {s s' : Sys}

/-- The handle reads in full, and what it is asked to write leaves the file as it is. -/
def Steady (F : FileContent) (s : Sys) : Action → Prop
  | .resume i inp => ∀ offset len pc, s.tasks[i]? = some (.read offset len pc) →
      ReadAhead.FullAnswer F.bytes offset len pc inp
  | .land i n => ∀ op, s.tasks[i]? = some (.write op .inner) → op.apply s.file n = some F
  | .fail _ _ F' => F' = F
  | _ => True

/-- What a task will know of where the file ends. -/
def TaskLearning (cfg : Config) (F : FileContent) : Task → Prop
  | .read _ _ pc => ReadAhead.Learning cfg F.bytes pc
  | _ => True

/-- What every reachable state knows of where the file ends. -/
structure Learnt (cfg : Config) (F : FileContent) (s : Sys) : Prop where
  window : s.shared.state.KnowsEnd cfg F.bytes
  tasks : ∀ t ∈ s.tasks, TaskLearning cfg F t
  formed : WellFormed cfg s

theorem learnt_init (cfg : Config) (F : FileContent) : Learnt cfg F (init F) where
  window := Window.knowsEnd_empty cfg F.bytes
  tasks := nofun
  formed := wellFormed_init cfg F

/-- **Step lemma.** -/
theorem learnt_step {a : Action} (hwin : 0 < cfg.windowSize) (hsteady : Steady F s a)
    (h : Learnt cfg F s) (hstep : step cfg s a = some s') : Learnt cfg F s' := by
  -- a read that starts has learnt nothing yet
  have hstart : ∀ len, ReadAhead.Learning cfg F.bytes (ReadAhead.readAt cfg len) := by
    intro len
    unfold ReadAhead.readAt
    split
    · trivial
    · split <;> trivial
  have hresume : ∀ i inp offset len pc ra' pc', a = .resume i inp →
      s.tasks[i]? = some (.read offset len pc) → TaskLearning cfg F (.read offset len pc) →
      ReadAhead.resume cfg offset len s.shared pc inp = some (ra', pc') →
      TaskLearning cfg F (.read offset len pc') := by
    rintro i inp offset len pc ra' pc' rfl htask hpc hres
    have hoff := (h.formed.tasks _ (List.mem_of_getElem? htask)).1
    exact ReadAhead.resume_learning hwin F.bound hoff hpc (hsteady _ _ _ htask) hres
  obtain ⟨hwindow, htasks⟩ :=
    keeps_step (P := fun w => w.KnowsEnd cfg F.bytes) (Q := TaskLearning cfg F)
      (Window.knowsEnd_empty cfg F.bytes) (fun _ _ => trivial) (fun _ => trivial)
      (fun _ len _ => hstart len)
      (fun _ _ _ _ _ _ _ ha htask hpc _ hres => hresume _ _ _ _ _ _ _ ha htask hpc hres)
      (fun _ _ _ _ _ hpc => hpc) h.window h.tasks hstep
  exact ⟨hwindow, htasks, wellFormed_step h.formed hstep⟩

/-- Every reachable state knows only true things of where the file ends. -/
theorem learnt_run {acts : List Action} (hwin : 0 < cfg.windowSize)
    (hsteady : AllSteps (step cfg) (Steady F) (init F) acts)
    (hrun : run (step cfg) (init F) acts = some s) : Learnt cfg F s :=
  run_invariant_of_allSteps (fun _ _ _ hok hI hs => learnt_step hwin hok hI hs) hsteady
    (learnt_init cfg F) hrun

end Sys

/-! ### Reading on behind the end -/

namespace FileHandle

variable {σ : Type}

/-- The same read, `k` times. -/
def readAgain (h : FileHandle σ) (offset len : Nat) : Nat → Prog Error σ Unit
  | 0 => pure ()
  | k + 1 => do
    let _ ← h.readAt offset len
    readAgain h offset len k

/-- A read that changes nothing can be repeated. -/
theorem run_readAgain {h : FileHandle σ} {offset len : Nat} {bs : List UInt8} {s : σ}
    (hread : h.readAt offset len s = .ok (.ok bs, s)) (k : Nat) :
    h.readAgain offset len k s = .ok (.ok (), s) := by
  induction k with
  | zero => rfl
  | succ k ih =>
    rw [readAgain]
    simp only [bind, hread]
    exact ih

end FileHandle

namespace ReadAhead

variable {σ : Type} {cfg : Config} {h : FileHandle σ} {F : List UInt8} {calls : σ → Nat}
  {offset len : Nat} {w : σ} {ra : ReadAhead}

/-- A read behind the end that the window does not cover fetches the window it falls into. -/
theorem read_behind (hfull : ReadsFully h F calls) (hlen : 0 < len) (hwin : len ≤ cfg.windowSize)
    (hF : F.length < 2 ^ 64) (hpast : F.length ≤ offset) (hoff : offset < 2 ^ 64)
    (hknows : ra.state.KnowsEnd cfg F) (hcov : ¬ ra.state.Covers offset len) :
    ∃ w' ra', (asHandle cfg h).readAt offset len (w, ra) = .ok (.ok [], (w', ra')) ∧
      ra'.state = fetchedFrom cfg F (offset / cfg.windowSize * cfg.windowSize) ∧
      calls w < calls w' := by
  have hmiss := hknows.serveFrom hlen hpast hoff
  rw [if_neg hcov] at hmiss
  have hroom : F.length - offset / cfg.windowSize * cfg.windowSize < 2 ^ cfg.ptr := by
    have hnext := Scanned.lt_next_window (lt_of_lt_of_le hlen hwin) offset
    have hfits := cfg.fits
    rw [Nat.add_one_mul] at hnext
    omega
  obtain ⟨w', ra', hread, hstate, hcalls⟩ :=
    read_missed (w := w) hfull hlen hwin hF hoff rfl hroom hmiss (hknows.knownPastEnd hcov)
  rw [slice_of_length_le hpast] at hread
  refine ⟨w', ra', hread, hstate, ?_⟩
  rw [hcalls]
  split <;> omega

/-- The window that is fetched for a read behind the end covers it, unless it holds the last bytes
    of the file. -/
theorem covers_behind (hlen : 0 < len) (hwin : len ≤ cfg.windowSize) (hpast : F.length ≤ offset)
    (hend : F.length ≤ offset / cfg.windowSize * cfg.windowSize ∨ F.length = umax 64) :
    (fetchedFrom cfg F (offset / cfg.windowSize * cfg.windowSize)).Covers offset len := by
  have hnext := Scanned.lt_next_window (lt_of_lt_of_le hlen hwin) offset
  have hfits := cfg.fits
  have humax : umax 64 = 2 ^ 64 - 1 := rfl
  rw [Nat.add_one_mul] at hnext
  rw [covers_fetchedFrom (by omega) (Nat.div_mul_le_self _ _)]
  omega

/-- No window covers a read behind the end in the window that holds the last bytes of the file. -/
theorem not_covers_last (hlen : 0 < len) (hpast : F.length ≤ offset) (hoff : offset < 2 ^ 64)
    (hknows : ra.state.KnowsEnd cfg F)
    (hlast : ¬ (F.length ≤ offset / cfg.windowSize * cfg.windowSize ∨ F.length = umax 64)) :
    ¬ ra.state.Covers offset len := by
  rintro ⟨hstart, hcov⟩
  cases heof : ra.state.eof with
  | true =>
    have hend := (hknows.past heof).1
    have hle : cfg.windowSize * (ra.state.start / cfg.windowSize) ≤
        cfg.windowSize * (offset / cfg.windowSize) :=
      Nat.mul_le_mul_left _ (Nat.div_le_div_right hstart)
    rw [Nat.mul_div_cancel' hknows.aligned, Nat.mul_comm] at hle
    exact hlast (.inl (le_trans hend hle))
  | false =>
    have hinside := hknows.inside heof
    have hreach := hcov.resolve_right (by simp [heof])
    have humax : umax 64 = 2 ^ 64 - 1 := rfl
    omega

end ReadAhead

namespace Sys

/-- **The end is learnt once** if and only if the offset lies in a window that begins at the end or
    behind it.  In the window that holds the last bytes of the file each read asks the handle
    again; only a file that ends at the largest offset has no such reads. -/
theorem learnt_once_iff {σ : Type} (cfg : Config) (F : FileContent) (acts : List Action) (s : Sys)
    (h : FileHandle σ) (calls : σ → Nat) (offset len : Nat) (w : σ)
    (hsteady : AllSteps (step cfg) (Steady F) (init F) acts)
    (hrun : run (step cfg) (init F) acts = some s) (hfull : ReadsFully h F.bytes calls)
    (hpast : F.bytes.length ≤ offset) (hoff : offset < 2 ^ 64) (hlen : 0 < len)
    (hwin : len ≤ cfg.windowSize) :
    ∃ s₁, (ReadAhead.asHandle cfg h).readAt offset len (w, s.shared) = .ok (.ok [], s₁) ∧
      ((∀ k, ∃ s₂, (ReadAhead.asHandle cfg h).readAgain offset len k s₁ = .ok (.ok (), s₂) ∧
          calls s₂.1 = calls s₁.1) ↔
        F.bytes.length ≤ offset / cfg.windowSize * cfg.windowSize ∨
          F.bytes.length = 2 ^ 64 - 1) := by
  have hknows := (learnt_run (by omega) hsteady hrun).window
  have hfetched : (ReadAhead.fetchedFrom cfg F.bytes
      (offset / cfg.windowSize * cfg.windowSize)).KnowsEnd cfg F.bytes :=
    ReadAhead.fetchedFrom_knowsEnd (dvd_mul_left _ _)
      (lt_of_le_of_lt (Nat.div_mul_le_self _ _) hoff) F.bound
  -- a window that covers the request answers without a call
  have hserved : ∀ {w : σ} {ra : ReadAhead}, ra.state.KnowsEnd cfg F.bytes →
      ra.state.Covers offset len →
      (ReadAhead.asHandle cfg h).readAt offset len (w, ra) = .ok (.ok [], (w, ra)) := by
    intro w ra hknows hcov
    apply ReadAhead.read_served hlen hwin
    rw [hknows.serveFrom hlen hpast hoff, if_pos hcov]
  by_cases hcov : s.shared.state.Covers offset len
  · -- it was known before
    have hagain := hserved (w := w) hknows hcov
    refine ⟨(w, s.shared), hagain, ?_⟩
    constructor
    · intro _
      by_contra hlast
      exact ReadAhead.not_covers_last hlen hpast hoff hknows hlast hcov
    · intro _ k
      exact ⟨_, FileHandle.run_readAgain hagain k, rfl⟩
  · obtain ⟨w₁, ra₁, hread, hstate, -⟩ :=
      ReadAhead.read_behind (w := w) hfull hlen hwin F.bound hpast hoff hknows hcov
    rw [← hstate] at hfetched
    refine ⟨(w₁, ra₁), hread, ?_⟩
    constructor
    · intro honce
      by_contra hlast
      -- one more read, and one more call
      have hcov₁ := ReadAhead.not_covers_last hlen hpast hoff hfetched hlast
      obtain ⟨w₂, ra₂, hread₂, -, hmore⟩ :=
        ReadAhead.read_behind (w := w₁) hfull hlen hwin F.bound hpast hoff hfetched hcov₁
      obtain ⟨s₂, hrun₂, hcalls⟩ := honce 1
      rw [FileHandle.readAgain, FileHandle.readAgain] at hrun₂
      simp only [bind, hread₂, run_pure, Except.ok.injEq, Prod.mk.injEq, true_and] at hrun₂
      rw [← hrun₂] at hcalls
      exact absurd hcalls (ne_of_gt hmore)
    · intro hend k
      have hcov₁ := ReadAhead.covers_behind hlen hwin hpast hend
      rw [← hstate] at hcov₁
      exact ⟨_, FileHandle.run_readAgain (hserved hfetched hcov₁) k, rfl⟩

/-- Three bytes in windows of four: the offset four begins a window. -/
theorem learnt_once_next_window :
    ∃ s₁, (ReadAhead.asHandle ⟨64, 4, by decide⟩ (countingHandle [1, 2, 3])).readAt 4 1
        (0, ReadAhead.init) = .ok (.ok [], s₁) ∧
      ∀ k, ∃ s₂, (ReadAhead.asHandle ⟨64, 4, by decide⟩ (countingHandle [1, 2, 3])).readAgain 4 1 k
        s₁ = .ok (.ok (), s₂) ∧ s₂.1 = s₁.1 := by
  obtain ⟨s₁, hread, honce⟩ := learnt_once_iff ⟨64, 4, by decide⟩ ⟨[1, 2, 3], by decide⟩ [] _
    (countingHandle [1, 2, 3]) id 4 1 0 trivial rfl (countingHandle_readsFully _) (by decide)
    (by decide) (by decide) (by decide)
  exact ⟨s₁, hread, honce.mpr (.inl (by decide))⟩

/-- **The end is asked for again and again.** The offset three lies behind the last of three bytes,
    in the window of four that holds them: the first read there costs two calls, and so does the
    next. -/
theorem end_asked_again :
    ∃ s₁ s₂, (ReadAhead.asHandle ⟨64, 4, by decide⟩ (countingHandle [1, 2, 3])).readAt 3 1
        (0, ReadAhead.init) = .ok (.ok [], s₁) ∧
      (ReadAhead.asHandle ⟨64, 4, by decide⟩ (countingHandle [1, 2, 3])).readAt 3 1 s₁ =
        .ok (.ok [], s₂) ∧ s₁.1 = 2 ∧ s₂.1 = 4 :=
  ⟨(2, ⟨⟨[1, 2, 3], 0, false⟩, 1, 3⟩), (4, ⟨⟨[1, 2, 3], 0, false⟩, 2, 6⟩), by decide +kernel,
    by decide +kernel, rfl, rfl⟩

end Sys

end Krystallos
