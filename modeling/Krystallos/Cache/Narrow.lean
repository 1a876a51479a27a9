import Krystallos.Cache.System

namespace Krystallos

open Checked Slices Lts

/-!
# Read-ahead where `usize` is narrow

`copy_out` and `remaining_from` cut a distance in the file to `usize`.  The second only sizes a
fetch.  The first picks the bytes that are served: behind the end of the file the distance can
wrap around into the buffer, `Wraps`, and `readAt_narrow_iff` says that nothing else goes wrong.
-/

namespace Window

variable {ptr : Nat} {F : List UInt8} {w : Window} {offset len : Nat}

/-- The window covers a request behind the end of `F`, and the distance to it, cut to `usize`,
    falls into the buffer. -/
structure Wraps (ptr : Nat) (F : List UInt8) (w : Window) (offset len : Nat) : Prop where
  covers : w.covers offset len = .ok true
  past : F.length ≤ offset
  inside : castU ptr (offset - w.start) < w.data.length

instance (ptr : Nat) (F : List UInt8) (w : Window) (offset len : Nat) :
    Decidable (Wraps ptr F w offset len) :=
  decidable_of_iff (w.covers offset len = .ok true ∧ F.length ≤ offset ∧
      castU ptr (offset - w.start) < w.data.length)
    ⟨fun h => ⟨h.1, h.2.1, h.2.2⟩, fun h => ⟨h.covers, h.past, h.inside⟩⟩

/-- A covered request is served from the cut distance on. -/
theorem serveFrom_cast (hrange : w.start + w.data.length < 2 ^ 64) (hdata : w.data.length < 2 ^ ptr)
    (hlen : 0 < len) (hcov : w.covers offset len = .ok true) :
    w.serveFrom ptr offset len = .ok (some (slice w.data (castU ptr (offset - w.start)) len)) := by
  have hstart : w.start ≤ offset := by
    rw [covers_eq hrange hlen] at hcov
    exact (of_decide_eq_true (Except.ok.inj hcov)).1
  unfold serveFrom
  rw [hcov, copyOut_cast hstart hdata]
  rfl

/-- A request whose distance wraps around is served with bytes where the file has none. -/
theorem Wraps.serveFrom (h : Wraps ptr F w offset len) (hrange : w.start + w.data.length < 2 ^ 64)
    (hdata : w.data.length < 2 ^ ptr) (hlen : 0 < len) :
    ∃ bs, w.serveFrom ptr offset len = .ok (some bs) ∧ bs ≠ [] := by
  refine ⟨_, serveFrom_cast hrange hdata hlen h.covers, ?_⟩
  have hinside := h.inside
  rw [← List.length_pos_iff, length_slice]
  omega

/-- Any other lock section gives a read the handle itself could have given. -/
theorem Agrees.serveFrom_narrow (h : Agrees F w) (hF : F.length < 2 ^ 64) (hoff : offset < 2 ^ 64)
    (hdata : w.data.length < 2 ^ ptr) (hlen : 0 < len) (hwraps : ¬ Wraps ptr F w offset len) :
    w.serveFrom ptr offset len = .ok none ∨
      ∃ bs, w.serveFrom ptr offset len = .ok (some bs) ∧ ShortRead F offset len bs := by
  by_cases hpast : F.length ≤ offset
  · by_cases hcov : w.covers offset len = .ok true
    · -- behind the end the buffer has to have nothing at the cut distance
      right
      have houtside : w.data.length ≤ castU ptr (offset - w.start) := by
        by_contra hinside
        exact hwraps ⟨hcov, hpast, by omega⟩
      refine ⟨_, serveFrom_cast h.range hdata hlen hcov, ?_⟩
      rw [slice_of_length_le houtside]
      exact ⟨by simp, Nat.zero_le _, fun _ => iff_of_true rfl hpast⟩
    · left
      refine serveFrom_missed h.range hlen fun hcov' => hcov ?_
      rw [covers_eq h.range hlen, decide_eq_true hcov']
  · exact serveFrom_cases h hF hoff (fun hafter => absurd (le_of_lt hafter) hpast) hdata hlen

end Window

namespace ReadAhead

/-- Both looks at the window wait for its lock. -/
theorem lock_of_looking {cfg : Config} {offset len : Nat} {ra ra' : ReadAhead} {pc pc' : ReadPc}
    {inp : Input} (hpc : pc = .look ∨ pc = .serve)
    (h : resume cfg offset len ra pc inp = some (ra', pc')) : inp = .lock := by
  rcases hpc with rfl | rfl
  · cases inp with
    | lock => rfl
    | _ => cases h
  · cases inp with
    | lock => rfl
    | _ => cases h

end ReadAhead

namespace Sys

/-- What every read that ended with `Ok` has put into its buffer is what the file holds there, and
    nothing behind the end. -/
def ReadsRight (s : Sys) : Prop :=
  ∀ i offset len bs, s.Returned i offset len (.ok (.ok bs)) →
    bs = slice s.file.bytes offset bs.length ∧ (s.file.bytes.length ≤ offset → bs = [])

/-- The step is a lock section of `read_at` that serves a request whose distance wraps around. -/
def wraps (cfg : Config) (s : Sys) : Action → Bool
  | .resume i .lock =>
    match s.tasks[i]? with
    | some (.read offset len .look) => decide (s.shared.state.Wraps cfg.ptr s.file.bytes offset len)
    | some (.read offset len .serve) => decide (s.shared.state.Wraps cfg.ptr s.file.bytes offset len)
    | _ => false
  | _ => false

/-- The steps of `read_at` calls. -/
def ofRead : Action → Bool
  | .startRead _ _ => true
  | .resume _ _ => true
  | _ => false

/-- What a read knows of a file that does not change. -/
def KnownRead (F : List UInt8) : Task → Prop
  | .read offset len pc => offset < 2 ^ 64 ∧ ReadAhead.ReadInv F offset len pc
  | _ => True

/-- The invariant of runs of reads alone. -/
structure Reading (cfg : Config) (s : Sys) : Prop where
  agrees : Window.Agrees s.file.bytes s.shared.state
  sized : Sized cfg s
  reads : ∀ t ∈ s.tasks, KnownRead s.file.bytes t

variable {cfg : Config} {F : FileContent} {s s' : Sys}

theorem reading_init (cfg : Config) (F : FileContent) : Reading cfg (init F) where
  agrees := Window.agrees_empty F.bytes
  sized := sized_init cfg F
  reads := nofun

theorem Reading.data_lt (h : Reading cfg s) : s.shared.state.data.length < 2 ^ cfg.ptr :=
  lt_of_le_of_lt h.sized.window cfg.fits

/-- What has been read was read right. -/
theorem Reading.readsRight (h : Reading cfg s) : ReadsRight s := by
  intro i offset len bs hret
  have hread : ShortRead s.file.bytes offset len bs := (h.reads _ (List.mem_of_getElem? hret)).2
  refine ⟨hread.bytes, fun hpast => ?_⟩
  rw [hread.bytes, slice_of_length_le hpast]

/-- A look at the window wraps around, or does not. -/
theorem wraps_resume {i offset len : Nat} {pc : ReadPc} {inp : Input}
    (htask : s.tasks[i]? = some (.read offset len pc)) : wraps cfg s (.resume i inp) = true ↔
      (pc = .look ∨ pc = .serve) ∧ inp = .lock ∧
        s.shared.state.Wraps cfg.ptr s.file.bytes offset len := by
  cases inp with
  | lock => cases pc <;> simp [wraps, htask]
  | _ => simp [wraps]

/-- **Step lemma.** A step of a read that does not wrap around keeps the invariant. -/
theorem reading_step {a : Action} (hread : ofRead a = true) (hwraps : wraps cfg s a = false)
    (h : Reading cfg s) (hstep : step cfg s a = some s') : Reading cfg s' := by
  have hsized := sized_step h.sized hstep
  cases moved_of_step hstep with
  | @reads offset len hoff =>
    exact ⟨h.agrees, hsized,
      forall_mem_concat h.reads ⟨hoff, ReadAhead.readAt_inv cfg _ offset len⟩⟩
  | @resumed i inp offset len pc pc' ra' htask hok hres =>
    obtain ⟨hoff, hinv⟩ := h.reads _ (List.mem_of_getElem? htask)
    have hinv' : ReadAhead.ReadInv s.file.bytes offset len pc' := by
      refine ReadAhead.resume_known s.file.bound hoff (fun hpc hlen => ?_) (fun p hpanic => ?_) hinv
        hok hres
      · refine h.agrees.serveFrom_narrow s.file.bound hoff h.data_lt hlen fun hwrap => ?_
        obtain rfl := ReadAhead.lock_of_looking hpc hres
        rw [(wraps_resume htask).mpr ⟨hpc, rfl, hwrap⟩] at hwraps
        cases hwraps
      · rw [Window.knownPastEnd_eq h.agrees.range] at hpanic
        cases hpanic
    refine ⟨?_, hsized, forall_mem_set h.reads ⟨hoff, hinv'⟩⟩
    show Window.Agrees s.file.bytes ra'.state
    rcases ReadAhead.resume_window hres with hsame | ⟨start, buf, hitEof, rfl, -, hpub⟩
    · rw [hsame]
      exact h.agrees
    · rw [hpub]
      exact hinv.2
  | writes | closes | written | closed | landed | failed => cases hread

/-- A step that wraps around answers wrongly. -/
theorem not_readsRight_step {a : Action} (hwraps : wraps cfg s a = true) (h : Reading cfg s)
    (hstep : step cfg s a = some s') : ¬ ReadsRight s' := by
  cases moved_of_step hstep with
  | @resumed i inp offset len pc pc' ra' htask hok hres =>
    obtain ⟨hpc, rfl, hwrap⟩ := (wraps_resume htask).mp hwraps
    obtain ⟨hoff, hinv⟩ := h.reads _ (List.mem_of_getElem? htask)
    obtain ⟨bs, hserved, hne⟩ :=
      hwrap.serveFrom h.agrees.range h.data_lt (ReadAhead.pos_of_looking hinv hpc)
    have hdone : pc' = .done (.ok (.ok bs)) := by
      rcases hpc with rfl | rfl
      · rw [ReadAhead.resume, hserved] at hres
        exact (Prod.mk.inj (Option.some.inj hres)).2.symm
      · rw [ReadAhead.resume, hserved] at hres
        exact (Prod.mk.inj (Option.some.inj hres)).2.symm
    subst hdone
    intro hright
    have hi : i < s.tasks.length := (List.getElem?_eq_some_iff.mp htask).1
    have hright' := hright i offset len bs (by rw [Returned, List.getElem?_set_self hi])
    exact hne (hright'.2 hwrap.past)
  | reads | writes | closes | written | closed | landed | failed => cases hwraps

/-- **Narrow `usize`.** In every state of a run of reads each that ended with `Ok` was right, if
    and only if no lock section of the run serves a request behind the end of the file whose
    distance from the window's start, cut to `usize`, falls into the window. -/
theorem readAt_narrow_iff (cfg : Config) (F : FileContent) (acts : List Action) (s : Sys)
    (hreads : ∀ a ∈ acts, ofRead a = true) (hrun : run (step cfg) (init F) acts = some s) :
    AllStates (step cfg) ReadsRight (init F) acts ↔
      AllSteps (step cfg) (fun s a => wraps cfg s a = false) (init F) acts := by
  refine allStates_iff_allSteps (fun s h => Reading.readsRight h) ?_ ?_ (reading_init cfg F) hrun
  · intro s a ha s' hwraps h hs
    exact reading_step (hreads a ha) hwraps h hs
  · intro s a _ s' hwraps h hs
    exact not_readsRight_step (by simpa using hwraps) h hs

/-- A fetch of three bytes serves a read in front of the end. -/
theorem readAt_narrow_short :
    AllStates (step ⟨32, 16, by decide⟩) ReadsRight (init ⟨[7, 8, 9], by decide⟩)
      [.startRead 1 4, .resume 0 .lock, .resume 0 .lock, .resume 0 (.total 0),
        .resume 0 (.answer (.ok [7, 8, 9])), .resume 0 (.answer (.ok [])), .resume 0 .lock,
        .resume 0 .lock] :=
  (readAt_narrow_iff ⟨32, 16, by decide⟩ ⟨[7, 8, 9], by decide⟩ _
    ⟨⟨[7, 8, 9], by decide⟩, ⟨⟨[7, 8, 9], 0, true⟩, 2, 29⟩,
      [.read 1 4 (.done (.ok (.ok [8, 9])))], [16, 13]⟩ (by decide) (by decide +kernel)).mpr
    (by decide +kernel)

/-- **A read wraps around into the window.** The file has three bytes, and its size is reported as
    zero, so that the first read fetches up to the end.  On a 32-bit target a read of the file at
    4 GiB and one then yields its second byte. -/
theorem wraps_past_end :
    ∃ s, run (step ⟨32, 16, by decide⟩) (init ⟨[7, 8, 9], by decide⟩)
      [.startRead 0 1, .resume 0 .lock, .resume 0 .lock, .resume 0 (.total 0),
        .resume 0 (.answer (.ok [7, 8, 9])), .resume 0 (.answer (.ok [])), .resume 0 .lock,
        .resume 0 .lock, .startRead (2 ^ 32 + 1) 1, .resume 1 .lock] = some s ∧
      s.Returned 1 (2 ^ 32 + 1) 1 (.ok (.ok [8])) :=
  ⟨⟨⟨[7, 8, 9], by decide⟩, ⟨⟨[7, 8, 9], 0, true⟩, 2, 29⟩,
      [.read 0 1 (.done (.ok (.ok [7]))), .read (2 ^ 32 + 1) 1 (.done (.ok (.ok [8])))], [16, 13]⟩,
    by decide +kernel, rfl⟩

end Sys

end Krystallos
