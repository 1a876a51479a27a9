import Krystallos.Cache.System

namespace Krystallos

open Lts

/-!
# Reads that overlap a write

`fill` reads the file outside the lock and publishes later, so a write can land and drop the
window in between: the window published then holds bytes the file no longer has
(`stale_window_served`).  `Fresh` rules exactly that out, and `fresh_after_writes` is what
holds of every run without it.
-/

namespace Sys

/-- No step publishes a window that has gone stale unless a landed write is still to drop
    it.  Also, a write that fails leaves the file as it was, and the offset of a read past
    the end fits in `usize`. -/
def Fresh (cfg : Config) (s : Sys) : Action → Prop
  | .startRead offset _ => offset ≤ s.file.bytes.length ∨ offset < 2 ^ cfg.ptr
  | .resume i .lock => ∀ w ∈ s.tasks[i]?.bind Task.publishing,
      Window.Agrees s.file.bytes w ∨ ∃ t ∈ s.tasks, t.pending = true
  | .fail _ _ F => F = s.file
  | _ => True

instance (cfg : Config) (s : Sys) (a : Action) : Decidable (Fresh cfg s a) :=
  match a with
  | .startRead offset _ => inferInstanceAs
      (Decidable (offset ≤ s.file.bytes.length ∨ offset < 2 ^ cfg.ptr))
  | .resume i .lock => inferInstanceAs (Decidable (∀ w ∈ s.tasks[i]?.bind Task.publishing,
      Window.Agrees s.file.bytes w ∨ ∃ t ∈ s.tasks, t.pending = true))
  | .fail _ _ F => inferInstanceAs (Decidable (F = s.file))
  | .resume _ (.total _) => isTrue trivial
  | .resume _ (.answer _) => isTrue trivial
  | .startWrite _ => isTrue trivial
  | .startClose => isTrue trivial
  | .invalidate _ => isTrue trivial
  | .land _ _ => isTrue trivial

/-- While no landed write owes its `invalidate`, the window agrees with the file. -/
def Coherent (s : Sys) : Prop :=
  (∀ t ∈ s.tasks, t.pending = false) → Window.Agrees s.file.bytes s.shared.state

variable {cfg : Config} {s s' : Sys}

/-- **Step lemma.** A fresh step keeps the window coherent, whatever overlaps it. -/
theorem coherent_step {a : Action} (hok : Fresh cfg s a) (h : Coherent s)
    (hstep : step cfg s a = some s') : Coherent s' := by
  cases moved_of_step hstep with
  | reads | writes | closes => exact fun hnone => h fun t ht => hnone t (List.mem_append_left _ ht)
  | @resumed i inp offset len pc pc' ra' htask _ hres =>
    intro hnone
    have hold : ∀ t ∈ s.tasks, t.pending = false := forall_mem_of_set htask rfl hnone
    show Window.Agrees s.file.bytes ra'.state
    rcases ReadAhead.resume_window hres with hsame | ⟨start, buf, hitEof, rfl, rfl, hpub⟩
    · rw [hsame]
      exact h hold
    · -- a publish: what it publishes agrees, since nothing is pending
      rw [hpub]
      have hpublish : (s.tasks[i]?.bind Task.publishing) = some ⟨buf, start, hitEof⟩ := by
        rw [htask]
        rfl
      rcases hok _ hpublish with hag | ⟨t, ht, hpending⟩
      · exact hag
      · rw [hold t ht] at hpending
        cases hpending
  | written | closed => exact fun _ => Window.agrees_empty _
  | @landed i n op F' htask _ =>
    intro hnone
    have hi : i < s.tasks.length := (List.getElem?_eq_some_iff.mp htask).1
    -- the write has landed and the window not been dropped yet, so one is pending
    cases hnone (.write op (.landed n)) (List.mem_set hi _)
  | @failed i e F' op htask =>
    -- a fresh run has no failed write that changes the file
    obtain rfl : F' = s.file := hok
    exact fun hnone => h (forall_mem_of_set htask rfl hnone)

/-- What holds from a moment on at which no write is in flight and none is started: the file
    stays `F`, and the reads started since, the tasks from `n` on, know only true things. -/
structure Settled (cfg : Config) (n : Nat) (F : FileContent) (s : Sys) : Prop where
  file : s.file = F
  quiet : ∀ t ∈ s.tasks, t.writing = false
  coherent : Coherent s
  sized : Sized cfg s
  later : ∀ i offset len pc, n ≤ i → s.tasks[i]? = some (Task.read offset len pc) →
    offset < 2 ^ 64 ∧ (offset ≤ F.bytes.length ∨ offset < 2 ^ cfg.ptr) ∧
      ReadAhead.ReadInv F.bytes offset len pc

theorem Settled.agrees {n : Nat} {F : FileContent} (h : Settled cfg n F s) :
    Window.Agrees F.bytes s.shared.state := by
  rw [← h.file]
  refine h.coherent fun t ht => ?_
  have hquiet := h.quiet t ht
  by_contra hpending
  rw [Task.writing_of_pending (by simpa using hpending)] at hquiet
  cases hquiet

/-- Where no write is in flight and none starts, no step changes that or the file. -/
theorem quiet_step {a : Action} (hquiet : ∀ t ∈ s.tasks, t.writing = false)
    (hno : ∀ op, a ≠ .startWrite op) (hstep : step cfg s a = some s') :
    s'.file = s.file ∧ ∀ t ∈ s'.tasks, t.writing = false := by
  cases moved_of_step hstep with
  | reads => exact ⟨rfl, forall_mem_concat hquiet rfl⟩
  | @writes op => exact absurd rfl (hno op)
  | closes => exact ⟨rfl, forall_mem_concat hquiet rfl⟩
  | resumed => exact ⟨rfl, forall_mem_set hquiet rfl⟩
  | written => exact ⟨rfl, forall_mem_set hquiet rfl⟩
  | closed => exact ⟨rfl, forall_mem_set hquiet rfl⟩
  -- a write that can land or fail is in flight
  | landed htask => cases hquiet _ (List.mem_of_getElem? htask)
  | failed htask => cases hquiet _ (List.mem_of_getElem? htask)

/-- **Step lemma.** A fresh step that starts no write keeps what is settled. -/
theorem settled_step {n : Nat} {F : FileContent} {a : Action} (hok : Fresh cfg s a)
    (hno : ∀ op, a ≠ .startWrite op) (h : Settled cfg n F s)
    (hstep : step cfg s a = some s') : Settled cfg n F s' := by
  obtain ⟨hfile, hquiet⟩ := quiet_step h.quiet hno hstep
  refine ⟨hfile.trans h.file, hquiet, coherent_step hok h.coherent hstep,
    sized_step h.sized hstep, later_step hstep ?_ ?_ h.later⟩
  · rintro offset len rfl hoff
    have hfit : offset ≤ F.bytes.length ∨ offset < 2 ^ cfg.ptr := by
      rw [← h.file]
      exact hok
    exact ⟨hoff, hfit, ReadAhead.readAt_inv cfg F.bytes offset len⟩
  · rintro i offset len inp pc ra' pc' hold ⟨hoff, hfit, hinv⟩ hans hres
    have hdata : s.shared.state.data.length < 2 ^ cfg.ptr :=
      lt_of_le_of_lt h.sized.window cfg.fits
    have hskip : F.bytes.length < offset → offset - s.shared.state.start < 2 ^ cfg.ptr := by
      intro hpast
      rcases hfit with hin | hfit
      · omega
      · exact lt_of_le_of_lt (Nat.sub_le _ _) hfit
    rw [h.file] at hans
    exact ⟨hoff, hfit,
      (ReadAhead.resume_sound F.bound hoff hskip hdata h.agrees hinv hans hres).2⟩

/-- **No stale bytes after a write.** Take any run whose steps are all fresh, and a moment in
    it at which no write is in flight.  While no further write starts, every `read_at` that
    starts after that moment and returns `Ok` gives what the file held at that moment. -/
theorem fresh_after_writes (cfg : Config) (F : FileContent) (before after : List Action)
    (s s' : Sys) (hok : AllSteps (step cfg) (Fresh cfg) (init F) (before ++ after))
    (hrun : run (step cfg) (init F) before = some s)
    (hquiet : ∀ t ∈ s.tasks, t.writing = false)
    (hafter : ∀ op, Action.startWrite op ∉ after)
    (hrun' : run (step cfg) s after = some s') :
    ∀ i offset len bs, s.tasks.length ≤ i → s'.Returned i offset len (.ok (.ok bs)) →
      ShortRead s.file.bytes offset len bs := by
  obtain ⟨hok₁, hok₂⟩ := (allSteps_append hrun).mp hok
  -- up to the moment, the window agrees whenever no write is pending
  have hcoherent : Coherent s :=
    run_invariant_of_allSteps (fun _ _ _ hfresh hI hs => coherent_step hfresh hI hs) hok₁
      (fun _ => Window.agrees_empty _) hrun
  -- none is in flight now, and no later read has begun
  have hsettled : Settled cfg s.tasks.length s.file s := by
    refine ⟨rfl, hquiet, hcoherent, sized_run hrun, ?_⟩
    intro i offset len pc hi htask
    rw [List.getElem?_eq_none hi] at htask
    cases htask
  have hsteps : AllSteps (step cfg) (fun s a => Fresh cfg s a ∧ ∀ op, a ≠ .startWrite op) s after :=
    hok₂.and_mem fun a ha op heq => hafter op (heq ▸ ha)
  have hend : Settled cfg s.tasks.length s.file s' :=
    run_invariant_of_allSteps (fun _ _ _ hfresh hI hs => settled_step hfresh.1 hfresh.2 hI hs)
      hsteps hsettled hrun'
  intro i offset len bs hi hret
  exact (hend.later i offset len _ hi hret).2.2

/-- A fetch still in flight does no harm to a read started after the write, as long as it
    publishes before the write drops the window. -/
theorem fresh_after_writes_overlap :
    let F : FileContent := ⟨[1, 2, 3, 4], by decide⟩
    let F' : FileContent := ⟨[9, 9, 3, 4], by decide⟩
    let before : List Action := [.startRead 0 2, .resume 0 .lock, .resume 0 .lock,
      .resume 0 (.total 4), .resume 0 (.answer (.ok [1, 2, 3, 4])),
      .startWrite (.writeAt 0 [9, 9]), .land 1 2, .resume 0 .lock, .invalidate 1]
    let after : List Action := [.startRead 1 2, .resume 2 .lock, .resume 2 .lock,
      .resume 2 (.total 4), .resume 2 (.answer (.ok [9, 9, 3])), .resume 2 (.answer (.ok [4])),
      .resume 2 .lock, .resume 2 .lock]
    (run (step ⟨64, 4, by decide⟩) (init F) (before ++ after)).isSome = true ∧
      ShortRead F'.bytes 1 2 [9, 3] := by
  intro F F' before after
  let written : Sys := ⟨F', ⟨Window.empty, 1, 4⟩,
    [.read 0 2 .serve, .write (.writeAt 0 [9, 9]) (.done (.ok 2))], [4]⟩
  let served : Sys := ⟨F', ⟨⟨[9, 9, 3, 4], 0, false⟩, 3, 9⟩,
    [.read 0 2 .serve, .write (.writeAt 0 [9, 9]) (.done (.ok 2)),
      .read 1 2 (.done (.ok (.ok [9, 3])))], [4, 4, 1]⟩
  refine ⟨by decide, ?_⟩
  exact fresh_after_writes ⟨64, 4, by decide⟩ F before after written served (by decide)
    (by decide) (by decide) (by simp [after]) (by decide) 2 1 2 [9, 3] (by decide) rfl

/-- **A stale window is served.** A read of two bytes fetches its window, a write of the
    same two bytes lands, drops the window and returns, and only then the read publishes:
    a read started after all that returns the bytes from before the write. -/
theorem stale_window_served :
    ∃ (F : FileContent) (before after : List Action) (s s' : Sys) (bs : List UInt8),
      run (step ⟨64, 4, by decide⟩) (init F) before = some s ∧
      s.tasks[1]? = some (Task.write (.writeAt 0 [9, 9]) (.done (.ok 2))) ∧
      (∀ t ∈ s.tasks, t.writing = false) ∧
      (∀ op, Action.startWrite op ∉ after) ∧
      run (step ⟨64, 4, by decide⟩) s after = some s' ∧
      s.tasks.length ≤ 2 ∧ s'.Returned 2 0 2 (.ok (.ok bs)) ∧
      s.file.bytes = [9, 9, 3, 4] ∧ bs = [1, 2] ∧ ¬ ShortRead s.file.bytes 0 2 bs := by
  let F : FileContent := ⟨[1, 2, 3, 4], by decide⟩
  let F' : FileContent := ⟨[9, 9, 3, 4], by decide⟩
  let written : Sys := ⟨F', ⟨Window.empty, 1, 4⟩,
    [.read 0 2 (.publish 0 [1, 2, 3, 4] false), .write (.writeAt 0 [9, 9]) (.done (.ok 2))], [4]⟩
  let served : Sys := ⟨F', ⟨⟨[1, 2, 3, 4], 0, false⟩, 1, 4⟩,
    [.read 0 2 .serve, .write (.writeAt 0 [9, 9]) (.done (.ok 2)),
      .read 0 2 (.done (.ok (.ok [1, 2])))], [4]⟩
  refine ⟨F, [.startRead 0 2, .resume 0 .lock, .resume 0 .lock, .resume 0 (.total 4),
      .resume 0 (.answer (.ok [1, 2, 3, 4])), .startWrite (.writeAt 0 [9, 9]), .land 1 2,
      .invalidate 1],
    [.resume 0 .lock, .startRead 0 2, .resume 2 .lock], written, served, [1, 2],
    by decide, rfl, by decide, by simp, by decide, by decide, rfl, rfl, rfl, by decide⟩

end Sys

end Krystallos
