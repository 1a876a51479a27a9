import Krystallos.Cache.System

namespace Krystallos

open Checked Lts

/-!
# The round-trip counters

`read_through` counts a read before it issues it, and so do the loop of `fill` and three of the
four branches of `read_at` that ask the wrapped handle.  The last branch, behind a second look that
found nothing, asks the handle itself: `bypasses`.  `received_step` says what one step adds to the
calls and to the counters, and `counters_exact_iff` what that means for a run.
-/

namespace Task

/-- The length of the buffer a call waits for the wrapped handle to fill. -/
def asked : Task → List Nat
  | .read offset len pc => ((ReadAhead.request offset len pc).map Prod.snd).toList
  | _ => []

/-- The same, of a call that went through `read_through`. -/
def counted : Task → List Nat
  | .read _ _ (.pass false) => []
  | t => t.asked

end Task

namespace Sys

/-- The buffer lengths of the `read_at` calls the wrapped handle has received, answered or not. -/
def received (s : Sys) : List Nat := s.calls ++ s.tasks.flatMap Task.asked

/-- `inner_read_count()`.  `resume` books a read with its answer; the source counts it when it is
    issued, so that those in flight are in the counter already. -/
def innerReadCount (s : Sys) : Nat :=
  castU 64 (s.shared.innerReads + (s.tasks.flatMap Task.counted).length)

/-- `inner_byte_count()`. -/
def innerByteCount (s : Sys) : Nat :=
  castU 64 (s.shared.innerBytes + (s.tasks.flatMap Task.counted).sum)

/-- The counters say what the wrapped handle has received. -/
structure CountersExact (s : Sys) : Prop where
  reads : s.innerReadCount = s.received.length
  bytes : s.innerByteCount = s.received.sum

instance : DecidablePred CountersExact := fun s =>
  decidable_of_iff (s.innerReadCount = s.received.length ∧ s.innerByteCount = s.received.sum)
    ⟨fun h => ⟨h.1, h.2⟩, fun h => ⟨h.reads, h.bytes⟩⟩

/-- They do up to the width of the counters, which wrap around. -/
structure CountersMatch (s : Sys) : Prop where
  reads : s.innerReadCount = castU 64 s.received.length
  bytes : s.innerByteCount = castU 64 s.received.sum

/-- The step is the second look of a `read_at` at a window that does not cover its request, after
    which `read_at` asks `self.inner` and not `read_through`. -/
def bypasses (s : Sys) : Action → Bool
  | .resume i .lock =>
    match s.tasks[i]? with
    | some (.read offset len .serve) => decide (s.shared.state.covers offset len = .ok false)
    | _ => false
  | _ => false

theorem bypasses_resume {s : Sys} {i offset len : Nat} {pc : ReadPc} {inp : Input}
    (htask : s.tasks[i]? = some (.read offset len pc)) : s.bypasses (.resume i inp) = true ↔
      pc = .serve ∧ inp = .lock ∧ s.shared.state.covers offset len = .ok false := by
  cases inp with
  | lock => cases pc <;> simp [bypasses, htask]
  | _ => simp [bypasses]

end Sys

namespace ReadAhead

variable {cfg : Config} {offset len : Nat} {ra ra' : ReadAhead} {pc pc' : ReadPc} {inp : Input}

/-- A lock section serves nothing exactly where the window does not cover the request. -/
theorem covers_of_serveFrom_none {ptr : Nat} {w : Window}
    (h : w.serveFrom ptr offset len = .ok none) : w.covers offset len = .ok false := by
  unfold Window.serveFrom at h
  cases hcov : w.covers offset len with
  | error p =>
    rw [hcov] at h
    cases h
  | ok covered =>
    cases covered with
    | false => rfl
    | true =>
      rw [hcov] at h
      cases hcopy : w.copyOut ptr offset len <;> simp [bind, Except.bind, hcopy, pure,
        Except.pure] at h

theorem serveFrom_none_of_covers {ptr : Nat} {w : Window} (h : w.covers offset len = .ok false) :
    w.serveFrom ptr offset len = .ok none := by
  unfold Window.serveFrom
  rw [h]
  rfl

/-- What a step books is what the call that it answers went through `read_through` for. -/
theorem resume_books (h : resume cfg offset len ra pc inp = some (ra', pc')) :
    castU 64 ra'.innerReads = castU 64 (ra.innerReads + (Task.read offset len pc).counted.length) ∧
      castU 64 ra'.innerBytes = castU 64 (ra.innerBytes + (Task.read offset len pc).counted.sum) := by
  cases resumed_of_resume h with
  | lookPanic hpc | hit hpc => rcases hpc with rfl | rfl <;> exact ⟨rfl, rfl⟩
  | fetchFailed | fetchEnded | fetched => simp [Task.counted, Task.asked, request, count, castU]
  | @passed counted r =>
    cases counted <;> simp [Task.counted, Task.asked, request, count, castU]
  | _ => exact ⟨rfl, rfl⟩

/-- The handle's log gains the call that a step answers. -/
theorem logCall_eq {s : Sys} (h : resume cfg offset len ra pc inp = some (ra', pc')) :
    s.logCall offset len pc inp = s.calls ++ (Task.read offset len pc).asked := by
  cases resumed_of_resume h with
  | lookPanic hpc | hit hpc =>
    rcases hpc with rfl | rfl <;> simp [Sys.logCall, Task.asked, request]
  | fetchFailed | fetchEnded | fetched | passed => rfl
  | _ => simp [Sys.logCall, Task.asked, request]

theorem counted_fillNext (start want : Nat) (buf : List UInt8) :
    (Task.read offset len (fillNext start want buf)).counted =
      (Task.read offset len (fillNext start want buf)).asked := by
  unfold fillNext
  split
  · split <;> rfl
  · rfl

/-- A call that a step issues goes through `read_through`, unless it follows a second look at a
    window that does not cover the request. -/
theorem resume_issues (h : resume cfg offset len ra pc inp = some (ra', pc')) :
    (¬ (pc = .serve ∧ ra.state.covers offset len = .ok false) ∧
        (Task.read offset len pc').counted = (Task.read offset len pc').asked) ∨
      pc = .serve ∧ inp = .lock ∧ ra.state.covers offset len = .ok false ∧ pc' = .pass false := by
  cases resumed_of_resume h with
  | lookPanic hpc hserve | hit hpc hserve =>
    refine .inl ⟨fun hmiss => ?_, rfl⟩
    rw [serveFrom_none_of_covers hmiss.2] at hserve
    cases hserve
  | miss =>
    refine .inl ⟨fun hmiss => (nomatch hmiss.1), ?_⟩
    unfold afterMiss
    split <;> rfl
  | fallback hserve => exact .inr ⟨rfl, rfl, covers_of_serveFrom_none hserve, rfl⟩
  | sized | fetched =>
    exact .inl ⟨fun hmiss => (nomatch hmiss.1), counted_fillNext _ _ _⟩
  | _ => exact .inl ⟨fun hmiss => (nomatch hmiss.1), rfl⟩

end ReadAhead

namespace Sys

variable {cfg : Config} {s s' : Sys}

/-- From `s` to `s'` the handle received the calls `issued`, and the counters `counted`. -/
structure Tallied (s s' : Sys) (issued counted : List Nat) : Prop where
  received : s'.received.Perm (s.received ++ issued)
  reads : s'.innerReadCount = castU 64 (s.innerReadCount + counted.length)
  bytes : s'.innerByteCount = castU 64 (s.innerByteCount + counted.sum)

/-- A step that replaces a task, and books what that task waited for. -/
theorem tallied_set {i : Nat} {old t : Task} {ra' : ReadAhead} {F' : FileContent}
    {calls' : List Nat} (hold : s.tasks[i]? = some old) (hcalls : calls' = s.calls ++ old.asked)
    (hreads : castU 64 ra'.innerReads = castU 64 (s.shared.innerReads + old.counted.length))
    (hbytes : castU 64 ra'.innerBytes = castU 64 (s.shared.innerBytes + old.counted.sum)) :
    Tallied s ⟨F', ra', s.tasks.set i t, calls'⟩ t.asked t.counted := by
  have hcounted := flatMap_set_perm Task.counted t hold
  have hasked := flatMap_set_perm Task.asked t hold
  have hlength := hcounted.length_eq
  have hsum := hcounted.sum_eq
  simp only [List.length_append, List.sum_append] at hlength hsum
  refine ⟨?_, ?_, ?_⟩
  · -- what the replaced task waited for has moved to the log
    simp only [received, hcalls, List.append_assoc]
    exact (List.perm_append_comm.trans hasked).append_left s.calls
  · simp only [innerReadCount, castU] at hreads ⊢
    omega
  · simp only [innerByteCount, castU] at hbytes ⊢
    omega

/-- A step that adds a task. -/
theorem tallied_concat (t : Task) :
    Tallied s { s with tasks := s.tasks ++ [t] } t.asked t.counted := by
  refine ⟨?_, ?_, ?_⟩
  · simp [received]
  · simp [innerReadCount, castU, Nat.add_assoc]
  · simp [innerByteCount, castU, Nat.add_assoc]

/-- **Step lemma.** A step adds the calls it issues to those received, and to the counters unless
    it bypasses `read_through`. -/
theorem tallied_step {a : Action} (h : step cfg s a = some s') :
    ∃ issued counted, Tallied s s' issued counted ∧
      (s.bypasses a = false ∧ counted = issued ∨
        s.bypasses a = true ∧ counted = [] ∧ ∃ len, issued = [len]) := by
  cases moved_of_step h with
  | @reads offset len =>
    refine ⟨_, _, tallied_concat (.read offset len (ReadAhead.readAt cfg len)), .inl ⟨rfl, ?_⟩⟩
    unfold ReadAhead.readAt
    split
    · rfl
    · split <;> rfl
  | writes => exact ⟨_, _, tallied_concat _, .inl ⟨rfl, rfl⟩⟩
  | closes => exact ⟨_, _, tallied_concat _, .inl ⟨rfl, rfl⟩⟩
  | @resumed i inp offset len pc pc' ra' htask _ hres =>
    obtain ⟨hreads, hbytes⟩ := ReadAhead.resume_books hres
    have htally : Tallied s ⟨s.file, ra', s.tasks.set i (.read offset len pc'),
        s.logCall offset len pc inp⟩ _ _ :=
      tallied_set htask (ReadAhead.logCall_eq hres) hreads hbytes
    refine ⟨_, _, htally, ?_⟩
    -- a fetch is counted, and the fallback is not
    rcases ReadAhead.resume_issues hres with ⟨hseen, hcounted⟩ | ⟨rfl, rfl, hmiss, rfl⟩
    · refine .inl ⟨?_, hcounted⟩
      rw [Bool.eq_false_iff]
      intro hbypass
      obtain ⟨hserve, -, hmiss⟩ := (bypasses_resume htask).mp hbypass
      exact hseen ⟨hserve, hmiss⟩
    · exact .inr ⟨(bypasses_resume htask).mpr ⟨rfl, rfl, hmiss⟩, rfl, len, rfl⟩
  | written htask | closed htask | landed htask | failed htask =>
    exact ⟨_, _, tallied_set htask (List.append_nil _).symm rfl rfl, .inl ⟨rfl, rfl⟩⟩

theorem countersMatch_init (F : FileContent) : CountersMatch (init F) := ⟨rfl, rfl⟩

/-- The counters keep up with the handle over a step that does not bypass them. -/
theorem countersMatch_step {a : Action} (hseen : s.bypasses a = false) (h : CountersMatch s)
    (hstep : step cfg s a = some s') : CountersMatch s' := by
  obtain ⟨issued, counted, htally, ⟨-, rfl⟩ | ⟨hbypass, -⟩⟩ := tallied_step hstep
  · have hreads := h.reads
    have hbytes := h.bytes
    refine ⟨?_, ?_⟩
    · rw [htally.reads, htally.received.length_eq, List.length_append]
      simp only [castU] at hreads ⊢
      omega
    · rw [htally.bytes, htally.received.sum_eq, List.sum_append]
      simp only [castU] at hbytes ⊢
      omega
  · rw [hseen] at hbypass
    cases hbypass

/-- One that does leaves them a call behind. -/
theorem not_countersMatch_step {a : Action} (hbypass : ¬ s.bypasses a = false)
    (h : CountersMatch s) (hstep : step cfg s a = some s') : ¬ CountersMatch s' := by
  intro h'
  obtain ⟨issued, counted, htally, ⟨hseen, -⟩ | ⟨-, rfl, len, rfl⟩⟩ := tallied_step hstep
  · exact hbypass hseen
  · have hbefore := h.reads
    have hafter := h'.reads
    rw [htally.reads, htally.received.length_eq, List.length_append] at hafter
    simp only [castU, List.length_nil, List.length_singleton] at hbefore hafter
    omega

/-- Every step leaves the calls that were received received. -/
theorem received_mono {a : Action} (h : step cfg s a = some s') :
    s.received.length ≤ s'.received.length ∧ s.received.sum ≤ s'.received.sum := by
  obtain ⟨issued, counted, htally, -⟩ := tallied_step h
  rw [htally.received.length_eq, htally.received.sum_eq, List.length_append, List.sum_append]
  omega

/-- The counters are exact where they match and neither has wrapped around. -/
theorem countersExact_iff : CountersExact s ↔
    CountersMatch s ∧ s.received.length < 2 ^ 64 ∧ s.received.sum < 2 ^ 64 := by
  constructor
  · rintro ⟨hreads, hbytes⟩
    have hlength : s.received.length < 2 ^ 64 := by
      rw [← hreads]
      exact Nat.mod_lt _ (Nat.two_pow_pos 64)
    have hsum : s.received.sum < 2 ^ 64 := by
      rw [← hbytes]
      exact Nat.mod_lt _ (Nat.two_pow_pos 64)
    exact ⟨⟨by rw [hreads, castU_of_lt hlength], by rw [hbytes, castU_of_lt hsum]⟩, hlength, hsum⟩
  · rintro ⟨hmatch, hlength, hsum⟩
    exact ⟨by rw [hmatch.reads, castU_of_lt hlength], by rw [hmatch.bytes, castU_of_lt hsum]⟩

/-- **The counters are exact** in every state of a run if and only if no `read_at` of the run
    takes the branch that asks the handle itself, and the totals fit in the counters. -/
theorem counters_exact_iff (cfg : Config) (F : FileContent) (acts : List Action) (s : Sys)
    (hrun : run (step cfg) (init F) acts = some s) :
    AllStates (step cfg) CountersExact (init F) acts ↔
      AllSteps (step cfg) (fun s a => s.bypasses a = false) (init F) acts ∧
        s.received.length < 2 ^ 64 ∧ s.received.sum < 2 ^ 64 := by
  have hmatch : AllStates (step cfg) CountersMatch (init F) acts ↔
      AllSteps (step cfg) (fun s a => s.bypasses a = false) (init F) acts :=
    allStates_iff_allSteps (fun _ h => h)
      (fun _ _ _ _ hseen h hs => countersMatch_step hseen h hs)
      (fun _ _ _ _ hbypass h hs => not_countersMatch_step hbypass h hs) (countersMatch_init F) hrun
  rw [← hmatch]
  constructor
  · intro hexact
    have hend := countersExact_iff.mp (hexact.last hrun)
    exact ⟨hexact.mono fun _ h => (countersExact_iff.mp h).1, hend.2⟩
  · rintro ⟨hmatches, hfits⟩
    -- totals that fit in the end fitted all along
    have hfitted : AllStates (step cfg)
        (fun s => s.received.length < 2 ^ 64 ∧ s.received.sum < 2 ^ 64) (init F) acts := by
      refine allStates_of_last (fun s a s' hs h => ?_) hrun hfits
      obtain ⟨hlength, hsum⟩ := received_mono hs
      exact ⟨by omega, by omega⟩
    exact (hmatches.and hfitted).mono fun _ h => countersExact_iff.mpr h

/-- A read that the first window serves. -/
theorem counters_exact_aligned :
    AllStates (step ⟨64, 4, by decide⟩) CountersExact (init ⟨[1, 2, 3, 4, 5, 6, 7, 8], by decide⟩)
      [.startRead 0 4, .resume 0 .lock, .resume 0 .lock, .resume 0 (.total 8),
        .resume 0 (.answer (.ok [1, 2, 3, 4])), .resume 0 .lock, .resume 0 .lock] :=
  (counters_exact_iff ⟨64, 4, by decide⟩ ⟨[1, 2, 3, 4, 5, 6, 7, 8], by decide⟩ _
    ⟨⟨[1, 2, 3, 4, 5, 6, 7, 8], by decide⟩, ⟨⟨[1, 2, 3, 4], 0, false⟩, 1, 4⟩,
      [.read 0 4 (.done (.ok (.ok [1, 2, 3, 4])))], [4]⟩ (by decide +kernel)).mpr
    ⟨by decide +kernel, by decide +kernel, by decide +kernel⟩

/-- **A straddling read is not counted.** Four bytes at offset two, with windows of four: the fetch
    is counted, the read behind it is not. -/
theorem straddling_uncounted :
    ∃ s, run (step ⟨64, 4, by decide⟩) (init ⟨[1, 2, 3, 4, 5, 6, 7, 8], by decide⟩)
      [.startRead 2 4, .resume 0 .lock, .resume 0 .lock, .resume 0 (.total 8),
        .resume 0 (.answer (.ok [1, 2, 3, 4])), .resume 0 .lock, .resume 0 .lock,
        .resume 0 (.answer (.ok [3, 4, 5, 6]))] = some s ∧
      s.received = [4, 4] ∧ s.innerReadCount = 1 ∧ s.innerByteCount = 4 :=
  ⟨⟨⟨[1, 2, 3, 4, 5, 6, 7, 8], by decide⟩, ⟨⟨[1, 2, 3, 4], 0, false⟩, 1, 4⟩,
      [.read 2 4 (.done (.ok (.ok [3, 4, 5, 6])))], [4, 4]⟩, by decide +kernel, by decide +kernel,
    by decide +kernel, by decide +kernel⟩

end Sys

end Krystallos
