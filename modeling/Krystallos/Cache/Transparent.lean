import Krystallos.Cache.System

namespace Krystallos

open Lts

/-!
# Read-ahead is transparent

Reads interleave freely with each other; writes run only while no read is in flight, and a
write that fails leaves the file as it was.  `Inv` ties the shared window to the file while
no write owes its `invalidate`, and every read in flight to the file through `ReadInv`.
-/

namespace Sys

/-- Reads and writes do not overlap, and a failing write leaves the file as it was. -/
def Exclusive (s : Sys) : Action → Prop
  | .startRead _ _ => ∀ t ∈ s.tasks, t.writing = false
  | .startWrite _ => ∀ t ∈ s.tasks, t.reading = false
  | .fail _ _ F => F = s.file
  | _ => True

instance (s : Sys) (a : Action) : Decidable (Exclusive s a) :=
  match a with
  | .startRead _ _ => inferInstanceAs (Decidable (∀ t ∈ s.tasks, t.writing = false))
  | .startWrite _ => inferInstanceAs (Decidable (∀ t ∈ s.tasks, t.reading = false))
  | .fail _ _ F => inferInstanceAs (Decidable (F = s.file))
  | .startClose => isTrue trivial
  | .resume _ _ => isTrue trivial
  | .invalidate _ => isTrue trivial
  | .land _ _ => isTrue trivial

/-- What a task may be in a run without overlap: a read has not panicked, and one in flight
    knows only true things about the file. -/
def Sound (F : FileContent) : Task → Prop
  | .read _ _ (.done (.error _)) => False
  | .read _ _ (.done (.ok _)) => True
  | .read offset len pc => offset < 2 ^ 64 ∧ ReadAhead.ReadInv F.bytes offset len pc
  | _ => True

/-- A task that is not a read in flight is sound whatever the file holds. -/
theorem Sound.of_not_reading {F F' : FileContent} {t : Task} (h : Sound F t)
    (hidle : t.reading = false) : Sound F' t := by
  match t with
  | .read _ _ (.done (.ok _)) => trivial
  | .write _ _ => trivial
  | .close _ => trivial

theorem sound_read {F : FileContent} {offset len : Nat} {pc : ReadPc}
    (hoff : offset < 2 ^ 64) (hinv : ReadAhead.ReadInv F.bytes offset len pc) :
    Sound F (.read offset len pc) := by
  match pc with
  | .done (.ok _) => trivial
  | .look | .probe | .size _ | .fetch .. | .publish .. | .serve | .pass _ => exact ⟨hoff, hinv⟩

theorem Sound.inv {F : FileContent} {offset len : Nat} {pc : ReadPc}
    (h : Sound F (.read offset len pc)) (hreading : (Task.read offset len pc).reading = true) :
    offset < 2 ^ 64 ∧ ReadAhead.ReadInv F.bytes offset len pc := by
  match pc with
  | .look | .probe | .size _ | .fetch .. | .publish .. | .serve | .pass _ => exact h

/-- The invariant of runs without overlap. -/
structure Inv (s : Sys) : Prop where
  agrees : (∀ t ∈ s.tasks, t.pending = false) → Window.Agrees s.file.bytes s.shared.state
  sound : ∀ t ∈ s.tasks, Sound s.file t
  exclusive : ∀ t ∈ s.tasks, t.reading = true → ∀ u ∈ s.tasks, u.writing = false

theorem inv_init (F : FileContent) : Inv (init F) where
  agrees := fun _ => Window.agrees_empty F.bytes
  sound := by simp [init]
  exclusive := by simp [init]

/-- No write owes its `invalidate` while a read is in flight. -/
theorem Inv.agrees_of_reading {s : Sys} (h : Inv s) {t : Task} (ht : t ∈ s.tasks)
    (hreading : t.reading = true) : Window.Agrees s.file.bytes s.shared.state := by
  refine h.agrees fun u hu => ?_
  have hwriting := h.exclusive t ht hreading u hu
  by_contra hpending
  rw [Task.writing_of_pending (by simpa using hpending)] at hwriting
  cases hwriting

/-- No read is in flight while a write is. -/
theorem Inv.not_reading {s : Sys} (h : Inv s) {u : Task} (hu : u ∈ s.tasks)
    (hwriting : u.writing = true) : ∀ t ∈ s.tasks, t.reading = false := by
  intro t ht
  by_contra hreading
  have := h.exclusive t ht (by simpa using hreading) u hu
  rw [hwriting] at this
  cases this

variable {cfg : Config} {s s' : Sys}

/-- A new task that finds the other kind idle. -/
theorem inv_start {t : Task} (h : Inv s) (hsound : Sound s.file t)
    (hexcl : t.reading = true → ∀ u ∈ s.tasks, u.writing = false)
    (hexcl' : t.writing = true → ∀ u ∈ s.tasks, u.reading = false) :
    Inv { s with tasks := s.tasks ++ [t] } where
  agrees := fun hnone => h.agrees fun u hu => hnone u (List.mem_append_left _ hu)
  sound := forall_mem_concat h.sound hsound
  exclusive := by
    refine forall_mem_concat (fun u hu hreading => ?_) (fun hreading => ?_)
    · apply forall_mem_concat (h.exclusive u hu hreading)
      by_contra hwriting
      rw [hexcl' (by simpa using hwriting) u hu] at hreading
      cases hreading
    · exact forall_mem_concat (hexcl hreading) (Task.not_writing_of_reading hreading)

/-- On a 64-bit target every distance from the window's start fits in `usize`. -/
theorem resume_sound_64 (hptr : cfg.ptr = 64) {offset len : Nat} (hoff : offset < 2 ^ 64)
    (hag : Window.Agrees s.file.bytes s.shared.state) {pc pc' : ReadPc} {inp : Input}
    {ra' : ReadAhead} (hinv : ReadAhead.ReadInv s.file.bytes offset len pc)
    (hin : ReadAhead.AnswerOk s.file.bytes offset len pc inp)
    (h : ReadAhead.resume cfg offset len s.shared pc inp = some (ra', pc')) :
    Window.Agrees s.file.bytes ra'.state ∧ ReadAhead.ReadInv s.file.bytes offset len pc' := by
  have hrange := hag.range
  refine ReadAhead.resume_sound s.file.bound hoff ?_ ?_ hag hinv hin h
  · intro _
    rw [hptr]
    omega
  · rw [hptr]
    omega

/-- A step of a read keeps the invariant. -/
theorem inv_resume (hptr : cfg.ptr = 64) (h : Inv s) {i offset len : Nat} {inp : Input}
    {pc pc' : ReadPc} {ra' : ReadAhead} {calls : List Nat}
    (htask : s.tasks[i]? = some (.read offset len pc))
    (hok : ReadAhead.AnswerOk s.file.bytes offset len pc inp)
    (hres : ReadAhead.resume cfg offset len s.shared pc inp = some (ra', pc')) :
    Inv ⟨s.file, ra', s.tasks.set i (.read offset len pc'), calls⟩ := by
  have hmem := List.mem_of_getElem? htask
  have hreading := reading_of_resume hres
  have hag := h.agrees_of_reading hmem hreading
  obtain ⟨hoff, hinv⟩ := (h.sound _ hmem).inv hreading
  obtain ⟨hag', hinv'⟩ := resume_sound_64 hptr hoff hag hinv hok hres
  refine ⟨fun _ => hag', forall_mem_set h.sound (sound_read hoff hinv'), ?_⟩
  intro t _ _
  exact forall_mem_set (h.exclusive _ hmem hreading) rfl

/-- `invalidate` leaves a window that says nothing, and a task that is over. -/
theorem inv_invalidate (h : Inv s) {i : Nat} {t : Task} (hreading : t.reading = false)
    (hwriting : t.writing = false) (hsound : Sound s.file t) :
    Inv { s with shared := s.shared.invalidate, tasks := s.tasks.set i t } := by
  refine ⟨fun _ => Window.agrees_empty _, forall_mem_set h.sound hsound, ?_⟩
  refine forall_mem_set (fun u hu hu' => ?_) (fun hr => by rw [hreading] at hr; cases hr)
  exact forall_mem_set (h.exclusive u hu hu') hwriting

/-- A write that lands finds no read in flight and owes its `invalidate`. -/
theorem inv_land (h : Inv s) {i n : Nat} {op : WriteOp} {F' : FileContent}
    (htask : s.tasks[i]? = some (.write op .inner)) :
    Inv { s with file := F', tasks := s.tasks.set i (.write op (.landed n)) } := by
  have hidle := h.not_reading (List.mem_of_getElem? htask) rfl
  refine ⟨fun hnone => ?_, ?_, ?_⟩
  · have hi : i < s.tasks.length := (List.getElem?_eq_some_iff.mp htask).1
    have hlanded := hnone (.write op (.landed n)) (List.mem_set hi _)
    cases hlanded
  · exact forall_mem_set (fun u hu => (h.sound u hu).of_not_reading (hidle u hu)) trivial
  · refine forall_mem_set (fun u hu hreading => ?_) (fun hreading => by cases hreading)
    rw [hidle u hu] at hreading
    cases hreading

/-- A write that fails leaves the file, and so everything known about it. -/
theorem inv_fail (h : Inv s) {i : Nat} {e : Error} {op : WriteOp}
    (htask : s.tasks[i]? = some (.write op .inner)) :
    Inv { s with tasks := s.tasks.set i (.write op (.done (.error e))) } := by
  refine ⟨fun hnone => h.agrees (forall_mem_of_set htask rfl hnone),
    forall_mem_set h.sound trivial, ?_⟩
  refine forall_mem_set (fun u hu hreading => ?_) (fun hreading => by cases hreading)
  exact forall_mem_set (h.exclusive u hu hreading) rfl

/-- **Step lemma.** A step without overlap keeps the invariant. -/
theorem inv_step (hptr : cfg.ptr = 64) {a : Action} (hex : Exclusive s a) (h : Inv s)
    (hstep : step cfg s a = some s') : Inv s' := by
  cases moved_of_step hstep with
  | @reads offset len hoff hlen =>
    exact inv_start h (sound_read hoff (ReadAhead.readAt_inv cfg _ offset len))
      (fun _ => hex) (fun hw => by cases hw)
  | writes => exact inv_start h trivial (fun hr => by cases hr) (fun _ => hex)
  | closes => exact inv_start h trivial (fun hr => by cases hr) (fun hw => by cases hw)
  | resumed htask hok hres => exact inv_resume hptr h htask hok hres
  | written => exact inv_invalidate h rfl rfl trivial
  | closed => exact inv_invalidate h rfl rfl trivial
  | landed htask => exact inv_land h htask
  | @failed i e F' op htask =>
    obtain rfl : F' = s.file := hex
    exact inv_fail h htask

/-- **Run lemma.** The invariant holds in every state of a run without overlap. -/
theorem inv_run (hptr : cfg.ptr = 64) (F : FileContent) {acts : List Action}
    (hex : AllSteps (step cfg) Exclusive (init F) acts)
    (hrun : run (step cfg) (init F) acts = some s) : Inv s :=
  run_invariant_of_allSteps (fun _ _ _ hok hI hs => inv_step hptr hok hI hs) hex
    (inv_init F) hrun

/-- **Transparency.** In every run without overlap, on a 64-bit target and with any window
    size, no `read_at` has panicked, and one that returns `Ok` in the run's last step gives a
    read the handle itself could have given: bytes of the file at the offset, and none for a
    non-empty buffer exactly at or past the end. -/
theorem readAt_transparent (cfg : Config) (hptr : cfg.ptr = 64) (F : FileContent)
    (acts : List Action) (a : Action) (s s' : Sys)
    (hex : AllSteps (step cfg) Exclusive (init F) (acts ++ [a]))
    (hrun : run (step cfg) (init F) acts = some s) (hlast : step cfg s a = some s') :
    (∀ i offset len p, ¬ s'.Returned i offset len (.error p)) ∧
    ∀ i offset len bs, s'.Returned i offset len (.ok (.ok bs)) →
      ¬ s.Returned i offset len (.ok (.ok bs)) → ShortRead s'.file.bytes offset len bs := by
  obtain ⟨hex₁, hex₂, -⟩ := (allSteps_append hrun).mp hex
  have hinv := inv_run hptr F hex₁ hrun
  have hinv' := inv_step hptr hex₂ hinv hlast
  refine ⟨fun i offset len p htask => hinv'.sound _ (List.mem_of_getElem? htask), ?_⟩
  intro i offset len bs htask hnew
  have hchanged : s.tasks[i]? ≠ s'.tasks[i]? := fun hsame => hnew (hsame.trans htask)
  rcases step_read hlast htask hchanged with
    ⟨-, -, -, hstart⟩ | ⟨hfile, inp, pc, ra', hold, hok, hres⟩
  · -- it returned before its first await
    have := ReadAhead.readAt_inv cfg s'.file.bytes offset len
    rw [← hstart] at this
    exact this
  · -- it returned from a lock section or with the handle's answer
    have hreading := reading_of_resume hres
    have hmem := List.mem_of_getElem? hold
    have hag := hinv.agrees_of_reading hmem hreading
    obtain ⟨hoff, hknown⟩ := (hinv.sound _ hmem).inv hreading
    rw [hfile]
    exact (resume_sound_64 hptr hoff hag hknown hok hres).2

/-- A fetch in two short reads: the window it published serves the caller's two bytes. -/
theorem readAt_transparent_window :
    let F : FileContent := ⟨[7, 8, 9], by decide⟩
    let acts : List Action := [.startRead 1 2, .resume 0 .lock, .resume 0 .lock,
      .resume 0 (.total 3), .resume 0 (.answer (.ok [7])), .resume 0 (.answer (.ok [8, 9])),
      .resume 0 .lock]
    let served : Sys := ⟨F, ⟨⟨[7, 8, 9], 0, false⟩, 2, 5⟩,
      [.read 1 2 (.done (.ok (.ok [8, 9])))], [3, 2]⟩
    run (step ⟨64, 4, by decide⟩) (init F) (acts ++ [.resume 0 .lock]) = some served ∧
      ShortRead F.bytes 1 2 [8, 9] := by
  intro F acts served
  let fetched : Sys := ⟨F, ⟨⟨[7, 8, 9], 0, false⟩, 2, 5⟩, [.read 1 2 .serve], [3, 2]⟩
  refine ⟨by decide, ?_⟩
  exact (readAt_transparent ⟨64, 4, by decide⟩ rfl F acts (.resume 0 .lock) fetched served
    (by decide) (by decide) (by decide)).2 0 1 2 [8, 9] rfl (by unfold Returned; decide)

end Sys

end Krystallos
