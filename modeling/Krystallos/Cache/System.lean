import Krystallos.Lib.Lts
import Krystallos.Cache.ReadAhead

namespace Krystallos

open Checked Slices

/-!
# Tasks over one `ReadAhead`

Any number of calls of `read_at`, `write_at`, `set_len` and `close` on one handle,
interleaved at their awaits and lock sections.  The wrapped handle reads the file within its
contract and may fail any call; a write that fails may have changed the file all the same.
The scheduler and the handle are the actions.
-/

/-- Where a call of `write_at` or `set_len` stands. -/
inductive WritePc
  /-- waiting for the wrapped handle -/
  | inner
  /-- the wrapped handle accepted `n` bytes; `invalidate` is still to come -/
  | landed (n : Nat)
  | done (r : Result Nat)
deriving DecidableEq

/-- A call in progress or finished. -/
inductive Task
  | read (offset len : Nat) (pc : ReadPc)
  | write (op : WriteOp) (pc : WritePc)
  | close (invalidated : Bool)
deriving DecidableEq

namespace Task

/-- A `read_at` that has not returned. -/
def reading : Task → Bool
  | .read _ _ (.done _) => false
  | .read _ _ _ => true
  | _ => false

/-- A `write_at` or `set_len` that has not returned. -/
def writing : Task → Bool
  | .write _ (.done _) => false
  | .write _ _ => true
  | _ => false

/-- A write that has changed the file but not yet dropped the window. -/
def pending : Task → Bool
  | .write _ (.landed _) => true
  | _ => false

/-- The window a read is about to publish. -/
def publishing : Task → Option Window
  | .read _ _ (.publish start buf hitEof) => some ⟨buf, start, hitEof⟩
  | _ => none

/-- A task that reads does not write. -/
theorem not_writing_of_reading {t : Task} (h : t.reading = true) : t.writing = false := by
  cases t with
  | read offset len pc => rfl
  | write op pc => cases h
  | close invalidated => cases h

/-- Only a task that writes has a change that is pending. -/
theorem writing_of_pending {t : Task} (h : t.pending = true) : t.writing = true := by
  match t with
  | .write _ (.landed _) => rfl

end Task

/-- The file after the wrapped handle accepted `n` bytes of a write, or truncated; `none`
    where it cannot have. -/
def WriteOp.apply (op : WriteOp) (F : FileContent) (n : Nat) : Option FileContent :=
  match op with
  | .writeAt offset data =>
    if h : n ≤ data.length ∧ (overwrite F.bytes offset (data.take n)).length < 2 ^ 64 then
      some ⟨overwrite F.bytes offset (data.take n), h.2⟩
    else none
  | .setLen len =>
    if h : (resize F.bytes len).length < 2 ^ 64 then some ⟨resize F.bytes len, h⟩ else none

/-- The file, the wrapper, the calls made on it so far, and the buffer lengths of the
    `read_at` calls the wrapped handle has received. -/
structure Sys where
  file : FileContent
  shared : ReadAhead
  tasks : List Task
  calls : List Nat
deriving DecidableEq

/-- What happens next. -/
inductive Action
  | startRead (offset len : Nat)
  | startWrite (op : WriteOp)
  | startClose
  /-- task `i`, a read, gets what it waits for -/
  | resume (i : Nat) (inp : Input)
  /-- task `i`, a write or a close, runs `invalidate` -/
  | invalidate (i : Nat)
  /-- the wrapped handle accepts `n` bytes of the write of task `i` -/
  | land (i n : Nat)
  /-- the wrapped handle fails the write of task `i`, leaving the file as given -/
  | fail (i : Nat) (e : Error) (file : FileContent)

instance (F : List UInt8) (offset len : Nat) (pc : ReadPc) (inp : Input) :
    Decidable (ReadAhead.AnswerOk F offset len pc inp) :=
  match inp with
  | .lock => isTrue trivial
  | .total _ => isTrue trivial
  | .answer (.error _) => isTrue trivial
  | .answer (.ok bs) =>
    match h : ReadAhead.request offset len pc with
    | none => isTrue fun _ _ hreq => by rw [h] at hreq; cases hreq
    | some (pos, n) =>
      decidable_of_iff (ShortRead F pos n bs)
        ⟨fun hread pos' n' hreq => by rw [h] at hreq; cases hreq; exact hread,
         fun hok => hok pos n h⟩

namespace Sys

/-- A fresh wrapper around a handle on `F`. -/
def init (F : FileContent) : Sys := ⟨F, ReadAhead.init, [], []⟩

/-- The handle's log after a call at `pc` was resumed. -/
def logCall (s : Sys) (offset len : Nat) (pc : ReadPc) : Input → List Nat
  | .answer _ => s.calls ++ ((ReadAhead.request offset len pc).map Prod.snd).toList
  | _ => s.calls

/-- One step of the system. -/
def step (cfg : Config) (s : Sys) : Action → Option Sys
  | .startRead offset len =>
    if offset < 2 ^ 64 ∧ len < 2 ^ cfg.ptr then
      some { s with tasks := s.tasks ++ [.read offset len (ReadAhead.readAt cfg len)] }
    else none
  | .startWrite op => some { s with tasks := s.tasks ++ [.write op .inner] }
  | .startClose => some { s with tasks := s.tasks ++ [.close false] }
  | .resume i inp =>
    match s.tasks[i]? with
    | some (.read offset len pc) =>
      if ReadAhead.AnswerOk s.file.bytes offset len pc inp then
        (ReadAhead.resume cfg offset len s.shared pc inp).map fun r =>
          { s with shared := r.1, tasks := s.tasks.set i (.read offset len r.2),
                   calls := s.logCall offset len pc inp }
      else none
    | _ => none
  | .invalidate i =>
    match s.tasks[i]? with
    | some (.write op (.landed n)) =>
      some { s with shared := s.shared.invalidate,
                    tasks := s.tasks.set i (.write op (.done (.ok n))) }
    | some (.close false) =>
      some { s with shared := s.shared.invalidate, tasks := s.tasks.set i (.close true) }
    | _ => none
  | .land i n =>
    match s.tasks[i]? with
    | some (.write op .inner) =>
      (op.apply s.file n).map fun F =>
        { s with file := F, tasks := s.tasks.set i (.write op (.landed n)) }
    | _ => none
  | .fail i e F =>
    match s.tasks[i]? with
    | some (.write op .inner) =>
      some { s with file := F, tasks := s.tasks.set i (.write op (.done (.error e))) }
    | _ => none

/-- Task `i` is a `read_at` of `len` bytes at `offset` that has ended with `r`. -/
def Returned (s : Sys) (i offset len : Nat) (r : Outcome (List UInt8)) : Prop :=
  s.tasks[i]? = some (Task.read offset len (.done r))

/-! ### What each kind of step does -/

/-- What each action does, where it can be taken. -/
inductive Moved (cfg : Config) (s : Sys) : Action → Sys → Prop
  | reads {offset len : Nat} (hoff : offset < 2 ^ 64) (hlen : len < 2 ^ cfg.ptr) :
    Moved cfg s (.startRead offset len)
      { s with tasks := s.tasks ++ [.read offset len (ReadAhead.readAt cfg len)] }
  | writes {op : WriteOp} :
    Moved cfg s (.startWrite op) { s with tasks := s.tasks ++ [.write op .inner] }
  | closes : Moved cfg s .startClose { s with tasks := s.tasks ++ [.close false] }
  /-- a read goes on: the call it belongs to, the handle's contract, and where it stands next -/
  | resumed {i : Nat} {inp : Input} {offset len : Nat} {pc pc' : ReadPc} {ra' : ReadAhead}
      (htask : s.tasks[i]? = some (.read offset len pc))
      (hok : ReadAhead.AnswerOk s.file.bytes offset len pc inp)
      (hres : ReadAhead.resume cfg offset len s.shared pc inp = some (ra', pc')) :
    Moved cfg s (.resume i inp)
      { s with shared := ra', tasks := s.tasks.set i (.read offset len pc'),
               calls := s.logCall offset len pc inp }
  /-- a write that has landed drops the window and returns -/
  | written {i n : Nat} {op : WriteOp} (htask : s.tasks[i]? = some (.write op (.landed n))) :
    Moved cfg s (.invalidate i)
      { s with shared := s.shared.invalidate,
               tasks := s.tasks.set i (.write op (.done (.ok n))) }
  /-- a close drops the window -/
  | closed {i : Nat} (htask : s.tasks[i]? = some (.close false)) :
    Moved cfg s (.invalidate i)
      { s with shared := s.shared.invalidate, tasks := s.tasks.set i (.close true) }
  /-- a write that lands changes the file and owes an `invalidate` -/
  | landed {i n : Nat} {op : WriteOp} {F' : FileContent}
      (htask : s.tasks[i]? = some (.write op .inner)) (hF' : op.apply s.file n = some F') :
    Moved cfg s (.land i n) { s with file := F', tasks := s.tasks.set i (.write op (.landed n)) }
  /-- a write that fails returns at once, without an `invalidate` -/
  | failed {i : Nat} {e : Error} {F' : FileContent} {op : WriteOp}
      (htask : s.tasks[i]? = some (.write op .inner)) :
    Moved cfg s (.fail i e F')
      { s with file := F', tasks := s.tasks.set i (.write op (.done (.error e))) }

variable {cfg : Config} {s s' : Sys} {a : Action}

/-- **Every step** is one of the moves. -/
theorem moved_of_step (h : step cfg s a = some s') : Moved cfg s a s' := by
  cases a with
  | startRead offset len =>
    simp only [step] at h
    split at h
    · next hfits =>
      cases h
      exact .reads hfits.1 hfits.2
    · cases h
  | startWrite op =>
    cases h
    exact .writes
  | startClose =>
    cases h
    exact .closes
  | resume i inp =>
    simp only [step] at h
    split at h
    · next offset len pc htask =>
      split at h
      · next hok =>
        obtain ⟨⟨ra', pc'⟩, hres, rfl⟩ := Option.map_eq_some_iff.mp h
        exact .resumed htask hok hres
      · cases h
    · cases h
  | invalidate i =>
    simp only [step] at h
    split at h
    · next op n htask =>
      cases h
      exact .written htask
    · next htask =>
      cases h
      exact .closed htask
    · cases h
  | land i n =>
    simp only [step] at h
    split at h
    · next op htask =>
      obtain ⟨F', hF', rfl⟩ := Option.map_eq_some_iff.mp h
      exact .landed htask hF'
    · cases h
  | fail i e F' =>
    simp only [step] at h
    split at h
    · next op htask =>
      cases h
      exact .failed htask
    · cases h

/-- Only a call in flight is resumed. -/
theorem reading_of_resume {offset len : Nat} {ra ra' : ReadAhead} {pc pc' : ReadPc}
    {inp : Input} (h : ReadAhead.resume cfg offset len ra pc inp = some (ra', pc')) :
    (Task.read offset len pc).reading = true := by
  cases pc with
  | done r => cases inp <;> simp [ReadAhead.resume] at h
  | _ => rfl

/-- How a task comes to be a read that stands at `pc'`: it just started, or it was resumed.
    Neither changes the file. -/
theorem step_read (h : step cfg s a = some s') {i offset len : Nat}
    {pc' : ReadPc} (htask : s'.tasks[i]? = some (.read offset len pc'))
    (hnew : s.tasks[i]? ≠ s'.tasks[i]?) :
    a = .startRead offset len ∧ s'.file = s.file ∧ offset < 2 ^ 64 ∧
        pc' = ReadAhead.readAt cfg len ∨
      s'.file = s.file ∧ ∃ inp pc ra', s.tasks[i]? = some (.read offset len pc) ∧
        ReadAhead.AnswerOk s.file.bytes offset len pc inp ∧
        ReadAhead.resume cfg offset len s.shared pc inp = some (ra', pc') := by
  -- the task at `i` after one was appended, or after one was replaced
  have hconcat : ∀ t, s'.tasks = s.tasks ++ [t] → t = .read offset len pc' := by
    intro t ht
    rw [ht] at htask hnew
    rcases Lts.getElem?_concat_cases htask with hold | ⟨-, heq⟩
    · exact absurd (hold.trans htask.symm) hnew
    · exact heq.symm
  have hset : ∀ j t, s'.tasks = s.tasks.set j t → j = i ∧ t = .read offset len pc' := by
    intro j t ht
    rw [ht] at htask hnew
    rcases Lts.getElem?_set_cases htask with ⟨hij, heq⟩ | ⟨-, hold⟩
    · exact ⟨hij, heq.symm⟩
    · exact absurd (hold.trans htask.symm) hnew
  cases moved_of_step h with
  | reads hoff hlen =>
    cases hconcat _ rfl
    exact .inl ⟨rfl, rfl, hoff, rfl⟩
  | writes => cases hconcat _ rfl
  | closes => cases hconcat _ rfl
  | resumed hold hok hres =>
    obtain ⟨rfl, hread⟩ := hset _ _ rfl
    cases hread
    exact .inr ⟨rfl, _, _, _, hold, hok, hres⟩
  | written => cases (hset _ _ rfl).2
  | closed => cases (hset _ _ rfl).2
  | landed => cases (hset _ _ rfl).2
  | failed => cases (hset _ _ rfl).2

/-- **What the later reads are known to be**, those from number `n` on: every step keeps it, if a
    read that starts is so and one that goes on stays so. -/
theorem later_step {R : Nat → Nat → ReadPc → Prop} {n : Nat} (hstep : step cfg s a = some s')
    (hstart : ∀ offset len, a = .startRead offset len → offset < 2 ^ 64 →
      R offset len (ReadAhead.readAt cfg len))
    (hresume : ∀ (i offset len : Nat) inp pc ra' pc',
      s.tasks[i]? = some (Task.read offset len pc) → R offset len pc →
      ReadAhead.AnswerOk s.file.bytes offset len pc inp →
      ReadAhead.resume cfg offset len s.shared pc inp = some (ra', pc') → R offset len pc')
    (h : ∀ i offset len pc, n ≤ i → s.tasks[i]? = some (Task.read offset len pc) →
      R offset len pc) :
    ∀ i offset len pc, n ≤ i → s'.tasks[i]? = some (Task.read offset len pc) →
      R offset len pc := by
  intro i offset len pc' hi htask
  by_cases hsame : s.tasks[i]? = s'.tasks[i]?
  · rw [← hsame] at htask
    exact h i offset len pc' hi htask
  rcases step_read hstep htask hsame with
    ⟨hact, -, hoff, rfl⟩ | ⟨-, inp, pc, ra', hold, hans, hres⟩
  · exact hstart offset len hact hoff
  · exact hresume i offset len inp pc ra' pc' hold (h i offset len pc hi hold) hans hres

/-- **What a window and the tasks are known to be**, each for itself, every step keeps, if a read
    that starts is so and one that goes on stays so, and if a window that is published is. -/
theorem keeps_step {P : Window → Prop} {Q : Task → Prop} (hempty : P Window.empty)
    (hwrite : ∀ op pc, Q (.write op pc)) (hclose : ∀ dropped, Q (.close dropped))
    (hstart : ∀ offset len, offset < 2 ^ 64 → Q (.read offset len (ReadAhead.readAt cfg len)))
    (hresume : ∀ i inp offset len pc ra' pc', a = .resume i inp →
      s.tasks[i]? = some (.read offset len pc) → Q (.read offset len pc) →
      ReadAhead.AnswerOk s.file.bytes offset len pc inp →
      ReadAhead.resume cfg offset len s.shared pc inp = some (ra', pc') →
      Q (.read offset len pc'))
    (hpublish : ∀ offset len start buf hitEof,
      Q (.read offset len (.publish start buf hitEof)) → P ⟨buf, start, hitEof⟩)
    (hwindow : P s.shared.state) (htasks : ∀ t ∈ s.tasks, Q t)
    (hstep : step cfg s a = some s') : P s'.shared.state ∧ ∀ t ∈ s'.tasks, Q t := by
  cases moved_of_step hstep with
  | reads hoff hlen => exact ⟨hwindow, Lts.forall_mem_concat htasks (hstart _ _ hoff)⟩
  | writes => exact ⟨hwindow, Lts.forall_mem_concat htasks (hwrite _ _)⟩
  | closes => exact ⟨hwindow, Lts.forall_mem_concat htasks (hclose _)⟩
  | resumed htask hok hres =>
    have hpc := htasks _ (List.mem_of_getElem? htask)
    refine ⟨?_, Lts.forall_mem_set htasks (hresume _ _ _ _ _ _ _ rfl htask hpc hok hres)⟩
    -- the window is what it was, or what this read publishes
    rcases ReadAhead.resume_window hres with hsame | ⟨start, buf, hitEof, rfl, -, hpub⟩
    · show P (ReadAhead.state _)
      rw [hsame]
      exact hwindow
    · show P (ReadAhead.state _)
      rw [hpub]
      exact hpublish _ _ _ _ _ hpc
  | written => exact ⟨hempty, Lts.forall_mem_set htasks (hwrite _ _)⟩
  | closed => exact ⟨hempty, Lts.forall_mem_set htasks (hclose _)⟩
  | landed => exact ⟨hwindow, Lts.forall_mem_set htasks (hwrite _ _)⟩
  | failed => exact ⟨hwindow, Lts.forall_mem_set htasks (hwrite _ _)⟩

/-! ### How large a window gets -/

/-- A read in flight holds no more than a window. -/
def ReadBounded (cfg : Config) : Task → Prop
  | .read _ _ pc => ReadAhead.Bounded cfg pc
  | _ => True

/-- No buffer is larger than the window size. -/
structure Sized (cfg : Config) (s : Sys) : Prop where
  window : s.shared.state.data.length ≤ cfg.windowSize
  reads : ∀ t ∈ s.tasks, ReadBounded cfg t

theorem sized_init (cfg : Config) (F : FileContent) : Sized cfg (init F) where
  window := Nat.zero_le _
  reads := by simp [init]

/-- Every step keeps the buffers within the window size, overlapping writes or not. -/
theorem sized_step (h : Sized cfg s) (hstep : step cfg s a = some s') : Sized cfg s' := by
  have hstart : ∀ len, ReadAhead.Bounded cfg (ReadAhead.readAt cfg len) := by
    intro len
    unfold ReadAhead.readAt
    split
    · trivial
    · split <;> trivial
  obtain ⟨hwindow, hreads⟩ :=
    keeps_step (P := fun w => w.data.length ≤ cfg.windowSize) (Q := ReadBounded cfg)
      (Nat.zero_le _) (fun _ _ => trivial) (fun _ => trivial) (fun _ len _ => hstart len)
      (fun _ _ _ _ _ _ _ _ _ hpc hok hres => ReadAhead.resume_bounded hpc hok hres)
      (fun _ _ _ _ _ hpc => hpc) h.window h.reads hstep
  exact ⟨hwindow, hreads⟩

/-- In every reachable state the buffers are within the window size. -/
theorem sized_run {F : FileContent} {acts : List Action}
    (hrun : Lts.run (step cfg) (init F) acts = some s) : Sized cfg s :=
  Lts.run_invariant (fun _ _ _ hI hs => sized_step hI hs) (sized_init cfg F) hrun

end Sys

end Krystallos
