import Krystallos.Smb.Shutdown

namespace Krystallos.Smb

open Lts Prog

/-!
# `SmbBackend`

The backend as a caller uses it who awaits every call before making the next: each call is a
run of the session, scheduled by `Sys.nextAction`.
-/

variable {W α : Type}

namespace Sys

/-- An action of the session. Where it is not enabled the program goes no further. -/
def act (lib : Libsmb2 W) (limits : Limits) (a : Action) : Prog Error (Sys W) Unit := fun s =>
  match step lib limits s a with
  | some s' => .ok (.ok (), s')
  | none => .error (.fuel, s)

/-- What happens next while task `i` is awaited and nothing else goes on. -/
def nextAction (fuel i : Nat) (s : Sys W) : Action :=
  match s.tasks[i]?, s.phase with
  | some ⟨_, .ready⟩, _ => .send i
  | some ⟨_, .waiting⟩, _ => .serve fuel
  | some ⟨_, .joining⟩, .leaving => .teardown
  | some ⟨_, .joining⟩, .down => .exit
  | _, _ => .wake i

/-- One turn: the task is done, or the session goes on. -/
def awaitTurn (lib : Libsmb2 W) (limits : Limits) (fuel i : Nat) :
    Prog Error (Sys W) (Turn Unit Answer) := do
  let s ← current
  match s.tasks[i]? with
  | some ⟨_, .done r⟩ => do
    let answer ← ofExcept r
    pure (.leave answer)
  | _ => do
    act lib limits (nextAction fuel i s)
    pure (.again ())

/-- Await task `i`. -/
def await (lib : Libsmb2 W) (limits : Limits) (fuel i turns : Nat) : Prog Error (Sys W) Answer :=
  iterate turns (fun _ => awaitTurn lib limits fuel i) ()

/-- Start a call and await it. A shutdown takes the most turns: it sends, is served, wakes to
    take the join handle, waits for the thread's last two steps, and wakes again. -/
def perform (lib : Libsmb2 W) (limits : Limits) (fuel : Nat) (a : Action) :
    Prog Error (Sys W) Answer := do
  let s ← current
  act lib limits a
  await lib limits fuel s.tasks.length 7

end Sys

/-- The part of an answer that a call returns. -/
def expect (f : Answer → Option α) (m : Prog Error (Sys W) Answer) : Prog Error (Sys W) α := do
  let answer ← m
  match f answer with
  | some a => pure a
  | none => fun s => .error (.fuel, s)

section Files

variable (lib : Libsmb2 W) (limits : Limits) (fuel f : Nat)

/-- The `RemoteFile` with index `f`, as the `FileHandle` it is. -/
def fileHandle : FileHandle (Sys W) where
  readAt offset len := expect (fun | .bytes data => some data | _ => none)
    (Sys.perform lib limits fuel (.fileCall f (.readAt offset len)))
  writeAt offset buf := expect (fun | .written n => some n | _ => none)
    (Sys.perform lib limits fuel (.fileCall f (.writeAt offset buf)))
  setLen len := do let _ ← Sys.perform lib limits fuel (.fileCall f (.setLen len))
  flush := do let _ ← Sys.perform lib limits fuel (.fileCall f .flush)
  close := do let _ ← Sys.perform lib limits fuel (.close f)
  len s := (s.files[f]?).elim 0 Opened.len

end Files

section Backend

variable (lib : Libsmb2 W) (limits : Limits) (fuel : Nat)

/-- A method of `Session` on paths. -/
def request (req : Request) : Prog Error (Sys W) Answer := Sys.perform lib limits fuel (.call req)

/-- `Session::open`: the file is the next one. -/
def openRemote (path : VfsPath) (mode : OpenMode) : Prog Error (Sys W) (FileHandle (Sys W)) := do
  let s ← current
  expect (fun | .opened _ _ => some (fileHandle lib limits fuel s.files.length) | _ => none)
    (request lib limits fuel (.openFile path mode))

/-- `SmbBackend`. -/
def backend : TreeBackend (Sys W) where
  list path := expect (fun | .entries entries => some entries | _ => none)
    (request lib limits fuel (.list path))
  stat path := expect (fun | .metadata md => some md | _ => none)
    (request lib limits fuel (.stat path))
  openFile path mode := openRemote lib limits fuel path mode
  removeFile path := do let _ ← request lib limits fuel (.removeFile path)
  removeDir path := do let _ ← request lib limits fuel (.removeDir path)
  rename fromPath toPath := do let _ ← request lib limits fuel (.rename fromPath toPath)
  copy fromPath toPath := expect (fun | .copied n => some n | _ => none)
    (request lib limits fuel (.copy fromPath toPath))
  mkdir path := do let _ ← request lib limits fuel (.mkdir path)
  shutdown := do let _ ← Sys.perform lib limits fuel .shutdown

end Backend

/-! ### What a call that is awaited does to the files -/

/-- What says whether a file can be used. -/
def Opened.traits (o : Opened) : Bool × Life := (o.closed, o.life)

/-- A change to a file that leaves its traits alone. -/
theorem traits_modify (files : List Opened) (f : Nat) {g : Opened → Opened}
    (hg : ∀ o, (g o).traits = o.traits) :
    (files.modify f g).map Opened.traits = files.map Opened.traits := by
  refine List.ext_getElem? fun j => ?_
  rw [List.getElem?_map, List.getElem?_map, List.getElem?_modify]
  cases files[j]? with
  | none => rfl
  | some o =>
    by_cases hfj : f = j
    · simp [hfj, hg]
    · simp [hfj]

/-- The actions taken while task `i` is awaited. -/
def Action.Awaits (i : Nat) : Action → Prop
  | .send j | .wake j => j = i
  | .serve _ | .teardown | .exit => True
  | _ => False

namespace Sys

variable {lib : Libsmb2 W} {limits : Limits} {fuel : Nat} {s s' : Sys W} {flags : List Bool}
  {files files' : List Opened} {tasks tasks' : List Task} {i : Nat} {kind : CallKind} {pc : Pc}

/-- The files are all in the hands of their caller, closed as `flags` says, and none is being
    dropped. -/
structure Plain (flags : List Bool) (files : List Opened) (tasks : List Task) : Prop where
  files : files.map Opened.traits = flags.map (·, Life.owned)
  awaited : ∀ (j f : Nat), kindAt tasks j ≠ some (.drop f)

/-- Only the kinds of the tasks count. -/
theorem Plain.setTasks (h : Plain flags files tasks) (hk : ∀ j, kindAt tasks' j = kindAt tasks j) :
    Plain flags files tasks' := ⟨h.files, fun j f => by rw [hk]; exact h.awaited j f⟩

/-- No task drops a file. -/
theorem Plain.ne_drop (h : Plain flags files tasks) (hi : tasks[i]? = some ⟨kind, pc⟩) (f : Nat) :
    kind ≠ .drop f := by
  rintro rfl
  exact h.awaited i f (by rw [kindAt, hi]; rfl)

/-- A file of the list. -/
theorem Plain.getElem? (h : Plain flags files tasks) (f : Nat) :
    (files[f]?).map Opened.traits = (flags[f]?).map (·, Life.owned) := by
  rw [← List.getElem?_map, h.files, List.getElem?_map]

/-- There is a flag for each file. -/
theorem Plain.length (h : Plain flags files tasks) : flags.length = files.length := by
  simpa using congrArg List.length h.files.symm

/-- The file that a call has added once it is done. -/
def gained : CallKind → Pc → List Bool
  | .session (.openFile _ _), .done (.ok (.opened _ _)) => [false]
  | _, _ => []

/-- A call that has not returned has brought no file. -/
theorem gained_of_ne_done (h : ∀ r, pc ≠ .done r) : gained kind pc = [] := by
  unfold gained
  split
  · exact absurd rfl (h _)
  · rfl

theorem gained_unit (kind : CallKind) : gained kind (.done (.ok .unit)) = [] := by
  unfold gained
  split
  · next heq => cases heq
  · rfl

/-- Nor has one that failed. -/
theorem gained_error (kind : CallKind) (e : Error) : gained kind (.done (.error e)) = [] := by
  unfold gained
  split
  · next heq => cases heq
  · rfl

/-- A command that was sent changes no file, unless it is a drop. -/
theorem traits_afterSend (h : ∀ f, kind ≠ .drop f) (files : List Opened) :
    (kind.afterSend files).map Opened.traits = files.map Opened.traits := by
  cases kind with
  | drop f => exact absurd rfl (h f)
  | close f => exact traits_modify _ _ fun _ => rfl
  | _ => rfl

/-- What a call receives adds the file it opened, and changes none. -/
theorem traits_received (kind : CallKind) (r : Result Answer) :
    (s.received limits kind r).2.map Opened.traits
      = (s.files.map Opened.traits) ++ (gained kind (s.received limits kind r).1).map (·, Life.owned)
    := by
  unfold received
  split
  · simp [opened, Opened.traits, gained]
  · next f call answer =>
    split
    · simp only [gained, List.map_nil, List.append_nil]
      exact traits_modify _ _ fun _ => rfl
    · simp [gained]
    · simp [gained]
  · next hopen hfile =>
    have hnone : gained kind (.done r) = [] := by
      unfold gained
      split
      · next heq =>
        cases heq
        exact absurd rfl (hopen _ _ _ _ rfl)
      · rfl
    simp [hnone]

/-- Task `i` is in progress or done, and the files are as they were but for the one that it
    has added. -/
def Waited (flags : List Bool) (i : Nat) (kind : CallKind) (s : Sys W) : Prop :=
  ∃ pc, s.tasks[i]? = some ⟨kind, pc⟩ ∧ Plain (flags ++ gained kind pc) s.files s.tasks

/-- The actions that take a call on are its own or the thread's. -/
theorem awaits_nextAction (fuel i : Nat) (s : Sys W) : (nextAction fuel i s).Awaits i := by
  unfold nextAction
  split <;> trivial

/-- **Step lemma.** -/
theorem waited_step {a : Action} (h : Waited flags i kind s)
    (hdone : ∀ r, s.tasks[i]? ≠ some ⟨kind, .done r⟩) (ha : a.Awaits i)
    (hstep : step lib limits s a = some s') : Waited flags i kind s' := by
  obtain ⟨pc, hi, hp⟩ := h
  have hnot : ∀ r, pc ≠ .done r := fun r hpc => hdone r (by rw [hi, hpc])
  rw [gained_of_ne_done hnot, List.append_nil] at hp
  have hkind : kindAt s.tasks i = some kind := by rw [kindAt, hi]; rfl
  have hlt : i < s.tasks.length := (List.getElem?_eq_some_iff.mp hi).1
  have hown : ∀ {kind' : CallKind} {pc' : Pc}, s.tasks[i]? = some ⟨kind', pc'⟩ →
      kind = kind' := by
    intro kind' pc' htask
    exact congrArg Task.kind (Option.some.inj (hi.symm.trans htask))
  -- the task moves on by itself
  have hset : ∀ (pc' : Pc) {files' : List Opened},
      files'.map Opened.traits = s.files.map Opened.traits ++ (gained kind pc').map (·, .owned) →
      ∃ pc'', (s.tasks.set i ⟨kind, pc'⟩)[i]? = some ⟨kind, pc''⟩ ∧
        Plain (flags ++ gained kind pc'') files' (s.tasks.set i ⟨kind, pc'⟩) := by
    intro pc' files' hfiles
    refine ⟨_, List.getElem?_set_self hlt, ?_, fun j f => ?_⟩
    · rw [hfiles, hp.files, List.map_append]
    · rw [kindAt_set hi]
      exact hp.awaited j f
  have hidle : ∀ (pc' : Pc) {files' : List Opened}, gained kind pc' = [] →
      files'.map Opened.traits = s.files.map Opened.traits →
      ∃ pc'', (s.tasks.set i ⟨kind, pc'⟩)[i]? = some ⟨kind, pc''⟩ ∧
        Plain (flags ++ gained kind pc'') files' (s.tasks.set i ⟨kind, pc'⟩) :=
    fun pc' _ hg hf => hset pc' (by rw [hf, hg, List.map_nil, List.append_nil])
  -- the thread does something, and the task may learn of it
  have hmoved : ∀ {tasks' : List Task}, (∀ j, kindAt tasks' j = kindAt s.tasks j) →
      (∀ t, tasks'[i]? = some t → gained kind t.pc = []) →
      ∃ pc', tasks'[i]? = some ⟨kind, pc'⟩ ∧ Plain (flags ++ gained kind pc') s.files tasks' := by
    intro tasks' hk hpc
    obtain ⟨⟨kind', pc'⟩, ht, rfl⟩ := Option.map_eq_some_iff.mp ((hk i).trans hkind)
    refine ⟨pc', ht, ?_⟩
    rw [hpc _ ht, List.append_nil]
    exact hp.setTasks hk
  -- nothing happens to the task
  have hsame : ∀ t, s.tasks[i]? = some t → gained kind t.pc = [] := by
    rintro ⟨kind', pc'⟩ ht
    obtain ⟨rfl, rfl⟩ : kind = kind' ∧ pc = pc' := by simpa [hi] using ht
    exact gained_of_ne_done hnot
  have hsettle : ∀ (reply : Option Nat) (r : Result Answer) (t : Task),
      (settle s.tasks reply (.delivered r))[i]? = some t → gained kind t.pc = [] := by
    intro reply r t ht
    obtain ⟨u, hu, ⟨rfl, -⟩ | ⟨-, -, rfl⟩⟩ := getElem?_settle ht
    · exact hsame _ hu
    · exact gained_of_ne_done (by simp)
  cases moved_of_step hstep with
  | call | shutdown | fileCall | close | dropClosed | dropOpen | abandon | letGo | hangUp =>
    exact ha.elim
  | @enqueue j kind' cmd htask hup hcmd =>
    obtain rfl : j = i := ha
    obtain rfl : kind = kind' := hown htask
    refine hidle _ ?_ (traits_afterSend (hp.ne_drop hi) _)
    split
    · exact gained_of_ne_done (by simp)
    · exact gained_unit _
  | @refuse j kind' htask hexited =>
    obtain rfl : j = i := ha
    obtain rfl : kind = kind' := hown htask
    cases kind with
    | shutdown => exact hidle _ (by split <;> rfl) rfl
    | drop f => exact absurd rfl (hp.ne_drop hi f)
    | session | file | close =>
      exact hidle _ (gained_error _ _) (traits_afterSend (hp.ne_drop hi) _)
  | @takeJoin j pc' htask hpc =>
    obtain rfl : j = i := ha
    obtain rfl : kind = .shutdown := hown htask
    exact hidle _ (by split <;> rfl) rfl
  | @joined j kind' htask hexited =>
    obtain rfl : j = i := ha
    obtain rfl : kind = kind' := hown htask
    exact hidle _ (gained_unit _) rfl
  | @received j kind' r htask hkind' =>
    obtain rfl : j = i := ha
    obtain rfl : kind = kind' := hown htask
    exact hset _ (traits_received kind r)
  | @disconnected j kind' htask hkind' =>
    obtain rfl : j = i := ha
    obtain rfl : kind = kind' := hown htask
    exact hidle _ (gained_error _ _) rfl
  | ran => exact hmoved (kindAt_settle _ _ _) (hsettle _ _)
  | stopped => exact hmoved (kindAt_settle _ (some _) _) (hsettle (some _) _)
  | teardown => exact hmoved (fun _ => rfl) hsame
  | exit =>
    refine hmoved (kindAt_settle_all _ _) fun t ht => ?_
    obtain ⟨u, hu, ⟨rfl, -⟩ | ⟨-, rfl⟩⟩ := getElem?_settle_all ht
    · exact hsame _ hu
    · exact gained_of_ne_done (by simp)

/-! ### What a call ends with -/

/-- A task that is awaited ends done, with `P` kept and its file added. -/
def donePost (P : Sys W → Prop) (flags : List Bool) (i : Nat) (kind : CallKind) :
    Post Error (Sys W) Answer where
  ret := fun answer s => P s ∧ s.tasks[i]? = some ⟨kind, .done (.ok answer)⟩ ∧
    Plain (flags ++ gained kind (.done (.ok answer))) s.files s.tasks
  fail := fun e s => P s ∧ s.tasks[i]? = some ⟨kind, .done (.error e)⟩ ∧
    Plain flags s.files s.tasks
  stop := fun _ => True

variable {P : Sys W → Prop}

/-- One action. -/
theorem wp_act {a : Action} {p : Post Error (Sys W) Unit} (hstop : p.stop .fuel)
    (hstep : ∀ s', step lib limits s a = some s' → p.ret () s') : wp (act lib limits a) p s := by
  unfold wp act
  rcases hs : step lib limits s a with _ | s'
  · exact hstop
  · exact hstep s' hs

/-- **Run lemma**, for `P` that every step of the session keeps. -/
theorem wp_await (hP : ∀ u a u', P u → step lib limits u a = some u' → P u') (hs : P s)
    (h : Waited flags i kind s) (turns : Nat) :
    wp (await lib limits fuel i turns) (donePost P flags i kind) s := by
  refine wp_iterate_partial (fun _ u => P u ∧ Waited flags i kind u) trivial ?_ turns ⟨hs, h⟩
  rintro - u ⟨hPu, hu⟩
  obtain ⟨pc, hi, hp⟩ := id hu
  have hgo : (∀ r, u.tasks[i]? ≠ some ⟨kind, .done r⟩) →
      wp (do act lib limits (nextAction fuel i u); pure (.again ()))
        (keepPost (fun _ u => P u ∧ Waited flags i kind u) (donePost P flags i kind)) u := by
    intro hdone
    rw [wp_bind]
    exact wp_act trivial fun u' hstep =>
      ⟨hP u _ u' hPu hstep, waited_step hu hdone (awaits_nextAction fuel i u) hstep⟩
  simp only [awaitTurn, wp_bind, wp_current, hi]
  cases pc with
  | done r =>
    cases r with
    | ok answer => exact ⟨hPu, hi, hp⟩
    | error e =>
      rw [gained_error, List.append_nil] at hp
      exact ⟨hPu, hi, hp⟩
  | _ => exact hgo (by simp [hi])

/-- A call that starts as a task, and is awaited. -/
theorem wp_perform (hP : ∀ u a u', P u → step lib limits u a = some u' → P u') (hs : P s)
    {a : Action} (hstart : ∀ u, step lib limits s a = some u → Waited flags s.tasks.length kind u) :
    wp (perform lib limits fuel a) (donePost P flags s.tasks.length kind) s := by
  simp only [perform, wp_bind, wp_current]
  exact wp_act trivial fun u hstep => wp_await hP (hP s a u hs hstep) (hstart u hstep) 7

/-- A new task. -/
theorem Plain.spawn (h : Plain flags files s.tasks) (hg : gained kind pc = [])
    (hdrop : ∀ f, kind ≠ .drop f) :
    ∃ pc', (s.spawn kind pc).tasks[s.tasks.length]? = some ⟨kind, pc'⟩ ∧
      Plain (flags ++ gained kind pc') files (s.spawn kind pc).tasks := by
  refine ⟨pc, List.getElem?_concat_length, ?_⟩
  rw [hg, List.append_nil]
  refine ⟨h.files, fun j f hj => ?_⟩
  obtain ⟨t, ht, hkind⟩ := Option.map_eq_some_iff.mp hj
  rcases Lts.getElem?_concat_cases ht with hold | ⟨-, rfl⟩
  · exact h.awaited j f (by rw [kindAt, hold, Option.map_some, hkind])
  · exact hdrop f hkind

/-- **A method of the session.** -/
theorem wp_request (hP : ∀ u a u', P u → step lib limits u a = some u' → P u') (hs : P s)
    (hp : Plain flags s.files s.tasks) (req : Request) :
    wp (request lib limits fuel req) (donePost P flags s.tasks.length (.session req)) s := by
  refine wp_perform hP hs fun u hstep => ?_
  cases moved_of_step hstep with
  | call => exact hp.spawn (gained_of_ne_done nofun) nofun

/-- **The shutdown.** -/
theorem wp_shutdown (hP : ∀ u a u', P u → step lib limits u a = some u' → P u') (hs : P s)
    (hp : Plain flags s.files s.tasks) :
    wp (perform lib limits fuel .shutdown) (donePost P flags s.tasks.length .shutdown) s := by
  refine wp_perform hP hs fun u hstep => ?_
  cases moved_of_step hstep with
  | shutdown => exact hp.spawn (gained_of_ne_done nofun) nofun

/-- **A method of a file.** -/
theorem wp_fileCall (hP : ∀ u a u', P u → step lib limits u a = some u' → P u') (hs : P s)
    (hp : Plain flags s.files s.tasks) (f : Nat) (call : FileCall) :
    wp (perform lib limits fuel (.fileCall f call))
      (donePost P flags s.tasks.length (.file f call)) s := by
  refine wp_perform hP hs fun u hstep => ?_
  cases moved_of_step hstep with
  | fileCall => exact hp.spawn rfl nofun

/-- **The close of a file.** -/
theorem wp_close (hP : ∀ u a u', P u → step lib limits u a = some u' → P u') (hs : P s)
    (hp : Plain flags s.files s.tasks) (f : Nat) :
    wp (perform lib limits fuel (.close f))
      (donePost P (flags.set f true) s.tasks.length (.close f)) s := by
  refine wp_perform hP hs fun u hstep => ?_
  cases moved_of_step hstep with
  | @close f o hf howned =>
    have hset : Plain (flags.set f true) (s.files.set f { o with closed := true }) s.tasks := by
      refine ⟨?_, hp.awaited⟩
      rw [List.map_set, hp.files, List.map_set]
      simp [Opened.traits, howned]
    exact hset.spawn rfl nofun

/-! ### Runs of single calls -/

/-- A call that has not returned is taken on by one action. -/
theorem run_awaitTurn {u : Sys W} (hi : s.tasks[i]? = some ⟨kind, pc⟩)
    (hpc : ∀ r, pc ≠ .done r) (hstep : step lib limits s (nextAction fuel i s) = some u) :
    awaitTurn lib limits fuel i s = .ok (.ok (.again ()), u) := by
  simp only [awaitTurn, bind, current, hi]
  cases pc with
  | done r => exact absurd rfl (hpc r)
  | _ => simp only [act, hstep, pure]

/-- A call that has returned is not waited for any longer. -/
theorem run_await_done {r : Result Answer} (hi : s.tasks[i]? = some ⟨kind, .done r⟩) (turns : Nat) :
    await lib limits fuel i (turns + 1) s = .ok (r, s) := by
  cases r with
  | ok answer => simp only [await, iterate, awaitTurn, bind, current, hi, Prog.ofExcept, pure]
  | error e => simp only [await, iterate, awaitTurn, bind, current, hi, Prog.ofExcept]

/-- A call that has not is waited for after that action. -/
theorem run_await_again {u : Sys W} (hi : s.tasks[i]? = some ⟨kind, pc⟩)
    (hpc : ∀ r, pc ≠ .done r) (hstep : step lib limits s (nextAction fuel i s) = some u)
    (turns : Nat) :
    await lib limits fuel i (turns + 1) s = await lib limits fuel i turns u :=
  run_iterate_again (run_awaitTurn hi hpc hstep)

/-- A call is started, and then awaited. -/
theorem run_perform {a : Action} {u : Sys W} (hstep : step lib limits s a = some u) :
    perform lib limits fuel a s = await lib limits fuel s.tasks.length 7 u := by
  simp only [perform, bind, current, act, hstep]

/-- **A session that is over** executes nothing: a call on a file that is open fails. -/
theorem run_fileCall_exited {f : Nat} {o : Opened} {call : FileCall} (hexited : s.phase = .exited)
    (hf : s.files[f]? = some o) (howned : o.life = .owned) (hopen : o.closed = false)
    (hasks : call.nothing = none) :
    ∃ s', perform lib limits fuel (.fileCall f call) s
        = .ok (.error (.connectionLost "the SMB session thread has exited"), s') ∧
      s'.actor = s.actor := by
  -- the call starts, its command is refused, and it has ended
  have hstart : step lib limits s (.fileCall f call) = some (s.spawn (.file f call) .ready) := by
    simp only [step, hf, howned, Opened.begin, hasks, hopen]
    rfl
  have hready : (s.spawn (.file f call) .ready).tasks[s.tasks.length]?
      = some ⟨.file f call, .ready⟩ := List.getElem?_concat_length
  have hnext : nextAction fuel s.tasks.length (s.spawn (.file f call) .ready)
      = .send s.tasks.length := by
    simp only [nextAction, hready]
  have hsend : step lib limits (s.spawn (.file f call) .ready) (.send s.tasks.length)
      = some ((s.spawn (.file f call) .ready).refuse s.tasks.length (.file f call)) := by
    simp only [step, hready]
    exact if_pos hexited
  have hlt : s.tasks.length < (s.spawn (.file f call) .ready).tasks.length := by simp [spawn]
  have hdone : ((s.spawn (.file f call) .ready).refuse s.tasks.length (.file f call)).tasks[
      s.tasks.length]? = some ⟨.file f call,
        .done (.error (.connectionLost "the SMB session thread has exited"))⟩ :=
    List.getElem?_set_self hlt
  refine ⟨(s.spawn (.file f call) .ready).refuse s.tasks.length (.file f call), ?_, rfl⟩
  rw [run_perform hstart, run_await_again hready (by simp) (by rw [hnext]; exact hsend)]
  exact run_await_done hdone 5

end Sys

end Krystallos.Smb
