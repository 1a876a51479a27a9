import Krystallos.Lib.Lts
import Krystallos.Smb.RemoteFile

namespace Krystallos.Smb

open Checked Prog

/-!
# The session

The session thread, its command channel, and any number of tasks that call the session and
the files open on it.  A task and the thread meet at the channel, at the reply, at a file's
two atomics and at the lock on the join handle; a step runs one party up to its next such
point, so every interleaving is a list of actions.  A command is executed in one step, since
what a task does meanwhile it may as well do before.

A command that panics, or whose loop has not ended, is no step here; `Sys.unwind` is what becomes of
the thread after a panic.
-/

/-! ### Tasks -/

/-- What a task is doing. -/
inductive CallKind
  /-- a method of `Session` on paths -/
  | session (req : Request)
  | shutdown
  | file (f : Nat) (call : FileCall)
  | close (f : Nat)
  /-- the `drop` of a file -/
  | drop (f : Nat)
deriving DecidableEq

/-- Where a task stands. -/
inductive Pc
  /-- about to send its command -/
  | ready
  /-- at its await, with no reply yet -/
  | waiting
  /-- at its await, with the reply in the channel -/
  | delivered (r : Result Answer)
  /-- at its await, the other end of the reply channel gone -/
  | lost
  /-- waiting for the thread to end -/
  | joining
  | done (r : Result Answer)
  /-- its future was dropped -/
  | abandoned
deriving DecidableEq

/-- A call, in progress or over. -/
structure Task where
  kind : CallKind
  pc : Pc
deriving DecidableEq

/-- Nothing of the call is left to run. -/
def Pc.over : Pc → Bool
  | .done _ | .abandoned => true
  | _ => false

/-- At an await: the future can be resumed, or dropped. -/
def Pc.awaiting : Pc → Bool
  | .waiting | .delivered _ | .lost | .joining => true
  | _ => false

/-- The call borrows the session. -/
def CallKind.onSession : CallKind → Bool
  | .session _ | .shutdown => true
  | _ => false

/-- The file the call borrows. -/
def CallKind.borrows : CallKind → Option Nat
  | .file f _ | .close f => some f
  | _ => none

/-- The requests that are methods of `Session` of their own. -/
def Request.onPath : Request → Bool
  | .close _ | .readAt _ _ _ | .writeAt _ _ _ | .setLen _ _ | .flush _ => false
  | _ => true

/-! ### Files -/

/-- Where a `RemoteFile` is in its life. -/
inductive Life
  | owned
  /-- in `drop`, with a `Close` to send -/
  | dropping
  | dropped
deriving DecidableEq, Repr

/-- A `RemoteFile` with its atomics. -/
structure Opened where
  file : RemoteFile
  len : Nat
  closed : Bool
  life : Life
  /-- how many `Close` commands it has sent -/
  closes : Nat

/-- Where a call starts: it returns at once, or it has a command to send. -/
def Opened.begin (o : Opened) (call : FileCall) : Pc :=
  match call.nothing with
  | some answer => .done (.ok answer)
  | none => if o.closed then .done (.error o.file.closedError) else .ready

/-- A call of `Session::close` was made for the file. -/
def Opened.sent (o : Opened) : Opened := { o with closes := o.closes + 1 }

/-- The files after a task of this kind sent its command. -/
def CallKind.afterSend (kind : CallKind) (files : List Opened) : List Opened :=
  match kind with
  | .close f => files.modify f Opened.sent
  | .drop f => files.modify f fun o => { o.sent with life := .dropped }
  | _ => files

/-! ### The session -/

/-- A `Command`: what to execute, and the task that has the other end of the reply channel. -/
inductive Command
  | run (req : Request) (reply : Option Nat)
  | shutdown (reply : Nat)
deriving DecidableEq

/-- The task a command replies to. -/
def Command.reply : Command → Option Nat
  | .run _ reply => reply
  | .shutdown reply => some reply

/-- Where the session thread is. -/
inductive Phase
  /-- in its loop -/
  | serving
  /-- past its loop -/
  | leaving
  /-- past `close_all` and the context's `Drop` -/
  | down
  /-- over, and the receiver with it -/
  | exited
deriving DecidableEq, Repr

/-- The session and everyone who uses it. -/
structure Sys (W : Type) where
  actor : Actor W
  phase : Phase
  queue : List Command
  tasks : List Task
  files : List Opened
  /-- some clone of the `Session` is left outside of the files -/
  held : Bool
  /-- the join handle is still there to take -/
  join : Bool

/-- What happens next. -/
inductive Action
  | call (req : Request)
  | shutdown
  | fileCall (f : Nat) (call : FileCall)
  | close (f : Nat)
  | drop (f : Nat)
  /-- task `i` sends its command -/
  | send (i : Nat)
  /-- task `i` resumes from its await -/
  | wake (i : Nat)
  /-- the future of task `i` is dropped at its await -/
  | abandon (i : Nat)
  /-- the last clone of the `Session` outside of the files is dropped -/
  | letGo
  /-- the thread executes the next command -/
  | serve (fuel : Nat)
  /-- the thread's `recv` fails: every sender is gone -/
  | hangUp
  | teardown
  | exit

variable {W : Type}

namespace Sys

/-- A session that was just connected. -/
def init (w : W) : Sys W := ⟨⟨⟨w, []⟩, .empty⟩, .serving, [], [], [], true, true⟩

/-- A call starts. -/
def spawn (s : Sys W) (kind : CallKind) (pc : Pc) : Sys W :=
  { s with tasks := s.tasks ++ [⟨kind, pc⟩] }

/-- The command a task sends. -/
def command (s : Sys W) (i : Nat) : CallKind → Option Command
  | .session req => some (.run req (some i))
  | .shutdown => some (.shutdown i)
  | .file f call => (s.files[f]?).map fun o => .run (call.request o.file) (some i)
  | .close f => (s.files[f]?).map fun o => .run (.close o.file.id) (some i)
  | .drop f => (s.files[f]?).map fun o => .run (.close o.file.id) none

/-- `shutdown` past its reply: the first to take the join handle waits for the thread. -/
def takeJoin (s : Sys W) (i : Nat) : Sys W :=
  { s with join := false,
           tasks := s.tasks.set i ⟨.shutdown, if s.join then .joining else .done (.ok .unit)⟩ }

/-- A send that succeeds. -/
def enqueue (s : Sys W) (i : Nat) (kind : CallKind) (cmd : Command) : Sys W :=
  let pc := if cmd.reply.isSome then .waiting else .done (.ok .unit)
  { s with queue := s.queue ++ [cmd], files := kind.afterSend s.files,
           tasks := s.tasks.set i ⟨kind, pc⟩ }

/-- A send that fails, the receiver being gone. -/
def refuse (s : Sys W) (i : Nat) (kind : CallKind) : Sys W :=
  match kind with
  | .shutdown => s.takeJoin i
  | .drop _ =>
    { s with files := kind.afterSend s.files, tasks := s.tasks.set i ⟨kind, .done (.ok .unit)⟩ }
  | _ =>
    let r := .error (.connectionLost "the SMB session thread has exited")
    { s with files := kind.afterSend s.files, tasks := s.tasks.set i ⟨kind, .done r⟩ }

/-- An open that was answered becomes a `RemoteFile`. -/
def opened (s : Sys W) (limits : Limits) (path : VfsPath) (id len : Nat) : List Opened :=
  s.files ++ [⟨⟨id, path, limits⟩, len, false, .owned, 0⟩]

/-- What a call makes of the reply it receives: its result, and the files. A caller whose
    arithmetic overflows panics, and is gone. -/
def received (s : Sys W) (limits : Limits) : CallKind → Result Answer → Pc × List Opened
  | .session (.openFile path _), .ok (.opened id len) =>
    (.done (.ok (.opened id len)), s.opened limits path id len)
  | .file f call, .ok answer =>
    match (s.files[f]?).map fun o => call.newLen answer o.len with
    | some (.ok len) =>
      (.done (.ok (call.result answer)), s.files.modify f fun o => { o with len := len })
    | some (.error _) => (.abandoned, s.files)
    | none => (.done (.ok (call.result answer)), s.files)
  | _, r => (.done r, s.files)

/-- A task resumes. -/
def resume (s : Sys W) (limits : Limits) (i : Nat) : Task → Option (Sys W)
  | ⟨.shutdown, .delivered _⟩ => some (s.takeJoin i)
  | ⟨.shutdown, .lost⟩ => some (s.takeJoin i)
  | ⟨kind, .joining⟩ =>
    if s.phase = .exited then some { s with tasks := s.tasks.set i ⟨kind, .done (.ok .unit)⟩ }
    else none
  | ⟨kind, .delivered r⟩ =>
    let (pc, files) := s.received limits kind r
    some { s with files := files, tasks := s.tasks.set i ⟨kind, pc⟩ }
  | ⟨kind, .lost⟩ =>
    let r := .error (.connectionLost "the SMB session ended without replying")
    some { s with tasks := s.tasks.set i ⟨kind, .done r⟩ }
  | _ => none

/-- The other end of a reply channel is used, or dropped: a task that waits there learns it. -/
def settle (tasks : List Task) (reply : Option Nat) (pc : Pc) : List Task :=
  match reply with
  | none => tasks
  | some i =>
    match tasks[i]? with
    | some ⟨kind, .waiting⟩ => tasks.set i ⟨kind, pc⟩
    | _ => tasks

/-- The thread takes the next command. -/
def serve (lib : Libsmb2 W) (s : Sys W) (fuel : Nat) : Option (Sys W) :=
  match s.queue with
  | [] => none
  | .run req reply :: queue =>
    match execute lib fuel req s.actor with
    | .error _ => none
    | .ok (r, actor) =>
      some { s with actor := actor, queue := queue, tasks := settle s.tasks reply (.delivered r) }
  | .shutdown i :: queue =>
    some { s with queue := queue, phase := .leaving,
                  tasks := settle s.tasks (some i) (.delivered (.ok .unit)) }

/-- Every call that borrows the file is over. -/
def unborrowed (s : Sys W) (f : Nat) : Bool :=
  s.tasks.all fun t => t.kind.borrows ≠ some f || t.pc.over

/-- One step. -/
def step (lib : Libsmb2 W) (limits : Limits) (s : Sys W) : Action → Option (Sys W)
  | .call req => if s.held ∧ req.onPath then some (s.spawn (.session req) .ready) else none
  | .shutdown => if s.held then some (s.spawn .shutdown .ready) else none
  | .fileCall f call =>
    match s.files[f]? with
    | some o => if o.life = .owned then some (s.spawn (.file f call) (o.begin call)) else none
    | none => none
  | .close f =>
    match s.files[f]? with
    | some o =>
      if o.life = .owned then
        some ({ s with files := s.files.set f { o with closed := true } }.spawn (.close f)
          (if o.closed then .done (.ok .unit) else .ready))
      else none
    | none => none
  | .drop f =>
    match s.files[f]? with
    | some o =>
      if o.life = .owned ∧ s.unborrowed f then
        if o.closed then some { s with files := s.files.set f { o with life := .dropped } }
        else
          let o' := { o with closed := true, life := .dropping }
          some ({ s with files := s.files.set f o' }.spawn (.drop f) .ready)
      else none
    | none => none
  | .send i =>
    match s.tasks[i]? with
    | some ⟨kind, .ready⟩ =>
      if s.phase = .exited then some (s.refuse i kind)
      else (s.command i kind).map (s.enqueue i kind)
    | _ => none
  | .wake i => (s.tasks[i]?).bind (s.resume limits i)
  | .abandon i =>
    match s.tasks[i]? with
    | some ⟨kind, pc⟩ =>
      if pc.awaiting then some { s with tasks := s.tasks.set i ⟨kind, .abandoned⟩ } else none
    | none => none
  | .letGo =>
    if s.tasks.all fun t => !t.kind.onSession || t.pc.over then some { s with held := false }
    else none
  | .serve fuel => if s.phase = .serving then serve lib s fuel else none
  | .hangUp =>
    if s.phase = .serving ∧ s.queue = [] ∧ s.held = false ∧ ∀ o ∈ s.files, o.life = .dropped then
      some { s with phase := .leaving }
    else none
  | .teardown =>
    match s.phase, (teardown lib : Prog Error (Actor W) Unit) s.actor with
    | .leaving, .ok (_, actor) => some { s with actor := actor, phase := .down }
    | _, _ => none
  | .exit =>
    if s.phase = .down then
      some { s with phase := .exited, queue := [],
                    tasks := s.queue.foldl (fun tasks cmd => settle tasks cmd.reply .lost) s.tasks }
    else none

/-! ### What each kind of step does -/

/-- The steps of the system, one case for each way a step goes. -/
inductive Moved (lib : Libsmb2 W) (limits : Limits) (s : Sys W) : Action → Sys W → Prop
  | call {req : Request} (hheld : s.held = true) (hpath : req.onPath = true) :
    Moved lib limits s (.call req) (s.spawn (.session req) .ready)
  | shutdown (hheld : s.held = true) : Moved lib limits s .shutdown (s.spawn .shutdown .ready)
  | fileCall {f : Nat} {call : FileCall} {o : Opened} (hf : s.files[f]? = some o)
      (howned : o.life = .owned) :
    Moved lib limits s (.fileCall f call) (s.spawn (.file f call) (o.begin call))
  | close {f : Nat} {o : Opened} (hf : s.files[f]? = some o) (howned : o.life = .owned) :
    Moved lib limits s (.close f)
      ({ s with files := s.files.set f { o with closed := true } }.spawn (.close f)
        (if o.closed then .done (.ok .unit) else .ready))
  | dropClosed {f : Nat} {o : Opened} (hf : s.files[f]? = some o) (howned : o.life = .owned)
      (hfree : s.unborrowed f = true) (hclosed : o.closed = true) :
    Moved lib limits s (.drop f) { s with files := s.files.set f { o with life := .dropped } }
  | dropOpen {f : Nat} {o : Opened} (hf : s.files[f]? = some o) (howned : o.life = .owned)
      (hfree : s.unborrowed f = true) (hclosed : o.closed = false) :
    Moved lib limits s (.drop f)
      ({ s with files := s.files.set f { o with closed := true, life := .dropping } }.spawn
        (.drop f) .ready)
  | enqueue {i : Nat} {kind : CallKind} {cmd : Command}
      (htask : s.tasks[i]? = some ⟨kind, .ready⟩) (hup : s.phase ≠ .exited)
      (hcmd : s.command i kind = some cmd) : Moved lib limits s (.send i) (s.enqueue i kind cmd)
  | refuse {i : Nat} {kind : CallKind} (htask : s.tasks[i]? = some ⟨kind, .ready⟩)
      (hexited : s.phase = .exited) : Moved lib limits s (.send i) (s.refuse i kind)
  | takeJoin {i : Nat} {pc : Pc} (htask : s.tasks[i]? = some ⟨.shutdown, pc⟩)
      (hpc : pc = .lost ∨ ∃ r, pc = .delivered r) : Moved lib limits s (.wake i) (s.takeJoin i)
  | joined {i : Nat} {kind : CallKind} (htask : s.tasks[i]? = some ⟨kind, .joining⟩)
      (hexited : s.phase = .exited) :
    Moved lib limits s (.wake i) { s with tasks := s.tasks.set i ⟨kind, .done (.ok .unit)⟩ }
  | received {i : Nat} {kind : CallKind} {r : Result Answer}
      (htask : s.tasks[i]? = some ⟨kind, .delivered r⟩) (hkind : kind ≠ .shutdown) :
    Moved lib limits s (.wake i)
      { s with files := (s.received limits kind r).2,
               tasks := s.tasks.set i ⟨kind, (s.received limits kind r).1⟩ }
  | disconnected {i : Nat} {kind : CallKind} (htask : s.tasks[i]? = some ⟨kind, .lost⟩)
      (hkind : kind ≠ .shutdown) :
    Moved lib limits s (.wake i)
      { s with tasks := s.tasks.set i ⟨kind, .done (.error
        (.connectionLost "the SMB session ended without replying"))⟩ }
  | abandon {i : Nat} {kind : CallKind} {pc : Pc} (htask : s.tasks[i]? = some ⟨kind, pc⟩)
      (hawait : pc.awaiting = true) :
    Moved lib limits s (.abandon i) { s with tasks := s.tasks.set i ⟨kind, .abandoned⟩ }
  | letGo (hover : ∀ t ∈ s.tasks, t.kind.onSession = true → t.pc.over = true) :
    Moved lib limits s .letGo { s with held := false }
  | ran {fuel : Nat} {req : Request} {reply : Option Nat} {queue : List Command}
      {r : Result Answer} {actor : Actor W} (hserving : s.phase = .serving)
      (hqueue : s.queue = .run req reply :: queue)
      (hrun : execute lib fuel req s.actor = .ok (r, actor)) :
    Moved lib limits s (.serve fuel)
      { s with actor := actor, queue := queue, tasks := settle s.tasks reply (.delivered r) }
  | stopped {fuel i : Nat} {queue : List Command} (hserving : s.phase = .serving)
      (hqueue : s.queue = .shutdown i :: queue) :
    Moved lib limits s (.serve fuel)
      { s with queue := queue, phase := .leaving,
               tasks := settle s.tasks (some i) (.delivered (.ok .unit)) }
  | hangUp (hserving : s.phase = .serving) (hqueue : s.queue = []) (hheld : s.held = false)
      (hdropped : ∀ o ∈ s.files, o.life = .dropped) :
    Moved lib limits s .hangUp { s with phase := .leaving }
  | teardown {r : Result Unit} {actor : Actor W} (hleaving : s.phase = .leaving)
      (hrun : Smb.teardown lib s.actor = .ok (r, actor)) :
    Moved lib limits s .teardown { s with actor := actor, phase := .down }
  | exit (hdown : s.phase = .down) :
    Moved lib limits s .exit
      { s with phase := .exited, queue := [],
               tasks := s.queue.foldl (fun tasks cmd => settle tasks cmd.reply .lost) s.tasks }

variable {lib : Libsmb2 W} {limits : Limits} {s s' : Sys W}

/-- Nobody who is still at it has borrowed the file. -/
theorem unborrowed_iff {f : Nat} : s.unborrowed f = true ↔
    ∀ t ∈ s.tasks, t.kind.borrows = some f → t.pc.over = true := by
  rw [unborrowed, List.all_eq_true]
  refine forall₂_congr fun t _ => ?_
  simp [imp_iff_not_or]

/-- A task that resumed. -/
theorem moved_of_resume {i : Nat} {t : Task} (htask : s.tasks[i]? = some t)
    (h : s.resume limits i t = some s') : Moved lib limits s (.wake i) s' := by
  unfold resume at h
  split at h
  · cases h
    exact .takeJoin htask (.inr ⟨_, rfl⟩)
  · cases h
    exact .takeJoin htask (.inl rfl)
  · split at h
    · next hexited =>
      cases h
      exact .joined htask hexited
    · cases h
  · cases h
    exact .received htask ‹_›
  · cases h
    exact .disconnected htask ‹_›
  · cases h

/-- The thread took a command. -/
theorem moved_of_serve {fuel : Nat} (hserving : s.phase = .serving)
    (h : serve lib s fuel = some s') : Moved lib limits s (.serve fuel) s' := by
  unfold serve at h
  split at h
  · cases h
  · next req reply queue hqueue =>
    split at h
    · cases h
    · next r actor hrun =>
      cases h
      exact .ran hserving hqueue hrun
  · next i queue hqueue =>
    cases h
    exact .stopped hserving hqueue

/-- **Every step** is one of these. -/
theorem moved_of_step {a : Action} (h : step lib limits s a = some s') :
    Moved lib limits s a s' := by
  cases a with
  | call req =>
    simp only [step, Option.ite_none_right_eq_some, Option.some.injEq] at h
    obtain ⟨⟨hheld, hpath⟩, rfl⟩ := h
    exact .call hheld hpath
  | shutdown =>
    simp only [step, Option.ite_none_right_eq_some, Option.some.injEq] at h
    obtain ⟨hheld, rfl⟩ := h
    exact .shutdown hheld
  | fileCall f call =>
    simp only [step] at h
    split at h
    · next o hf =>
      simp only [Option.ite_none_right_eq_some, Option.some.injEq] at h
      obtain ⟨howned, rfl⟩ := h
      exact .fileCall hf howned
    · cases h
  | close f =>
    simp only [step] at h
    split at h
    · next o hf =>
      simp only [Option.ite_none_right_eq_some, Option.some.injEq] at h
      obtain ⟨howned, rfl⟩ := h
      exact .close hf howned
    · cases h
  | drop f =>
    simp only [step] at h
    split at h
    · next o hf =>
      simp only [Option.ite_none_right_eq_some] at h
      obtain ⟨⟨howned, hfree⟩, h⟩ := h
      split at h
      · next hclosed =>
        cases h
        exact .dropClosed hf howned hfree hclosed
      · next hopen =>
        cases h
        exact .dropOpen hf howned hfree (Bool.eq_false_iff.mpr hopen)
    · cases h
  | send i =>
    simp only [step] at h
    split at h
    · next kind htask =>
      split at h
      · next hexited =>
        cases h
        exact .refuse htask hexited
      · next hup =>
        obtain ⟨cmd, hcmd, rfl⟩ := Option.map_eq_some_iff.mp h
        exact .enqueue htask hup hcmd
    · cases h
  | wake i =>
    obtain ⟨t, htask, h⟩ := Option.bind_eq_some_iff.mp h
    exact moved_of_resume htask h
  | abandon i =>
    simp only [step] at h
    split at h
    · next kind pc htask =>
      simp only [Option.ite_none_right_eq_some, Option.some.injEq] at h
      obtain ⟨hawait, rfl⟩ := h
      exact .abandon htask hawait
    · cases h
  | letGo =>
    simp only [step, Option.ite_none_right_eq_some, Option.some.injEq] at h
    obtain ⟨hover, rfl⟩ := h
    refine .letGo fun t ht hon => ?_
    have hover' := List.all_eq_true.mp hover t ht
    rwa [hon, Bool.not_true, Bool.false_or] at hover'
  | serve fuel =>
    simp only [step, Option.ite_none_right_eq_some] at h
    exact moved_of_serve h.1 h.2
  | hangUp =>
    simp only [step, Option.ite_none_right_eq_some, Option.some.injEq] at h
    obtain ⟨⟨hserving, hqueue, hheld, hdropped⟩, rfl⟩ := h
    exact .hangUp hserving hqueue hheld hdropped
  | teardown =>
    simp only [step] at h
    split at h
    · next r actor hleaving hrun =>
      cases h
      exact .teardown hleaving hrun
    · cases h
  | exit =>
    simp only [step, Option.ite_none_right_eq_some, Option.some.injEq] at h
    obtain ⟨hdown, rfl⟩ := h
    exact .exit hdown

/-! ### What a step does to the tasks and to the queue -/

/-- The context is gone. -/
def Ended (s : Sys W) : Prop := s.phase = .down ∨ s.phase = .exited

theorem not_ended_of_serving (h : s.phase = .serving) : ¬ s.Ended := by
  rintro (hdown | hdown) <;> rw [h] at hdown <;> cases hdown

theorem not_ended_of_leaving (h : s.phase = .leaving) : ¬ s.Ended := by
  rintro (hdown | hdown) <;> rw [h] at hdown <;> cases hdown

/-- The ways a reply goes: no task waits for it, or one does. -/
theorem settle_cases (tasks : List Task) (reply : Option Nat) (pc : Pc) :
    settle tasks reply pc = tasks ∨ ∃ i kind, reply = some i ∧
      tasks[i]? = some ⟨kind, .waiting⟩ ∧ settle tasks reply pc = tasks.set i ⟨kind, pc⟩ := by
  unfold settle
  split
  · exact .inl rfl
  · split
    · next i _ kind htask => exact .inr ⟨_, kind, rfl, htask, rfl⟩
    · exact .inl rfl

/-- Where a task stands after a reply was settled: where it stood, or it has learnt of it. -/
theorem getElem?_settle {tasks : List Task} {reply : Option Nat} {pc : Pc} {j : Nat} {t' : Task}
    (h : (settle tasks reply pc)[j]? = some t') : ∃ t, tasks[j]? = some t ∧
      (t' = t ∧ (t.pc = .waiting → reply ≠ some j) ∨
        t.pc = .waiting ∧ reply = some j ∧ t' = ⟨t.kind, pc⟩) := by
  unfold settle at h
  split at h
  · exact ⟨t', h, .inl ⟨rfl, fun _ => nofun⟩⟩
  · next i =>
    split at h
    · next kind htask =>
      rcases Lts.getElem?_set_cases h with ⟨rfl, rfl⟩ | ⟨hij, hold⟩
      · exact ⟨_, htask, .inr ⟨rfl, rfl, rfl⟩⟩
      · exact ⟨t', hold, .inl ⟨rfl, fun _ hreply => hij (Option.some.inj hreply)⟩⟩
    · next hnot =>
      refine ⟨t', h, .inl ⟨rfl, fun hwaiting hreply => ?_⟩⟩
      obtain rfl := Option.some.inj hreply
      obtain ⟨kind, pc'⟩ := t'
      obtain rfl : pc' = .waiting := hwaiting
      exact hnot kind h

/-- The same, after the replies of every command that was left were dropped. -/
theorem getElem?_settle_all {queue : List Command} {tasks : List Task} {j : Nat} {t' : Task}
    (h : (queue.foldl (fun tasks cmd => settle tasks cmd.reply .lost) tasks)[j]? = some t') :
    ∃ t, tasks[j]? = some t ∧
      (t' = t ∧ (t.pc = .waiting → ∀ cmd ∈ queue, cmd.reply ≠ some j) ∨
        t.pc = .waiting ∧ t' = ⟨t.kind, .lost⟩) := by
  induction queue generalizing tasks with
  | nil => exact ⟨t', h, .inl ⟨rfl, fun _ _ hmem => nomatch hmem⟩⟩
  | cons cmd queue ih =>
    obtain ⟨u, hu, hrest⟩ := ih h
    obtain ⟨t, ht, ⟨rfl, hhead⟩ | ⟨hwaiting, -, rfl⟩⟩ := getElem?_settle hu
    · refine ⟨u, ht, hrest.imp (fun ⟨hsame, htail⟩ => ⟨hsame, fun hwaiting => ?_⟩) id⟩
      exact List.forall_mem_cons.mpr ⟨hhead hwaiting, htail hwaiting⟩
    · -- it has learnt of it already, and does so once
      rcases hrest with ⟨rfl, -⟩ | ⟨hlost, -⟩
      · exact ⟨t, ht, .inr ⟨hwaiting, rfl⟩⟩
      · cases hlost

/-- What the task with a number is doing. -/
def kindAt (tasks : List Task) (i : Nat) : Option CallKind := (tasks[i]?).map Task.kind

/-- A task that goes on is of the same kind. -/
theorem kindAt_set {tasks : List Task} {i j : Nat} {kind : CallKind} {pc pc' : Pc}
    (htask : tasks[i]? = some ⟨kind, pc⟩) :
    kindAt (tasks.set i ⟨kind, pc'⟩) j = kindAt tasks j := by
  by_cases hij : i = j
  · subst hij
    rw [kindAt, kindAt, List.getElem?_set_self (List.getElem?_eq_some_iff.mp htask).1, htask]
    rfl
  · rw [kindAt, kindAt, List.getElem?_set_ne hij]

/-- So is one that was answered. -/
theorem kindAt_settle (tasks : List Task) (reply : Option Nat) (pc : Pc) (j : Nat) :
    kindAt (settle tasks reply pc) j = kindAt tasks j := by
  rcases settle_cases tasks reply pc with hsame | ⟨i, kind, -, htask, hset⟩
  · rw [hsame]
  · rw [hset, kindAt_set htask]

/-- So are all of them. -/
theorem kindAt_settle_all (queue : List Command) (tasks : List Task) (j : Nat) :
    kindAt (queue.foldl (fun tasks cmd => settle tasks cmd.reply .lost) tasks) j
      = kindAt tasks j := by
  induction queue generalizing tasks with
  | nil => rfl
  | cons cmd queue ih => exact (ih _).trans (kindAt_settle _ _ _ _)

/-- A new task changes no other. -/
theorem kindAt_spawn {kind : CallKind} {pc : Pc} {j : Nat} {k : CallKind}
    (h : kindAt s.tasks j = some k) : kindAt (s.spawn kind pc).tasks j = some k := by
  obtain ⟨t, ht, hk⟩ := Option.map_eq_some_iff.mp h
  have hlt : j < s.tasks.length := (List.getElem?_eq_some_iff.mp ht).1
  rw [kindAt, spawn, List.getElem?_append_left hlt]
  exact h

/-- A task goes on with what it was doing. -/
theorem kindAt_step {a : Action} {j : Nat} {k : CallKind} (h : kindAt s.tasks j = some k)
    (hstep : step lib limits s a = some s') : kindAt s'.tasks j = some k := by
  cases moved_of_step hstep with
  | call | shutdown | fileCall | close | dropOpen => exact kindAt_spawn h
  | dropClosed | letGo | hangUp | teardown => exact h
  | enqueue htask | takeJoin htask | joined htask | received htask | disconnected htask
  | abandon htask => exact (kindAt_set htask).trans h
  | @refuse i kind htask hexited => cases kind <;> exact (kindAt_set htask).trans h
  | ran => exact (kindAt_settle _ _ _ _).trans h
  | stopped => exact (kindAt_settle _ (some _) _ _).trans h
  | exit hdown => exact (kindAt_settle_all _ _ _).trans h

/-- A command in the channel was there, or a task has sent it. -/
theorem queue_step {a : Action} {cmd : Command} (hmem : cmd ∈ s'.queue)
    (hstep : step lib limits s a = some s') :
    cmd ∈ s.queue ∨ ∃ i kind, s.tasks[i]? = some ⟨kind, .ready⟩ ∧ s.command i kind = some cmd := by
  cases moved_of_step hstep with
  | enqueue htask hup hcmd =>
    rcases List.mem_append.mp hmem with hold | hnew
    · exact .inl hold
    · obtain rfl := List.mem_singleton.mp hnew
      exact .inr ⟨_, _, htask, hcmd⟩
  | ran hserving hqueue | stopped hserving hqueue =>
    rw [hqueue]
    exact .inl (List.mem_cons_of_mem _ hmem)
  | exit => cases hmem
  | @refuse i kind htask hexited => cases kind <;> exact .inl hmem
  | _ => exact .inl hmem

end Sys

end Krystallos.Smb
