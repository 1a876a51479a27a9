import Krystallos.Lib.Assoc
import Krystallos.Smb.MemServer
import Krystallos.Smb.Session

namespace Krystallos.Smb

open Lts Prog

/-!
# Every call gets its own answer

What entered the channel, what the thread executed with what result, and which sends failed
is recorded along a run as its `Log`.  `Kept` ties the log to the state: what was executed is
a front part of what entered, a task has sent one command at most, and each task knows what
became of its own.
-/

/-- What happened to commands so far. -/
structure Log where
  /-- what entered the channel, in order -/
  entered : List Command
  /-- what the thread executed, in order, each with its result -/
  executed : List (Command × Result Answer)
  /-- the tasks whose send failed -/
  refused : List Nat

/-- The call waits for a reply to a command of its own. -/
def CallKind.answered : CallKind → Bool
  | .session _ | .file _ _ | .close _ => true
  | .shutdown | .drop _ => false

/-- What the call makes of the result of its command. -/
def CallKind.answer : CallKind → Result Answer → Result Answer
  | .file _ call, .ok answer => .ok (call.result answer)
  | _, r => r

/-- The command is the one that the call of task `i` sends. -/
def CallKind.Asks (i : Nat) (kind : CallKind) (cmd : Command) : Prop :=
  match kind with
  | .session req => cmd = .run req (some i)
  | .shutdown => cmd = .shutdown i
  | .file _ call => ∃ file, cmd = .run (call.request file) (some i)
  | .close _ => ∃ id, cmd = .run (.close id) (some i)
  | .drop _ => False

/-- How far a call is from its end. -/
def Pc.left : Pc → Nat
  | .ready => 4
  | .waiting => 3
  | .delivered _ | .lost => 2
  | .joining => 1
  | .done _ | .abandoned => 0

/-- The call failed because the session is gone. -/
def IsLost (r : Result Answer) : Prop := ∃ message, r = .error (.connectionLost message)

namespace Log

/-- Nothing happened yet. -/
def empty : Log := ⟨[], [], []⟩

/-- The log after a step. -/
def next {W : Type} (lib : Libsmb2 W) (s : Sys W) (a : Action) (log : Log) : Log :=
  match a with
  | .send i =>
    match s.tasks[i]? with
    | some ⟨kind, .ready⟩ =>
      if s.phase = .exited then { log with refused := log.refused ++ [i] }
      else { log with entered := log.entered ++ (s.command i kind).toList }
    | _ => log
  | .serve fuel =>
    match s.queue with
    | .run req reply :: _ =>
      match execute lib fuel req s.actor with
      | .ok (r, _) => { log with executed := log.executed ++ [(.run req reply, r)] }
      | .error _ => log
    | .shutdown i :: _ => { log with executed := log.executed ++ [(.shutdown i, .ok .unit)] }
    | [] => log
  | _ => log

/-- A command of task `i` entered the channel. -/
def Entered (log : Log) (i : Nat) : Prop := ∃ cmd ∈ log.entered, cmd.reply = some i

/-- A command of task `i` was executed, with result `r`. -/
def Executed (log : Log) (i : Nat) (r : Result Answer) : Prop :=
  ∃ cmd, (cmd, r) ∈ log.executed ∧ cmd.reply = some i

end Log

namespace Sys

variable {W : Type} {lib : Libsmb2 W} {limits : Limits} {s s' : Sys W} {phase phase' : Phase}
  {queue queue' : List Command} {tasks : List Task} {log log' : Log} {i : Nat} {kind : CallKind}
  {pc pc' : Pc} {cmd : Command} {t : Task}

/-- What a task knows of its own command, from where it stands. -/
def Knows (phase : Phase) (queue : List Command) (log : Log) (i : Nat) : Task → Prop
  | ⟨_, .ready⟩ => ¬ log.Entered i ∧ i ∉ log.refused
  | ⟨_, .waiting⟩ => ∃ cmd ∈ queue, cmd.reply = some i
  | ⟨_, .delivered r⟩ => log.Executed i r
  | ⟨_, .lost⟩ => phase = .exited ∧ ∀ r, ¬ log.Executed i r
  | ⟨kind, .joining⟩ => kind = .shutdown
  | ⟨kind, .done r⟩ => kind.answered = true →
      (∃ r₀, log.Executed i r₀ ∧ r = kind.answer r₀) ∨
      (phase = .exited ∧ (∀ r, ¬ log.Executed i r) ∧ IsLost r) ∨
      (¬ log.Entered i ∧ i ∉ log.refused)
  | ⟨_, .abandoned⟩ => True

/-- What ties the log to the state. -/
structure Kept (phase : Phase) (queue : List Command) (tasks : List Task) (log : Log) : Prop where
  order : ∃ dropped, log.entered = log.executed.map Prod.fst ++ queue ++ dropped ∧
    (phase ≠ .exited → dropped = [])
  drained : phase = .exited → queue = []
  once : (log.entered.filterMap Command.reply).Nodup
  asks : ∀ cmd ∈ log.entered, ∀ i, cmd.reply = some i →
    ∃ kind, kindAt tasks i = some kind ∧ kind.Asks i cmd
  refused : ∀ i ∈ log.refused, i < tasks.length ∧ ¬ log.Entered i
  knows : ∀ (i : Nat) (t : Task), tasks[i]? = some t → Knows phase queue log i t

/-! ### Steps of other parties -/

/-- What a task knows stays true while others move. -/
theorem Knows.mono (h : Knows phase queue log i t) (hentered : log'.Entered i → log.Entered i)
    (hrefused : i ∈ log'.refused → i ∈ log.refused)
    (hqueue : t.pc = .waiting → ∀ cmd ∈ queue, cmd.reply = some i → cmd ∈ queue')
    (hexecuted : ∀ r, log.Executed i r → log'.Executed i r)
    (hexited : phase = .exited → phase' = .exited ∧ ∀ r, log'.Executed i r → log.Executed i r) :
    Knows phase' queue' log' i t := by
  obtain ⟨kind, pc⟩ := t
  cases pc with
  | ready => exact ⟨fun he => h.1 (hentered he), fun hr => h.2 (hrefused hr)⟩
  | waiting =>
    obtain ⟨cmd, hcmd, hreply⟩ := h
    exact ⟨cmd, hqueue rfl cmd hcmd hreply, hreply⟩
  | delivered r => exact hexecuted r h
  | lost => exact ⟨(hexited h.1).1, fun r hr => h.2 r ((hexited h.1).2 r hr)⟩
  | joining => exact h
  | done r =>
    intro hanswered
    rcases h hanswered with ⟨r₀, hr₀, hr⟩ | ⟨hdown, hnot, hlost⟩ | ⟨hent, href⟩
    · exact .inl ⟨r₀, hexecuted r₀ hr₀, hr⟩
    · exact .inr (.inl ⟨(hexited hdown).1, fun r hr => hnot r ((hexited hdown).2 r hr), hlost⟩)
    · exact .inr (.inr ⟨fun he => hent (hentered he), fun hr => href (hrefused hr)⟩)
  | abandoned => trivial

/-- A task whose command has not entered the channel is not one of those it replies to. -/
theorem Kept.lt_of_entered (h : Kept phase queue tasks log) (he : log.Entered i) :
    i < tasks.length := by
  obtain ⟨cmd, hcmd, hreply⟩ := he
  obtain ⟨kind, hkind, -⟩ := h.asks cmd hcmd i hreply
  obtain ⟨t, ht, -⟩ := Option.map_eq_some_iff.mp hkind
  exact (List.getElem?_eq_some_iff.mp ht).1

/-- What was executed had entered. -/
theorem Kept.entered_of_executed (h : Kept phase queue tasks log) {r : Result Answer}
    (hr : log.Executed i r) : log.Entered i := by
  obtain ⟨cmd, hcmd, hreply⟩ := hr
  obtain ⟨dropped, horder, -⟩ := h.order
  refine ⟨cmd, ?_, hreply⟩
  rw [horder]
  exact List.mem_append_left _ (List.mem_append_left _ (List.mem_map_of_mem hcmd))

/-- A call starts: it has sent nothing. -/
theorem Kept.spawn (h : Kept phase queue tasks log) (kind : CallKind)
    (hpc : pc = .ready ∨ ∃ r, pc = .done r) : Kept phase queue (tasks ++ [⟨kind, pc⟩]) log where
  order := h.order
  drained := h.drained
  once := h.once
  asks cmd hcmd i hreply := by
    have hlt := h.lt_of_entered ⟨cmd, hcmd, hreply⟩
    obtain ⟨k, hk, hasks⟩ := h.asks cmd hcmd i hreply
    exact ⟨k, by rwa [kindAt, List.getElem?_append_left hlt], hasks⟩
  refused i hi := by
    have hlt := (h.refused i hi).1
    rw [List.length_append]
    exact ⟨by omega, (h.refused i hi).2⟩
  knows i t ht := by
    rcases getElem?_concat_cases ht with hold | ⟨rfl, rfl⟩
    · exact h.knows i t hold
    · have hent : ¬ log.Entered tasks.length := fun he => lt_irrefl _ (h.lt_of_entered he)
      have href : tasks.length ∉ log.refused := fun hr => lt_irrefl _ (h.refused _ hr).1
      rcases hpc with rfl | ⟨r, rfl⟩
      · exact ⟨hent, href⟩
      · exact fun _ => .inr (.inr ⟨hent, href⟩)

/-- A task goes on. -/
theorem Kept.setPc (h : Kept phase queue tasks log) (htask : tasks[i]? = some ⟨kind, pc⟩)
    (hknows : Knows phase queue log i ⟨kind, pc'⟩) :
    Kept phase queue (tasks.set i ⟨kind, pc'⟩) log where
  order := h.order
  drained := h.drained
  once := h.once
  asks cmd hcmd j hreply := by
    obtain ⟨k, hk, hasks⟩ := h.asks cmd hcmd j hreply
    exact ⟨k, by rwa [kindAt_set htask], hasks⟩
  refused j hj := by
    rw [List.length_set]
    exact h.refused j hj
  knows j t ht := by
    rcases getElem?_set_cases ht with ⟨rfl, rfl⟩ | ⟨-, hold⟩
    · exact hknows
    · exact h.knows j t hold

/-- The command that a call sends. -/
theorem asks_of_command (h : s.command i kind = some cmd) :
    (cmd.reply = none ∧ kind.answered = false) ∨ (cmd.reply = some i ∧ kind.Asks i cmd) := by
  cases kind with
  | session req =>
    cases h
    exact .inr ⟨rfl, rfl⟩
  | shutdown =>
    cases h
    exact .inr ⟨rfl, rfl⟩
  | file f call =>
    obtain ⟨o, -, rfl⟩ := Option.map_eq_some_iff.mp h
    exact .inr ⟨rfl, o.file, rfl⟩
  | close f =>
    obtain ⟨o, -, rfl⟩ := Option.map_eq_some_iff.mp h
    exact .inr ⟨rfl, o.file.id, rfl⟩
  | drop f =>
    obtain ⟨o, -, rfl⟩ := Option.map_eq_some_iff.mp h
    exact .inl ⟨rfl, rfl⟩

/-- A send that succeeds: the command is behind all others, and is the first of its task. -/
theorem Kept.enqueue (h : Kept phase queue tasks log) (htask : tasks[i]? = some ⟨kind, .ready⟩)
    (hup : phase ≠ .exited)
    (hcmd : (cmd.reply = none ∧ kind.answered = false) ∨ (cmd.reply = some i ∧ kind.Asks i cmd)) :
    Kept phase (queue ++ [cmd])
      (tasks.set i ⟨kind, if cmd.reply.isSome then .waiting else .done (.ok .unit)⟩)
      { log with entered := log.entered ++ [cmd] } := by
  have hready : ¬ log.Entered i ∧ i ∉ log.refused := h.knows i _ htask
  -- only the task that sends enters
  have hentered : ∀ j, j ≠ i →
      Log.Entered { log with entered := log.entered ++ [cmd] } j → log.Entered j := by
    rintro j hji ⟨c, hc, hreply⟩
    rcases List.mem_append.mp hc with hold | hnew
    · exact ⟨c, hold, hreply⟩
    · obtain rfl := List.mem_singleton.mp hnew
      rcases hcmd with ⟨hnone, -⟩ | ⟨hsome, -⟩
      · rw [hnone] at hreply
        cases hreply
      · rw [hsome] at hreply
        exact absurd (Option.some.inj hreply).symm hji
  constructor
  · obtain ⟨dropped, horder, hdropped⟩ := h.order
    refine ⟨[], ?_, fun _ => rfl⟩
    rw [horder, hdropped hup]
    simp
  · exact fun hdown => absurd hdown hup
  · -- the reply is one that no command had before
    rw [List.filterMap_append, List.nodup_append]
    refine ⟨h.once, ?_, fun j hj j' hj' heq => ?_⟩
    · rcases hcmd with ⟨hnone, -⟩ | ⟨hsome, -⟩
      · simp [hnone]
      · simp [hsome]
    · subst heq
      obtain ⟨c, hc, hreply⟩ := List.mem_filterMap.mp hj
      rcases hcmd with ⟨hnone, -⟩ | ⟨hsome, -⟩
      · simp [hnone] at hj'
      · obtain rfl : j = i := by simpa [hsome] using hj'
        exact hready.1 ⟨c, hc, hreply⟩
  · intro c hc j hreply
    rcases List.mem_append.mp hc with hold | hnew
    · obtain ⟨k, hk, hasks⟩ := h.asks c hold j hreply
      exact ⟨k, by rwa [kindAt_set htask], hasks⟩
    · obtain rfl := List.mem_singleton.mp hnew
      rcases hcmd with ⟨hnone, -⟩ | ⟨hsome, hasks⟩
      · rw [hnone] at hreply
        cases hreply
      · obtain rfl := Option.some.inj (hsome.symm.trans hreply)
        exact ⟨kind, by rw [kindAt_set htask, kindAt, htask]; rfl, hasks⟩
  · intro j hj
    have hji : j ≠ i := fun heq => hready.2 (heq ▸ hj)
    rw [List.length_set]
    exact ⟨(h.refused j hj).1, fun he => (h.refused j hj).2 (hentered j hji he)⟩
  · intro j t ht
    rcases getElem?_set_cases ht with ⟨rfl, rfl⟩ | ⟨hij, hold⟩
    · rcases hcmd with ⟨hnone, hnot⟩ | ⟨hsome, -⟩
      · rw [hnone]
        exact fun hanswered => by simp [hnot] at hanswered
      · rw [hsome]
        exact ⟨cmd, by simp, hsome⟩
    · exact (h.knows j t hold).mono (hentered j (Ne.symm hij)) id
        (fun _ c hc _ => List.mem_append_left _ hc) (fun _ h => h) fun hdown => absurd hdown hup

/-- A send that fails, the receiver being gone. -/
theorem Kept.refuse (h : Kept .exited queue tasks log) (htask : tasks[i]? = some ⟨kind, .ready⟩)
    (hpc : (pc = .joining ∧ kind = .shutdown) ∨
      ∃ r, pc = .done r ∧ (kind.answered = true → IsLost r)) :
    Kept .exited queue (tasks.set i ⟨kind, pc⟩) { log with refused := log.refused ++ [i] } where
  order := h.order
  drained := h.drained
  once := h.once
  asks c hc j hreply := by
    obtain ⟨k, hk, hasks⟩ := h.asks c hc j hreply
    exact ⟨k, by rwa [kindAt_set htask], hasks⟩
  refused j hj := by
    rw [List.length_set]
    rcases List.mem_append.mp hj with hold | hnew
    · exact h.refused j hold
    · obtain rfl := List.mem_singleton.mp hnew
      have hready : ¬ log.Entered j ∧ j ∉ log.refused := h.knows j _ htask
      exact ⟨(List.getElem?_eq_some_iff.mp htask).1, hready.1⟩
  knows j t ht := by
    rcases getElem?_set_cases ht with ⟨rfl, rfl⟩ | ⟨hij, hold⟩
    · have hready : ¬ log.Entered i ∧ i ∉ log.refused := h.knows i _ htask
      -- what was not sent is not executed
      have hnot : ∀ r, ¬ log.Executed i r := fun r hr => hready.1 (h.entered_of_executed hr)
      rcases hpc with ⟨rfl, hkind⟩ | ⟨r, rfl, hlost⟩
      · exact hkind
      · exact fun hanswered => .inr (.inl ⟨rfl, hnot, hlost hanswered⟩)
    · refine (h.knows j t hold).mono id (fun hj => ?_) (fun _ c hc _ => hc) (fun _ h => h)
        fun _ => ⟨rfl, fun _ h => h⟩
      rcases List.mem_append.mp hj with hold' | hnew
      · exact hold'
      · exact absurd (List.mem_singleton.mp hnew).symm hij

/-- The thread executes the next command: its task has the result. -/
theorem Kept.take (h : Kept .serving (cmd :: queue) tasks log) (hup : phase ≠ .exited)
    (r : Result Answer) : Kept phase queue (settle tasks cmd.reply (.delivered r))
      { log with executed := log.executed ++ [(cmd, r)] } where
  order := by
    obtain ⟨dropped, horder, hdropped⟩ := h.order
    refine ⟨[], ?_, fun _ => rfl⟩
    rw [horder, hdropped nofun]
    simp
  drained := fun hdown => absurd hdown hup
  once := h.once
  asks c hc j hreply := by
    obtain ⟨k, hk, hasks⟩ := h.asks c hc j hreply
    exact ⟨k, by rwa [kindAt_settle], hasks⟩
  refused j hj := by
    obtain ⟨hlt, hnot⟩ := h.refused j hj
    refine ⟨?_, hnot⟩
    rcases settle_cases tasks cmd.reply (.delivered r) with hsame | ⟨k, kind, -, -, hset⟩
    · rwa [hsame]
    · rwa [hset, List.length_set]
  knows j t' ht' := by
    obtain ⟨t, ht, ⟨rfl, hother⟩ | ⟨hwaiting, hreply, rfl⟩⟩ := getElem?_settle ht'
    · refine (h.knows j t' ht).mono id id (fun hwaiting c hc hreply => ?_) (fun r' hr' => ?_) nofun
      · -- a task that still waits does not wait for this command
        rcases List.mem_cons.mp hc with rfl | hc
        · exact absurd hreply (hother hwaiting)
        · exact hc
      · obtain ⟨c, hc, hreply⟩ := hr'
        exact ⟨c, List.mem_append_left _ hc, hreply⟩
    · exact ⟨cmd, by simp, hreply⟩

/-- A command that was not executed was not, by any other copy of it. -/
theorem Kept.not_executed (h : Kept phase queue tasks log) (hcmd : cmd ∈ queue)
    (hreply : cmd.reply = some i) (r : Result Answer) : ¬ log.Executed i r := by
  rintro ⟨c, hc, hreply'⟩
  obtain ⟨dropped, horder, -⟩ := h.order
  have honce := h.once
  rw [horder, List.append_assoc, List.filterMap_append, List.nodup_append] at honce
  -- its reply is asked for once among those executed, dropped and still to come
  refine honce.2.2 i ?_ i ?_ rfl
  · exact List.mem_filterMap.mpr ⟨c, List.mem_map_of_mem hc, hreply'⟩
  · exact List.mem_filterMap.mpr ⟨cmd, List.mem_append_left _ hcmd, hreply⟩

/-- The receiver is dropped, and with it every command that was left. -/
theorem Kept.exit (h : Kept .down queue tasks log) :
    Kept .exited [] (queue.foldl (fun tasks cmd => settle tasks cmd.reply .lost) tasks) log where
  order := by
    obtain ⟨dropped, horder, hdropped⟩ := h.order
    refine ⟨queue, ?_, fun hne => absurd rfl hne⟩
    rw [horder, hdropped nofun]
    simp
  drained := fun _ => rfl
  once := h.once
  asks c hc j hreply := by
    obtain ⟨k, hk, hasks⟩ := h.asks c hc j hreply
    exact ⟨k, by rwa [kindAt_settle_all], hasks⟩
  refused j hj := by
    obtain ⟨t, ht⟩ : ∃ t, tasks[j]? = some t := ⟨_, List.getElem?_eq_getElem (h.refused j hj).1⟩
    have hkind : kindAt (queue.foldl (fun tasks cmd => settle tasks cmd.reply .lost) tasks) j
        = some t.kind := by
      rw [kindAt_settle_all, kindAt, ht]
      rfl
    obtain ⟨t', ht', -⟩ := Option.map_eq_some_iff.mp hkind
    exact ⟨(List.getElem?_eq_some_iff.mp ht').1, (h.refused j hj).2⟩
  knows j t' ht' := by
    obtain ⟨t, ht, ⟨rfl, hother⟩ | ⟨hwaiting, rfl⟩⟩ := getElem?_settle_all ht'
    · -- a task that does not wait for one of the commands is as it was
      exact (h.knows j t' ht).mono id id (fun hw c hc hreply => absurd hreply (hother hw c hc))
        (fun _ h => h) nofun
    · -- the command it waited for was in the channel
      obtain ⟨kind, pc⟩ := t
      obtain rfl : pc = .waiting := hwaiting
      obtain ⟨c, hc, hreply⟩ : ∃ c ∈ queue, c.reply = some j := h.knows j _ ht
      exact ⟨rfl, h.not_executed hc hreply⟩

/-- The thread goes on, with no command taken. -/
theorem Kept.setPhase (h : Kept phase queue tasks log) (hup : phase ≠ .exited)
    (hup' : phase' ≠ .exited) : Kept phase' queue tasks log where
  order := by
    obtain ⟨dropped, horder, hdropped⟩ := h.order
    exact ⟨dropped, horder, fun _ => hdropped hup⟩
  drained := fun hdown => absurd hdown hup'
  once := h.once
  asks := h.asks
  refused := h.refused
  knows j t ht := (h.knows j t ht).mono id id (fun _ _ hc _ => hc) (fun _ h => h)
    fun hdown => absurd hdown hup

/-- What a call makes of the reply it receives. -/
theorem received_cases (s : Sys W) (limits : Limits) (kind : CallKind) (r : Result Answer) :
    (s.received limits kind r).1 = .done (kind.answer r) ∨
      (s.received limits kind r).1 = .abandoned := by
  unfold received
  split
  · exact .inl rfl
  · split
    · exact .inl rfl
    · exact .inr rfl
    · exact .inl rfl
  · next hfile =>
    left
    cases kind with
    | file f call =>
      cases r with
      | error e => rfl
      | ok answer => exact absurd rfl (hfile f call answer rfl)
    | _ => rfl

theorem begin_cases (o : Opened) (call : FileCall) :
    o.begin call = .ready ∨ ∃ r, o.begin call = .done r := by
  unfold Opened.begin
  split
  · exact .inr ⟨_, rfl⟩
  · split
    · exact .inr ⟨_, rfl⟩
    · exact .inl rfl

/-- **Step lemma.** -/
theorem kept_step {a : Action} (h : Kept s.phase s.queue s.tasks log)
    (hstep : step lib limits s a = some s') :
    Kept s'.phase s'.queue s'.tasks (Log.next lib s a log) := by
  cases moved_of_step hstep with
  | call | shutdown | dropOpen => exact h.spawn _ (.inl rfl)
  | @fileCall f call o => exact h.spawn _ (begin_cases o call)
  | @close f o =>
    apply h.spawn _
    split
    · exact .inr ⟨_, rfl⟩
    · exact .inl rfl
  | dropClosed | letGo => exact h
  | @enqueue i kind cmd htask hup hcmd =>
    have hnext : Log.next lib s (.send i) log = { log with entered := log.entered ++ [cmd] } := by
      simp [Log.next, htask, hup, hcmd]
    rw [hnext]
    exact h.enqueue htask hup (asks_of_command hcmd)
  | @refuse i kind htask hexited =>
    have hnext : Log.next lib s (.send i) log = { log with refused := log.refused ++ [i] } := by
      simp [Log.next, htask, hexited]
    rw [hexited] at h
    rw [hnext]
    cases kind with
    | shutdown =>
      show Kept s.phase s.queue _ _
      rw [hexited]
      apply h.refuse htask
      split
      · exact .inl ⟨rfl, rfl⟩
      · exact .inr ⟨_, rfl, nofun⟩
    | drop f =>
      show Kept s.phase s.queue _ _
      rw [hexited]
      exact h.refuse htask (.inr ⟨_, rfl, nofun⟩)
    | session | file | close =>
      show Kept s.phase s.queue _ _
      rw [hexited]
      exact h.refuse htask (.inr ⟨_, rfl, fun _ => ⟨_, rfl⟩⟩)
  | @takeJoin i pc htask hpc =>
    apply h.setPc htask
    split
    · exact rfl
    · exact nofun
  | @joined i kind htask hexited =>
    refine h.setPc htask fun hanswered => ?_
    obtain rfl : kind = .shutdown := h.knows i _ htask
    cases hanswered
  -- the result it is woken with is the one the thread executed
  | @received i kind r htask hkind =>
    apply h.setPc htask
    have hresult : log.Executed i r := h.knows i _ htask
    rcases received_cases s limits kind r with hdone | hgone
    · rw [hdone]
      exact fun _ => .inl ⟨r, hresult, rfl⟩
    · rw [hgone]
      trivial
  | @disconnected i kind htask hkind =>
    obtain ⟨hexited, hnot⟩ := h.knows i _ htask
    exact h.setPc htask fun _ => .inr (.inl ⟨hexited, hnot, _, rfl⟩)
  | @abandon i kind pc htask => exact h.setPc htask trivial
  | @ran fuel req reply queue r actor hserving hqueue hrun =>
    have hnext : Log.next lib s (.serve fuel) log
        = { log with executed := log.executed ++ [(.run req reply, r)] } := by
      simp [Log.next, hqueue, hrun]
    rw [hserving, hqueue] at h
    rw [hnext]
    exact h.take (by simp [hserving]) r
  | @stopped fuel i queue hserving hqueue =>
    have hnext : Log.next lib s (.serve fuel) log
        = { log with executed := log.executed ++ [(.shutdown i, .ok .unit)] } := by
      simp [Log.next, hqueue]
    rw [hserving, hqueue] at h
    rw [hnext]
    have hleaving : Phase.leaving ≠ .exited := nofun
    exact h.take hleaving (.ok .unit)
  | hangUp hserving => exact h.setPhase (by simp [hserving]) nofun
  | teardown hleaving => exact h.setPhase (by simp [hleaving]) nofun
  | exit hdown =>
    rw [hdown] at h
    exact h.exit

theorem kept_init (w : W) : Kept (init w).phase (init w).queue (init w).tasks .empty where
  order := ⟨[], rfl, fun _ => rfl⟩
  drained := fun _ => rfl
  once := List.nodup_nil
  asks := nofun
  refused := nofun
  knows i t ht := by
    rw [init, List.getElem?_nil] at ht
    cases ht

/-! ### Calls come to an end -/

/-- Where a task is replaced by one that is no further from its end, none is further. -/
theorem left_set {j : Nat} (htask : tasks[j]? = some ⟨kind, pc⟩) (hle : pc'.left ≤ pc.left)
    (hi : tasks[i]? = some t) :
    ∃ t', (tasks.set j ⟨kind, pc'⟩)[i]? = some t' ∧ t'.pc.left ≤ t.pc.left := by
  by_cases hij : j = i
  · subst hij
    obtain rfl := Option.some.inj (htask.symm.trans hi)
    exact ⟨_, List.getElem?_set_self (List.getElem?_eq_some_iff.mp htask).1, hle⟩
  · exact ⟨t, by rw [List.getElem?_set_ne hij, hi], le_rfl⟩

theorem left_settle (reply : Option Nat) (hle : pc.left ≤ 3) (hi : tasks[i]? = some t) :
    ∃ t', (settle tasks reply pc)[i]? = some t' ∧ t'.pc.left ≤ t.pc.left := by
  rcases settle_cases tasks reply pc with hsame | ⟨j, kind, -, htask, hset⟩
  · exact ⟨t, by rw [hsame, hi], le_rfl⟩
  · rw [hset]
    exact left_set htask hle hi

theorem left_settle_all (hi : tasks[i]? = some t) : ∃ t',
    (queue.foldl (fun tasks cmd => settle tasks cmd.reply .lost) tasks)[i]? = some t' ∧
      t'.pc.left ≤ t.pc.left := by
  induction queue generalizing tasks t with
  | nil => exact ⟨t, hi, le_rfl⟩
  | cons cmd queue ih =>
    have hlost : Pc.lost.left ≤ 3 := by decide
    obtain ⟨u, hu, hle⟩ := left_settle cmd.reply hlost hi
    obtain ⟨t', ht', hle'⟩ := ih hu
    exact ⟨t', ht', le_trans hle' hle⟩

/-- A shutdown that has its answer waits for the thread, or is done. -/
theorem left_take (join : Bool) :
    (if join then Pc.joining else .done (.ok .unit)).left ≤ 1 := by
  cases join <;> decide

/-- A call that has its result is done, or its future is gone. -/
theorem left_received (s : Sys W) (limits : Limits) (kind : CallKind) (r : Result Answer) :
    (s.received limits kind r).1.left = 0 := by
  rcases received_cases s limits kind r with hdone | hgone
  · rw [hdone]
    rfl
  · rw [hgone]
    rfl

/-- **Step lemma.** No step takes a call further from its end. -/
theorem left_step {a : Action} (hi : s.tasks[i]? = some t)
    (hstep : step lib limits s a = some s') :
    ∃ t', s'.tasks[i]? = some t' ∧ t'.pc.left ≤ t.pc.left := by
  have hlt : i < s.tasks.length := (List.getElem?_eq_some_iff.mp hi).1
  have hspawn : ∀ u, ∃ t', (s.tasks ++ [u])[i]? = some t' ∧ t'.pc.left ≤ t.pc.left :=
    fun u => ⟨t, by rw [List.getElem?_append_left hlt, hi], le_rfl⟩
  have htake := left_take s.join
  have hdelivered : ∀ r, (Pc.delivered r).left ≤ 3 := fun _ => (by decide : 2 ≤ 3)
  cases moved_of_step hstep with
  | call | shutdown | fileCall | close | dropOpen => exact hspawn _
  | dropClosed | letGo | hangUp | teardown => exact ⟨t, hi, le_rfl⟩
  | enqueue htask =>
    refine left_set htask ?_ hi
    split <;> decide
  -- only a shutdown goes on to the join after a refusal
  | @refuse j kind htask =>
    cases kind with
    | shutdown => exact left_set htask (le_trans htake (by decide)) hi
    | session | file | close | drop => exact left_set htask (Nat.zero_le _) hi
  | @takeJoin j pc htask hpc =>
    refine left_set htask (le_trans htake ?_) hi
    rcases hpc with rfl | ⟨r, rfl⟩ <;> exact (by decide : 1 ≤ 2)
  | joined htask | disconnected htask | abandon htask => exact left_set htask (Nat.zero_le _) hi
  | @received j kind r htask =>
    refine left_set htask ?_ hi
    rw [left_received]
    exact Nat.zero_le _
  | @ran _ _ _ _ r => exact left_settle _ (hdelivered r) hi
  | stopped => exact left_settle (some _) (hdelivered (.ok .unit)) hi
  | exit => exact left_settle_all hi

/-- Once the thread is over it stays so. -/
theorem exited_step {a : Action} (h : s.phase = .exited) (hstep : step lib limits s a = some s') :
    s'.phase = .exited := by
  cases moved_of_step hstep with
  | ran hphase | stopped hphase | hangUp hphase | teardown hphase | exit hphase =>
    exact absurd (h.symm.trans hphase) nofun
  | @refuse i kind => cases kind <;> exact h
  | _ => exact h

/-- A task's own step takes it nearer to its end. -/
theorem left_lt_of_own {a : Action} (hown : a = .send i ∨ a = .wake i) (hi : s.tasks[i]? = some t)
    (hstep : step lib limits s a = some s') :
    ∃ t', s'.tasks[i]? = some t' ∧ t'.pc.left < t.pc.left := by
  have hset : ∀ {kind : CallKind} {pc pc' : Pc}, s.tasks[i]? = some ⟨kind, pc⟩ →
      pc'.left < pc.left →
      ∃ t', (s.tasks.set i ⟨kind, pc'⟩)[i]? = some t' ∧ t'.pc.left < t.pc.left := by
    intro kind pc pc' htask hlt
    obtain rfl := Option.some.inj (htask.symm.trans hi)
    exact ⟨_, List.getElem?_set_self (List.getElem?_eq_some_iff.mp htask).1, hlt⟩
  have htake := left_take s.join
  rcases hown with rfl | rfl
  · cases moved_of_step hstep with
    | enqueue htask =>
      -- a command that is sent waits for its reply, or has none to wait for
      apply hset htask
      split
      · exact (by decide : 3 < 4)
      · exact (by decide : 0 < 4)
    | @refuse _ kind htask =>
      -- the channel is gone: a shutdown goes on to join, and every other call ends
      cases kind with
      | shutdown => exact hset htask (lt_of_le_of_lt htake (by decide : 1 < 4))
      | session | file | close | drop => exact hset htask (by decide : 0 < 4)
  · cases moved_of_step hstep with
    | takeJoin htask hpc =>
      refine hset htask (lt_of_le_of_lt htake ?_)
      rcases hpc with rfl | ⟨r, rfl⟩ <;> exact (by decide : 1 < 2)
    | joined htask => exact hset htask (by decide : 0 < 1)
    | @received _ kind r htask =>
      apply hset htask
      rw [left_received]
      exact (by decide : 0 < 2)
    | disconnected htask => exact hset htask (by decide : 0 < 2)

/-- Once the thread is over, a call that has not ended can go on by itself. -/
theorem exists_own_step (h : Kept s.phase s.queue s.tasks log) (hexited : s.phase = .exited)
    (hi : s.tasks[i]? = some t) (hover : t.pc.over = false) :
    ∃ a s', (a = .send i ∨ a = .wake i) ∧ step lib limits s a = some s' := by
  have hwake : ∀ {s'}, s.resume limits i t = some s' → step lib limits s (.wake i) = some s' := by
    intro s' hresume
    rw [step, hi]
    exact hresume
  obtain ⟨kind, pc⟩ := t
  cases pc with
  | ready => exact ⟨.send i, s.refuse i kind, .inl rfl, by simp [step, hi, hexited]⟩
  | waiting =>
    -- its command would still be in the channel
    obtain ⟨cmd, hcmd, -⟩ : ∃ cmd ∈ s.queue, cmd.reply = some i := h.knows i _ hi
    rw [h.drained hexited] at hcmd
    cases hcmd
  | delivered r =>
    cases kind with
    | shutdown | session | file | close | drop => exact ⟨.wake i, _, .inr rfl, hwake rfl⟩
  | lost =>
    cases kind with
    | shutdown | session | file | close | drop => exact ⟨.wake i, _, .inr rfl, hwake rfl⟩
  | joining =>
    obtain rfl : kind = .shutdown := h.knows i _ hi
    exact ⟨.wake i, _, .inr rfl, hwake (if_pos hexited)⟩
  | done r | abandoned => cases hover

/-! ### The answers of a session -/

/-- **Step lemma.** Past its loop the thread executes nothing. -/
theorem executed_step {a : Action} (h : s.phase ≠ .serving)
    (hstep : step lib limits s a = some s') :
    s'.phase ≠ .serving ∧ (Log.next lib s a log).executed = log.executed := by
  have hsend : ∀ i, (Log.next lib s (.send i) log).executed = log.executed := by
    intro i
    simp only [Log.next]
    split
    · split <;> rfl
    · rfl
  cases moved_of_step hstep with
  | ran hserving | stopped hserving | hangUp hserving => exact absurd hserving h
  | enqueue => exact ⟨h, hsend _⟩
  | @refuse i kind => exact ⟨by cases kind <;> exact h, hsend _⟩
  | teardown | exit => exact ⟨nofun, rfl⟩
  | _ => exact ⟨h, rfl⟩

/-- What was recorded stays. -/
theorem log_mono (lib : Libsmb2 W) (s : Sys W) (a : Action) (log : Log) (i : Nat) :
    (log.Entered i → (Log.next lib s a log).Entered i) ∧
    (i ∈ log.refused → i ∈ (Log.next lib s a log).refused) := by
  unfold Log.next
  split
  · split
    · split
      · exact ⟨id, List.mem_append_left _⟩
      · exact ⟨fun ⟨c, hc, hreply⟩ => ⟨c, List.mem_append_left _ hc, hreply⟩, id⟩
    · exact ⟨id, id⟩
  · split
    · split <;> exact ⟨id, id⟩
    · exact ⟨id, id⟩
    · exact ⟨id, id⟩
  · exact ⟨id, id⟩

/-- Where a call stands that has the result of its command. -/
def Got (kind : CallKind) (r : Result Answer) : Pc → Prop
  | .delivered r' => r' = r
  | .done r' => kind.answered = true → r' = kind.answer r
  | .joining => kind = .shutdown
  | .abandoned => True
  | .ready | .waiting | .lost => False

/-- A call ends: it can go on by itself unless it has ended, and whoever moves, it is no further
    from its end. -/
structure Ending (lib : Libsmb2 W) (limits : Limits) (s : Sys W) (i : Nat) (t : Task) : Prop where
  own : t.pc.over = false → ∃ a s' t', (a = .send i ∨ a = .wake i) ∧
    step lib limits s a = some s' ∧ s'.tasks[i]? = some t' ∧ t'.pc.left < t.pc.left
  any : ∀ a s', step lib limits s a = some s' →
    s'.phase = .exited ∧ ∃ t', s'.tasks[i]? = some t' ∧ t'.pc.left ≤ t.pc.left

/-- What a session's callers can rely on. -/
structure Answered (lib : Libsmb2 W) (limits : Limits) (s : Sys W) (log : Log) : Prop where
  /-- commands are executed in the order they entered, each at most once -/
  order : ∃ dropped, log.entered = log.executed.map Prod.fst ++ s.queue ++ dropped ∧
    (s.phase ≠ .exited → dropped = [])
  /-- no two commands reply to one call -/
  once : (log.entered.filterMap Command.reply).Nodup
  /-- a call whose command was executed has the result of that command -/
  own : ∀ cmd r i t, (cmd, r) ∈ log.executed → cmd.reply = some i → s.tasks[i]? = some t →
    t.kind.Asks i cmd ∧ Got t.kind r t.pc
  /-- a call whose command was not executed fails with `ConnectionLost` -/
  lost : ∀ i kind r, s.tasks[i]? = some ⟨kind, .done r⟩ → kind.answered = true →
    (log.Entered i ∨ i ∈ log.refused) → (∀ r', ¬ log.Executed i r') → IsLost r
  /-- past its loop, the thread executes neither what is queued nor what comes later -/
  behind : s.phase ≠ .serving → ∀ i, ((∃ cmd ∈ s.queue, cmd.reply = some i) ∨ i ∈ log.refused) →
    ∀ acts s', Lts.run (step lib limits) s acts = some s' →
      (∀ r, ¬ (Lts.history (step lib limits) (Log.next lib) s log acts).Executed i r) ∧
      ∀ kind r, s'.tasks[i]? = some ⟨kind, .done r⟩ → kind.answered = true → IsLost r
  /-- no call waits forever once the thread is over -/
  ends : s.phase = .exited → ∀ i t, s.tasks[i]? = some t → Ending lib limits s i t

/-- A call has one result. -/
theorem Kept.executed_unique (h : Kept phase queue tasks log) {r r' : Result Answer}
    (hr : log.Executed i r) (hr' : log.Executed i r') : r = r' := by
  obtain ⟨dropped, horder, -⟩ := h.order
  have honce := h.once
  rw [horder, List.append_assoc, List.filterMap_append, List.nodup_append] at honce
  have hnodup : (log.executed.filterMap fun e => e.1.reply).Nodup := by
    simpa [List.filterMap_map, Function.comp_def] using honce.1
  obtain ⟨cmd, hcmd, hreply⟩ := hr
  obtain ⟨cmd', hcmd', hreply'⟩ := hr'
  exact congrArg Prod.snd (Assoc.eq_of_nodup_filterMap hnodup hcmd hcmd' hreply hreply')

/-- Where a call stands whose command was executed. -/
theorem Kept.got (h : Kept phase queue tasks log) {r : Result Answer} (hr : log.Executed i r)
    (hi : tasks[i]? = some ⟨kind, pc⟩) : Got kind r pc := by
  have hknows := h.knows i _ hi
  have hentered := h.entered_of_executed hr
  cases pc with
  | ready => exact absurd hentered hknows.1
  | waiting =>
    obtain ⟨cmd, hcmd, hreply⟩ : ∃ cmd ∈ queue, cmd.reply = some i := hknows
    exact absurd hr (h.not_executed hcmd hreply r)
  | delivered r' => exact h.executed_unique hknows hr
  | lost => exact absurd hr (hknows.2 r)
  | joining => exact hknows
  | done r' =>
    intro hanswered
    rcases hknows hanswered with ⟨r₀, hr₀, rfl⟩ | ⟨-, hnot, -⟩ | ⟨hnot, -⟩
    · rw [h.executed_unique hr₀ hr]
    · exact absurd hr (hnot r)
    · exact absurd hentered hnot
  | abandoned => trivial

/-- Where a call has ended whose command was not executed. -/
theorem Kept.lost (h : Kept phase queue tasks log) {r : Result Answer}
    (hi : tasks[i]? = some ⟨kind, .done r⟩) (hanswered : kind.answered = true)
    (hsent : log.Entered i ∨ i ∈ log.refused) (hnot : ∀ r', ¬ log.Executed i r') : IsLost r := by
  rcases h.knows i _ hi hanswered with ⟨r₀, hr₀, -⟩ | ⟨-, -, hlost⟩ | ⟨hent, href⟩
  · exact absurd hr₀ (hnot r₀)
  · exact hlost
  · rcases hsent with he | hr
    · exact absurd he hent
    · exact absurd hr href

/-- What comes behind the end of the loop. -/
theorem Kept.behind (h : Kept s.phase s.queue s.tasks log) (hleft : s.phase ≠ .serving)
    (hsent : (∃ cmd ∈ s.queue, cmd.reply = some i) ∨ i ∈ log.refused) {acts : List Action}
    (hrun : Lts.run (step lib limits) s acts = some s') :
    (∀ r, ¬ (Lts.history (step lib limits) (Log.next lib) s log acts).Executed i r) ∧
    ∀ kind r, s'.tasks[i]? = some ⟨kind, .done r⟩ → kind.answered = true → IsLost r := by
  have hsent' : log.Entered i ∨ i ∈ log.refused := by
    refine hsent.imp_left fun ⟨cmd, hcmd, hreply⟩ => ?_
    obtain ⟨dropped, horder, -⟩ := h.order
    refine ⟨cmd, ?_, hreply⟩
    rw [horder]
    exact List.mem_append_left _ (List.mem_append_right _ hcmd)
  -- and it was not executed before
  have hnot : ∀ r, ¬ log.Executed i r := by
    intro r hr
    rcases hsent with ⟨cmd, hcmd, hreply⟩ | href
    · exact h.not_executed hcmd hreply r hr
    · exact (h.refused i href).2 (h.entered_of_executed hr)
  -- from here on the log keeps what it says of the call
  have hrest := Lts.history_invariant (Log.next lib)
    (I := fun s' log' => Kept s'.phase s'.queue s'.tasks log' ∧ s'.phase ≠ .serving ∧
      log'.executed = log.executed ∧ (log'.Entered i ∨ i ∈ log'.refused))
    (fun u l a u' hu hstep => by
      obtain ⟨hkept, hphase, hsame, hl⟩ := hu
      obtain ⟨hphase', hsame'⟩ := executed_step hphase hstep
      obtain ⟨hent, href⟩ := log_mono lib u a l i
      exact ⟨kept_step hkept hstep, hphase', hsame'.trans hsame, hl.imp hent href⟩)
    ⟨h, hleft, rfl, hsent'⟩ hrun
  obtain ⟨hkept, -, hsame, hl⟩ := hrest
  have hnot' : ∀ r,
      ¬ (Lts.history (step lib limits) (Log.next lib) s log acts).Executed i r := by
    rintro r ⟨cmd, hcmd, hreply⟩
    rw [hsame] at hcmd
    exact hnot r ⟨cmd, hcmd, hreply⟩
  exact ⟨hnot', fun kind r hi hanswered => hkept.lost hi hanswered hl hnot'⟩

/-- **Every call gets its own answer**, in every run of the session, however the calls of its
    tasks are interleaved and whichever of them are given up. -/
theorem answered {w : W} {acts : List Action}
    (hrun : Lts.run (step lib limits) (init w) acts = some s) :
    Answered lib limits s (Lts.history (step lib limits) (Log.next lib) (init w) .empty acts) := by
  have h : Kept s.phase s.queue s.tasks
      (Lts.history (step lib limits) (Log.next lib) (init w) .empty acts) :=
    Lts.history_invariant (Log.next lib)
      (I := fun s log => Kept s.phase s.queue s.tasks log) (fun _ _ _ _ => kept_step) (kept_init w)
      hrun
  refine ⟨h.order, h.once, ?_, ?_, ?_, ?_⟩
  · intro cmd r i t hcmd hreply hi
    have hr : (Lts.history (step lib limits) (Log.next lib) (init w) .empty acts).Executed i r :=
      ⟨cmd, hcmd, hreply⟩
    refine ⟨?_, h.got hr hi⟩
    -- what was executed had entered the channel
    obtain ⟨dropped, horder, -⟩ := h.order
    have hentered : cmd ∈
        (Lts.history (step lib limits) (Log.next lib) (init w) .empty acts).entered := by
      rw [horder]
      exact List.mem_append_left _ (List.mem_append_left _ (List.mem_map_of_mem hcmd))
    obtain ⟨kind, hkind, hasks⟩ := h.asks cmd hentered i hreply
    rw [kindAt, hi] at hkind
    obtain rfl := Option.some.inj hkind
    exact hasks
  · exact fun i kind r hi hanswered hsent hnot => h.lost hi hanswered hsent hnot
  · exact fun hleft i hsent acts' s' hrun' => h.behind hleft hsent hrun'
  · intro hexited i t hi
    -- the thread is gone: the task has a step of its own, and each brings it nearer to its end
    refine ⟨fun hover => ?_, fun a s' hstep => ⟨exited_step hexited hstep, left_step hi hstep⟩⟩
    obtain ⟨a, s', hown, hstep⟩ := exists_own_step h hexited hi hover
    obtain ⟨t', ht', hlt⟩ := left_lt_of_own hown hi hstep
    exact ⟨a, s', t', hown, hstep, ht', hlt⟩

end Sys

/-- A call is answered, one is queued behind a shutdown, and one comes after the end. -/
def overtaken : List Action :=
  [.call (.stat ⟨"/a"⟩), .shutdown, .call (.mkdir ⟨"/b"⟩), .send 0, .send 1, .send 2, .serve 0,
    .wake 0, .serve 0, .teardown, .call (.list ⟨"/"⟩), .exit, .send 3, .wake 1, .wake 2, .wake 1]

/-- What they are answered. -/
theorem answered_overtaken : ∃ s,
    Lts.run (Sys.step (MemServer.lib .none) ⟨1, 1, by decide, by decide⟩)
      (Sys.init (MemServer.holding "a" (.file [1, 2, 3]))) overtaken = some s ∧
    s.tasks.map Task.pc = [.done (.ok (.metadata (.file 3))), .done (.ok .unit),
      .done (.error (.connectionLost "the SMB session ended without replying")),
      .done (.error (.connectionLost "the SMB session thread has exited"))] ∧
    Sys.Answered (MemServer.lib .none) ⟨1, 1, by decide, by decide⟩ s
      (Lts.history (Sys.step (MemServer.lib .none) ⟨1, 1, by decide, by decide⟩)
        (Log.next (MemServer.lib .none)) (Sys.init (MemServer.holding "a" (.file [1, 2, 3])))
        .empty overtaken) := by
  have hrun : (Lts.run (Sys.step (MemServer.lib .none) ⟨1, 1, by decide, by decide⟩)
      (Sys.init (MemServer.holding "a" (.file [1, 2, 3]))) overtaken).map
        (fun s => s.tasks.map Task.pc)
      = some [.done (.ok (.metadata (.file 3))), .done (.ok .unit),
          .done (.error (.connectionLost "the SMB session ended without replying")),
          .done (.error (.connectionLost "the SMB session thread has exited"))] := by
    decide +kernel
  obtain ⟨s, hrun, hpcs⟩ := Option.map_eq_some_iff.mp hrun
  exact ⟨s, hrun, hpcs, Sys.answered hrun⟩

end Krystallos.Smb
