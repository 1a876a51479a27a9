import Krystallos.Lib.Linear
import Krystallos.Smb.Answers

namespace Krystallos.Smb

open Lts Prog Linear

/-!
# The session is linearizable

Any number of tasks share a session, and each sees it as if it were alone: the requests that
the thread executed, in its order, are a sequence that one caller could have made, with the
same results and the same state at the end, and a call that had returned before another was
made comes before it.
-/

variable {W : Type}

/-- One request on the state of the session thread. -/
def Execs (lib : Libsmb2 W) (actor : Actor W) (req : Request) (r : Result Answer)
    (actor' : Actor W) : Prop :=
  ∃ fuel, execute lib fuel req actor = .ok (r, actor')

/-- The requests among what was executed. -/
def Log.runs (log : Log) : List (Linear.Entry Nat Request (Result Answer)) :=
  log.executed.filterMap fun e =>
    match e.1 with
    | .run req reply => some ⟨reply, req, e.2⟩
    | .shutdown _ => none

/-- The requests that were executed. -/
theorem Log.mem_runs {log : Log} {e : Linear.Entry Nat Request (Result Answer)} :
    e ∈ log.runs ↔ (.run e.op e.caller, e.ret) ∈ log.executed := by
  rw [Log.runs, List.mem_filterMap]
  constructor
  · rintro ⟨⟨cmd, r⟩, hmem, hentry⟩
    cases cmd with
    | run req reply =>
      cases hentry
      exact hmem
    | shutdown i => cases hentry
  · exact fun hmem => ⟨_, hmem, rfl⟩

namespace Sys

variable {lib : Libsmb2 W} {limits : Limits} {s s' : Sys W} {log : Log} {i : Nat}

/-- The call was made. -/
def Began (s : Sys W) (i : Nat) : Prop := i < s.tasks.length

/-- The call returned. -/
def Returned (s : Sys W) (i : Nat) : Prop := ∃ kind r, s.tasks[i]? = some ⟨kind, .done r⟩

/-- The calls of a run that ended in `s`. One that was not executed and fails because the session is
    gone returns nothing of it, nor does one that had nothing to ask. -/
def calls (lib : Libsmb2 W) (limits : Limits) (w : W) (acts : List Action) (s : Sys W) :
    Calls Nat Request (Result Answer) where
  asked i req := ∃ kind, kindAt s.tasks i = some kind ∧ kind.Asks i (.run req (some i))
  returned i :=
    let log := Lts.history (step lib limits) (Log.next lib) (init w) .empty acts
    log.Entered i ∧ ∃ kind r, s.tasks[i]? = some ⟨kind, .done r⟩ ∧ kind.answered = true ∧
      ((∃ r₀, log.Executed i r₀) ∨ ¬ IsLost r)
  gives i r := ∃ kind, s.tasks[i]? = some ⟨kind, .done (kind.answer r)⟩
  before := Before (step lib limits) Began Returned (init w) acts

/-! ### What a step adds -/

/-- A call that returned stays as it is. -/
theorem returned_step {a : Action} {kind : CallKind} {r : Result Answer}
    (hi : s.tasks[i]? = some ⟨kind, .done r⟩) (hstep : step lib limits s a = some s') :
    s'.tasks[i]? = some ⟨kind, .done r⟩ := by
  have hlt : i < s.tasks.length := (List.getElem?_eq_some_iff.mp hi).1
  have hspawn : ∀ u, (s.tasks ++ [u])[i]? = some ⟨kind, .done r⟩ :=
    fun u => (List.getElem?_append_left hlt).trans hi
  -- a task that goes on is another one
  have hset : ∀ {j k pc u}, s.tasks[j]? = some ⟨k, pc⟩ → pc.over = false →
      (s.tasks.set j u)[i]? = some ⟨kind, .done r⟩ := by
    intro j k pc u hj hopen
    rw [List.getElem?_set_ne, hi]
    rintro rfl
    obtain ⟨rfl, rfl⟩ := Task.mk.inj (Option.some.inj (hj.symm.trans hi))
    cases hopen
  have hsettle : ∀ (tasks : List Task) (reply : Option Nat) (pc : Pc),
      tasks[i]? = some ⟨kind, .done r⟩ →
      (settle tasks reply pc)[i]? = some ⟨kind, .done r⟩ := by
    intro tasks reply pc hi
    rcases settle_cases tasks reply pc with hsame | ⟨j, k, -, hj, hsome⟩
    · rw [hsame, hi]
    · rw [hsome, List.getElem?_set_ne, hi]
      rintro rfl
      cases hj.symm.trans hi
  cases moved_of_step hstep with
  | call | shutdown | fileCall | close | dropOpen => exact hspawn _
  | dropClosed | letGo | hangUp | teardown => exact hi
  | enqueue htask => exact hset htask rfl
  | @refuse j k htask => cases k <;> exact hset htask rfl
  | takeJoin htask hpc => exact hset htask (by rcases hpc with rfl | ⟨r, rfl⟩ <;> rfl)
  | joined htask | received htask | disconnected htask => exact hset htask rfl
  | @abandon j k pc htask hawait =>
    apply hset htask
    cases pc with
    | done | ready | abandoned => cases hawait
    | waiting | delivered | lost | joining => rfl
  | ran => exact hsettle _ _ _ hi
  | stopped => exact hsettle _ (some _) _ hi
  | exit =>
    have hall : ∀ (queue : List Command) (tasks : List Task), tasks[i]? = some ⟨kind, .done r⟩ →
        (queue.foldl (fun tasks cmd => settle tasks cmd.reply .lost) tasks)[i]?
          = some ⟨kind, .done r⟩ := by
      intro queue
      induction queue with
      | nil => exact fun _ hi => hi
      | cons cmd queue ih => exact fun tasks hi => ih _ (hsettle tasks cmd.reply .lost hi)
    exact hall s.queue s.tasks hi

/-- What the thread did in a step: it executed a request, it took its state down, or neither. -/
inductive Did (lib : Libsmb2 W) (s s' : Sys W) (log log' : Log) : Prop
  | request {req : Request} {reply : Option Nat} {queue : List Command} {r : Result Answer}
      (hserving : s.phase = .serving) (hserving' : s'.phase = .serving)
      (hqueue : s.queue = .run req reply :: queue) (hexec : Execs lib s.actor req r s'.actor)
      (hruns : log'.runs = log.runs ++ [⟨reply, req, r⟩])
  | teardown {r : Result Unit} (hleaving : s.phase = .leaving) (hdown : s'.phase = .down)
      (hrun : Smb.teardown lib s.actor = .ok (r, s'.actor)) (hruns : log'.runs = log.runs)
  | idle (hended : s'.Ended ↔ s.Ended) (hactor : s'.actor = s.actor) (hruns : log'.runs = log.runs)

/-- **What a step does** to the thread, and to the record of it. -/
theorem did_of_step {a : Action} (hstep : step lib limits s a = some s') :
    Did lib s s' log (Log.next lib s a log) := by
  have hsend : ∀ i, (Log.next lib s (.send i) log).runs = log.runs := by
    intro i
    have hexecuted : (Log.next lib s (.send i) log).executed = log.executed := by
      simp only [Log.next]
      split
      · split <;> rfl
      · rfl
    rw [Log.runs, hexecuted, Log.runs]
  cases moved_of_step hstep with
  | call | shutdown | fileCall | close | dropOpen => exact .idle Iff.rfl rfl rfl
  | dropClosed | letGo => exact .idle Iff.rfl rfl rfl
  | enqueue => exact .idle Iff.rfl rfl (hsend _)
  | @refuse i kind => cases kind <;> exact .idle Iff.rfl rfl (hsend _)
  | takeJoin | joined | received | disconnected | abandon => exact .idle Iff.rfl rfl rfl
  | @ran fuel req reply queue r actor hserving hqueue hrun =>
    refine .request hserving hserving hqueue ⟨fuel, hrun⟩ ?_
    simp [Log.next, Log.runs, hqueue, hrun]
  | stopped hserving hqueue =>
    refine .idle ⟨?_, fun hended => absurd hended (not_ended_of_serving hserving)⟩ rfl ?_
    · rintro (hdown | hdown) <;> cases hdown
    · simp [Log.next, Log.runs, hqueue]
  | hangUp hserving =>
    refine .idle ⟨?_, fun hended => absurd hended (not_ended_of_serving hserving)⟩ rfl rfl
    rintro (hdown | hdown) <;> cases hdown
  | teardown hleaving hrun => exact .teardown hleaving rfl hrun rfl
  | exit hdown => exact .idle ⟨fun _ => .inl hdown, fun _ => .inr rfl⟩ rfl rfl

/-- What was executed had entered the channel. -/
theorem Kept.entered_of_mem {phase : Phase} {queue : List Command} {tasks : List Task}
    {cmd : Command} {r : Result Answer} (h : Kept phase queue tasks log)
    (hmem : (cmd, r) ∈ log.executed) : cmd ∈ log.entered := by
  obtain ⟨dropped, horder, -⟩ := h.order
  rw [horder]
  exact List.mem_append_left _ (List.mem_append_left _ (List.mem_map_of_mem hmem))

/-- A command that is still in the channel is for a call that has not returned. -/
theorem Kept.not_returned (h : Kept s.phase s.queue s.tasks log) (hserving : s.phase = .serving)
    {req : Request} {queue : List Command} (hqueue : s.queue = .run req (some i) :: queue) :
    ¬ s.Returned i := by
  rintro ⟨kind, r, hi⟩
  have hmem : Command.run req (some i) ∈ s.queue := by simp [hqueue]
  have hentered : Command.run req (some i) ∈ log.entered := by
    obtain ⟨dropped, horder, -⟩ := h.order
    rw [horder]
    exact List.mem_append_left _ (List.mem_append_right _ hmem)
  obtain ⟨kind', hkind, hasks⟩ := h.asks _ hentered i rfl
  obtain rfl : kind = kind' := by simpa [kindAt, hi] using hkind
  have hanswered : kind.answered = true := by
    cases kind with
    | session | file | close => rfl
    | shutdown => cases hasks
    | drop => exact hasks.elim
  rcases h.knows i _ hi hanswered with ⟨r₀, hr₀, -⟩ | ⟨hexited, -⟩ | ⟨hnot, -⟩
  · exact h.not_executed hmem rfl r₀ hr₀
  · rw [hserving] at hexited
    cases hexited
  · exact hnot ⟨_, hentered, rfl⟩

/-! ### Runs -/

/-- The state of the thread is what its requests made of it, one after the other. -/
def Replayed (lib : Libsmb2 W) (actor : Actor W) (s : Sys W) (log : Log) : Prop :=
  ∃ a, Runs (Execs lib) actor log.runs a ∧ (¬ s.Ended → s.actor = a) ∧
    (s.Ended → ∃ r, Smb.teardown (ε := Error) lib a = .ok (r, s.actor))

/-- **Step lemma.** -/
theorem replayed_step {actor : Actor W} {a : Action} (h : Replayed lib actor s log)
    (hstep : step lib limits s a = some s') : Replayed lib actor s' (Log.next lib s a log) := by
  obtain ⟨x, hruns, hx, hended⟩ := h
  have hdid : Did lib s s' log (Log.next lib s a log) := did_of_step hstep
  cases hdid with
  | request hserving hserving' hqueue hexec hlog =>
    have hup := hx (not_ended_of_serving hserving)
    rw [hup] at hexec
    refine ⟨s'.actor, ?_, fun _ => rfl, fun hdown => absurd hdown (not_ended_of_serving hserving')⟩
    rw [hlog]
    exact .snoc hruns hexec
  | @teardown r hleaving hdown hrun hlog =>
    rw [hx (not_ended_of_leaving hleaving)] at hrun
    rw [← hlog] at hruns
    exact ⟨x, hruns, fun hnot => absurd (.inl hdown) hnot, fun _ => ⟨r, hrun⟩⟩
  | idle hiff hactor hlog =>
    rw [← hlog] at hruns
    refine ⟨x, hruns, fun hnot => ?_, fun hend => ?_⟩
    · rw [hactor]
      exact hx fun hend => hnot (hiff.mpr hend)
    · rw [hactor]
      exact hended (hiff.mp hend)

/-- The session keeps a list, and adds to it only what a call under way asks for. -/
theorem records (lib : Libsmb2 W) (limits : Limits) (actor : Actor W) :
    Records (step lib limits) (Log.next lib) Log.runs Began Returned
      fun s log => Kept s.phase s.queue s.tasks log ∧ Replayed lib actor s log where
  keeps s log a s' h hstep := ⟨kept_step h.1 hstep, replayed_step h.2 hstep⟩
  adds s log a s' h hstep := by
    have hdid : Did lib s s' log (Log.next lib s a log) := did_of_step hstep
    cases hdid with
    | @request req reply queue r hserving hserving' hqueue hexec hlog =>
      refine ⟨[⟨reply, req, r⟩], hlog, fun e he i hi => ?_⟩
      rw [List.mem_singleton.mp he] at hi
      subst hi
      exact h.1.not_returned hserving hqueue
    | teardown hleaving hdown hrun hlog | idle hiff hactor hlog =>
      refine ⟨[], hlog.trans (List.append_nil _).symm, fun e he => ?_⟩
      cases he
  begun s log h e he i hi := by
    apply h.1.lt_of_entered
    exact h.1.entered_of_executed ⟨_, Log.mem_runs.mp he, hi⟩
  stays s a s' i hstep hi := by
    obtain ⟨kind, r, hi⟩ := hi
    exact ⟨kind, r, returned_step hi hstep⟩

/-- **The session is linearizable**: in every run in which no command panics, whichever calls overlap
    and whichever are given up, what the thread executed explains the result of every call that was
    executed, and every other result but that the session is gone. -/
theorem linearizable {w : W} {acts : List Action}
    (hrun : Lts.run (step lib limits) (init w) acts = some s) :
    ∃ a, Linearization (Execs lib) (init w).actor a (calls lib limits w acts s)
        (Lts.history (step lib limits) (Log.next lib) (init w) .empty acts).runs ∧
      (¬ s.Ended → s.actor = a) ∧
      (s.Ended → ∃ r, Smb.teardown (ε := Error) lib a = .ok (r, s.actor)) := by
  have hrec := records lib limits (init w).actor
  have hinit : Kept (init w).phase (init w).queue (init w).tasks .empty ∧
      Replayed lib (init w).actor (init w) .empty := by
    refine ⟨kept_init w, _, .nil, fun _ => rfl, ?_⟩
    rintro (hdown | hdown) <;> cases hdown
  obtain ⟨h, a, hruns, hstate⟩ := history_invariant (Log.next lib)
    (fun s log a s' => hrec.keeps s log a s') hinit hrun
  refine ⟨a, ⟨hruns, ?_, ?_, ?_, respects_realTime hrec hinit hrun⟩, hstate⟩
  · -- the replies are those of a front part of what entered, less those of shutdowns
    obtain ⟨dropped, horder, -⟩ := h.order
    have honce := h.once
    rw [horder, List.append_assoc, List.filterMap_append, List.nodup_append,
      List.filterMap_map] at honce
    refine honce.1.sublist ?_
    rw [Log.runs, List.filterMap_filterMap]
    generalize (Lts.history (step lib limits) (Log.next lib) (init w) .empty acts).executed = l
    induction l with
    | nil => exact .slnil
    | cons e l ih =>
      obtain ⟨cmd, r⟩ := e
      cases cmd with
      | run req reply =>
        cases reply with
        | none => exact ih
        | some i => exact ih.cons_cons i
      | shutdown i => exact ih.cons i
  · intro e he i hi
    obtain ⟨reply, req, r⟩ := e
    obtain rfl : reply = some i := hi
    exact h.asks _ (h.entered_of_mem (Log.mem_runs.mp he)) i rfl
  · rintro i ⟨hentered, kind, r, hi, hanswered, hexplained⟩
    rcases h.knows i _ hi hanswered with ⟨r₀, ⟨cmd, hcmd, hreply⟩, rfl⟩ | ⟨-, hnone, hlost⟩ |
      ⟨hent, -⟩
    · cases cmd with
      | run req reply => exact ⟨⟨reply, req, r₀⟩, Log.mem_runs.mpr hcmd, hreply, kind, hi⟩
      | shutdown j =>
        -- a shutdown makes nothing of what it is answered
        obtain ⟨k, hk, hasks⟩ := h.asks _ (h.entered_of_mem hcmd) i hreply
        obtain rfl : kind = k := by simpa [kindAt, hi] using hk
        cases kind with
        | session | shutdown | drop => cases hasks <;> cases hanswered
        | file | close =>
          obtain ⟨_, hasks⟩ := hasks
          cases hasks
    · rcases hexplained with ⟨r₀, hr₀⟩ | hnot
      · exact absurd hr₀ (hnone r₀)
      · exact absurd hlost hnot
    · exact absurd hentered hent

end Sys

/-- Of two opens of a file the later one is sent first, and the other is given up; a `stat` comes
    when one of them has returned. -/
def overlapping : List Action :=
  [.call (.openFile ⟨"/a"⟩ .reading), .call (.openFile ⟨"/a"⟩ .reading), .send 1, .send 0,
    .abandon 0, .serve 0, .wake 1, .call (.stat ⟨"/a"⟩), .send 2, .serve 0, .serve 0, .wake 2]

/-- The later one takes effect first. -/
theorem linearizable_overlapping : ∃ s a,
    Lts.run (Sys.step (MemServer.lib .none) ⟨1, 1, by decide, by decide⟩)
      (Sys.init (MemServer.holding "a" (.file [1, 2, 3]))) overlapping = some s ∧
    (Lts.history (Sys.step (MemServer.lib .none) ⟨1, 1, by decide, by decide⟩)
      (Log.next (MemServer.lib .none)) (Sys.init (MemServer.holding "a" (.file [1, 2, 3])))
      .empty overlapping).runs =
        [⟨some 1, .openFile ⟨"/a"⟩ .reading, .ok (.opened 1 3)⟩,
          ⟨some 0, .openFile ⟨"/a"⟩ .reading, .ok (.opened 2 3)⟩,
          ⟨some 2, .stat ⟨"/a"⟩, .ok (.metadata (.file 3))⟩] ∧
    Linearization (Execs (MemServer.lib .none))
      (Sys.init (MemServer.holding "a" (.file [1, 2, 3]))).actor a
      (Sys.calls (MemServer.lib .none) ⟨1, 1, by decide, by decide⟩
        (MemServer.holding "a" (.file [1, 2, 3])) overlapping s)
      (Lts.history (Sys.step (MemServer.lib .none) ⟨1, 1, by decide, by decide⟩)
        (Log.next (MemServer.lib .none)) (Sys.init (MemServer.holding "a" (.file [1, 2, 3])))
        .empty overlapping).runs := by
  have hsome : (Lts.run (Sys.step (MemServer.lib .none) ⟨1, 1, by decide, by decide⟩)
      (Sys.init (MemServer.holding "a" (.file [1, 2, 3]))) overlapping).isSome = true := by
    decide +kernel
  obtain ⟨s, hrun⟩ := Option.isSome_iff_exists.mp hsome
  obtain ⟨a, hlin, -⟩ := Sys.linearizable hrun
  exact ⟨s, a, hrun, by decide +kernel, hlin⟩

end Krystallos.Smb
