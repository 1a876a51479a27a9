import Krystallos.Smb.Closing
import Krystallos.Smb.Shutdown
import Krystallos.Smb.Table

namespace Krystallos.Smb

open Lts Prog

/-!
# A session comes to rest

The thread and the calls that are under way take finitely many steps, in whatever order: a
call's own step brings it nearer to its end, and the thread has one command less after its own.
They do not wait for each other in a circle either: where nobody has a step left, every call
has ended, unless the thread is inside a command that does not return.
-/

/-! ### Commands that do not return -/

/-- The program returns or fails, unless it panics. -/
def unlessPanic {ε σ α : Type} : Post ε σ α :=
  ⟨fun _ _ => True, fun _ _ => True, fun t => ∃ p, t = .panic p⟩

/-- The commands with a loop that the server keeps going. -/
def Request.loops : Request → Bool
  | .list _ | .copy _ _ => true
  | _ => false

section

variable {W ε σ α β : Type} {lib : Libsmb2 W} {s : σ}

/-- One part after the other. -/
theorem wp_bind_unlessPanic {m : Prog ε σ β} {f : β → Prog ε σ α} (hm : wp m unlessPanic s)
    (hf : ∀ b s', wp (f b) unlessPanic s') : wp (m >>= f) unlessPanic s :=
  (wp_bind m f).mpr (wp_mono hm (fun b s' _ => hf b s') (fun _ _ h => h) (fun _ h => h))

theorem wp_onCtx_unlessPanic {m : Prog ε (Ctx W) α} {a : Actor W} (hm : ∀ c, wp m unlessPanic c) :
    wp (onCtx m) unlessPanic a := by
  rw [onCtx, wp_zoom]
  exact hm a.ctx

/-- A result that is there already. -/
theorem wp_ofExcept_unlessPanic (r : Except ε α) : wp (ofExcept r : Prog ε σ α) unlessPanic s := by
  rw [wp_ofExcept]
  cases r <;> trivial

/-- A call returns. -/
theorem wp_ffi_unlessPanic (c : Call) (s : Ctx W) :
    wp (ffi lib c : Prog ε (Ctx W) c.Reply) unlessPanic s :=
  wp_ffi.mpr trivial

/-- The failure path of a call that was made. -/
theorem wp_ite_unlessPanic {c : Prop} {inst : Decidable c} {rc : Int} {path : String} {b : α}
    {s : Ctx W} :
    wp (if c then failWith lib rc path else pure b : Prog Error (Ctx W) α) unlessPanic s :=
  wp_ite (fun _ => wp_failWith (fun _ => trivial) fun q => ⟨q, rfl⟩) (fun _ => trivial)

/-- An operation on one path returns. -/
theorem wp_pathCall_unlessPanic {call : String → Prog Error (Ctx W) Int}
    (hcall : ∀ p s, wp (call p) unlessPanic s) (path : VfsPath) {s : Ctx W} :
    wp (pathCall lib call path) unlessPanic s := by
  refine wp_bind_unlessPanic (wp_ofExcept_unlessPanic _) fun p s => ?_
  exact wp_bind_unlessPanic (hcall p s) fun _ _ => wp_ite_unlessPanic

/-- A call on a handle, with its failure path. -/
theorem wp_onHandle_unlessPanic {id : Nat} {op : String} {m : Fh → Prog Error (Ctx W) β}
    {f : β → Prog Error (Actor W) α} {a : Actor W} (hm : ∀ fh c, wp (m fh) unlessPanic c)
    (hf : ∀ b a', wp (f b) unlessPanic a') :
    wp (handleOf id op >>= fun fh => onCtx (m fh) >>= f) unlessPanic a :=
  wp_bind_unlessPanic (wp_handleOf (fun _ _ => trivial) fun _ => trivial)
    fun fh _ => wp_bind_unlessPanic (wp_onCtx_unlessPanic (hm fh)) hf

/-- **Every other command** comes to an end, or panics. -/
theorem wp_execute_unlessPanic (fuel : Nat) {req : Request} (hreq : req.loops = false)
    (a : Actor W) : wp (execute lib fuel req) unlessPanic a := by
  have hfinish : ∀ {γ : Type} {m : Prog Error (Actor W) γ} {g : γ → Answer},
      wp m unlessPanic a → wp (m >>= fun b => pure (g b)) unlessPanic a :=
    fun hm => wp_bind_unlessPanic hm fun _ _ => trivial
  -- the failure path of a call on a handle
  have hite : ∀ {γ : Type} {c : Prop} {inst : Decidable c} {rc : Int} {op : String} {b : γ}
      {a' : Actor W}, wp (if c then onCtx (failWith lib rc op) else pure b :
        Prog Error (Actor W) γ) unlessPanic a' :=
    wp_ite (fun _ => wp_onCtx_unlessPanic fun _ => wp_failWith (fun _ => trivial) fun q => ⟨q, rfl⟩)
      (fun _ => trivial)
  cases req with
  | list | copy => cases hreq
  | stat path =>
    refine hfinish (wp_onCtx_unlessPanic fun c => ?_)
    refine wp_bind_unlessPanic (wp_ofExcept_unlessPanic _) fun p c => ?_
    exact wp_bind_unlessPanic trivial fun _ _ => wp_ite_unlessPanic
  | mkdir | removeFile | removeDir =>
    refine hfinish (wp_onCtx_unlessPanic fun c => wp_pathCall_unlessPanic (fun p s => ?_) _)
    exact wp_ffi_unlessPanic _ s
  | rename fromPath toPath =>
    refine hfinish (wp_onCtx_unlessPanic fun c => ?_)
    refine wp_bind_unlessPanic (wp_ofExcept_unlessPanic _) fun p c => ?_
    refine wp_bind_unlessPanic (wp_ofExcept_unlessPanic _) fun p c => ?_
    exact wp_bind_unlessPanic trivial fun _ _ => wp_ite_unlessPanic
  | openFile path mode =>
    exact hfinish (wp_openFile (fun _ => trivial) (fun _ _ => trivial) (fun _ _ _ => trivial)
      fun q => ⟨q, rfl⟩)
  | close id =>
    refine hfinish ?_
    simp only [closeFile, wp_bind, wp_current, OpenFiles.take, wp_update]
    cases a.files.get id with
    | none => trivial
    | some fh => exact wp_bind_unlessPanic (wp_onCtx_unlessPanic fun _ => trivial) fun _ _ => hite
  | readAt | writeAt | setLen | flush =>
    refine hfinish (wp_onHandle_unlessPanic (fun fh c => ?_) fun _ _ => hite)
    exact wp_ffi_unlessPanic _ c

end

namespace Sys

variable {W : Type} {lib : Libsmb2 W} {limits : Limits} {s s' : Sys W} {tasks : List Task}
  {log : Log} {i : Nat} {kind : CallKind} {pc pc' : Pc}

/-- The thread is inside a command that does not return. -/
def Stuck (lib : Libsmb2 W) (s : Sys W) : Prop :=
  s.phase = .serving ∧ ∃ req reply queue, s.queue = .run req reply :: queue ∧
    ((∃ fuel p actor, execute lib fuel req s.actor = .error (.panic p, actor)) ∨
      req.loops = true ∧ ∀ fuel, ∃ actor, execute lib fuel req s.actor = .error (.fuel, actor))

/-- A command that the thread cannot finish panics, or loops. -/
theorem stuck_of_error {req : Request} {reply : Option Nat} {queue : List Command}
    (hserving : s.phase = .serving) (hqueue : s.queue = .run req reply :: queue)
    (herror : ∀ fuel, ∃ t, execute lib fuel req s.actor = .error t) : Stuck lib s := by
  refine ⟨hserving, req, reply, queue, hqueue, ?_⟩
  by_cases hpanic : ∃ fuel p actor, execute lib fuel req s.actor = .error (.panic p, actor)
  · exact .inl hpanic
  · have hfuel : ∀ fuel, ∃ actor, execute lib fuel req s.actor = .error (.fuel, actor) := by
      intro fuel
      obtain ⟨⟨t, actor⟩, ht⟩ := herror fuel
      cases t with
      | panic p => exact absurd ⟨fuel, p, actor, ht⟩ hpanic
      | fuel => exact ⟨actor, ht⟩
    refine .inr ⟨?_, hfuel⟩
    by_contra hloops
    have hwp : wp (execute lib 0 req) unlessPanic s.actor :=
      wp_execute_unlessPanic 0 (Bool.eq_false_iff.mpr hloops) s.actor
    obtain ⟨actor, hactor⟩ := hfuel 0
    obtain ⟨p, hp⟩ := stop_of_run hwp hactor
    cases hp

end Sys

/-! ### Own steps come to an end -/

/-- The steps of calls that are under way, and those of the thread. -/
def Action.own : Action → Bool
  | .send _ | .wake _ | .serve _ | .hangUp | .teardown | .exit => true
  | _ => false

/-- How far the thread is from its end. -/
def Phase.left : Phase → Nat
  | .serving => 3
  | .leaving => 2
  | .down => 1
  | .exited => 0

namespace Sys

variable {W : Type} {lib : Libsmb2 W} {limits : Limits} {s s' : Sys W} {tasks : List Task}
  {join : Bool} {log : Log} {i : Nat} {kind : CallKind} {pc pc' : Pc}

/-- What the calls have left to do, counted twice: a command that is sent is one more for the
    thread. -/
def work (tasks : List Task) : Nat := (tasks.map fun t => 2 * t.pc.left).sum

/-- How many steps are left at most. -/
def left (s : Sys W) : Nat := work s.tasks + s.queue.length + s.phase.left

/-- A task that goes on changes the work by its own. -/
theorem work_set (pc' : Pc) (htask : tasks[i]? = some ⟨kind, pc⟩) :
    work (tasks.set i ⟨kind, pc'⟩) + 2 * pc.left = work tasks + 2 * pc'.left :=
  sum_map_set_add (fun t => 2 * t.pc.left) _ htask

/-- An answer adds no work. -/
theorem work_settle (tasks : List Task) (reply : Option Nat) (hle : pc.left ≤ 3) :
    work (settle tasks reply pc) ≤ work tasks := by
  rcases settle_cases tasks reply pc with hsame | ⟨j, kind, -, htask, hset⟩
  · exact le_of_eq (congrArg work hsame)
  · have hwork := work_set pc htask
    have hwaiting : Pc.waiting.left = 3 := rfl
    rw [hset]
    omega

/-- Nor do many. -/
theorem work_settle_all (queue : List Command) (tasks : List Task) :
    work (queue.foldl (fun tasks cmd => settle tasks cmd.reply .lost) tasks) ≤ work tasks := by
  induction queue generalizing tasks with
  | nil => exact le_rfl
  | cons cmd queue ih =>
    have hlost : Pc.lost.left ≤ 3 := by decide
    exact le_trans (ih _) (work_settle _ _ hlost)

/-- A task goes on, and nothing else. -/
theorem left_lt_of_set (htask : s.tasks[i]? = some ⟨kind, pc⟩)
    (htasks : s'.tasks = s.tasks.set i ⟨kind, pc'⟩) (hqueue : s'.queue = s.queue)
    (hphase : s'.phase = s.phase) (hlt : pc'.left < pc.left) : s'.left < s.left := by
  have hwork := work_set pc' htask
  rw [left, left, htasks, hqueue, hphase]
  omega

/-- **Step lemma.** Every own step leaves less to do. -/
theorem left_lt_of_step {a : Action} (hown : a.own = true)
    (hstep : step lib limits s a = some s') : s'.left < s.left := by
  have htake := left_take s.join
  have hdelivered : ∀ r, (Pc.delivered r).left ≤ 3 := fun _ => (by decide : 2 ≤ 3)
  cases moved_of_step hstep with
  | call | shutdown | fileCall | close | dropClosed | dropOpen | abandon | letGo => cases hown
  | @enqueue i kind cmd htask =>
    -- the channel has one command more, and the task is a step further
    have hpc : (if cmd.reply.isSome then Pc.waiting else .done (.ok .unit)).left ≤ 3 := by
      split <;> decide
    have hready : Pc.ready.left = 4 := rfl
    have hwork := work_set (if cmd.reply.isSome then .waiting else .done (.ok .unit)) htask
    simp only [left, enqueue, List.length_append, List.length_singleton]
    omega
  | @refuse i kind htask =>
    cases kind with
    | shutdown => exact left_lt_of_set htask rfl rfl rfl (lt_of_le_of_lt htake (by decide : 1 < 4))
    | session | file | close | drop =>
      exact left_lt_of_set htask rfl rfl rfl (by decide : 0 < 4)
  | @takeJoin i pc htask hpc =>
    refine left_lt_of_set htask rfl rfl rfl (lt_of_le_of_lt htake ?_)
    rcases hpc with rfl | ⟨r, rfl⟩ <;> exact (by decide : 1 < 2)
  | joined htask => exact left_lt_of_set htask rfl rfl rfl (by decide : 0 < 1)
  | @received i kind r htask =>
    refine left_lt_of_set htask rfl rfl rfl ?_
    rw [left_received]
    exact (by decide : 0 < 2)
  | disconnected htask => exact left_lt_of_set htask rfl rfl rfl (by decide : 0 < 2)
  | @ran _ _ reply queue r _ _ hqueue =>
    have hsettle := work_settle s.tasks reply (hdelivered r)
    simp only [left, hqueue, List.length_cons]
    omega
  | @stopped _ i queue hserving hqueue =>
    have hsettle := work_settle s.tasks (some i) (hdelivered (.ok .unit))
    simp only [left, hqueue, hserving, Phase.left, List.length_cons]
    omega
  | hangUp hserving => simp [left, hserving, Phase.left]
  | teardown hleaving => simp [left, hleaving, Phase.left]
  | exit hdown =>
    have hsettle := work_settle_all s.queue s.tasks
    simp only [left, hdown, Phase.left, List.length_nil]
    omega

/-! ### Who waits for the thread has taken its join handle -/

/-- A task waits for the thread only once the join handle was taken. -/
def Joining (join : Bool) (tasks : List Task) : Prop :=
  ∀ t ∈ tasks, t.pc = .joining → join = false

/-- A new task does not join. -/
theorem Joining.spawn (h : Joining join tasks) (hpc : pc ≠ .joining) :
    Joining join (tasks ++ [⟨kind, pc⟩]) :=
  forall_mem_concat h fun hjoining => absurd hjoining hpc

theorem Joining.setPc (h : Joining join tasks) (hpc : pc ≠ .joining) :
    Joining join (tasks.set i ⟨kind, pc⟩) :=
  forall_mem_set h fun hjoining => absurd hjoining hpc

/-- An answer makes no task join. -/
theorem Joining.settle (h : Joining join tasks) (reply : Option Nat) (hpc : pc ≠ .joining) :
    Joining join (settle tasks reply pc) := by
  rcases settle_cases tasks reply pc with hsame | ⟨j, kind, -, -, hset⟩
  · rwa [hsame]
  · rw [hset]
    exact h.setPc hpc

theorem Joining.settle_all (h : Joining join tasks) (queue : List Command) :
    Joining join (queue.foldl (fun tasks cmd => Sys.settle tasks cmd.reply .lost) tasks) := by
  induction queue generalizing tasks with
  | nil => exact h
  | cons cmd queue ih => exact ih (h.settle cmd.reply nofun)

/-- **Step lemma.** -/
theorem joining_step {a : Action} (h : Joining s.join s.tasks)
    (hstep : step lib limits s a = some s') : Joining s'.join s'.tasks := by
  cases moved_of_step hstep with
  | call | shutdown | dropOpen => exact h.spawn nofun
  | @fileCall f call o =>
    apply h.spawn
    rcases begin_cases o call with hready | ⟨r, hdone⟩
    · rw [hready]
      exact nofun
    · rw [hdone]
      exact nofun
  | close =>
    apply h.spawn
    split <;> exact nofun
  | dropClosed | letGo | hangUp | teardown => exact h
  | enqueue =>
    apply h.setPc
    split <;> exact nofun
  | @refuse i kind =>
    cases kind with
    | shutdown => exact fun _ _ _ => rfl
    | session | file | close | drop => exact h.setPc nofun
  | takeJoin => exact fun _ _ _ => rfl
  | joined | disconnected | abandon => exact h.setPc nofun
  | @received i kind r =>
    apply h.setPc
    rcases received_cases s limits kind r with hdone | hgone
    · rw [hdone]
      exact nofun
    · rw [hgone]
      exact nofun
  | ran => exact h.settle _ nofun
  | stopped => exact h.settle (some _) nofun
  | exit => exact h.settle_all _

/-! ### Where nobody has a step left -/

/-- Every call has ended and the thread has nothing to do: it is over, or someone may still call. -/
structure AtRest (s : Sys W) : Prop where
  calls : ∀ t ∈ s.tasks, t.pc.over = true
  queue : s.queue = []
  thread : s.phase = .exited ∨
    s.phase = .serving ∧ (s.held = true ∨ ∃ o ∈ s.files, o.life ≠ .dropped)

/-- Who is about to send a command has one. -/
theorem exists_command (h : Closers s.tasks s.files) (hi : s.tasks[i]? = some ⟨kind, .ready⟩) :
    ∃ cmd, s.command i kind = some cmd := by
  have hfile : ∀ f, kind.about = some f → ∃ o, s.files[f]? = some o := fun f habout =>
    ⟨_, List.getElem?_eq_getElem (h.known _ (List.mem_of_getElem? hi) f habout)⟩
  cases kind with
  | session | shutdown => exact ⟨_, rfl⟩
  | file f | close f | drop f =>
    obtain ⟨o, ho⟩ := hfile f rfl
    simp [command, ho]

/-- A task that has no step of its own has ended, or waits for the reply to a command. -/
theorem over_or_waiting (hkept : Kept s.phase s.queue s.tasks log)
    (hclosers : Closers s.tasks s.files)
    (hjoined : ∀ t ∈ s.tasks, t.pc = .joining → s.phase = .exited)
    (hquiet : Quiet (step lib limits) (fun a => a.own = true) s) {t : Task}
    (hi : s.tasks[i]? = some t) : t.pc.over = true ∨ t.pc = .waiting := by
  obtain ⟨kind, pc⟩ := t
  have hwake : s.resume limits i ⟨kind, pc⟩ = none := by
    have hnone := hquiet (.wake i) rfl
    rwa [step, hi] at hnone
  cases pc with
  | ready =>
    have hsend := hquiet (.send i) rfl
    obtain ⟨cmd, hcmd⟩ := exists_command hclosers hi
    simp only [step, hi, hcmd] at hsend
    split at hsend <;> cases hsend
  | waiting => exact .inr rfl
  | delivered r => cases kind <;> cases hwake
  | lost => cases kind <;> cases hwake
  | joining =>
    obtain rfl : kind = .shutdown := hkept.knows i _ hi
    have hexited := hjoined _ (List.mem_of_getElem? hi) rfl
    rw [resume, if_pos hexited] at hwake
    cases hwake
  | done r | abandoned => exact .inl rfl

/-- **No deadlock.** Where no party has a step left, the session is at rest, unless the thread is
    inside a command that does not return. -/
theorem atRest_or_stuck (hkept : Kept s.phase s.queue s.tasks log)
    (hshutting : Shutting s.phase s.join s.tasks) (hclosers : Closers s.tasks s.files)
    (hjoining : Joining s.join s.tasks)
    (hquiet : Quiet (step lib limits) (fun a => a.own = true) s) : AtRest s ∨ Stuck lib s := by
  -- the thread goes on by itself once it is past its loop
  have hleaving : s.phase ≠ .leaving := by
    intro hleaving
    obtain ⟨actor, hrun⟩ : ∃ actor, (teardown lib : Prog Error (Actor W) Unit) s.actor
        = .ok (.ok (), actor) := exists_teardown lib s.actor
    have hnone := hquiet .teardown rfl
    simp only [step, hleaving, hrun] at hnone
    cases hnone
  have hdown : s.phase ≠ .down := by
    intro hdown
    have hnone := hquiet .exit rfl
    rw [step, if_pos hdown] at hnone
    cases hnone
  have hjoined : ∀ t ∈ s.tasks, t.pc = .joining → s.phase = .exited := by
    intro t ht hpc
    have hjoin := hjoining t ht hpc
    cases hphase : s.phase with
    | serving =>
      rw [(hshutting.serving hphase).1] at hjoin
      cases hjoin
    | leaving => exact absurd hphase hleaving
    | down => exact absurd hphase hdown
    | exited => rfl
  -- nobody waits for a reply where the channel is empty
  have hover : s.queue = [] → ∀ t ∈ s.tasks, t.pc.over = true := by
    intro hqueue t ht
    obtain ⟨i, hi⟩ := List.mem_iff_getElem?.mp ht
    rcases over_or_waiting hkept hclosers hjoined hquiet hi with hover | hwaiting
    · exact hover
    · obtain ⟨kind, pc⟩ := t
      obtain rfl : pc = .waiting := hwaiting
      obtain ⟨cmd, hcmd, -⟩ : ∃ cmd ∈ s.queue, cmd.reply = some i := hkept.knows i _ hi
      rw [hqueue] at hcmd
      cases hcmd
  cases hphase : s.phase with
  | leaving => exact absurd hphase hleaving
  | down => exact absurd hphase hdown
  | exited =>
    have hqueue := hkept.drained hphase
    exact .inl ⟨hover hqueue, hqueue, .inl hphase⟩
  | serving =>
    cases hqueue : s.queue with
    | nil =>
      refine .inl ⟨hover hqueue, hqueue, .inr ⟨hphase, ?_⟩⟩
      -- otherwise every sender is gone, and the thread would notice
      by_contra hgone
      simp only [not_or, not_exists, not_and, not_not] at hgone
      have hnone := hquiet .hangUp rfl
      rw [step, if_pos ⟨hphase, hqueue, Bool.eq_false_iff.mpr hgone.1, hgone.2⟩] at hnone
      cases hnone
    | cons cmd queue =>
      have hserve : ∀ fuel, serve lib s fuel = none := by
        intro fuel
        have hnone := hquiet (.serve fuel) rfl
        rwa [step, if_pos hphase] at hnone
      cases cmd with
      | run req reply =>
        refine .inr (stuck_of_error hphase hqueue fun fuel => ?_)
        have hnone := hserve fuel
        simp only [serve, hqueue] at hnone
        split at hnone
        · next t ht => exact ⟨t, ht⟩
        · cases hnone
      | shutdown i =>
        have hnone := hserve 0
        simp only [serve, hqueue] at hnone
        cases hnone

/-! ### Sessions come to rest -/

/-- What the parties of a session do when they are left to themselves. -/
structure Settles (lib : Libsmb2 W) (limits : Limits) (s : Sys W) : Prop where
  /-- they take so many steps at most, in whatever order -/
  bounded : ∀ acts s', (∀ a ∈ acts, a.own = true) → Lts.run (step lib limits) s acts = some s' →
    acts.length + s'.left ≤ s.left
  /-- whichever they have taken, they stop at rest, or in a command that does not return -/
  rest : ∀ acts s', (∀ a ∈ acts, a.own = true) → Lts.run (step lib limits) s acts = some s' →
    Quiet (step lib limits) (fun a => a.own = true) s' → AtRest s' ∨ Stuck lib s'
  /-- and they do stop -/
  stops : ∃ acts s', (∀ a ∈ acts, a.own = true) ∧ Lts.run (step lib limits) s acts = some s' ∧
    (AtRest s' ∨ Stuck lib s')

/-- **A session comes to rest**, from every state that it can be in, with whatever calls under way:
    its parties neither wait for each other for ever nor go on for ever. -/
theorem settles {w : W} {acts : List Action}
    (hrun : Lts.run (step lib limits) (init w) acts = some s) : Settles lib limits s := by
  have hrest : ∀ acts' s', Lts.run (step lib limits) s acts' = some s' →
      Quiet (step lib limits) (fun a => a.own = true) s' → AtRest s' ∨ Stuck lib s' := by
    intro acts' s' hrun' hquiet
    have hall := run_append_iff.mpr ⟨s, hrun, hrun'⟩
    have hinv := Lts.history_invariant (Log.next lib)
      (I := fun s log => Kept s.phase s.queue s.tasks log ∧ Shutting s.phase s.join s.tasks)
      (fun u l a u' hu hstep => ⟨kept_step hu.1 hstep, shutting_step hu.1 hu.2 hstep⟩)
      ⟨kept_init w, shutting_init w⟩ hall
    have hclosers : Closers s'.tasks s'.files := Lts.run_invariant
      (I := fun s => Closers s.tasks s.files) (fun _ _ _ => closers_step) (closers_init w) hall
    have hjoining : Joining s'.join s'.tasks := Lts.run_invariant
      (I := fun s => Joining s.join s.tasks) (fun _ _ _ => joining_step)
      (fun t ht => absurd ht List.not_mem_nil) hall
    exact atRest_or_stuck hinv.1 hinv.2 hclosers hjoining hquiet
  have hlower : ∀ (s : Sys W) a s', a.own = true → step lib limits s a = some s' →
      s'.left < s.left := fun _ _ _ => left_lt_of_step
  refine ⟨fun acts' s' hown => length_add_le_of_lowers hlower hown,
    fun acts' s' _ => hrest acts' s', ?_⟩
  obtain ⟨acts', s', hown, hrun', hquiet⟩ := exists_quiet hlower s
  exact ⟨acts', s', hown, hrun', hrest acts' s' hrun' hquiet⟩

end Sys

/-- A file is opened and read, two tasks shut down, and a command is queued behind them. -/
def underWay : List Action :=
  [.call (.openFile ⟨"/a"⟩ .reading), .send 0, .serve 0, .wake 0, .fileCall 0 (.readAt 0 3),
    .shutdown, .shutdown, .call (.list ⟨"/"⟩), .send 1, .send 2, .send 4]

/-- Four calls are under way, and end. -/
theorem settles_underWay : ∃ s,
    Lts.run (Sys.step (MemServer.lib .none) ⟨1, 1, by decide, by decide⟩)
      (Sys.init (MemServer.holding "a" (.file [1, 2, 3]))) underWay = some s ∧
    s.left = 32 ∧ Sys.Settles (MemServer.lib .none) ⟨1, 1, by decide, by decide⟩ s := by
  have hrun : (Lts.run (Sys.step (MemServer.lib .none) ⟨1, 1, by decide, by decide⟩)
      (Sys.init (MemServer.holding "a" (.file [1, 2, 3]))) underWay).map Sys.left = some 32 := by
    decide +kernel
  obtain ⟨s, hrun, hleft⟩ := Option.map_eq_some_iff.mp hrun
  exact ⟨s, hrun, hleft, Sys.settles hrun⟩

end Krystallos.Smb
