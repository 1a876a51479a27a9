import Krystallos.Smb.Answers

namespace Krystallos.Smb

open Lts Prog

/-!
# A shutdown that returned

Only one `Shutdown` is processed, and it is acknowledged before anything is closed; but its
task is then the first to take the join handle, and waits for the thread.  Every other task
that asked to shut down is held back by its own reply sender, which is dropped with the
receiver, after the thread's locals.  `Shutting` says so of every state, and `exited_of_done`
draws the conclusion.  `TornDown` is what the thread has done by then.
-/

variable {W ε : Type} {lib : Libsmb2 W}

/-! ### What the teardown calls -/

/-- The calls made on a context. -/
def Ctx.calls (c : Ctx W) : List Call := c.trace.map Event.call

@[simp] theorem Ctx.calls_after (c : Ctx W) (call : Call) :
    (c.after lib call).calls = c.calls ++ [call] := by
  simp [Ctx.calls, Ctx.after]

/-- Every handle in the list is closed, in its order. -/
theorem wp_closeHandles_calls (handles : List (Nat × Fh)) {c : Ctx W} :
    wp (closeHandles lib handles : Prog ε (Ctx W) Unit)
      ⟨fun _ c' => c'.calls = c.calls ++ handles.map fun h => .close h.2,
        fun _ _ => False, fun _ => False⟩ c := by
  induction handles generalizing c with
  | nil => exact (List.append_nil _).symm
  | cons entry rest ih =>
    rw [closeHandles, wp_bind, wp_ffi]
    refine wp_mono ih ?_ (fun _ _ => False.elim) (fun _ => False.elim)
    intro _ c' (hc' : c'.calls = _)
    show c'.calls = _
    rw [hc', Ctx.calls_after, List.append_assoc]
    rfl

/-- The thread has closed every handle of its table and destroyed its context: what it was
    when its loop ended, and what it is now. -/
structure TornDown (before after : Actor W) : Prop where
  table : after.files.handles = []
  calls : after.ctx.calls = before.ctx.calls ++ (before.files.handles.map fun h => .close h.2) ++
    [.disconnectShare, .destroyContext]

/-- **The teardown** closes what is in the table, and destroys the context. -/
theorem tornDown_of_teardown {a a' : Actor W} {r : Except ε Unit}
    (hrun : teardown lib a = .ok (r, a')) : TornDown a a' := by
  have hwp : wp (teardown lib : Prog ε (Actor W) Unit)
      ⟨fun _ a' => TornDown a a', fun _ _ => False, fun _ => False⟩ a := by
    simp only [teardown, wp_bind, wp_current, wp_update, onCtx, wp_zoom]
    refine wp_mono (wp_closeHandles_calls _) (fun _ c hc => ⟨rfl, ?_⟩) (fun _ _ => False.elim)
      (fun _ => False.elim)
    show ((c.after lib .disconnectShare).after lib .destroyContext).calls = _
    rw [Ctx.calls_after, Ctx.calls_after, hc, List.append_assoc]
    rfl
  rcases post_of_run hwp hrun with ⟨_, -, h⟩ | ⟨_, -, h⟩
  · exact h
  · exact h.elim

/-! ### Who shuts down -/

/-- A task whose `Shutdown` was acknowledged, and that has not resumed since. -/
def Task.acked : Task → Prop
  | ⟨.shutdown, .delivered _⟩ => True
  | _ => False

/-- A task that asked to shut down and holds back for nothing any more. -/
def Task.freed : Task → Prop
  | ⟨.shutdown, .lost⟩ | ⟨.shutdown, .done _⟩ => True
  | _ => False

namespace Sys

variable {limits : Limits} {s s' : Sys W} {phase phase' : Phase} {join : Bool}
  {tasks : List Task} {log : Log} {i : Nat} {kind : CallKind} {pc pc' : Pc} {queue : List Command}

/-- What ties the tasks that shut down to the thread and its join handle. -/
structure Shutting (phase : Phase) (join : Bool) (tasks : List Task) : Prop where
  freed : ∀ t ∈ tasks, t.freed → phase = .exited
  serving : phase = .serving → join = true ∧ ∀ t ∈ tasks, ¬ t.acked
  one : phase ≠ .exited → ∀ (i j : Nat) (t t' : Task), tasks[i]? = some t → tasks[j]? = some t' →
    t.acked → t'.acked → i = j
  taken : phase ≠ .exited → join = false → ∀ t ∈ tasks, ¬ t.acked

/-- Once the thread is over nothing is claimed. -/
theorem shutting_exited (h : phase = .exited) (join : Bool) (tasks : List Task) :
    Shutting phase join tasks := by
  subst h
  exact ⟨fun _ _ _ => rfl, nofun, fun h => absurd rfl h, fun h => absurd rfl h⟩

/-- A call starts. -/
theorem Shutting.spawn (h : Shutting phase join tasks) (hnew : kind = .shutdown → pc = .ready) :
    Shutting phase join (tasks ++ [⟨kind, pc⟩]) := by
  have hidle : ¬ Task.acked ⟨kind, pc⟩ ∧ ¬ Task.freed ⟨kind, pc⟩ := by
    cases kind with
    | shutdown =>
      rw [hnew rfl]
      exact ⟨id, id⟩
    | _ => exact ⟨id, id⟩
  refine ⟨forall_mem_concat h.freed fun hf => absurd hf hidle.2, fun hs => ?_, ?_, ?_⟩
  · exact ⟨(h.serving hs).1, forall_mem_concat (h.serving hs).2 hidle.1⟩
  · intro hup i j t t' hi hj ht ht'
    rcases getElem?_concat_cases hi with hi | ⟨-, rfl⟩
    · rcases getElem?_concat_cases hj with hj | ⟨-, rfl⟩
      · exact h.one hup i j t t' hi hj ht ht'
      · exact absurd ht' hidle.1
    · exact absurd ht hidle.1
  · exact fun hup hjoin => forall_mem_concat (h.taken hup hjoin) hidle.1

/-- A task goes on: it is not acknowledged, and if it is freed, the thread is over. -/
theorem Shutting.setPc (h : Shutting phase join tasks) (hacked : ¬ Task.acked ⟨kind, pc'⟩)
    (hfreed : Task.freed ⟨kind, pc'⟩ → phase = .exited) :
    Shutting phase join (tasks.set i ⟨kind, pc'⟩) := by
  refine ⟨forall_mem_set h.freed hfreed, fun hs => ?_, ?_, ?_⟩
  · exact ⟨(h.serving hs).1, forall_mem_set (h.serving hs).2 hacked⟩
  · intro hup j k t t' hj hk ht ht'
    rcases getElem?_set_cases hj with ⟨-, rfl⟩ | ⟨-, hj⟩
    · exact absurd ht hacked
    · rcases getElem?_set_cases hk with ⟨-, rfl⟩ | ⟨-, hk⟩
      · exact absurd ht' hacked
      · exact h.one hup j k t t' hj hk ht ht'
  · exact fun hup hjoin => forall_mem_set (h.taken hup hjoin) hacked

/-- The task that was acknowledged takes the join handle: no other was. -/
theorem Shutting.takeJoin (h : Shutting phase join tasks) {r : Result Answer}
    (hi : tasks[i]? = some ⟨.shutdown, .delivered r⟩) (hup : phase ≠ .exited) :
    Shutting phase false (tasks.set i ⟨.shutdown, if join then .joining else .done (.ok .unit)⟩) := by
  have hmem := List.mem_of_getElem? hi
  have hjoin : join = true := by
    by_contra hfalse
    exact h.taken hup (Bool.eq_false_iff.mpr hfalse) _ hmem trivial
  have hnone : ∀ t ∈ tasks.set i ⟨.shutdown, .joining⟩, ¬ t.acked := by
    intro t ht hacked
    obtain ⟨j, hj⟩ := List.mem_iff_getElem?.mp ht
    rcases getElem?_set_cases hj with ⟨-, rfl⟩ | ⟨hij, hj⟩
    · exact hacked
    · exact hij (h.one hup i j _ t hi hj trivial hacked)
  subst hjoin
  refine ⟨forall_mem_set h.freed fun hf => hf.elim, fun hs => ?_, ?_, fun _ _ => hnone⟩
  · exact absurd trivial ((h.serving hs).2 _ hmem)
  · intro _ j k t t' hj _ ht
    exact absurd ht (hnone t (List.mem_of_getElem? hj))

/-- A `Shutdown` is processed: its task is the one that is acknowledged. -/
theorem Shutting.stop (h : Shutting .serving join tasks) (i : Nat) :
    Shutting .leaving join (settle tasks (some i) (.delivered (.ok .unit))) := by
  obtain ⟨hjoin, hnone⟩ := h.serving rfl
  have hfreed : ∀ t ∈ tasks, ¬ t.freed := fun t ht hf => nomatch h.freed t ht hf
  -- only the task of this command is acknowledged, and none has the thread yet
  have hall : ∀ (j : Nat) (t' : Task),
      (settle tasks (some i) (.delivered (.ok .unit)))[j]? = some t' →
      ¬ t'.freed ∧ (t'.acked → i = j) := by
    intro j t' hj
    obtain ⟨t, ht, ⟨rfl, -⟩ | ⟨-, hij, rfl⟩⟩ := getElem?_settle hj
    · have hmem := List.mem_of_getElem? ht
      exact ⟨hfreed t' hmem, fun hacked => absurd hacked (hnone t' hmem)⟩
    · refine ⟨?_, fun _ => Option.some.inj hij⟩
      cases t.kind <;> exact id
  refine ⟨fun t ht hf => ?_, nofun, ?_, fun _ hfalse => ?_⟩
  · obtain ⟨j, hj⟩ := List.mem_iff_getElem?.mp ht
    exact absurd hf (hall j t hj).1
  · intro _ j k t t' hj hk ht ht'
    exact ((hall j t hj).2 ht).symm.trans ((hall k t' hk).2 ht')
  · rw [hjoin] at hfalse
    cases hfalse

/-- A command that is not a `Shutdown` is not one of a task that shuts down. -/
theorem ne_shutdown_of_run (h : Kept s.phase s.queue s.tasks log) {req : Request}
    (hmem : .run req (some i) ∈ s.queue) {t : Task} (ht : s.tasks[i]? = some t) :
    t.kind ≠ .shutdown := by
  obtain ⟨dropped, horder, -⟩ := h.order
  have hentered : .run req (some i) ∈ log.entered := by
    rw [horder]
    exact List.mem_append_left _ (List.mem_append_right _ hmem)
  obtain ⟨kind, hkind, hasks⟩ := h.asks _ hentered i rfl
  rw [kindAt, ht] at hkind
  obtain rfl := Option.some.inj hkind
  intro hshutdown
  rw [hshutdown] at hasks
  cases hasks

/-- **Step lemma.** -/
theorem shutting_step {a : Action} (hkept : Kept s.phase s.queue s.tasks log)
    (h : Shutting s.phase s.join s.tasks) (hstep : step lib limits s a = some s') :
    Shutting s'.phase s'.join s'.tasks := by
  -- no task but one that shuts down is acknowledged or freed
  have hother : ∀ {kind : CallKind} {pc : Pc}, kind ≠ .shutdown →
      ¬ Task.acked ⟨kind, pc⟩ ∧ ¬ Task.freed ⟨kind, pc⟩ := by
    intro kind pc hkind
    cases kind with
    | shutdown => exact absurd rfl hkind
    | _ => exact ⟨id, id⟩
  cases moved_of_step hstep with
  | call | fileCall | close | dropOpen => exact h.spawn nofun
  | shutdown => exact h.spawn fun _ => rfl
  | dropClosed | letGo => exact h
  | @enqueue i kind cmd htask hup hcmd =>
    have hwaiting : kind = .shutdown →
        (if cmd.reply.isSome then Pc.waiting else .done (.ok .unit)) = .waiting := by
      rintro rfl
      cases hcmd
      rfl
    by_cases hkind : kind = .shutdown
    · refine h.setPc ?_ ?_
      · rw [hwaiting hkind, hkind]
        exact id
      · rw [hwaiting hkind, hkind]
        exact False.elim
    · exact h.setPc (hother hkind).1 fun hf => absurd hf (hother hkind).2
  | @refuse i kind htask hexited =>
    cases kind with
    | _ => exact shutting_exited hexited _ _
  | @takeJoin i pc htask hpc =>
    by_cases hexited : s.phase = .exited
    · exact shutting_exited hexited _ _
    · rcases hpc with rfl | ⟨r, rfl⟩
      · -- who was refused before has no part in it while the thread is up
        exact absurd (h.freed _ (List.mem_of_getElem? htask) trivial) hexited
      · exact h.takeJoin htask hexited
  | joined htask hexited => exact shutting_exited hexited _ _
  | received htask hkind | disconnected htask hkind =>
    exact h.setPc (hother hkind).1 fun hf => absurd hf (hother hkind).2
  | @abandon i kind pc htask =>
    refine h.setPc ?_ ?_ <;> cases kind <;> exact fun hf => hf.elim
  | @ran fuel req reply queue r actor hserving hqueue hrun =>
    rcases settle_cases s.tasks reply (.delivered r) with hsame | ⟨i, kind, rfl, htask, hset⟩
    · show Shutting s.phase s.join (settle s.tasks reply (.delivered r))
      rw [hsame]
      exact h
    · have hkind : kind ≠ .shutdown :=
        ne_shutdown_of_run hkept (by rw [hqueue]; exact List.mem_cons_self) htask
      show Shutting s.phase s.join (settle s.tasks (some i) (.delivered r))
      rw [hset]
      exact h.setPc (hother hkind).1 fun hf => absurd hf (hother hkind).2
  | @stopped fuel i queue hserving hqueue =>
    rw [hserving] at h
    exact h.stop i
  | hangUp hserving =>
    -- the thread is still serving, so that nobody has shut down
    obtain ⟨hjoin, hnone⟩ := h.serving hserving
    refine ⟨fun t ht hf => ?_, nofun, fun _ i j t t' hi _ ht => ?_, fun _ hfalse => ?_⟩
    · have hexited := h.freed t ht hf
      rw [hserving] at hexited
      cases hexited
    · exact absurd ht (hnone t (List.mem_of_getElem? hi))
    · rw [hjoin] at hfalse
      cases hfalse
  | teardown hleaving =>
    have hup : s.phase ≠ .exited := by simp [hleaving]
    refine ⟨fun t ht hf => absurd (h.freed t ht hf) hup, nofun, fun _ => h.one hup,
      fun _ => h.taken hup⟩
  | exit => exact shutting_exited rfl _ _

/-- Nobody has asked for the end yet. -/
theorem shutting_init (w : W) : Shutting (init w).phase (init w).join (init w).tasks where
  freed := fun t ht => absurd ht List.not_mem_nil
  serving := fun _ => ⟨rfl, fun t ht => absurd ht List.not_mem_nil⟩
  one := fun _ i j t t' hi => by
    rw [init, List.getElem?_nil] at hi
    cases hi
  taken := fun _ _ t ht => absurd ht List.not_mem_nil

/-! ### What has happened when a shutdown returns -/

/-- A call that shuts down returns once the thread is over, and not before. -/
theorem exited_of_done {w : W} {acts : List Action}
    (hrun : Lts.run (step lib limits) (init w) acts = some s) {r : Result Answer}
    (hi : s.tasks[i]? = some ⟨.shutdown, .done r⟩) : s.phase = .exited := by
  have hinv := Lts.history_invariant (Log.next lib)
    (I := fun s log => Kept s.phase s.queue s.tasks log ∧ Shutting s.phase s.join s.tasks)
    (fun u l a u' hu hstep => ⟨kept_step hu.1 hstep, shutting_step hu.1 hu.2 hstep⟩)
    ⟨kept_init w, shutting_init w⟩ hrun
  exact hinv.2.freed _ (List.mem_of_getElem? hi) trivial

end Sys

end Krystallos.Smb
