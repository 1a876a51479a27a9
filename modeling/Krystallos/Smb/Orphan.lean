import Krystallos.Smb.Closing
import Krystallos.Smb.MemServer
import Krystallos.Smb.Table

namespace Krystallos.Smb

open Prog

/-!
# Who will close an open file

An id in the table is owed a `Close`: by a `RemoteFile` that has sent none, by the channel
that holds one, or by the future of an open that has its reply.  The thread puts the id into
the table whether or not its reply arrives anywhere, so an open whose future was dropped leaves
an id that nobody owes anything; where no future is dropped over an open that succeeds, there
is no such id (`noOrphans_of_attended`).
-/

/-- A file that is there and has sent no `Close` for its id. -/
structure Opened.Owes (id : Nat) (o : Opened) : Prop where
  id : o.file.id = id
  alive : o.life ≠ .dropped
  unsent : o.closes = 0

/-- A pending open that has its reply, with this id in it. -/
def Task.Holds (id : Nat) (t : Task) : Prop :=
  ∃ path mode len, t = ⟨.session (.openFile path mode), .delivered (.ok (.opened id len))⟩

namespace Sys

variable {W : Type} {lib : Libsmb2 W} {limits : Limits} {s s' : Sys W} {a : Action} {id : Nat}

/-- Somebody is to close the id: a file, a `Close` in the channel, or a pending open that is to
    receive it. -/
def Owned (s : Sys W) (id : Nat) : Prop :=
  (∃ o ∈ s.files, o.Owes id) ∨ (∃ reply, .run (.close id) reply ∈ s.queue) ∨
    ∃ t ∈ s.tasks, t.Holds id

/-- No id in the table is forgotten. -/
def NoOrphans (s : Sys W) : Prop := ∀ id ∈ s.actor.files.handles.map Prod.fst, s.Owned id

/-- An open is executed only while its future is pending, or is refused; and the future of an
    open is not dropped while it holds an id of the table. -/
def attended (lib : Libsmb2 W) (s : Sys W) : Action → Bool
  | .serve _ =>
    match s.queue with
    | .run (.openFile path mode) (some i) :: _ =>
      (s.tasks[i]?).map Task.pc = some .waiting || refused lib s.actor path mode
    | _ => true
  | .abandon i =>
    match s.tasks[i]? with
    | some ⟨_, .delivered (.ok (.opened id _))⟩ => (s.actor.files.get id).isNone
    | _ => true
  | _ => true

/-- The opens in the channel belong to the tasks they reply to, and no id is left once the
    context is gone. -/
structure Routed (s : Sys W) : Prop where
  opens : ∀ path mode reply, .run (.openFile path mode) reply ∈ s.queue →
    ∃ i, reply = some i ∧ kindAt s.tasks i = some (.session (.openFile path mode))
  emptied : s.Ended → s.actor.files.handles = []

/-- A task sends an open only for itself. -/
theorem command_openFile {i : Nat} {kind : CallKind} {path : VfsPath} {mode : OpenMode}
    {reply : Option Nat} (h : s.command i kind = some (.run (.openFile path mode) reply)) :
    reply = some i ∧ kind = .session (.openFile path mode) := by
  cases kind with
  | session req =>
    cases h
    exact ⟨rfl, rfl⟩
  | shutdown => cases h
  | file f call =>
    obtain ⟨o, -, hreq⟩ := Option.map_eq_some_iff.mp h
    cases call <;> cases hreq
  | close f | drop f =>
    obtain ⟨o, -, hreq⟩ := Option.map_eq_some_iff.mp h
    cases hreq

/-- **Step lemma**: a thread that is over has an empty table. -/
theorem emptied_step (h : s.Ended → s.actor.files.handles = [])
    (hstep : step lib limits s a = some s') : s'.Ended → s'.actor.files.handles = [] := by
  cases moved_of_step hstep with
  | ran hserving => exact fun hended => absurd hended (not_ended_of_serving hserving)
  | stopped | hangUp => exact fun hended => absurd hended (not_ended_of_leaving rfl)
  | teardown hleaving hrun =>
    intro _
    show OpenFiles.handles _ = []
    rw [drained_of_teardown hrun]
    rfl
  | exit hdown => exact fun _ => h (.inl hdown)
  | @refuse i kind htask hexited => cases kind <;> exact fun _ => h (.inr hexited)
  | _ => exact h

/-- **Step lemma**: an open is answered to the call that asked. -/
theorem routed_step (h : Routed s) (hstep : step lib limits s a = some s') : Routed s' where
  opens path mode reply hmem := by
    rcases queue_step hmem hstep with hold | ⟨i, kind, htask, hcmd⟩
    · obtain ⟨i, hreply, hkind⟩ := h.opens path mode reply hold
      exact ⟨i, hreply, kindAt_step hkind hstep⟩
    · obtain ⟨hreply, rfl⟩ := command_openFile hcmd
      exact ⟨i, hreply, kindAt_step (by rw [kindAt, htask]; rfl) hstep⟩
  emptied := emptied_step h.emptied hstep

/-! ### Whoever owes a `Close` still does -/

variable {files : List Opened} {tasks : List Task} {i f : Nat} {kind : CallKind} {pc : Pc}
  {o o' : Opened} {t : Task}

/-- A file that goes on owing a `Close`. -/
theorem owes_set (hf : files[f]? = some o) (howes : o.Owes id → o'.Owes id)
    (h : ∃ x ∈ files, x.Owes id) : ∃ x ∈ files.set f o', x.Owes id := by
  obtain ⟨x, hx, hxid⟩ := h
  by_cases heq : x = o
  · subst heq
    exact ⟨o', List.mem_set (List.getElem?_eq_some_iff.mp hf).1 _, howes hxid⟩
  · exact ⟨x, Lts.mem_set_of_ne hf hx heq, hxid⟩

/-- A length that changes is nothing to it. -/
theorem owes_setLen (len : Nat) (h : ∃ x ∈ files, x.Owes id) :
    ∃ x ∈ files.modify f fun o => { o with len := len }, x.Owes id := by
  obtain ⟨x, hx, hxid⟩ := h
  obtain ⟨g, hg⟩ := List.mem_iff_getElem?.mp hx
  have hmod : (files.modify f fun o => { o with len := len })[g]?
      = some (if f = g then { x with len := len } else x) := by
    rw [List.getElem?_modify, hg]
    rfl
  refine ⟨_, List.mem_of_getElem? hmod, ?_⟩
  split
  · exact ⟨hxid.id, hxid.alive, hxid.unsent⟩
  · exact hxid

/-- A file has sent its `Close`, or it is as it was. -/
theorem owes_send {cmd : Command} (hcmd : s.command i kind = some cmd)
    (h : ∃ x ∈ s.files, x.Owes id) :
    (∃ x ∈ kind.afterSend s.files, x.Owes id) ∨ ∃ reply, cmd = .run (.close id) reply := by
  obtain ⟨x, hx, hxid⟩ := h
  obtain ⟨g, hg⟩ := List.mem_iff_getElem?.mp hx
  have hother : ∀ (f : Nat) (F : Opened → Opened), f ≠ g → ∃ y ∈ s.files.modify f F, y.Owes id := by
    intro f F hne
    refine ⟨x, List.mem_of_getElem? (i := g) ?_, hxid⟩
    rw [List.getElem?_modify_ne _ _ hne, hg]
  cases kind with
  | session | shutdown | file => exact .inl ⟨x, hx, hxid⟩
  | close f | drop f =>
    by_cases hf : f = g
    · subst hf
      rw [command, hg] at hcmd
      rw [← hxid.id]
      exact .inr ⟨_, (Option.some.inj hcmd).symm⟩
    · exact .inl (hother f _ hf)

/-- A task goes on that held nothing. -/
theorem holds_set (htask : tasks[i]? = some t) (hnot : ¬ t.Holds id) (u : Task)
    (h : ∃ x ∈ tasks, x.Holds id) : ∃ x ∈ tasks.set i u, x.Holds id := by
  obtain ⟨x, hx, hxid⟩ := h
  refine ⟨x, Lts.mem_set_of_ne htask hx ?_, hxid⟩
  rintro rfl
  exact hnot hxid

/-- An answer takes nothing from the tasks. -/
theorem holds_settle (reply : Option Nat) (pc : Pc) (h : ∃ x ∈ tasks, x.Holds id) :
    ∃ x ∈ settle tasks reply pc, x.Holds id := by
  rcases settle_cases tasks reply pc with hsame | ⟨i, kind, -, htask, hset⟩
  · rw [hsame]
    exact h
  · rw [hset]
    refine holds_set htask ?_ _ h
    rintro ⟨path, mode, len, heq⟩
    cases heq

/-- A call that receives its reply: the id of an open goes into a file. -/
theorem owned_received {r : Result Answer} (htask : s.tasks[i]? = some ⟨kind, .delivered r⟩)
    (h : s.Owned id) :
    Owned { s with files := (s.received limits kind r).2,
                   tasks := s.tasks.set i ⟨kind, (s.received limits kind r).1⟩ } id := by
  -- the files that owe a `Close` still do
  have hfiles : (∃ x ∈ s.files, x.Owes id) → ∃ x ∈ (s.received limits kind r).2, x.Owes id := by
    rintro ⟨x, hx, hxid⟩
    unfold received
    split
    · exact ⟨x, List.mem_append_left _ hx, hxid⟩
    · split
      · exact owes_setLen _ ⟨x, hx, hxid⟩
      · exact ⟨x, hx, hxid⟩
      · exact ⟨x, hx, hxid⟩
    · exact ⟨x, hx, hxid⟩
  rcases h with hfile | hqueue | htasks
  · exact .inl (hfiles hfile)
  · exact .inr (.inl hqueue)
  · by_cases hholds : Task.Holds id ⟨kind, .delivered r⟩
    · obtain ⟨path, mode, len, heq⟩ := hholds
      cases heq
      exact .inl ⟨_, List.mem_append_right _ (List.mem_singleton_self _), rfl, nofun, rfl⟩
    · exact .inr (.inr (holds_set htask hholds _ htasks))

/-- A call that starts. -/
theorem owned_spawn (pc : Pc) (h : s.Owned id) : (s.spawn kind pc).Owned id := by
  rcases h with hfile | hqueue | ⟨t, ht, hid⟩
  · exact .inl hfile
  · exact .inr (.inl hqueue)
  · exact .inr (.inr ⟨t, List.mem_append_left _ ht, hid⟩)

/-- A task that goes on and held nothing. -/
theorem owned_setPc (htask : s.tasks[i]? = some t) (hnot : ¬ t.Holds id) (u : Task)
    (h : s.Owned id) : Owned { s with tasks := s.tasks.set i u } id := by
  rcases h with hfile | hqueue | htasks
  · exact .inl hfile
  · exact .inr (.inl hqueue)
  · exact .inr (.inr (holds_set htask hnot u htasks))

/-- A file that changes and still owes its `Close`. -/
theorem owned_setFile (hf : s.files[f]? = some o) (howes : o.Owes id → o'.Owes id)
    (h : s.Owned id) : Owned { s with files := s.files.set f o' } id := by
  rcases h with hfile | hqueue | htasks
  · exact .inl (owes_set hf howes hfile)
  · exact .inr (.inl hqueue)
  · exact .inr (.inr htasks)

/-- A command that is sent: a file's `Close` is now in the channel. -/
theorem owned_enqueue {cmd : Command} (htask : s.tasks[i]? = some ⟨kind, .ready⟩)
    (hcmd : s.command i kind = some cmd) (h : s.Owned id) : (s.enqueue i kind cmd).Owned id := by
  rcases h with hfile | ⟨reply, hqueue⟩ | htasks
  · rcases owes_send hcmd hfile with hfile' | ⟨reply, rfl⟩
    · exact .inl hfile'
    · exact .inr (.inl ⟨reply, List.mem_append_right _ (List.mem_singleton_self _)⟩)
  · exact .inr (.inl ⟨reply, List.mem_append_left _ hqueue⟩)
  · exact .inr (.inr (holds_set htask (by rintro ⟨_, _, _, heq⟩; cases heq) _ htasks))

/-- The next command is gone from the channel, and its reply sent. -/
theorem owned_served {cmd : Command} {queue : List Command} {r : Result Answer}
    (hqueue : s.queue = cmd :: queue) (hcmd : ∀ reply, cmd ≠ .run (.close id) reply)
    (actor : Actor W) (phase : Phase) (reply : Option Nat) (h : s.Owned id) :
    Owned { s with actor := actor, queue := queue, phase := phase,
                   tasks := settle s.tasks reply (.delivered r) } id := by
  rcases h with hfile | ⟨reply', hmem⟩ | htasks
  · exact .inl hfile
  · rw [hqueue] at hmem
    rcases List.mem_cons.mp hmem with rfl | hmem'
    · exact absurd rfl (hcmd reply')
    · exact .inr (.inl ⟨reply', hmem'⟩)
  · exact .inr (.inr (holds_settle _ _ htasks))

/-! ### Every step -/

/-- The ids of the table after a command, and who is to close them. -/
theorem noOrphans_ran {fuel : Nat} {req : Request} {reply : Option Nat} {queue : List Command}
    {r : Result Answer} {actor : Actor W} (h : NoOrphans s) (hrouted : Routed s)
    (hok : attended lib s (.serve fuel) = true) (hqueue : s.queue = .run req reply :: queue)
    (hrun : execute lib fuel req s.actor = .ok (r, actor)) :
    NoOrphans { s with actor := actor, queue := queue,
                       tasks := settle s.tasks reply (.delivered r) } := by
  -- an id that was there before is still owned
  have hsame : (∀ id, req ≠ .close id) → ∀ id ∈ s.actor.files.handles.map Prod.fst,
      Owned { s with actor := actor, queue := queue,
                     tasks := settle s.tasks reply (.delivered r) } id := by
    intro hreq id hid
    refine owned_served hqueue (fun reply' heq => ?_) actor s.phase reply (h id hid)
    cases heq
    exact hreq id rfl
  have heffect := effect_of_execute hrun
  intro id hid
  replace hid : id ∈ actor.files.handles.map Prod.fst := hid
  cases req with
  | openFile path mode =>
    rcases heffect with ⟨fh, len, hadd, rfl⟩ | ⟨hfiles, -⟩
    · rw [hadd, OpenFiles.add, List.map_append, List.mem_append] at hid
      rcases hid with hold | hnew
      · exact hsame (by simp) id hold
      · -- the new id is in the reply to a task that waits for it
        obtain rfl : id = actor.files.nextId := by
          rw [hadd]
          show id = s.actor.files.nextId + 1
          simpa using hnew
        obtain ⟨i, rfl, hkind⟩ := hrouted.opens path mode reply (by rw [hqueue]; simp)
        rw [attended, hqueue] at hok
        rcases (Bool.or_eq_true _ _).mp hok with hwaiting | hrefused
        · obtain ⟨⟨kind, pc⟩, htask, hpc⟩ := Option.map_eq_some_iff.mp (of_decide_eq_true hwaiting)
          cases hpc
          rw [kindAt, htask] at hkind
          cases hkind
          refine .inr (.inr
            ⟨⟨.session (.openFile path mode), .delivered _⟩, ?_, path, mode, len, rfl⟩)
          show _ ∈ settle s.tasks (some i) _
          simp only [settle, htask]
          exact List.mem_set (List.getElem?_eq_some_iff.mp htask).1 _
        · have hfiles := same_of_refused hrefused hrun
          rw [hadd] at hfiles
          have hnext := congrArg OpenFiles.nextId hfiles
          simp [OpenFiles.add] at hnext
    · rw [hfiles] at hid
      exact hsame (by simp) id hid
  | close id' =>
    -- the id that is closed is not in the table any more
    have hremove : actor.files = s.actor.files.remove id' := heffect
    rw [hremove] at hid
    obtain ⟨p, hp, rfl⟩ := List.mem_map.mp hid
    obtain ⟨hp, hne⟩ := List.mem_filter.mp hp
    refine owned_served hqueue (fun reply' heq => ?_) actor s.phase reply
      (h p.1 (List.mem_map_of_mem hp))
    cases heq
    simp at hne
  | _ =>
    have hfiles : actor.files = s.actor.files := heffect
    rw [hfiles] at hid
    exact hsame (by simp) id hid

/-- **Step lemma.** -/
theorem noOrphans_step (h : NoOrphans s) (hrouted : Routed s) (hclosers : Closers s.tasks s.files)
    (hok : attended lib s a = true) (hstep : step lib limits s a = some s') : NoOrphans s' := by
  cases moved_of_step hstep with
  | call | shutdown | fileCall => exact fun id hid => owned_spawn _ (h id hid)
  | close hf howned =>
    refine fun id hid => owned_spawn _ (owned_setFile hf (fun howes => ?_) (h id hid))
    exact ⟨howes.id, howes.alive, howes.unsent⟩
  | dropClosed hf howned hfree hclosed =>
    -- a file that is closed has sent its `Close`
    refine fun id hid => owned_setFile hf (fun howes => ?_) (h id hid)
    have hcloses := hclosers.closes _ _ hf
    rw [hclosers.closers_unborrowed hf howned (unborrowed_iff.mp hfree), howes.unsent, hclosed]
      at hcloses
    cases hcloses
  | dropOpen hf howned hfree hclosed =>
    refine fun id hid => owned_spawn _ (owned_setFile hf (fun howes => ?_) (h id hid))
    exact ⟨howes.id, nofun, howes.unsent⟩
  | enqueue htask hup hcmd => exact fun id hid => owned_enqueue htask hcmd (h id hid)
  | @refuse i kind htask hexited =>
    have hempty := emptied_step hrouted.emptied hstep
    intro id hid
    rw [hempty (by cases kind <;> exact .inr hexited)] at hid
    cases hid
  | takeJoin htask | joined htask | disconnected htask =>
    refine fun id hid => owned_setPc htask ?_ _ (h id hid)
    -- the reply that is thrown away held no id, or one that is not in the table
    rintro ⟨path, mode, len, heq⟩
    cases heq
  | received htask => exact fun id hid => owned_received htask (h id hid)
  | abandon htask =>
    refine fun id hid => owned_setPc htask ?_ _ (h id hid)
    rintro ⟨path, mode, len, heq⟩
    cases heq
    simp only [attended, htask, Option.isNone_iff_eq_none] at hok
    exact OpenFiles.not_mem_of_get_none hok hid
  | letGo | hangUp => exact h
  | ran hserving hqueue hrun => exact noOrphans_ran h hrouted hok hqueue hrun
  | @stopped fuel i queue hserving hqueue =>
    intro id hid
    exact owned_served (r := .ok .unit) hqueue nofun s.actor .leaving (some i) (h id hid)
  | teardown | exit =>
    have hempty := emptied_step hrouted.emptied hstep
    intro id hid
    rw [hempty (by first | exact .inl rfl | exact .inr rfl)] at hid
    cases hid

/-- **No open file is orphaned** in a run in which every open is attended to. -/
theorem noOrphans_of_attended {w : W} {acts : List Action}
    (hok : Lts.AllSteps (step lib limits) (fun s a => attended lib s a = true) (init w) acts)
    (hrun : Lts.run (step lib limits) (init w) acts = some s) : NoOrphans s := by
  have hkept : NoOrphans s ∧ Routed s ∧ Closers s.tasks s.files := by
    refine Lts.run_invariant_of_allSteps (I := fun s => NoOrphans s ∧ Routed s ∧
      Closers s.tasks s.files) ?_ hok ?_ hrun
    · rintro s a s' hattended ⟨h, hrouted, hclosers⟩ hstep
      exact ⟨noOrphans_step h hrouted hclosers hattended hstep, routed_step hrouted hstep,
        closers_step hclosers hstep⟩
    · exact ⟨by simp [NoOrphans, init, OpenFiles.empty], ⟨by simp [init], fun _ => rfl⟩,
        closers_init w⟩
  exact hkept.1

end Sys

/-! ### A future that is dropped -/

/-- Open a file and drop the future before the reply. -/
def dropsOpen : List Action :=
  [.call (.openFile ⟨"/a"⟩ .reading), .send 0, .abandon 0, .serve 0]

/-- **The id is forgotten**: it is in the table, and no file, command or future names it. -/
theorem open_orphaned : ∃ s,
    Lts.run (Sys.step (MemServer.lib .none) ⟨1, 1, by decide, by decide⟩)
      (Sys.init (MemServer.holding "a" (.file [1, 2, 3]))) dropsOpen = some s ∧
    ¬ s.NoOrphans := by
  have hrun : (Lts.run (Sys.step (MemServer.lib .none) ⟨1, 1, by decide, by decide⟩)
      (Sys.init (MemServer.holding "a" (.file [1, 2, 3]))) dropsOpen).map
        (fun s => (s.actor.files.handles, s.files.length, s.queue, s.tasks)) =
      some ([(1, 1)], 0, [], [⟨.session (.openFile ⟨"/a"⟩ .reading), .abandoned⟩]) := by
    decide +kernel
  obtain ⟨s, hrun, hends⟩ := Option.map_eq_some_iff.mp hrun
  simp only [Prod.mk.injEq, List.length_eq_zero_iff] at hends
  obtain ⟨hhandles, hfiles, hqueue, htasks⟩ := hends
  refine ⟨s, hrun, fun h => ?_⟩
  rcases h 1 (by simp [hhandles]) with hfile | hclose | hheld
  · simp [hfiles] at hfile
  · simp [hqueue] at hclose
  · simp [htasks, Task.Holds] at hheld

/-- Open a file, close it, drop the future of the close and the file. -/
def dropsClose : List Action :=
  [.call (.openFile ⟨"/a"⟩ .reading), .send 0, .serve 0, .wake 0, .close 0, .send 1, .abandon 1,
    .drop 0]

/-- The `Close` is still in the channel. -/
theorem noOrphans_dropsClose : ∃ s,
    Lts.run (Sys.step (MemServer.lib .none) ⟨1, 1, by decide, by decide⟩)
      (Sys.init (MemServer.holding "a" (.file [1, 2, 3]))) dropsClose = some s ∧
    s.actor.files.handles = [(1, 1)] ∧ s.NoOrphans := by
  have hrun : (Lts.run (Sys.step (MemServer.lib .none) ⟨1, 1, by decide, by decide⟩)
      (Sys.init (MemServer.holding "a" (.file [1, 2, 3]))) dropsClose).map
        (fun s => s.actor.files.handles) = some [(1, 1)] := by
    decide +kernel
  obtain ⟨s, hrun, hhandles⟩ := Option.map_eq_some_iff.mp hrun
  exact ⟨s, hrun, hhandles, Sys.noOrphans_of_attended (by decide +kernel) hrun⟩

end Krystallos.Smb
