import Krystallos.Ffi.Length
import Krystallos.Lib.Pending
import Krystallos.Smb.Session

namespace Krystallos.Smb

open Checked Prog Lts Pending

/-!
# The cached length of a file with many callers

The session thread applies writes and truncations in the order of its queue, and each caller brings
the cached length up to date when it resumes, in whatever order the callers are woken.  `Behind`
ties the two together: the cached length misses the updates of the callers that have not resumed, in
the order of the thread.  So it is right in the end where no caller gets ahead of another to a
difference (`len_right_of_inTurn`).
-/

namespace FileCall

/-- What a call makes of the cached length when it has its reply. -/
def effect : FileCall → Result Answer → Nat → Nat
  | .writeAt offset _, .ok (.written n), len => max len (offset + n)
  | .setLen len, .ok _, _ => len
  | _, _, len => len

/-- The call is a write or a truncation, its numbers `u64`s. -/
def Resizing : FileCall → Prop
  | .writeAt offset _ => offset < 2 ^ 64
  | .setLen len => len < 2 ^ 64
  | _ => False

/-- The caller can make the update: its arithmetic does not overflow. -/
def Settles (call : FileCall) (r : Result Answer) : Prop :=
  ∀ answer len, r = .ok answer → call.newLen answer len = .ok (call.effect r len)

end FileCall

/-- What happens next is about writes and truncations of file `f`. -/
def Action.Resizing (f : Nat) : Action → Prop
  | .fileCall g request => g = f ∧ request.Resizing
  | .send _ | .serve _ | .wake _ => True
  | _ => False

/-- A write of at least a byte accepts at least one, or fails. -/
def Accepts {W : Type} (lib : Libsmb2 W) (J : W → Prop) (fh : Fh) : Prop :=
  ∀ data offset w (n : Int) w', J w → data ≠ [] → lib.call (.pwrite fh data offset) w = (n, w') →
    n ≠ 0

namespace Sys

variable {W : Type}

/-- The tasks whose call was applied and who have not resumed, oldest first. -/
def applied (s : Sys W) (a : Action) (order : List Nat) : List Nat :=
  match a with
  | .serve _ => order ++ (s.queue.head?.bind Command.reply).toList
  | .wake i => order.erase i
  | _ => order

/-- What a task makes of the cached length when it resumes. -/
def updateOf (tasks : List Task) (i : Nat) : Nat → Nat :=
  match tasks[i]? with
  | some ⟨.file _ call, .delivered r⟩ => call.effect r
  | _ => id

/-- No task updates the length ahead of a call that was applied before its own, unless that makes
    no difference to what the updates that are to come add up to. -/
def InTurn (x : Sys W × List Nat) : Action → Prop
  | .wake i => ∀ before after, x.2 = before ++ i :: after →
      Harmless (before.map (updateOf x.1.tasks)) (updateOf x.1.tasks i)
        (after.map (updateOf x.1.tasks))
  | _ => True

/-- No call is in flight. -/
def Idle (s : Sys W) : Prop := ∀ t ∈ s.tasks, t.pc.over = true

/-- The cached length of file `f` is the size of the file. -/
def RightLen (fileSize : W → Nat) (f : Nat) (s : Sys W) : Prop :=
  ∀ o, s.files[f]? = some o → o.len = fileSize s.actor.ctx.world

/-- Where a task stands: at its end, or somewhere in a write or a truncation of file `f`. -/
def Stands (f : Nat) (order : List Nat) (i : Nat) (t : Task) : Prop :=
  t.pc.over = true ∨ ∃ call, t.kind = .file f call ∧ call.Resizing ∧ call.nothing = none ∧
    (t.pc = .ready ∨ t.pc = .waiting ∨ ∃ r, t.pc = .delivered r ∧ i ∈ order ∧ call.Settles r)

/-- The cached length is behind the file's size by the updates of those who have not resumed. -/
structure Behind (J : W → Prop) (fileSize : W → Nat) (fh : Fh) (f : Nat) (file : RemoteFile)
    (x : Sys W × List Nat) : Prop where
  serving : x.1.phase = .serving
  world : J x.1.actor.ctx.world
  table : x.1.actor.files.get file.id = some fh
  opened : ∃ o, x.1.files[f]? = some o ∧ o.file = file ∧ o.closed = false ∧
    applyAll (x.2.map (updateOf x.1.tasks)) o.len = fileSize x.1.actor.ctx.world
  stands : ∀ i t, x.1.tasks[i]? = some t → Stands f x.2 i t
  commands : ∀ cmd ∈ x.1.queue, ∃ i call, cmd = .run (call.request file) (some i) ∧
    x.1.tasks[i]? = some ⟨.file f call, .waiting⟩
  once : (x.1.queue.filterMap Command.reply).Nodup
  nodup : x.2.Nodup
  delivered : ∀ i ∈ x.2, ∃ call r, x.1.tasks[i]? = some ⟨.file f call, .delivered r⟩

end Sys

/-! ### What the thread does to the file -/

variable {W : Type} {lib : Libsmb2 W} {limits : Limits} {J : W → Prop} {fileSize : W → Nat}
  {fh : Fh} {f : Nat} {file : RemoteFile} {call : FileCall} {a a' : Actor W} {r : Result Answer}

theorem wp_onCtx_failWith {α : Type} {rc : Int} {label : String} {p : Post Error (Actor W) α}
    (hfail : ∀ e, p.fail e a) (hstop : ∀ t, p.stop t) :
    wp (onCtx (failWith lib rc label)) p a := by
  rw [onCtx, wp_zoom, failWith, wp_bind]
  exact wp_ctxError (fun e => hfail e) (fun q => hstop _)

/-- A write that succeeds has accepted something. -/
theorem wp_writeAt_accepts (haccepts : Accepts lib J fh) {id offset : Nat} {data : List UInt8}
    (hJ : J a.ctx.world) (hid : a.files.get id = some fh) (hdata : data ≠ [])
    (hlen : data.length < 2 ^ 32) :
    wp (writeAt lib id offset data) ⟨fun n _ => n ≠ 0, fun _ _ => True, fun _ => True⟩ a := by
  rw [writeAt, wp_bind]
  refine wp_handleOf (fun fh' hfh => ?_) (fun _ => trivial)
  obtain rfl : fh = fh' := Option.some.inj (hid.symm.trans hfh)
  have htake : data.take (castU 32 data.length) = data := by
    rw [castU_of_lt hlen, List.take_length]
  refine (wp_bind (onCtx (ffi lib (.pwrite fh _ offset))) _).mpr (wp_onCtx_ffi.mpr ?_)
  rw [htake]
  rcases hanswer : lib.call (.pwrite fh data offset) a.ctx.world with ⟨n, w⟩
  have hne := haccepts data offset _ n w hJ hdata hanswer
  refine wp_ite (fun _ => wp_onCtx_failWith (fun _ => trivial) (fun _ => trivial))
    (fun hnonneg => ?_)
  have hpos := not_lt.mp hnonneg
  show Int.toNat n ≠ 0
  omega

theorem FileCall.effect_error (call : FileCall) (e : Error) (len : Nat) :
    call.effect (.error e) len = len := by
  cases call <;> rfl

theorem FileCall.settles_error (call : FileCall) (e : Error) : call.Settles (.error e) := by
  rintro answer _ ⟨⟩

theorem FileCall.settles_setLen (len : Nat) (answer : Answer) :
    (FileCall.setLen len).Settles (.ok answer) := by
  rintro _ _ ⟨⟩
  rfl

theorem FileCall.settles_written {offset n : Nat} (h : offset + n < 2 ^ 64) (buf : List UInt8) :
    (FileCall.writeAt offset buf).Settles (.ok (.written n)) := by
  rintro _ len ⟨⟩
  show (do
    let fileEnd ← addU 64 offset n
    return max len fileEnd) = _
  rw [addU_ok h]
  rfl

/-- What a write does to the length is to raise it, or nothing. -/
theorem FileCall.raises_writeAt (offset : Nat) (buf : List UInt8) (r : Result Answer) :
    Raises ((FileCall.writeAt offset buf).effect r) := by
  have hnothing : Raises fun len : Nat => len := ⟨0, funext fun len => (Nat.max_zero len).symm⟩
  cases r with
  | error e => exact hnothing
  | ok answer =>
    cases answer with
    | written n => exact ⟨offset + n, rfl⟩
    | _ => exact hnothing

/-- A truncation does not look at the length that it replaces. -/
theorem FileCall.resets_setLen (len : Nat) (answer : Answer) :
    Resets ((FileCall.setLen len).effect (.ok answer)) := fun _ _ => rfl

theorem FileCall.Resizing.raises_or_resets (h : call.Resizing) (r : Result Answer) :
    Raises (call.effect r) ∨ Resets (call.effect r) := by
  cases call with
  | readAt | flush => exact h.elim
  | writeAt offset buf => exact .inl (FileCall.raises_writeAt offset buf r)
  | setLen len =>
    cases r with
    | error e => exact .inl ⟨0, funext fun len => (Nat.max_zero len).symm⟩
    | ok answer => exact .inr (FileCall.resets_setLen len answer)

/-- The call came out as `r`: the file has the size that the caller will make of the length, if that
    was right before. -/
structure Applied (J : W → Prop) (fileSize : W → Nat) (call : FileCall) (a a' : Actor W)
    (r : Result Answer) : Prop where
  stays : Ffi.StaysOpen J a a'
  size : fileSize a'.ctx.world = call.effect r (fileSize a.ctx.world)
  settles : call.Settles r

/-- A call that fails changes neither the file's size nor the length. -/
theorem applied_error (call : FileCall) (e : Error) (hstays : Ffi.StaysOpen J a a')
    (hsize : fileSize a'.ctx.world = fileSize a.ctx.world) :
    Applied J fileSize call a a' (.error e) := by
  refine ⟨hstays, ?_, call.settles_error e⟩
  rw [call.effect_error]
  exact hsize

/-- **A command** is applied. -/
theorem wp_execute_applies (hresizes : Ffi.Resizes lib J fh fileSize)
    (haccepts : Accepts lib J fh) (hmax : 0 < file.limits.maxWrite) (fuel : Nat)
    (hJ : J a.ctx.world) (hid : a.files.get file.id = some fh) (hcall : call.Resizing)
    (hsends : call.nothing = none) :
    wp (execute lib fuel (call.request file))
      ⟨fun answer a' => Applied J fileSize call a a' (.ok answer),
        fun e a' => Applied J fileSize call a a' (.error e), fun _ => False⟩ a := by
  cases call with
  | readAt | flush => exact hcall.elim
  | setLen len =>
    apply (wp_bind (setLen lib file.id len) _).mpr
    refine wp_mono (Ffi.wp_setLen_resizes hresizes hJ hid len) ?_ ?_ (fun _ => False.elim)
    · rintro _ a₁ ⟨hstays, hsize⟩
      exact ⟨hstays, hsize, FileCall.settles_setLen len _⟩
    · rintro e a₁ ⟨hstays, hsize⟩
      exact applied_error _ e hstays hsize
  | writeAt offset buf =>
    have hbuf : buf ≠ [] := by
      rintro rfl
      cases hsends
    have hdata : buf.take (min buf.length file.limits.maxWrite) ≠ [] := by
      have hpos := List.length_pos_iff.mpr hbuf
      rw [← List.length_pos_iff, List.length_take]
      omega
    have hlen : (buf.take (min buf.length file.limits.maxWrite)).length < 2 ^ 32 := by
      have := file.limits.maxWrite_lt
      rw [List.length_take]
      omega
    have hwrite := wp_and (Ffi.wp_writeAt_resizes hresizes hJ hid offset _)
      (wp_writeAt_accepts haccepts hJ hid hdata hlen)
    apply (wp_bind (writeAt lib file.id offset _) _).mpr
    refine wp_mono hwrite ?_ ?_ (fun _ h => h.1)
    · rintro n a₁ ⟨⟨hstays, hsize⟩, hn⟩
      -- the new size is a `u64`, and so the caller's sum is one
      have hsum : offset + n < 2 ^ 64 :=
        Ffi.add_lt_of_grown hcall (hsize ▸ hresizes.bound _ hstays.world)
      rw [Ffi.grown_pos hn] at hsize
      exact ⟨hstays, hsize, FileCall.settles_written hsum buf⟩
    · rintro e a₁ ⟨⟨hstays, hsize⟩, -⟩
      exact applied_error _ e hstays hsize

/-- A command that was executed. -/
theorem applied_of_execute (hresizes : Ffi.Resizes lib J fh fileSize) (haccepts : Accepts lib J fh)
    (hmax : 0 < file.limits.maxWrite) {fuel : Nat} (hJ : J a.ctx.world)
    (hid : a.files.get file.id = some fh) (hcall : call.Resizing) (hsends : call.nothing = none)
    (hrun : execute lib fuel (call.request file) a = .ok (r, a')) :
    Applied J fileSize call a a' r := by
  have happlies := wp_execute_applies hresizes haccepts hmax fuel hJ hid hcall hsends
  rcases post_of_run happlies hrun with ⟨answer, rfl, happlied⟩ | ⟨e, rfl, happlied⟩
  · exact happlied
  · exact happlied

namespace Sys

variable {s s' : Sys W} {order before after : List Nat} {i : Nat} {kind : CallKind} {o : Opened}
  {tasks tasks' : List Task} {cmd : Command}

/-! ### What each step does to the updates that are to come -/

theorem updates_congr (h : ∀ i ∈ order, tasks'[i]? = tasks[i]?) :
    order.map (updateOf tasks') = order.map (updateOf tasks) := by
  apply List.map_congr_left
  intro i hi
  rw [updateOf, updateOf, h i hi]

theorem updateOf_delivered (h : tasks[i]? = some ⟨.file f call, .delivered r⟩) :
    updateOf tasks i = call.effect r := by
  rw [updateOf, h]

/-- Who is not among those that were applied is no part of the updates. -/
theorem updates_set (hi : i ∉ order) (t : Task) :
    order.map (updateOf (tasks.set i t)) = order.map (updateOf tasks) := by
  apply updates_congr
  intro j hj
  apply List.getElem?_set_ne
  rintro rfl
  exact hi hj

/-- What was delivered to others stands. -/
theorem delivered_set (h : ∀ j ∈ order, ∃ call r, tasks[j]? = some ⟨.file f call, .delivered r⟩)
    (hi : i ∉ order) (t : Task) :
    ∀ j ∈ order, ∃ call r, (tasks.set i t)[j]? = some ⟨.file f call, .delivered r⟩ := by
  intro j hj
  obtain ⟨call, r, htask⟩ := h j hj
  refine ⟨call, r, (List.getElem?_set_ne ?_).trans htask⟩
  rintro rfl
  exact hi hj

section

variable {queue : List Command} (hqueue : ∀ cmd ∈ queue, ∃ j call,
  cmd = .run (call.request file) (some j) ∧ tasks[j]? = some ⟨.file f call, .waiting⟩)

include hqueue

/-- The commands in the channel are those of tasks that wait. -/
theorem not_mem_replies {pc : Pc} (htask : tasks[i]? = some ⟨kind, pc⟩) (hpc : pc ≠ .waiting) :
    i ∉ queue.filterMap Command.reply := by
  intro hi
  obtain ⟨cmd, hcmd, hreply⟩ := List.mem_filterMap.mp hi
  obtain ⟨j, call, rfl, hj⟩ := hqueue cmd hcmd
  obtain rfl : j = i := Option.some.inj hreply
  obtain ⟨-, rfl⟩ := Task.mk.inj (Option.some.inj (htask.symm.trans hj))
  exact hpc rfl

/-- The commands of others stay theirs. -/
theorem commands_set (hi : i ∉ queue.filterMap Command.reply) (t : Task) :
    ∀ cmd ∈ queue, ∃ j call, cmd = .run (call.request file) (some j) ∧
      (tasks.set i t)[j]? = some ⟨.file f call, .waiting⟩ := by
  intro cmd hcmd
  obtain ⟨j, call, rfl, hj⟩ := hqueue cmd hcmd
  refine ⟨j, call, rfl, (List.getElem?_set_ne ?_).trans hj⟩
  rintro rfl
  exact hi (List.mem_filterMap.mpr ⟨_, hcmd, rfl⟩)

end

/-- A task that waits for nothing yet, or for its reply, was not applied. -/
theorem not_mem_order {x : Sys W × List Nat} (h : Behind J fileSize fh f file x) {pc : Pc}
    (htask : x.1.tasks[i]? = some ⟨kind, pc⟩) (hpc : pc = .ready ∨ pc = .waiting) : i ∉ x.2 := by
  intro hi
  obtain ⟨call, r, hdelivered⟩ := h.delivered i hi
  obtain ⟨-, rfl⟩ := Task.mk.inj (Option.some.inj (htask.symm.trans hdelivered))
  rcases hpc with hpc | hpc <;> cases hpc

theorem Stands.mono {t : Task} (h : Stands f order i t) {order' : List Nat}
    (hsub : i ∈ order → i ∈ order') : Stands f order' i t := by
  rcases h with hover | ⟨call, hkind, hresizing, hsends, hpc⟩
  · exact .inl hover
  · refine .inr ⟨call, hkind, hresizing, hsends, ?_⟩
    rcases hpc with hready | hwaiting | ⟨r, hr, hi, hsettles⟩
    · exact .inl hready
    · exact .inr (.inl hwaiting)
    · exact .inr (.inr ⟨r, hr, hsub hi, hsettles⟩)

/-- A call starts. -/
theorem behind_fileCall (h : Behind J fileSize fh f file (s, order)) (ho : s.files[f]? = some o)
    (hcall : call.Resizing) :
    Behind J fileSize fh f file (s.spawn (.file f call) (o.begin call), order) := by
  -- the tasks that were there stand where they stood
  have hold : ∀ (j : Nat) (t : Task), s.tasks[j]? = some t →
      (s.spawn (.file f call) (o.begin call)).tasks[j]? = some t := by
    intro j t hj
    exact (List.getElem?_append_left (List.getElem?_eq_some_iff.mp hj).1).trans hj
  obtain ⟨o', ho', hfile, hopen, hlen⟩ := h.opened
  obtain rfl : o = o' := Option.some.inj (ho.symm.trans ho')
  refine ⟨h.serving, h.world, h.table, ⟨o, ho, hfile, hopen, ?_⟩, ?_, ?_, h.once, h.nodup, ?_⟩
  · have hsame : order.map (updateOf (s.spawn (.file f call) (o.begin call)).tasks) =
        order.map (updateOf s.tasks) := by
      apply updates_congr
      intro j hj
      obtain ⟨call', r, hj'⟩ := h.delivered j hj
      rw [hold j _ hj']
      exact hj'.symm
    show applyAll (order.map _) o.len = _
    rw [hsame]
    exact hlen
  · intro j t hj
    rcases getElem?_concat_cases hj with hj' | ⟨-, rfl⟩
    · exact h.stands j t hj'
    · cases hnothing : call.nothing with
      -- nothing to write: the call is over, and no command is sent
      | some answer =>
        refine .inl ?_
        simp only [Opened.begin, hnothing]
        rfl
      | none =>
        refine .inr ⟨call, rfl, hcall, hnothing, .inl ?_⟩
        simp [Opened.begin, hnothing, hopen]
  · intro cmd hcmd
    obtain ⟨j, call', rfl, hj⟩ := h.commands cmd hcmd
    exact ⟨j, call', rfl, hold j _ hj⟩
  · intro j hj
    obtain ⟨call', r, hj'⟩ := h.delivered j hj
    exact ⟨call', r, hold j _ hj'⟩

/-- A task sends its command. -/
theorem behind_enqueue (h : Behind J fileSize fh f file (s, order))
    (htask : s.tasks[i]? = some ⟨kind, .ready⟩) (hcmd : s.command i kind = some cmd) :
    Behind J fileSize fh f file (s.enqueue i kind cmd, order) := by
  have hi : i ∉ order := not_mem_order h htask (.inl rfl)
  rcases h.stands i _ htask with hover | ⟨call, rfl, hcall, hsends, -⟩
  · cases hover
  obtain ⟨o, ho, hfile, hopen, hlen⟩ := h.opened
  obtain rfl : .run (call.request file) (some i) = cmd := by
    rw [command, ho, Option.map_some, hfile] at hcmd
    exact Option.some.inj hcmd
  have hlt : i < s.tasks.length := (List.getElem?_eq_some_iff.mp htask).1
  -- the commands that are in the channel are those of others
  have hothers : i ∉ s.queue.filterMap Command.reply := not_mem_replies h.commands htask (by simp)
  refine ⟨h.serving, h.world, h.table, ⟨o, ho, hfile, hopen, ?_⟩, ?_, ?_, ?_, h.nodup, ?_⟩
  · show applyAll (order.map (updateOf (s.tasks.set i _))) o.len = _
    rw [updates_set hi]
    exact hlen
  · intro j t hj
    rcases getElem?_set_cases hj with ⟨rfl, rfl⟩ | ⟨-, hj'⟩
    · exact .inr ⟨call, rfl, hcall, hsends, .inr (.inl rfl)⟩
    · exact h.stands j t hj'
  · intro cmd hmem
    rcases List.mem_append.mp hmem with hold | hnew
    · exact commands_set h.commands hothers _ cmd hold
    · exact ⟨i, call, List.mem_singleton.mp hnew, List.getElem?_set_self hlt⟩
  · show ((s.queue ++ [Command.run (call.request file) (some i)]).filterMap Command.reply).Nodup
    have hnew : [Command.run (call.request file) (some i)].filterMap Command.reply = [i] := rfl
    rw [List.filterMap_append, hnew, List.nodup_append]
    refine ⟨h.once, List.nodup_singleton i, ?_⟩
    rintro j hj k hk rfl
    obtain rfl := List.mem_singleton.mp hk
    exact hothers hj
  · exact delivered_set h.delivered hi _

/-- The thread applies a command: its update is the last of those that are to come. -/
theorem behind_ran (hresizes : Ffi.Resizes lib J fh fileSize) (haccepts : Accepts lib J fh)
    (hmax : 0 < file.limits.maxWrite) (h : Behind J fileSize fh f file (s, order)) {fuel : Nat}
    {req : Request} {reply : Option Nat} {queue : List Command} {actor : Actor W}
    (hqueue : s.queue = .run req reply :: queue)
    (hrun : execute lib fuel req s.actor = .ok (r, actor)) :
    Behind J fileSize fh f file
      ({ s with actor := actor, queue := queue, tasks := settle s.tasks reply (.delivered r) },
        order ++ reply.toList) := by
  -- the command is a call's, which waits for it and so is not among those applied
  obtain ⟨i, call, hcmd, htask⟩ := h.commands (.run req reply) (by rw [hqueue]; simp)
  obtain ⟨rfl, rfl⟩ := Command.run.inj hcmd
  have hi : i ∉ order := not_mem_order h htask (.inr rfl)
  have hlt : i < s.tasks.length := (List.getElem?_eq_some_iff.mp htask).1
  have hsettle : settle s.tasks (some i) (.delivered r) =
      s.tasks.set i ⟨.file f call, .delivered r⟩ := by
    simp only [settle, htask]
  rcases h.stands i _ htask with hover | ⟨call', hkind, hcall, hsends, -⟩
  · cases hover
  obtain rfl : call = call' := by
    injection hkind
  -- the world keeps its invariant, and the file gets the size of the call's effect
  obtain ⟨hstays, hsize, hsettles⟩ :=
    applied_of_execute hresizes haccepts hmax h.world h.table hcall hsends hrun
  obtain ⟨o, ho, hfile, hopen, hlen⟩ := h.opened
  -- the call has no other command behind this one
  have honce : i ∉ queue.filterMap Command.reply ∧ (queue.filterMap Command.reply).Nodup := by
    have hnodup : (i :: queue.filterMap Command.reply).Nodup := by
      have hall := h.once
      rw [hqueue] at hall
      exact hall
    exact List.nodup_cons.mp hnodup
  rw [hsettle]
  refine ⟨h.serving, hstays.world, ?_, ⟨o, ho, hfile, hopen, ?_⟩, ?_, ?_, honce.2, ?_, ?_⟩
  · rw [hstays.files]
    exact h.table
  · -- the file has the size that this caller will make of the length
    show applyAll ((order ++ [i]).map _) o.len = _
    have hnew : updateOf (s.tasks.set i ⟨.file f call, .delivered r⟩) i = call.effect r :=
      updateOf_delivered (List.getElem?_set_self hlt)
    rw [List.map_append, List.map_singleton, applyAll_append, updates_set hi, hlen, hnew, hsize]
    rfl
  · intro j t hj
    rcases getElem?_set_cases hj with ⟨rfl, rfl⟩ | ⟨-, hj'⟩
    · -- the caller now has its reply, and every other stands where it stood
      exact .inr ⟨call, rfl, hcall, hsends, .inr (.inr ⟨r, rfl, by simp, hsettles⟩)⟩
    · exact (h.stands j t hj').mono fun hmem => List.mem_append_left _ hmem
  · refine commands_set (fun cmd hmem => h.commands cmd ?_) honce.1 _
    rw [hqueue]
    exact List.mem_cons_of_mem _ hmem
  · show (order ++ [i]).Nodup
    rw [List.nodup_append]
    refine ⟨h.nodup, by simp, ?_⟩
    rintro j hj k hk rfl
    obtain rfl : j = i := by simpa using hk
    exact hi hj
  · intro j hj
    rcases List.mem_append.mp hj with hold | hnew
    · exact delivered_set h.delivered hi _ j hold
    · obtain rfl : j = i := by simpa using hnew
      exact ⟨call, r, List.getElem?_set_self hlt⟩

/-- The task stands at one place only among those that were applied. -/
theorem inTurn_iff {x : Sys W × List Nat} (horder : x.2 = before ++ i :: after) (hnodup : x.2.Nodup) :
    InTurn x (.wake i) ↔ Harmless (before.map (updateOf x.1.tasks)) (updateOf x.1.tasks i)
      (after.map (updateOf x.1.tasks)) := by
  have hsides : i ∉ before ∧ i ∉ after := by
    rw [horder, List.nodup_middle, List.nodup_cons, List.mem_append, not_or] at hnodup
    exact hnodup.1
  constructor
  · intro h
    exact h before after horder
  · intro h front rest hsplit
    rw [horder, List.append_cons_inj_of_notMem hsides.1 hsides.2] at hsplit
    obtain ⟨rfl, -, rfl⟩ := hsplit
    exact h

/-- A task that has its reply was applied, and can make its update. -/
theorem Behind.applied_of_delivered {x : Sys W × List Nat} (h : Behind J fileSize fh f file x)
    (htask : x.1.tasks[i]? = some ⟨kind, .delivered r⟩) :
    ∃ call, kind = .file f call ∧ i ∈ x.2 ∧ call.Resizing ∧ call.Settles r := by
  rcases h.stands i _ htask with hover | ⟨call, hkind, hcall, hsends, hpc⟩
  · cases hover
  rcases hpc with hpc | hpc | ⟨r', hpc, hi, hsettles⟩
  · cases hpc
  · cases hpc
  · obtain rfl : r = r' := by injection hpc
    exact ⟨call, hkind, hi, hcall, hsettles⟩

/-- **The update made now** and the others come to the same as before, if and only if the caller is
    in its turn. -/
theorem updates_erase_iff (h : Behind J fileSize fh f file (s, order))
    (htask : s.tasks[i]? = some ⟨.file f call, .delivered r⟩) (t : Task) (len : Nat) :
    applyAll ((order.erase i).map (updateOf (s.tasks.set i t))) (call.effect r len) =
        applyAll (order.map (updateOf s.tasks)) len ↔ InTurn (s, order) (.wake i) := by
  obtain ⟨call', hkind, hi, hcall, -⟩ := h.applied_of_delivered htask
  obtain rfl : call = call' := by injection hkind
  -- those applied before the caller's call and after it
  obtain ⟨before, after, rfl⟩ := List.append_of_mem hi
  have hrest : i ∉ before ++ after := (List.nodup_cons.mp (List.nodup_middle.mp h.nodup)).1
  have herase : (before ++ i :: after).erase i = before ++ after := by
    have hbefore : i ∉ before := fun hmem => hrest (List.mem_append_left _ hmem)
    rw [List.erase_append_right _ hbefore, List.erase_cons_head]
  have hupdate : updateOf s.tasks i = call.effect r := updateOf_delivered htask
  have hall : (before ++ i :: after).map (updateOf s.tasks) = before.map (updateOf s.tasks) ++
      updateOf s.tasks i :: after.map (updateOf s.tasks) := by
    rw [List.map_append, List.map_cons]
  -- every update raises the length or sets it
  have hkinds : ∀ v ∈ before.map (updateOf s.tasks) ++ updateOf s.tasks i ::
      after.map (updateOf s.tasks), Raises v ∨ Resets v := by
    rw [← hall]
    intro v hv
    obtain ⟨j, hj, rfl⟩ := List.mem_map.mp hv
    obtain ⟨call', r', hj'⟩ := h.delivered j hj
    obtain ⟨call'', hkind', -, hcall', -⟩ := h.applied_of_delivered hj'
    obtain rfl : call' = call'' := by injection hkind'
    rw [updateOf_delivered hj']
    exact hcall'.raises_or_resets r'
  rw [inTurn_iff rfl h.nodup, harmless_iff_at hkinds len, herase, updates_set hrest,
    List.map_append, hall, hupdate]

/-- What a caller makes of its reply: it is done, and the length has its update. -/
theorem received_behind (limits : Limits) (ho : s.files[f]? = some o) (hsettles : call.Settles r) :
    ∃ pc files, s.received limits (.file f call) r = (pc, files) ∧ pc.over = true ∧
      files[f]? = some { o with len := call.effect r o.len } := by
  have hlt : f < s.files.length := (List.getElem?_eq_some_iff.mp ho).1
  cases r with
  | error e =>
    refine ⟨_, _, rfl, rfl, ?_⟩
    rw [call.effect_error]
    exact ho
  | ok answer =>
    have hnew := hsettles answer o.len rfl
    simp only [received, ho, Option.map_some, hnew]
    exact ⟨_, _, rfl, rfl, by rw [List.getElem?_modify_eq, ho]; rfl⟩

/-- A caller resumes, in its turn. -/
theorem behind_received (limits : Limits) (h : Behind J fileSize fh f file (s, order))
    (hturn : InTurn (s, order) (.wake i)) (htask : s.tasks[i]? = some ⟨kind, .delivered r⟩) :
    Behind J fileSize fh f file
      ({ s with files := (s.received limits kind r).2,
                tasks := s.tasks.set i ⟨kind, (s.received limits kind r).1⟩ }, order.erase i) := by
  obtain ⟨call, rfl, -, -, hsettles⟩ := h.applied_of_delivered htask
  obtain ⟨o, ho, hfile, hopen, hlen⟩ := h.opened
  obtain ⟨pc, files, hreceived, hover, hfiles⟩ := received_behind limits ho hsettles
  have hsub : ∀ j ∈ order.erase i, j ∈ order := fun j => List.mem_of_mem_erase
  have hrest : i ∉ order.erase i := h.nodup.not_mem_erase
  rw [hreceived]
  refine ⟨h.serving, h.world, h.table, ⟨_, hfiles, hfile, hopen, ?_⟩, ?_, ?_, h.once, ?_, ?_⟩
  · -- the update made now and those to come still lead to the size
    exact ((updates_erase_iff h htask _ o.len).mpr hturn).trans hlen
  · intro j t hj
    rcases getElem?_set_cases hj with ⟨rfl, rfl⟩ | ⟨hne, hj'⟩
    · exact .inl hover
    · exact (h.stands j t hj').mono (List.mem_erase_of_ne hne.symm).mpr
  · exact commands_set h.commands (not_mem_replies h.commands htask (by simp)) _
  · exact h.nodup.erase i
  · exact delivered_set (fun j hj => h.delivered j (hsub j hj)) hrest _

/-- **Only in its turn** can a caller resume, if the length is to be behind by those that are left:
    the condition of `InTurn` is exact. -/
theorem inTurn_of_received (limits : Limits) (h : Behind J fileSize fh f file (s, order))
    (htask : s.tasks[i]? = some ⟨kind, .delivered r⟩)
    (hnext : Behind J fileSize fh f file
      ({ s with files := (s.received limits kind r).2,
                tasks := s.tasks.set i ⟨kind, (s.received limits kind r).1⟩ }, order.erase i)) :
    InTurn (s, order) (.wake i) := by
  obtain ⟨call, rfl, -, -, hsettles⟩ := h.applied_of_delivered htask
  obtain ⟨o, ho, -, -, hlen⟩ := h.opened
  obtain ⟨pc, files, hreceived, hover, hfiles⟩ := received_behind limits ho hsettles
  rw [hreceived] at hnext
  obtain ⟨o', ho', -, -, hlen'⟩ := hnext.opened
  obtain rfl := Option.some.inj (hfiles.symm.trans ho')
  exact (updates_erase_iff h htask _ o.len).mp (hlen'.trans hlen.symm)

/-- The steps of a run of writes and truncations: a call starts, or sends its command, or has it
    applied, or resumes. -/
theorem step_of_behind {act : Action} (hact : act.Resizing f)
    (h : Behind J fileSize fh f file (s, order)) (hstep : step lib limits s act = some s') :
    (∃ o call, act = .fileCall f call ∧ call.Resizing ∧ s.files[f]? = some o ∧
      s' = s.spawn (.file f call) (o.begin call)) ∨
    (∃ i kind cmd, act = .send i ∧ s.tasks[i]? = some ⟨kind, .ready⟩ ∧
      s.command i kind = some cmd ∧ s' = s.enqueue i kind cmd) ∨
    (∃ fuel req reply queue r actor, act = .serve fuel ∧ s.queue = .run req reply :: queue ∧
      execute lib fuel req s.actor = .ok (r, actor) ∧
      s' = { s with actor := actor, queue := queue,
                    tasks := settle s.tasks reply (.delivered r) }) ∨
    ∃ i kind r, act = .wake i ∧ s.tasks[i]? = some ⟨kind, .delivered r⟩ ∧
      s' = { s with files := (s.received limits kind r).2,
                    tasks := s.tasks.set i ⟨kind, (s.received limits kind r).1⟩ } := by
  cases moved_of_step hstep with
  | fileCall hf howned =>
    obtain ⟨rfl, hcall⟩ := hact
    exact .inl ⟨_, _, rfl, hcall, hf, rfl⟩
  | enqueue htask hup hcmd => exact .inr (.inl ⟨_, _, _, rfl, htask, hcmd, rfl⟩)
  | ran hserving hqueue hrun =>
    exact .inr (.inr (.inl ⟨_, _, _, _, _, _, rfl, hqueue, hrun, rfl⟩))
  | received htask hkind => exact .inr (.inr (.inr ⟨_, _, _, rfl, htask, rfl⟩))
  -- the channel holds no command to stop, so the thread goes on serving
  | stopped hserving hqueue =>
    obtain ⟨i, call, hcmd, -⟩ := h.commands _ (by rw [hqueue]; exact List.mem_cons_self)
    cases hcmd
  | refuse htask hexited =>
    rw [h.serving] at hexited
    cases hexited
  -- nobody shuts down
  | takeJoin htask hpc =>
    rcases h.stands _ _ htask with hover | ⟨call, hkind, -⟩
    · rcases hpc with rfl | ⟨r, rfl⟩ <;> cases hover
    · cases hkind
  | joined htask hexited =>
    rw [h.serving] at hexited
    cases hexited
  | disconnected htask hkind =>
    rcases h.stands _ _ htask with hover | ⟨call, -, -, -, hpc⟩
    · cases hover
    · rcases hpc with hpc | hpc | ⟨r, hpc, -⟩ <;> cases hpc
  | _ => exact hact.elim

/-- **One step** of such a run, with every caller in its turn. -/
theorem behind_step (hresizes : Ffi.Resizes lib J fh fileSize) (haccepts : Accepts lib J fh)
    (hmax : 0 < file.limits.maxWrite) {x x' : Sys W × List Nat} {act : Action}
    (hact : act.Resizing f) (hturn : InTurn x act) (h : Behind J fileSize fh f file x)
    (hstep : recorded (step lib limits) applied x act = some x') :
    Behind J fileSize fh f file x' := by
  obtain ⟨s, order⟩ := x
  obtain ⟨s', hs', rfl⟩ := Option.map_eq_some_iff.mp hstep
  rcases step_of_behind hact h hs' with ⟨o, call, rfl, hcall, ho, rfl⟩ |
    ⟨i, kind, cmd, rfl, htask, hcmd, rfl⟩ |
    ⟨fuel, req, reply, queue, r, actor, rfl, hqueue, hrun, rfl⟩ | ⟨i, kind, r, rfl, htask, rfl⟩
  · exact behind_fileCall h ho hcall
  · exact behind_enqueue h htask hcmd
  · have hran := behind_ran hresizes haccepts hmax h hqueue hrun
    show Behind J fileSize fh f file (_, order ++ (s.queue.head?.bind Command.reply).toList)
    rw [hqueue]
    exact hran
  · exact behind_received limits h hturn htask

/-- Where no call is in flight, no update is to come. -/
theorem rightLen_of_idle {x : Sys W × List Nat} (h : Behind J fileSize fh f file x)
    (hidle : x.1.Idle) : RightLen fileSize f x.1 := by
  obtain ⟨o, ho, -, -, hlen⟩ := h.opened
  -- whoever was applied has resumed
  have hnone : x.2 = [] := by
    rw [List.eq_nil_iff_forall_not_mem]
    intro i hi
    obtain ⟨call, r, htask⟩ := h.delivered i hi
    have hover := hidle _ (List.mem_of_getElem? htask)
    cases hover
  rw [hnone] at hlen
  intro o' ho'
  obtain rfl : o = o' := Option.some.inj (ho.symm.trans ho')
  exact hlen

/-- A file that was just opened, or that nobody is busy with: its length is right. -/
structure Settled (J : W → Prop) (fileSize : W → Nat) (fh : Fh) (f : Nat) (s : Sys W) : Prop where
  serving : s.phase = .serving
  queue : s.queue = []
  idle : s.Idle
  world : J s.actor.ctx.world
  opened : ∃ o, s.files[f]? = some o ∧ s.actor.files.get o.file.id = some fh ∧ o.closed = false ∧
    0 < o.file.limits.maxWrite ∧ o.len = fileSize s.actor.ctx.world

theorem Settled.behind (hs : Settled J fileSize fh f s) :
    ∃ file, 0 < file.limits.maxWrite ∧ Behind J fileSize fh f file (s, []) := by
  obtain ⟨o, ho, htable, hopen, hmax, hlen⟩ := hs.opened
  refine ⟨o.file, hmax, hs.serving, hs.world, htable, ⟨o, ho, rfl, hopen, hlen⟩, ?_, ?_, ?_,
    List.nodup_nil, ?_⟩
  · exact fun i t hi => .inl (hs.idle t (List.mem_of_getElem? hi))
  · rw [hs.queue]
    simp
  · rw [hs.queue]
    exact List.nodup_nil
  · simp

/-- **The cached length** of a file that any number of tasks write and truncate at once is right
    whenever no call is in flight, in every run in which nobody gets ahead of another to a
    difference. -/
theorem len_right_of_inTurn (hresizes : Ffi.Resizes lib J fh fileSize)
    (haccepts : Accepts lib J fh) (hs : Settled J fileSize fh f s) (acts : List Action)
    (hacts : ∀ act ∈ acts, act.Resizing f)
    (hturn : AllSteps (recorded (step lib limits) applied) InTurn (s, []) acts) :
    AllStates (step lib limits) (fun s => s.Idle → RightLen fileSize f s) s acts := by
  obtain ⟨file, hmax, hstart⟩ := hs.behind
  apply allStates_of_recorded
  refine allStates_of_allSteps (I := Behind J fileSize fh f file)
    (fun x hx hidle => rightLen_of_idle hx hidle) (fun x act hact x' hok hx hstep => ?_) hturn
    hstart
  exact behind_step hresizes haccepts hmax (hacts act hact) hok hx hstep

/-! ### When a caller is in its turn -/

section

variable {x : Sys W × List Nat} {len : Nat} {answer : Answer} {j : Nat}

/-- Whose call was applied before all the others that are to come may resume. -/
theorem inTurn_oldest (horder : x.2 = i :: after) (hnodup : x.2.Nodup) : InTurn x (.wake i) := by
  have hfirst : x.2 = [] ++ i :: after := horder
  rw [inTurn_iff hfirst hnodup]
  exact harmless_first _ _

/-- Ahead of a truncation that is to come, whoever was applied before it may resume. -/
theorem inTurn_of_truncation (horder : x.2 = before ++ i :: after) (hnodup : x.2.Nodup)
    (hj : j ∈ after)
    (htask : x.1.tasks[j]? = some ⟨.file f (.setLen len), .delivered (.ok answer)⟩) :
    InTurn x (.wake i) := by
  rw [inTurn_iff horder hnodup]
  apply harmless_of_resets
  refine ⟨_, List.mem_map_of_mem hj, ?_⟩
  rw [updateOf_delivered htask]
  exact FileCall.resets_setLen len answer

/-- **A truncation** gets ahead of the writes before it to no difference if and only if it keeps all
    that they have written. -/
theorem inTurn_truncation_iff {writers : List Nat} {ends : Nat → Nat}
    (horder : x.2 = writers ++ [i]) (hnodup : x.2.Nodup)
    (hwriters : ∀ j ∈ writers, ∃ offset data n, ends j = offset + n ∧
      x.1.tasks[j]? = some ⟨.file f (.writeAt offset data), .delivered (.ok (.written n))⟩)
    (hset : x.1.tasks[i]? = some ⟨.file f (.setLen len), .delivered (.ok answer)⟩) :
    InTurn x (.wake i) ↔ ∀ j ∈ writers, ends j ≤ len := by
  have hraise : writers.map (updateOf x.1.tasks) =
      (writers.map ends).map fun b => (max · b) := by
    rw [List.map_map]
    apply List.map_congr_left
    intro j hj
    obtain ⟨offset, data, n, hend, htask⟩ := hwriters j hj
    rw [updateOf_delivered htask, Function.comp, hend]
    rfl
  have htruncate : updateOf x.1.tasks i = fun _ => len := updateOf_delivered hset
  rw [inTurn_iff horder hnodup, hraise, htruncate, List.map_nil, harmless_const_iff]
  exact List.forall_mem_map

end

/-! ### Writes alone -/

/-- What happens next is about writes of file `f`. -/
def WritesTo (f : Nat) (act : Action) : Prop :=
  act.Resizing f ∧ ∀ g call, act = .fileCall g call → ∃ offset data, call = .writeAt offset data

/-- Every task that is not over writes to file `f`. -/
def OnlyWrites (f : Nat) (tasks : List Task) : Prop :=
  ∀ t ∈ tasks, t.pc.over = true ∨ ∃ offset data, t.kind = .file f (.writeAt offset data)

/-- A task that is not over goes on with its write. -/
theorem onlyWrites_set (h : OnlyWrites f tasks) {pc : Pc} (htask : tasks[i]? = some ⟨kind, pc⟩)
    (hpc : pc.over = false) (pc' : Pc) : OnlyWrites f (tasks.set i ⟨kind, pc'⟩) := by
  apply forall_mem_set h
  rcases h _ (List.mem_of_getElem? htask) with hover | hwrites
  · rw [hpc] at hover
    cases hover
  · exact .inr hwrites

theorem onlyWrites_step {act : Action} (hact : WritesTo f act)
    (h : Behind J fileSize fh f file (s, order)) (hwrites : OnlyWrites f s.tasks)
    (hstep : step lib limits s act = some s') : OnlyWrites f s'.tasks := by
  rcases step_of_behind hact.1 h hstep with ⟨o, call, rfl, hcall, ho, rfl⟩ |
    ⟨i, kind, cmd, rfl, htask, hcmd, rfl⟩ |
    ⟨fuel, req, reply, queue, r, actor, rfl, hqueue, hrun, rfl⟩ | ⟨i, kind, r, rfl, htask, rfl⟩
  · obtain ⟨offset, data, rfl⟩ := hact.2 _ _ rfl
    exact forall_mem_concat hwrites (.inr ⟨offset, data, rfl⟩)
  · exact onlyWrites_set hwrites htask rfl _
  · rcases settle_cases s.tasks reply (.delivered r) with hsame | ⟨i, kind, -, htask, hset⟩
    · show OnlyWrites f (settle s.tasks reply (.delivered r))
      rw [hsame]
      exact hwrites
    · show OnlyWrites f (settle s.tasks reply (.delivered r))
      rw [hset]
      exact onlyWrites_set hwrites htask rfl _
  · exact onlyWrites_set hwrites htask rfl _

/-- **Writes alone** are always in their turn. -/
theorem inTurn_of_writes {x : Sys W × List Nat} (h : Behind J fileSize fh f file x)
    (hwrites : OnlyWrites f x.1.tasks) (act : Action) : InTurn x act := by
  have hwrite : ∀ i ∈ x.2, ∃ offset data r,
      updateOf x.1.tasks i = FileCall.effect (.writeAt offset data) r := by
    intro i hi
    obtain ⟨call, r, htask⟩ := h.delivered i hi
    rcases hwrites _ (List.mem_of_getElem? htask) with hover | ⟨offset, data, hkind⟩
    · cases hover
    · obtain rfl : call = .writeAt offset data := by
        injection hkind
      exact ⟨offset, data, r, updateOf_delivered htask⟩
  cases act with
  | wake i =>
    rintro before after horder
    apply harmless_of_commute
    rintro v hv
    obtain ⟨j, hj, rfl⟩ := List.mem_map.mp hv
    obtain ⟨offset, data, r, hupdate⟩ := hwrite j (by rw [horder]; exact List.mem_append_left _ hj)
    obtain ⟨offset', data', r', hupdate'⟩ := hwrite i (by rw [horder]; simp)
    rw [hupdate, hupdate']
    exact (FileCall.raises_writeAt _ _ _).commute (FileCall.raises_writeAt _ _ _)
  | _ => trivial

/-- A run of writes meets the condition, in whatever order its callers are woken. -/
theorem allSteps_inTurn_of_writes (hresizes : Ffi.Resizes lib J fh fileSize)
    (haccepts : Accepts lib J fh) (hs : Settled J fileSize fh f s) (acts : List Action)
    (hacts : ∀ act ∈ acts, WritesTo f act) :
    AllSteps (recorded (step lib limits) applied) InTurn (s, []) acts := by
  obtain ⟨file, hmax, hstart⟩ := hs.behind
  have hover : OnlyWrites f s.tasks := fun t ht => .inl (hs.idle t ht)
  refine allSteps_of_invariant
    (I := fun x => Behind J fileSize fh f file x ∧ OnlyWrites f x.1.tasks)
    (fun x act _ hx => inTurn_of_writes hx.1 hx.2 act) (fun x act hact x' hx hstep => ?_)
    ⟨hstart, hover⟩
  refine ⟨?_, ?_⟩
  · exact behind_step hresizes haccepts hmax (hacts act hact).1
      (inTurn_of_writes hx.1 hx.2 act) hx.1 hstep
  · obtain ⟨s', hs', rfl⟩ := Option.map_eq_some_iff.mp hstep
    exact onlyWrites_step (hacts act hact) hx.1 hx.2 hs'

end Sys

/-! ### A server that truncates -/

namespace MemServer

/-- Replace the content of what a handle is open on, if the new one is not too large. -/
def resizeTo (m : MemServer) (fh : Fh) (answer : Int) (change : List UInt8 → List UInt8) :
    Int × MemServer :=
  match m.nodeOf fh with
  | some (path, .file D) =>
    if (change D).length < 2 ^ 64 then (answer, m.put path (some (.file (change D)))) else (-27, m)
  | _ => (-9, m)

/-- A server whose files can be truncated, and whose sizes are `u64`s. -/
def resizing : Libsmb2 MemServer :=
  { MemServer.lib .none with
    call := fun c m =>
      match c with
      | .pwrite fh data offset => m.resizeTo fh data.length (Slices.overwrite · offset data)
      | .ftruncate fh len => m.resizeTo fh 0 (Slices.resize · len)
      | c => answer .none c m }

/-- The size of the file `a`. -/
def sizeOfA (m : MemServer) : Nat := ((m.nodes "a").map Node.size).getD 0

/-- The handle is open on the file `a`, whose size is a `u64`. -/
structure HasA (fh : Fh) (m : MemServer) : Prop where
  handle : m.files.lookup fh = some "a"
  node : ∃ D, m.nodes "a" = some (.file D) ∧ D.length < 2 ^ 64

variable {fh : Fh} {m m' : MemServer} {n answer : Int} {change : List UInt8 → List UInt8}

/-- The file has its new content, or the call failed. -/
theorem resizeTo_cases (h : HasA fh m) (hrun : m.resizeTo fh answer change = (n, m')) :
    ∃ D, m.sizeOfA = D.length ∧ HasA fh m' ∧
      ((n = answer ∧ m'.sizeOfA = (change D).length) ∨ (n = -27 ∧ m'.sizeOfA = D.length)) := by
  obtain ⟨D, hnode, hD⟩ := h.node
  have hsize : m.sizeOfA = D.length := by simp [sizeOfA, hnode, Node.size]
  have hopen : m.nodeOf fh = some ("a", .file D) := by simp [nodeOf, h.handle, hnode]
  refine ⟨D, hsize, ?_⟩
  simp only [resizeTo, hopen] at hrun
  split at hrun
  · next hfits =>
    obtain ⟨rfl, rfl⟩ := Prod.mk.inj hrun
    have hnode' : (m.put "a" (some (.file (change D)))).nodes "a" = some (.file (change D)) := by
      simp [put]
    refine ⟨⟨h.handle, _, hnode', hfits⟩, .inl ⟨rfl, ?_⟩⟩
    simp [sizeOfA, hnode', Node.size]
  · obtain ⟨rfl, rfl⟩ := Prod.mk.inj hrun
    exact ⟨h, .inr ⟨rfl, hsize⟩⟩

theorem resizes_resizing (fh : Fh) : Ffi.Resizes resizing (HasA fh) fh sizeOfA where
  bound := by
    intro m h
    obtain ⟨D, hnode, hD⟩ := h.node
    simpa [sizeOfA, hnode, Node.size] using hD
  pwrite := by
    intro data offset m n m' h hrun
    obtain ⟨D, hsize, h', ⟨rfl, hnew⟩ | ⟨rfl, hold⟩⟩ := resizeTo_cases h hrun
    · refine ⟨h', by omega, ?_⟩
      rw [hnew, hsize, Ffi.length_overwrite_grown]
      rfl
    · exact ⟨h', by decide, by rw [hold, hsize]; rfl⟩
  ftruncate := by
    intro len m rc m' h hrun
    obtain ⟨D, hsize, h', ⟨rfl, hnew⟩ | ⟨rfl, hold⟩⟩ := resizeTo_cases h hrun
    · exact ⟨h', by decide, by rw [hnew, Slices.length_resize, if_pos rfl]⟩
    · exact ⟨h', by decide, by rw [hold, hsize, if_neg (by decide)]⟩

theorem accepts_resizing (fh : Fh) : Accepts resizing (HasA fh) fh := by
  intro data offset m n m' h hdata hrun
  have hlen := List.length_pos_iff.mpr hdata
  obtain ⟨D, -, -, ⟨rfl, -⟩ | ⟨rfl, -⟩⟩ := resizeTo_cases h hrun
  · omega
  · decide

/-- A session with the file `a` of three bytes open, and nothing going on. -/
def openA : Sys MemServer where
  actor := ⟨⟨((holding "a" (.file [1, 2, 3])).give "a").2, []⟩, OpenFiles.empty.add 1⟩
  phase := .serving
  queue := []
  tasks := []
  files := [⟨⟨1, ⟨"/a"⟩, ⟨8, 8, by decide, by decide⟩⟩, 3, false, .owned, 0⟩]
  held := true
  join := true

theorem settled_openA : Sys.Settled (HasA 1) sizeOfA 1 0 openA where
  serving := rfl
  queue := rfl
  idle := by simp [Sys.Idle, openA]
  world := ⟨rfl, [1, 2, 3], rfl, by decide⟩
  opened := ⟨_, rfl, rfl, rfl, by decide, rfl⟩

end MemServer

namespace Sys

/-- Two writes that extend the file, applied in the one order and received in the other. -/
def crossedWrites : List Action :=
  [.fileCall 0 (.writeAt 3 [7, 8]), .fileCall 0 (.writeAt 1 [9]), .send 0, .send 1, .serve 0,
    .serve 0, .wake 1, .wake 0]

/-- Writes may be received in any order. -/
theorem len_right_crossedWrites :
    AllStates (step MemServer.resizing ⟨8, 8, by decide, by decide⟩)
      (fun s => s.Idle → RightLen MemServer.sizeOfA 0 s) MemServer.openA crossedWrites := by
  have hwrites : ∀ act ∈ crossedWrites, WritesTo 0 act := by
    simp [crossedWrites, WritesTo, Action.Resizing, FileCall.Resizing]
  exact len_right_of_inTurn (MemServer.resizes_resizing 1) (MemServer.accepts_resizing 1)
    MemServer.settled_openA crossedWrites (fun act hact => (hwrites act hact).1)
    (allSteps_inTurn_of_writes (MemServer.resizes_resizing 1) (MemServer.accepts_resizing 1)
      MemServer.settled_openA crossedWrites hwrites)

/-- A write that extends the file, and then a truncation, received the other way round. -/
def crossedTruncation : List Action :=
  [.fileCall 0 (.writeAt 3 [7, 8]), .fileCall 0 (.setLen 1), .send 0, .send 1, .serve 0, .serve 0,
    .wake 1, .wake 0]

/-- **A truncation that is received first** leaves a length of five for a file of one byte. -/
theorem crossedTruncation_overstates :
    Settled (MemServer.HasA 1) MemServer.sizeOfA 1 0 MemServer.openA ∧
    (∀ act ∈ crossedTruncation, act.Resizing 0) ∧
    ∃ s, Lts.run (step MemServer.resizing ⟨8, 8, by decide, by decide⟩) MemServer.openA
        crossedTruncation = some s ∧
      s.Idle ∧ s.files.map Opened.len = [5] ∧ MemServer.sizeOfA s.actor.ctx.world = 1 ∧
      ¬ RightLen MemServer.sizeOfA 0 s := by
  have hresizing : ∀ act ∈ crossedTruncation, act.Resizing 0 := by
    simp [crossedTruncation, Action.Resizing, FileCall.Resizing]
  refine ⟨MemServer.settled_openA, hresizing, ?_⟩
  have hrun : (Lts.run (step MemServer.resizing ⟨8, 8, by decide, by decide⟩) MemServer.openA
      crossedTruncation).map (fun s => (s.tasks.map fun t => t.pc.over, s.files.map Opened.len,
        MemServer.sizeOfA s.actor.ctx.world)) = some ([true, true], [5], 1) := by
    decide +kernel
  obtain ⟨s, hrun, hshape⟩ := Option.map_eq_some_iff.mp hrun
  simp only [Prod.mk.injEq] at hshape
  obtain ⟨htasks, hlens, hsize⟩ := hshape
  refine ⟨s, hrun, ?_, hlens, hsize, ?_⟩
  · intro t ht
    have hmem : t.pc.over ∈ [true, true] := by
      rw [← htasks]
      exact List.mem_map_of_mem ht
    simpa using hmem
  · intro hright
    obtain ⟨o, hfiles, hlen⟩ := List.map_eq_singleton_iff.mp hlens
    have hfive := hright o (by rw [hfiles]; rfl)
    rw [hlen, hsize] at hfive
    cases hfive

end Sys

end Krystallos.Smb
