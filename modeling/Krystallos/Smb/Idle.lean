import Krystallos.Smb.Backend
import Krystallos.Smb.Table

namespace Krystallos.Smb

open Lts Prog

/-!
# Calls on a session that is idle

What a call does that is made when the channel is empty, and awaited.  While the thread serves,
it executes the call's command, and the caller makes of the answer what it does (`run_served`).
A shutdown of a session that is up takes it down (`run_shutdown`).
-/

variable {W : Type}

namespace Sys

variable {lib : Libsmb2 W} {limits : Limits} {fuel : Nat} {s u : Sys W} {a : Action}
  {kind : CallKind} {req : Request}

/-- A call has started and sent its command. -/
def sent (s : Sys W) (kind : CallKind) (cmd : Command) : Sys W :=
  (s.spawn kind .ready).enqueue s.tasks.length kind cmd

/-- The new task comes last. -/
theorem getElem?_spawn (s : Sys W) (kind : CallKind) (pc : Pc) :
    (s.spawn kind pc).tasks[s.tasks.length]? = some ⟨kind, pc⟩ := List.getElem?_concat_length

theorem lt_length_spawn (s : Sys W) (kind : CallKind) (pc : Pc) :
    s.tasks.length < (s.spawn kind pc).tasks.length := by simp [spawn]

/-- It waits once its command was sent. -/
theorem getElem?_sent {cmd : Command} (hreply : cmd.reply.isSome) :
    (s.sent kind cmd).tasks[s.tasks.length]? = some ⟨kind, .waiting⟩ := by
  rw [sent, enqueue, if_pos hreply]
  exact List.getElem?_set_self (lt_length_spawn s kind .ready)

/-- A call with a command sends it first, and awaits the reply. -/
theorem run_sent {cmd : Command} (hup : u.phase ≠ .exited) (htasks : u.tasks = s.tasks)
    (hstart : step lib limits s a = some (u.spawn kind .ready))
    (hcmd : u.command u.tasks.length kind = some cmd) :
    perform lib limits fuel a s = await lib limits fuel u.tasks.length 6 (u.sent kind cmd) := by
  have hready := getElem?_spawn u kind .ready
  have hsend : step lib limits (u.spawn kind .ready) (.send u.tasks.length)
      = some (u.sent kind cmd) := by
    have hup' : (u.spawn kind .ready).phase ≠ .exited := hup
    have hcmd' : (u.spawn kind .ready).command u.tasks.length kind = some cmd := by
      cases kind <;> exact hcmd
    simp only [step, hready, if_neg hup', hcmd']
    rfl
  rw [run_perform hstart, ← htasks,
    run_await_again hready (by simp) (by rw [nextAction, hready]; exact hsend)]

/-- A thread that panics over the command answers nobody. -/
theorem run_stuck {t : Stop × Actor W} (hserving : u.phase = .serving) (hqueue : u.queue = [])
    (htasks : u.tasks = s.tasks) (hstart : step lib limits s a = some (u.spawn kind .ready))
    (hcmd : u.command u.tasks.length kind = some (.run req (some u.tasks.length)))
    (hrun : execute lib fuel req u.actor = .error t) :
    ∃ s', perform lib limits fuel a s = .error (.fuel, s') := by
  let cmd : Command := .run req (some u.tasks.length)
  have hwaiting : (u.sent kind cmd).tasks[u.tasks.length]? = some ⟨kind, .waiting⟩ :=
    getElem?_sent rfl
  have hserve : step lib limits (u.sent kind cmd) (.serve fuel) = none := by
    have hq : (u.sent kind cmd).queue = [cmd] := by simp [sent, enqueue, spawn, hqueue]
    have hactor : execute lib fuel req (u.sent kind cmd).actor = .error t := hrun
    simp only [step, serve, hq, cmd, hactor]
    exact ite_self none
  have hturn : awaitTurn lib limits fuel u.tasks.length (u.sent kind cmd) =
      .error (.fuel, u.sent kind cmd) := by
    have hnext : nextAction fuel u.tasks.length (u.sent kind cmd) = .serve fuel := by
      simp only [nextAction, hwaiting]
    simp only [awaitTurn, bind, current, hwaiting, hnext, act, hserve]
  have hup : u.phase ≠ .exited := by simp [hserving]
  refine ⟨u.sent kind cmd, ?_⟩
  rw [run_sent hup htasks hstart hcmd, await, iterate]
  simp only [bind, cmd] at hturn ⊢
  simp only [hturn]

/-- **A session that is up** executes the command of a call, and the caller makes of the answer what
    it does. -/
theorem run_served {r r' : Result Answer} {actor : Actor W} {files : List Opened}
    (hserving : u.phase = .serving) (hqueue : u.queue = []) (hkind : kind ≠ .shutdown)
    (htasks : u.tasks = s.tasks) (hstart : step lib limits s a = some (u.spawn kind .ready))
    (hcmd : u.command u.tasks.length kind = some (.run req (some u.tasks.length)))
    (hrun : execute lib fuel req u.actor = .ok (r, actor))
    (hreceived : { u with files := kind.afterSend u.files }.received limits kind r
      = (.done r', files)) :
    ∃ s', perform lib limits fuel a s = .ok (r', s') ∧ s'.actor = actor ∧ s'.files = files ∧
      s'.phase = .serving ∧ s'.queue = [] ∧ s'.held = u.held ∧ s'.join = u.join := by
  -- the states after the send, the execution and the return
  let i := u.tasks.length
  let s₂ := u.sent kind (.run req (some i))
  let s₃ : Sys W := { s₂ with actor := actor, queue := [],
                              tasks := s₂.tasks.set i ⟨kind, .delivered r⟩ }
  let s₄ : Sys W := { s₃ with files := files, tasks := s₃.tasks.set i ⟨kind, .done r'⟩ }
  have h₂ : s₂.tasks[i]? = some ⟨kind, .waiting⟩ := getElem?_sent rfl
  have hlt₂ : i < s₂.tasks.length := (List.getElem?_eq_some_iff.mp h₂).1
  have h₃ : s₃.tasks[i]? = some ⟨kind, .delivered r⟩ := List.getElem?_set_self hlt₂
  have hlt₃ : i < s₃.tasks.length := (List.getElem?_eq_some_iff.mp h₃).1
  have h₄ : s₄.tasks[i]? = some ⟨kind, .done r'⟩ := List.getElem?_set_self hlt₃
  have hserve : step lib limits s₂ (.serve fuel) = some s₃ := by
    have hq : s₂.queue = [.run req (some i)] := by simp [s₂, sent, enqueue, spawn, hqueue, i]
    have hactor : execute lib fuel req s₂.actor = .ok (r, actor) := hrun
    have hphase : s₂.phase = .serving := hserving
    simp only [step, serve, hq, hactor, settle, h₂]
    exact if_pos hphase
  have hreceived₃ : s₃.received limits kind r = (.done r', files) := by
    rw [← hreceived]
    rfl
  have hwake : step lib limits s₃ (.wake i) = some s₄ := by
    simp only [step, h₃, Option.bind_some]
    cases kind with
    | shutdown => exact absurd rfl hkind
    | _ => simp only [resume, hreceived₃, s₄]
  have hup : u.phase ≠ .exited := by simp [hserving]
  refine ⟨s₄, ?_, rfl, rfl, hserving, rfl, rfl, rfl⟩
  rw [run_sent hup htasks hstart hcmd,
    run_await_again h₂ (by simp) (by rw [nextAction, h₂]; exact hserve),
    run_await_again h₃ (by simp) (by rw [nextAction, h₃]; exact hwake)]
  exact run_await_done h₄ 3

/-- Where the call succeeds, the thread has executed its command. -/
theorem wp_served {Q : Answer → Actor W → Prop} (hserving : u.phase = .serving)
    (hqueue : u.queue = []) (hkind : kind ≠ .shutdown) (htasks : u.tasks = s.tasks)
    (hstart : step lib limits s a = some (u.spawn kind .ready))
    (hcmd : u.command u.tasks.length kind = some (.run req (some u.tasks.length)))
    (hexec : wp (execute lib fuel req) (ifDone Q) u.actor)
    (hreceived : ∀ r, { u with files := kind.afterSend u.files }.received limits kind r
      = (.done r, kind.afterSend u.files)) :
    wp (perform lib limits fuel a) (ifDone fun answer s' => Q answer s'.actor ∧
      s'.files = kind.afterSend u.files ∧ s'.phase = .serving ∧ s'.queue = [] ∧
      s'.held = u.held ∧ s'.join = u.join) s := by
  rcases hrun : execute lib fuel req u.actor with t | ⟨r, actor⟩
  · obtain ⟨s', hstuck⟩ := run_stuck hserving hqueue htasks hstart hcmd hrun
    rw [wp, hstuck]
    trivial
  · obtain ⟨s', hperform, rfl, hfiles, hkept⟩ :=
      run_served hserving hqueue hkind htasks hstart hcmd hrun (hreceived r)
    rw [wp, hperform]
    cases r with
    | error e => trivial
    | ok answer => exact ⟨wp_ret hexec hrun, hfiles, hkept⟩

/-! ### The shutdown -/

/-- **A session that is up** is taken down: the thread executes the teardown, and is over when the
    caller returns. -/
theorem run_shutdown (hserving : s.phase = .serving) (hqueue : s.queue = [])
    (hheld : s.held = true) (hjoin : s.join = true) :
    ∃ s', perform lib limits fuel .shutdown s = .ok (.ok .unit, s') ∧ s'.phase = .exited ∧
      s'.queue = [] ∧ s'.held = true ∧ s'.files = s.files ∧
      (teardown lib : Prog Error (Actor W) Unit) s.actor = .ok (.ok (), s'.actor) := by
  let i := s.tasks.length
  let s₂ := s.sent .shutdown (.shutdown i)
  let s₃ : Sys W := { s₂ with queue := [], phase := .leaving,
                              tasks := s₂.tasks.set i ⟨.shutdown, .delivered (.ok .unit)⟩ }
  let s₄ : Sys W := { s₃ with join := false, tasks := s₃.tasks.set i ⟨.shutdown, .joining⟩ }
  obtain ⟨actor, hteardown⟩ : ∃ actor, (teardown lib : Prog Error (Actor W) Unit) s.actor
      = .ok (.ok (), actor) := exists_teardown lib s.actor
  let s₅ : Sys W := { s₄ with actor := actor, phase := .down }
  let s₆ : Sys W := { s₅ with phase := .exited, queue := [] }
  let s₇ : Sys W := { s₆ with tasks := s₆.tasks.set i ⟨.shutdown, .done (.ok .unit)⟩ }
  have h₂ : s₂.tasks[i]? = some ⟨.shutdown, .waiting⟩ := getElem?_sent rfl
  have hlt₂ : i < s₂.tasks.length := (List.getElem?_eq_some_iff.mp h₂).1
  have h₃ : s₃.tasks[i]? = some ⟨.shutdown, .delivered (.ok .unit)⟩ := List.getElem?_set_self hlt₂
  have hlt₃ : i < s₃.tasks.length := (List.getElem?_eq_some_iff.mp h₃).1
  have h₄ : s₄.tasks[i]? = some ⟨.shutdown, .joining⟩ := List.getElem?_set_self hlt₃
  have hlt₄ : i < s₄.tasks.length := (List.getElem?_eq_some_iff.mp h₄).1
  have h₅ : s₅.tasks[i]? = some ⟨.shutdown, .joining⟩ := h₄
  have h₆ : s₆.tasks[i]? = some ⟨.shutdown, .joining⟩ := h₄
  have h₇ : s₇.tasks[i]? = some ⟨.shutdown, .done (.ok .unit)⟩ := List.getElem?_set_self hlt₄
  have hstart : step lib limits s .shutdown = some (s.spawn .shutdown .ready) := if_pos hheld
  have hserve : step lib limits s₂ (.serve fuel) = some s₃ := by
    have hq : s₂.queue = [.shutdown i] := by simp [s₂, sent, enqueue, spawn, hqueue, i]
    have hphase : s₂.phase = .serving := hserving
    simp only [step, serve, hq, settle, h₂]
    exact if_pos hphase
  have hwake : step lib limits s₃ (.wake i) = some s₄ := by
    have hj : s₃.join = true := hjoin
    simp only [step, h₃, Option.bind_some, resume, takeJoin, hj, s₄]
    rfl
  have hdown : step lib limits s₄ .teardown = some s₅ := by
    have hrun : (teardown lib : Prog Error (Actor W) Unit) s₄.actor = .ok (.ok (), actor) := hteardown
    have hphase : s₄.phase = .leaving := rfl
    simp only [step, hphase, hrun]
    rfl
  have hexit : step lib limits s₅ .exit = some s₆ := rfl
  have hjoined : step lib limits s₆ (.wake i) = some s₇ := by
    simp only [step, h₆, Option.bind_some]
    rfl
  have hup : s.phase ≠ .exited := by simp [hserving]
  refine ⟨s₇, ?_, rfl, rfl, hheld, rfl, hteardown⟩
  rw [run_sent hup rfl hstart rfl,
    run_await_again h₂ (by simp) (by rw [nextAction, h₂]; exact hserve),
    run_await_again h₃ (by simp) (by rw [nextAction, h₃]; exact hwake),
    run_await_again h₄ (by simp) (by rw [nextAction, h₄]; exact hdown),
    run_await_again h₅ (by simp) (by rw [nextAction, h₅]; exact hexit),
    run_await_again h₆ (by simp) (by rw [nextAction, h₆]; exact hjoined)]
  exact run_await_done h₇ 0

end Sys

/-- An answer of the kind that was asked for. -/
theorem wp_expect {α : Type} {g : Answer → Option α} {m : Prog Error (Sys W) Answer}
    {p : Post Error (Sys W) α} {s : Sys W}
    (h : wp m ⟨fun answer s' => ∃ a, g answer = some a ∧ p.ret a s', p.fail, p.stop⟩ s) :
    wp (expect g m) p s := by
  rw [expect, wp_bind]
  refine wp_mono h ?_ (fun _ _ h => h) (fun _ h => h)
  rintro answer s' ⟨a, ha, hret⟩
  simp only [ha]
  exact hret

end Krystallos.Smb
