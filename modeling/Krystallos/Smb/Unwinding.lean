import Krystallos.Smb.Lifecycle
import Krystallos.Smb.PlainFile
import Krystallos.Smb.Shutdown

namespace Krystallos.Smb

open Lts Prog Resource

/-!
# A session thread that panics

A command whose execution panics takes the thread with it.  What the thread owns is dropped on the
way out: the guards of a copy close their handles, the table of open files goes as it is, and the
context is disconnected and destroyed.  A panic that leaves a handle in the table thus leaves it
open for good (`stat_leaks`), and a shutdown that comes later returns all the same
(`shutdown_leaks`).  Where no command panics every handle is given back once
(`lifecycle_of_calm`), and a shutdown that returned has torn the session down
(`shutdown_tornDown_of_calm`).
-/

variable {W : Type} {lib : Libsmb2 W} {limits : Limits}

namespace Sys

/-- The thread panics over the next command. Its reply channel is dropped, and the table of open
    files, whatever it holds; what is left to do is what a thread does that has no file open. -/
def unwind (lib : Libsmb2 W) (s : Sys W) (fuel : Nat) : Option (Sys W) :=
  match s.phase, s.queue with
  | .serving, .run req reply :: queue =>
    match execute lib fuel req s.actor with
    | .error (.panic _, actor) =>
      some { s with actor := ⟨actor.ctx, s.actor.files.drain⟩, queue := queue, phase := .leaving,
                    tasks := settle s.tasks reply .lost }
    | _ => none
  | _, _ => none

/-- The session, with the panics of its thread. -/
def occur (lib : Libsmb2 W) (limits : Limits) : Sys W → Action ⊕ Nat → Option (Sys W) :=
  withFaults (step lib limits) (unwind lib)

/-- The thread never panics. -/
def Calm (os : List (Action ⊕ Nat)) : Prop := ∀ o ∈ os, o.isLeft = true

theorem calm_map (acts : List Action) : Calm (acts.map .inl) := by
  intro o ho
  obtain ⟨a, -, rfl⟩ := List.mem_map.mp ho
  rfl

variable {s s' : Sys W} {fuel i : Nat} {os : List (Action ⊕ Nat)}

/-- What is left after a panic. -/
theorem unwound (h : unwind lib s fuel = some s') :
    ∃ req reply queue ctx, s.phase = .serving ∧ s.queue = .run req reply :: queue ∧
      s' = { s with actor := ⟨ctx, s.actor.files.drain⟩, queue := queue, phase := .leaving,
                    tasks := settle s.tasks reply .lost } := by
  unfold unwind at h
  split at h
  · next req reply queue hphase hqueue =>
    split at h
    · next actor hrun => exact ⟨req, reply, queue, actor.ctx, hphase, hqueue, (Option.some.inj h).symm⟩
    · cases h
  · cases h

/-- Where the thread never panics, the session takes its steps. -/
theorem Calm.exists_run (hcalm : Calm os) (hrun : run (occur lib limits) s os = some s') :
    ∃ acts : List Action, os = acts.map .inl ∧ run (step lib limits) s acts = some s' := by
  obtain ⟨acts, rfl⟩ := exists_eq_map_inl hcalm
  exact ⟨acts, rfl, (run_map_inl s acts).symm.trans hrun⟩

/-! ### Handles -/

/-- Ids stay closed, panics or not. -/
theorem keeps_occur (hrun : run (occur lib limits) s os = some s') : Keeps s s' := by
  have hfault : ∀ t fuel t', Keeps s t → unwind lib t fuel = some t' → Keeps s t' := by
    intro t fuel t' h hunwind
    obtain ⟨_, _, _, ctx, -, -, rfl⟩ := unwound hunwind
    refine h.trans ⟨le_rfl, fun id _ fh hget => ?_⟩
    cases hget
  exact run_withFaults_invariant (I := Keeps s) (fun _ _ _ h hstep => h.trans (keeps_step hstep))
    hfault (.refl s) hrun

/-- **The life of a handle**, whatever tasks do and whatever the library answers, where no command
    panics: the trace is in order, so that nothing is done with a handle that is not held; once the
    context is gone, every handle was closed as often as it was opened; a file has sent one `Close`
    at most; and from any state on, an id given out stands for what it stood for, or for
    nothing. -/
theorem lifecycle_of_calm {opened : W → Finset Fh} (ht : Tracks lib opened) {w : W}
    (hw : opened w = ∅) (hcalm : Calm os) (hrun : run (occur lib limits) (init w) os = some s) :
    (∃ held, replay s.uses = some held) ∧
    (s.Ended → replay s.uses = some .ended ∧
      ∀ fh, s.uses.count (.release fh) = s.uses.count (.acquire fh)) ∧
    (∀ o ∈ s.files, o.closes ≤ 1) ∧
    ∀ os' s', run (occur lib limits) s os' = some s' →
      ∀ id ≤ s.actor.files.nextId, ∀ fh, s'.actor.files.get id = some fh →
        s.actor.files.get id = some fh := by
  obtain ⟨acts, -, hacts⟩ := hcalm.exists_run hrun
  obtain ⟨hreplay, hended, hcloses, -⟩ := lifecycle ht hw hacts
  exact ⟨hreplay, hended, hcloses, fun os' s' hrun' => (keeps_occur hrun').get⟩

/-! ### Shutdowns -/

/-- What the thread owned when it was in its loop for the last time. -/
def lastServing (lib : Libsmb2 W) (limits : Limits) (w : W) (os : List (Action ⊕ Nat)) : Actor W :=
  history (occur lib limits) (fun s _ a => if s.phase = .serving then s.actor else a) (init w)
    (init w).actor os

/-- What the thread has done since it left its loop, with `a`. -/
structure Leaving (a : Actor W) (s : Sys W) : Prop where
  leaving : s.phase = .leaving → s.actor = a
  ended : s.Ended → TornDown a s.actor

theorem leaving_of_serving (h : s.phase = .serving) (a : Actor W) : Leaving a s :=
  ⟨fun hleaving => (nomatch hleaving.symm.trans h),
    fun hended => absurd hended (not_ended_of_serving h)⟩

/-- A step of a task does not concern the thread. -/
theorem Leaving.of_eq {a : Actor W} (h : Leaving a s) (hactor : s'.actor = s.actor)
    (hphase : s'.phase = s.phase) : Leaving (if s.phase = .serving then s.actor else a) s' := by
  by_cases hserving : s.phase = .serving
  · exact leaving_of_serving (hphase.trans hserving) _
  · rw [if_neg hserving]
    refine ⟨fun hleaving => ?_, fun hended => ?_⟩
    · rw [hactor]
      exact h.leaving (hphase.symm.trans hleaving)
    · rw [hactor]
      exact h.ended (by rwa [Ended, hphase] at hended)

/-- **Step lemma.** -/
theorem leaving_step {a : Actor W} {act : Action} (h : Leaving a s)
    (hstep : step lib limits s act = some s') :
    Leaving (if s.phase = .serving then s.actor else a) s' := by
  cases moved_of_step hstep with
  | ran hserving =>
    apply leaving_of_serving
    exact hserving
  | stopped hserving | hangUp hserving =>
    rw [if_pos hserving]
    exact ⟨fun _ => rfl, fun hended => absurd hended (not_ended_of_leaving rfl)⟩
  | teardown hleaving hrun =>
    rw [if_neg (by simp [hleaving])]
    refine ⟨nofun, fun _ => ?_⟩
    rw [← h.leaving hleaving]
    exact tornDown_of_teardown hrun
  | exit hdown =>
    rw [if_neg (by simp [hdown])]
    exact ⟨nofun, fun _ => h.ended (.inl hdown)⟩
  | @refuse i kind => cases kind <;> exact h.of_eq rfl rfl
  | _ => exact h.of_eq rfl rfl

/-- **A shutdown that returned**, where no command panics: whichever task it is that asked, the
    thread is over, and before that it has closed every handle that was in its table when it left
    its loop, and destroyed the context. -/
theorem shutdown_tornDown_of_calm {w : W} (hcalm : Calm os)
    (hrun : run (occur lib limits) (init w) os = some s) {r : Result Answer}
    (hi : s.tasks[i]? = some ⟨.shutdown, .done r⟩) :
    s.phase = .exited ∧ TornDown (lastServing lib limits w os) s.actor := by
  obtain ⟨acts, rfl, hacts⟩ := hcalm.exists_run hrun
  have hexited : s.phase = .exited := exited_of_done hacts hi
  refine ⟨hexited, ?_⟩
  have hleaving := history_invariant (fun s (_ : Action) a => if s.phase = .serving then s.actor else a)
    (I := fun s a => Leaving a s) (fun _ _ _ _ => leaving_step)
    (leaving_of_serving rfl (init w).actor) hacts
  rw [lastServing, occur, history_map_inl]
  exact hleaving.ended (.inr hexited)

end Sys

/-! ### Runs of a session with the server in memory -/

/-- Two files are opened; one is closed and dropped, one is dropped open; one `drop` sends its
    `Close` after the session was asked to end. -/
def twoFiles : List Action :=
  let openFile : Action := .call (.openFile ⟨"/a"⟩ .reading)
  [openFile, .send 0, .serve 0, .wake 0, openFile, .send 1, .serve 0, .wake 1,
    .close 0, .fileCall 1 .flush, .send 2, .send 3, .serve 0, .serve 0, .wake 2, .wake 3,
    .close 0, .drop 0, .shutdown, .send 5, .drop 1, .send 6, .serve 0, .teardown, .exit, .wake 5]

/-- What the thread did in that session. -/
theorem lifecycle_twoFiles : ∃ s, run (Sys.occur (MemServer.lib .none) oneLimits)
      (Sys.init (MemServer.holding "a" (.file [1, 2, 3]))) (twoFiles.map .inl) = some s ∧
    s.phase = .exited ∧ s.files.map Opened.closes = [1, 1] ∧ replay s.uses = some .ended := by
  have hrun : (run (Sys.occur (MemServer.lib .none) oneLimits)
      (Sys.init (MemServer.holding "a" (.file [1, 2, 3]))) (twoFiles.map .inl)).map
        (fun s => (s.phase, s.files.map Opened.closes)) = some (.exited, [1, 1]) := by
    decide +kernel
  obtain ⟨s, hrun, hends⟩ := Option.map_eq_some_iff.mp hrun
  obtain ⟨hexited, hcloses⟩ := Prod.mk.inj hends
  exact ⟨s, hrun, hexited, hcloses, ((Sys.lifecycle_of_calm (MemServer.tracks _) rfl
    (Sys.calm_map twoFiles) hrun).2.1 (.inr hexited)).1⟩

/-- A file is open, two tasks shut down, and the one that is acknowledged is given up. -/
def bothShutDown : List Action :=
  [.call (.openFile ⟨"/a"⟩ .reading), .send 0, .serve 0, .wake 0, .shutdown, .shutdown, .send 1,
    .send 2, .serve 0, .abandon 1, .teardown, .exit, .wake 2, .wake 2]

/-- The other returns, and the file is closed. -/
theorem shutdown_tornDown_both : ∃ s, run (Sys.occur (MemServer.lib .none) oneLimits)
      (Sys.init (MemServer.holding "a" (.file [1, 2, 3]))) (bothShutDown.map .inl) = some s ∧
    s.actor.ctx.calls = [.openFile "a" (openFlags .reading), .fstat 1, .close 1, .disconnectShare,
      .destroyContext] ∧
    s.phase = .exited ∧ TornDown (Sys.lastServing (MemServer.lib .none) oneLimits
      (MemServer.holding "a" (.file [1, 2, 3])) (bothShutDown.map .inl)) s.actor := by
  have hrun : (run (Sys.occur (MemServer.lib .none) oneLimits)
      (Sys.init (MemServer.holding "a" (.file [1, 2, 3]))) (bothShutDown.map .inl)).map
        (fun s => (s.tasks[2]?, s.actor.ctx.calls))
      = some (some ⟨.shutdown, .done (.ok .unit)⟩, [.openFile "a" (openFlags .reading), .fstat 1,
          .close 1, .disconnectShare, .destroyContext]) := by
    decide +kernel
  obtain ⟨s, hrun, hends⟩ := Option.map_eq_some_iff.mp hrun
  obtain ⟨htask, hcalls⟩ := Prod.mk.inj hends
  exact ⟨s, hrun, hcalls, Sys.shutdown_tornDown_of_calm (Sys.calm_map bothShutDown) hrun htask⟩

/-- The server in memory, behind a library that answers a `stat` with the least return code. -/
def leastStat : Libsmb2 MemServer :=
  { MemServer.lib .none with
    call := fun c m =>
      match c with
      | .stat _ => ((-2 ^ 31, MemServer.statOf 0), m)
      | c => (MemServer.lib .none).call c m }

theorem tracks_leastStat : Tracks leastStat MemServer.handles where
  open_failed := (MemServer.tracks .none).open_failed
  open_new := (MemServer.tracks .none).open_new
  close := (MemServer.tracks .none).close
  other c w h := by
    cases c with
    | stat path => rfl
    | _ => exact (MemServer.tracks .none).other _ w h

/-- A file is open when a `stat` is sent, whose return code cannot be negated. -/
def statPanics : List (Action ⊕ Nat) :=
  [.inl (.call (.openFile ⟨"/a"⟩ .reading)), .inl (.send 0), .inl (.serve 0), .inl (.wake 0),
    .inl (.call (.stat ⟨"/a"⟩)), .inl (.send 1), .inr 0, .inl .teardown, .inl .exit]

/-- **A panic leaks the table**: the file was opened, the context is destroyed, and the file was
    never closed. -/
theorem stat_leaks : Tracks leastStat MemServer.handles ∧
    MemServer.handles (MemServer.holding "a" (.file [1, 2, 3])) = ∅ ∧
    ∃ s, run (Sys.occur leastStat oneLimits) (Sys.init (MemServer.holding "a" (.file [1, 2, 3])))
        statPanics = some s ∧ s.phase = .exited ∧
      s.actor.ctx.calls = [.openFile "a" (openFlags .reading), .fstat 1, .stat "a",
        .disconnectShare, .destroyContext] ∧
      s.uses.count (.acquire 1) = 1 ∧ s.uses.count (.release 1) = 0 := by
  refine ⟨tracks_leastStat, rfl, ?_⟩
  have hrun : (run (Sys.occur leastStat oneLimits)
      (Sys.init (MemServer.holding "a" (.file [1, 2, 3]))) statPanics).map
        (fun s => (s.phase, s.actor.ctx.calls, s.uses.count (.acquire 1), s.uses.count (.release 1)))
      = some (.exited, [.openFile "a" (openFlags .reading), .fstat 1, .stat "a", .disconnectShare,
          .destroyContext], 1, 0) := by
    decide +kernel
  obtain ⟨s, hrun, hends⟩ := Option.map_eq_some_iff.mp hrun
  simp only [Prod.mk.injEq] at hends
  exact ⟨s, hrun, hends⟩

/-- **A shutdown returns all the same**: the file was in the table when the thread left its loop,
    and is not closed. -/
theorem shutdown_leaks : ∃ s, run (Sys.occur leastStat oneLimits)
      (Sys.init (MemServer.holding "a" (.file [1, 2, 3])))
      (statPanics ++ [.inl .shutdown, .inl (.send 2), .inl (.wake 2)]) = some s ∧
    s.tasks[2]? = some ⟨.shutdown, .done (.ok .unit)⟩ ∧
    (Sys.lastServing leastStat oneLimits (MemServer.holding "a" (.file [1, 2, 3]))
      (statPanics ++ [.inl .shutdown, .inl (.send 2), .inl (.wake 2)])).files.handles = [(1, 1)] ∧
    Call.close 1 ∉ s.actor.ctx.calls := by
  have hrun : (run (Sys.occur leastStat oneLimits)
      (Sys.init (MemServer.holding "a" (.file [1, 2, 3])))
      (statPanics ++ [.inl .shutdown, .inl (.send 2), .inl (.wake 2)])).map
        (fun s => (s.tasks[2]?, decide (Call.close 1 ∈ s.actor.ctx.calls)))
      = some (some ⟨.shutdown, .done (.ok .unit)⟩, false) := by
    decide +kernel
  obtain ⟨s, hrun, hends⟩ := Option.map_eq_some_iff.mp hrun
  obtain ⟨htask, hclose⟩ := Prod.mk.inj hends
  exact ⟨s, hrun, htask, by decide +kernel, of_decide_eq_false hclose⟩

end Krystallos.Smb
