import Krystallos.Smb.Closing
import Krystallos.Smb.Handles
import Krystallos.Smb.MemServer

namespace Krystallos.Smb

open Prog Resource

/-!
# The life of a handle

Over any run of the session: what `smb2_open` gives out is released once and before the
context goes, nothing is done with a handle that was released, an id that was closed stays
closed, and a file sends one `Close`.
-/

namespace Sys

variable {W : Type} {lib : Libsmb2 W} {opened : W → Finset Fh} {limits : Limits} {s s' : Sys W}
  {a : Action}

/-- What the session thread has done with handles so far. -/
def uses (s : Sys W) : List (Use Fh) := s.actor.ctx.trace.map Event.use

/-- The thread is tidy until its teardown, and that left nothing behind. -/
structure InOrder (opened : W → Finset Fh) (s : Sys W) : Prop where
  tidy : ¬ s.Ended → Tidy opened s.actor
  ended : s.Ended → replay s.uses = some .ended

/-- A command leaves the thread tidy. -/
theorem tidy_of_execute (ht : Tracks lib opened) (h : Tidy opened s.actor) {fuel : Nat}
    {req : Request} {r : Result Answer} {actor : Actor W}
    (hrun : execute lib fuel req s.actor = .ok (r, actor)) : Tidy opened actor := by
  rcases post_of_run (wp_execute ht h fuel req) hrun with ⟨_, -, h'⟩ | ⟨_, -, h'⟩
  · exact h'
  · exact h'

/-- The teardown leaves nothing behind. -/
theorem replay_of_teardown (ht : Tracks lib opened) (h : Tidy opened s.actor) {r : Result Unit}
    {actor : Actor W} (hrun : Smb.teardown lib s.actor = .ok (r, actor)) :
    replay (actor.ctx.trace.map Event.use) = some .ended := by
  rcases post_of_run (wp_teardown ht h) hrun with ⟨_, -, h'⟩ | ⟨_, -, h'⟩
  · exact h'
  · exact h'.elim

/-- A step of a task does not concern the thread. -/
theorem InOrder.of_eq (h : InOrder opened s) (hactor : s'.actor = s.actor)
    (hphase : s'.phase = s.phase) : InOrder opened s' := by
  refine ⟨fun hup => ?_, fun hdown => ?_⟩
  · rw [hactor]
    exact h.tidy (by rwa [Ended, hphase] at hup)
  · rw [uses, hactor]
    exact h.ended (by rwa [Ended, hphase] at hdown)

/-- While the thread is up, tidy is in order. -/
theorem inOrder_up (hphase : ¬ s.Ended) (h : Tidy opened s.actor) : InOrder opened s :=
  ⟨fun _ => h, fun hended => absurd hended hphase⟩

/-- **Step lemma.** -/
theorem inOrder_step (ht : Tracks lib opened) (h : InOrder opened s)
    (hstep : step lib limits s a = some s') : InOrder opened s' := by
  cases moved_of_step hstep with
  | ran hphase hqueue hrun =>
    refine inOrder_up (not_ended_of_serving hphase) ?_
    exact tidy_of_execute ht (h.tidy (not_ended_of_serving hphase)) hrun
  | stopped hphase hqueue | hangUp hphase hqueue =>
    exact inOrder_up (not_ended_of_leaving rfl) (h.tidy (not_ended_of_serving hphase))
  | teardown hphase hrun =>
    have htidy := h.tidy (not_ended_of_leaving hphase)
    exact ⟨fun hnot => absurd (.inl rfl) hnot, fun _ => replay_of_teardown ht htidy hrun⟩
  | exit hdown => exact ⟨fun hnot => absurd (.inr rfl) hnot, fun _ => h.ended (.inl hdown)⟩
  | @refuse i kind htask hexited => cases kind <;> exact h.of_eq rfl rfl
  | _ => exact h.of_eq rfl rfl

theorem inOrder_init {w : W} (hw : opened w = ∅) : InOrder opened (init w) :=
  inOrder_up (not_ended_of_serving rfl) ⟨⟨rfl, hw⟩, List.nodup_nil⟩

/-! ### Ids -/

/-- An id given out stands for what it stood for, or for nothing. -/
structure Keeps (s s' : Sys W) : Prop where
  nextId : s.actor.files.nextId ≤ s'.actor.files.nextId
  get : ∀ id ≤ s.actor.files.nextId, ∀ fh, s'.actor.files.get id = some fh →
    s.actor.files.get id = some fh

theorem Keeps.refl (s : Sys W) : Keeps s s := ⟨le_rfl, fun _ _ _ h => h⟩

theorem Keeps.trans {s'' : Sys W} (h : Keeps s s') (h' : Keeps s' s'') : Keeps s s'' where
  nextId := le_trans h.nextId h'.nextId
  get id hid fh hget := h.get id hid fh (h'.get id (le_trans hid h.nextId) fh hget)

/-- What an id stands for after a removal, it stood for before. -/
theorem keeps_of_remove {files files' : OpenFiles} {id : Nat} (h : files' = files.remove id)
    {id' : Nat} {fh : Fh} (hget : files'.get id' = some fh) : files.get id' = some fh := by
  rw [h, OpenFiles.get_remove] at hget
  split at hget
  · cases hget
  · exact hget

/-- A command closes an id or gives out a new one. -/
theorem keeps_of_effect {r : Result Answer} {req : Request}
    (h : Effect s.actor.files s'.actor.files r req) : Keeps s s' := by
  cases req with
  | openFile path mode =>
    rcases h with ⟨fh, len, hadd, -⟩ | ⟨hsame, -⟩
    · refine ⟨by rw [hadd]; exact Nat.le_succ _, fun id hid fh' hget => ?_⟩
      rwa [hadd, OpenFiles.get_add _ _ hid] at hget
    · exact ⟨by rw [hsame], fun id _ fh hget => by rwa [hsame] at hget⟩
  | close id =>
    have hremove : s'.actor.files = s.actor.files.remove id := h
    exact ⟨by rw [hremove]; rfl, fun id' _ fh hget => keeps_of_remove hremove hget⟩
  | _ =>
    have hsame : s'.actor.files = s.actor.files := h
    exact ⟨by rw [hsame], fun id _ fh hget => by rwa [hsame] at hget⟩

/-- No id stands for anything once the table is empty. -/
theorem drained_get {files files' : OpenFiles} (h : files' = files.drain) (id : Nat) :
    files'.get id = none := by
  rw [h]
  rfl

theorem keeps_of_eq (h : s'.actor = s.actor) : Keeps s s' := by
  refine ⟨by rw [h], fun id _ fh hget => ?_⟩
  rwa [h] at hget

/-- **Step lemma.** -/
theorem keeps_step (hstep : step lib limits s a = some s') : Keeps s s' := by
  cases moved_of_step hstep with
  | ran hphase hqueue hrun => exact keeps_of_effect (effect_of_execute hrun)
  | teardown hphase hrun =>
    have hdrain := drained_of_teardown hrun
    refine ⟨le_of_eq (by rw [hdrain]; rfl), fun id _ fh hget => ?_⟩
    have hnone : some fh = none := hget.symm.trans (drained_get hdrain id)
    cases hnone
  | @refuse i kind htask hexited => cases kind <;> exact keeps_of_eq rfl
  | _ => exact keeps_of_eq rfl

/-- An id given out stands for what it stood for over any run. -/
theorem keeps_run {acts : List Action} (hrun : Lts.run (step lib limits) s acts = some s') :
    Keeps s s' :=
  Lts.run_invariant (I := Keeps s) (fun _ _ _ h hstep => h.trans (keeps_step hstep)) (.refl s) hrun

/-! ### The handles of a session -/

/-- **The life of a handle**, whatever tasks do and whatever the library answers: the trace is
    in order, so that nothing is done with a handle that is not held; once the context is gone,
    every handle was closed as often as it was opened; a file has sent one `Close` at most; and
    from any state on, an id given out stands for what it stood for, or for nothing. -/
theorem lifecycle (ht : Tracks lib opened) {w : W} (hw : opened w = ∅) {acts : List Action}
    (hrun : Lts.run (step lib limits) (init w) acts = some s) :
    (∃ held, replay s.uses = some held) ∧
    (s.Ended → replay s.uses = some .ended ∧
      ∀ fh, s.uses.count (.release fh) = s.uses.count (.acquire fh)) ∧
    (∀ o ∈ s.files, o.closes ≤ 1) ∧
    ∀ acts' s', Lts.run (step lib limits) s acts' = some s' →
      ∀ id ≤ s.actor.files.nextId, ∀ fh, s'.actor.files.get id = some fh →
        s.actor.files.get id = some fh := by
  have horder : InOrder opened s :=
    Lts.run_invariant (fun _ _ _ => inOrder_step ht) (inOrder_init hw) hrun
  have hclosers : Closers s.tasks s.files :=
    Lts.run_invariant (I := fun s => Closers s.tasks s.files) (fun _ _ _ => closers_step)
      (closers_init w) hrun
  refine ⟨?_, fun hended => ⟨horder.ended hended, fun fh => ?_⟩,
    fun o ho => closes_le_one hclosers ho, fun acts' s' hrun' => (keeps_run hrun').get⟩
  · by_cases hended : s.Ended
    · exact ⟨_, horder.ended hended⟩
    · exact ⟨_, (horder.tidy hended).holding.replay⟩
  · simpa [Held.holds, Held.ended] using count_release (horder.ended hended) fh

end Sys

/-! ### A session with the server in memory -/

namespace MemServer

variable {q : Quirks} {m : MemServer}

/-- The handles that are open. -/
def handles (m : MemServer) : Finset Fh := (m.files.map Prod.fst).toFinset

/-- Calls that neither open nor close leave the handles as they are. -/
theorem files_answer {c : Call} (h : c.opensOrCloses = false) :
    (answer q c m).2.files = m.files := by
  cases c with
  | openFile | close => cases h
  | copychunk rk fh chunk =>
    rcases copychunk_cases m q.maxChunk rk fh chunk with ⟨_, h'⟩ | ⟨_, _, _, -, -, -, h'⟩
    · simp only [answer, h']
    · simp only [answer, h']
      rfl
  | unlink path =>
    rcases unlink_cases m path with ⟨-, h'⟩ | h'
    · exact congrArg files h'
    · simp only [answer, h']
      rfl
  | pwrite =>
    simp only [answer, pwrite]
    split <;> rfl
  | fstat | pread | requestResumeKey | stat =>
    simp only [answer]
    split <;> rfl
  | _ => rfl

/-- A call is refused, and then changes nothing, or answered. -/
theorem serve_snd (q : Quirks) (c : Call) (m : MemServer) :
    (serve q c m).2 = m ∨ serve q c m = answer q c m := by
  unfold serve
  split
  · exact .inl rfl
  · exact .inr rfl

/-- The server gives out handles that are not open. -/
theorem tracks (q : Quirks) : Tracks (lib q) handles where
  open_failed := by
    intro path flags m hnone
    rcases serve_cases (c := .openFile path flags) rfl with h | h
    · rw [h]
    · rw [h] at hnone ⊢
      replace hnone : (m.openFile path flags).1 = Option.none := hnone
      show (m.openFile path flags).2.handles = _
      rcases openFile_cases m path flags with h' | ⟨-, ⟨-, -, -, -, h'⟩ | ⟨-, -, h'⟩⟩
      · rw [h']
      · rw [h'] at hnone
        cases hnone
      · rw [h'] at hnone
        cases hnone
  open_new := by
    intro path flags m fh hsome
    -- the next handle to give out is nowhere in the table
    have hgive : ∀ m' : MemServer, m'.files = m.files → m'.next = m.next →
        m.view.handles m.next = Option.none → (m'.give path).1 = some fh →
        fh ∉ m.handles ∧ (m'.give path).2.handles = insert fh m.handles := by
      intro m' hfiles hnext hfree hfh
      obtain rfl : m'.next = fh := Option.some.inj hfh
      refine ⟨fun hmem => ?_, ?_⟩
      · obtain ⟨f, hf, hkey⟩ := List.mem_map.mp (List.mem_toFinset.mp hmem)
        have hfound : (m.files.lookup m.next).isSome :=
          Assoc.lookup_isSome_of_mem (b := f.2) (by rwa [← hnext, ← hkey])
        rw [show m.files.lookup m.next = Option.none from hfree] at hfound
        cases hfound
      · simp [handles, give, hfiles]
    rcases serve_cases (c := .openFile path flags) rfl with h | h
    · rw [h] at hsome
      cases hsome
    · rw [h] at hsome ⊢
      replace hsome : (m.openFile path flags).1 = some fh := hsome
      show _ ∧ (m.openFile path flags).2.handles = _
      rcases openFile_cases m path flags with h' | ⟨hfree, ⟨-, -, -, -, h'⟩ | ⟨-, -, h'⟩⟩
      · rw [h'] at hsome
        cases hsome
      · rw [h'] at hsome ⊢
        exact hgive _ rfl rfl hfree hsome
      · rw [h'] at hsome ⊢
        exact hgive _ rfl rfl hfree hsome
  close := by
    intro fh m
    show ((m.files.filter (·.1 ≠ fh)).map Prod.fst).toFinset = m.handles.erase fh
    ext x
    simp only [handles, List.mem_toFinset, List.mem_map, List.mem_filter, decide_eq_true_eq,
      Finset.mem_erase]
    constructor
    · rintro ⟨f, ⟨hf, hne⟩, rfl⟩
      exact ⟨hne, f, hf, rfl⟩
    · rintro ⟨hne, f, hf, rfl⟩
      exact ⟨f, ⟨hf, hne⟩, rfl⟩
  other := by
    intro c m h
    rcases serve_snd q c m with h' | h'
    · exact congrArg handles h'
    · show (serve q c m).2.handles = _
      rw [h', handles, files_answer h, handles]

end MemServer

end Krystallos.Smb
