import Krystallos.Lib.Assoc
import Krystallos.Smb.Actor

namespace Krystallos.Smb

open Checked Prog

/-!
# The open-file table

What the operations of `OpenFiles` do, and what each command does to the table: an open that
succeeds adds an entry under the id it answers with, a close removes one, and nothing else
changes it.
-/

namespace OpenFiles

variable {files : OpenFiles} {id : Nat} {fh : Fh}

/-- The handles in the table. -/
def live (files : OpenFiles) : Finset Fh := (files.handles.map Prod.snd).toFinset

/-- The handle that was added is open too. -/
theorem live_add (files : OpenFiles) (fh : Fh) :
    (files.add fh).live = Insert.insert fh files.live := by
  ext x
  simp [live, add]

/-- A handle in the table is open. -/
theorem mem_live_of_get (h : files.get id = some fh) : fh ∈ files.live := by
  rw [live, List.mem_toFinset]
  exact List.mem_map_of_mem (f := Prod.snd) (Assoc.mem_of_lookup h)

/-- An id that is not found is in no entry. -/
theorem not_mem_of_get_none (h : files.get id = none) : id ∉ files.handles.map Prod.fst := by
  rintro hmem
  obtain ⟨p, hp, rfl⟩ := List.mem_map.mp hmem
  have hne := List.lookup_eq_none_iff.mp h p hp
  simp at hne

/-- An id that is not in the table has nothing to remove. -/
theorem remove_of_get_none (h : files.get id = none) : files.remove id = files := by
  refine OpenFiles.ext ?_ rfl
  show files.handles.filter (·.1 ≠ id) = files.handles
  rw [List.filter_eq_self]
  intro p hp
  have hne : id ≠ p.1 := by simpa using List.lookup_eq_none_iff.mp h p hp
  simpa using hne.symm

/-- Where each handle is in the table once, removing its id removes it. -/
theorem live_remove (hdistinct : (files.handles.map Prod.snd).Nodup)
    (h : files.get id = some fh) : (files.remove id).live = files.live.erase fh := by
  have hmem := Assoc.mem_of_lookup h
  ext x
  simp only [live, remove, List.mem_toFinset, Finset.mem_erase, List.mem_map, List.mem_filter,
    decide_eq_true_eq]
  constructor
  · rintro ⟨p, ⟨hp, hne⟩, rfl⟩
    refine ⟨fun heq => hne ?_, p, hp, rfl⟩
    exact congrArg Prod.fst (List.inj_on_of_nodup_map hdistinct hp hmem heq)
  · rintro ⟨hne, p, hp, rfl⟩
    refine ⟨p, ⟨hp, fun heq => hne ?_⟩, rfl⟩
    exact congrArg Prod.snd (List.inj_on_of_nodup_map files.ids hp hmem heq)

/-- A removed id stands for nothing, and the others for what they stood for. -/
theorem get_remove (files : OpenFiles) (id id' : Nat) :
    (files.remove id).get id' = if id' = id then none else files.get id' :=
  Assoc.lookup_filter_ne files.handles id id'

/-- An id that was given out is not given out again. -/
theorem get_add (files : OpenFiles) (fh : Fh) (h : id ≤ files.nextId) :
    (files.add fh).get id = files.get id := by
  have hne : ¬ (id == files.nextId + 1) := by
    rw [beq_iff_eq]
    omega
  simp [get, add, List.lookup_append, hne]

end OpenFiles

/-! ### What a command does to the table -/

variable {W ε α : Type} {lib : Libsmb2 W} {a : Actor W}

/-- The ways an open ends: the path is not usable, the library refuses, or the handle is in
    the table under the next id. -/
theorem wp_openFile {path : VfsPath} {mode : OpenMode} {p : Post Error (Actor W) (Nat × Nat)}
    (htext : ∀ e, p.fail e a)
    (hnone : (lib.call (.openFile (toSmbPath path) (openFlags mode)) a.ctx.world).1 = none →
      ∀ e, p.fail e { a with ctx := a.ctx.after lib (.openFile (toSmbPath path) (openFlags mode)) })
    (hsome : '\x00' ∉ (toSmbPath path).toList → ∀ fh,
      (lib.call (.openFile (toSmbPath path) (openFlags mode)) a.ctx.world).1 = some fh →
      let c := a.ctx.after lib (.openFile (toSmbPath path) (openFlags mode))
      p.ret (a.files.nextId + 1, reportedSize (lib.call (.fstat fh) c.world).1)
        ⟨c.after lib (.fstat fh), a.files.add fh⟩)
    (hstop : ∀ q, p.stop (.panic q)) : wp (openFile lib path mode) p a := by
  refine (wp_bind _ _).mpr (wp_cstring (fun hnul => ?_) (fun _ e => htext e))
  simp only [wp_bind, onCtx, wp_zoom, wp_ffi]
  cases hopen : (lib.call (.openFile (toSmbPath path) (openFlags mode)) a.ctx.world).1 with
  | none =>
    -- the library refused, so that no handle was made
    show wp (zoom _ _ (failWith lib 0 path.str)) _ _
    rw [wp_zoom]
    exact wp_failWith (fun e => hnone hopen e) hstop
  | some fh =>
    simp only [wp_bind, wp_zoom, wp_ffi, wp_current]
    refine wp_checked_of ?_ hstop
    rintro ⟨files, id⟩ hinsert
    -- the size is asked for, and the handle goes under the next id
    obtain ⟨rfl, rfl⟩ : files = a.files.add fh ∧ id = a.files.nextId + 1 := by
      obtain ⟨next, hadd, hpair⟩ := bind_eq_ok.mp hinsert
      cases hpair
      exact ⟨rfl, eq_add_of_addU hadd⟩
    exact hsome hnul fh hopen

/-- What a command that ended with `r` has done to the table. -/
def Effect (files files' : OpenFiles) (r : Result Answer) : Request → Prop
  | .openFile _ _ => (∃ fh len, files' = files.add fh ∧ r = .ok (.opened files'.nextId len)) ∨
      (files' = files ∧ ∃ e, r = .error e)
  | .close id => files' = files.remove id
  | _ => files' = files

/-- A command has had its effect on the table. -/
def served (a : Actor W) (req : Request) : Post Error (Actor W) Answer where
  ret := fun ans a' => Effect a.files a'.files (.ok ans) req
  fail := fun e a' => Effect a.files a'.files (.error e) req
  stop := fun _ => True

/-- However it ends, the program leaves the table as it was. -/
def sameFiles (a : Actor W) : Post ε (Actor W) α where
  ret := fun _ a' => a'.files = a.files
  fail := fun _ a' => a'.files = a.files
  stop := fun _ => True

/-- What runs on the context leaves the table. -/
theorem wp_onCtx_same {m : Prog ε (Ctx W) α} : wp (onCtx m) (sameFiles a) a := by
  rw [onCtx, wp_zoom]
  exact wp_of_forall (fun _ _ => rfl) (fun _ _ => rfl) (fun _ => trivial)

/-- Programs that leave the table as it was, one after the other. -/
theorem wp_bind_same {β : Type} {m : Prog ε (Actor W) β} {f : β → Prog ε (Actor W) α}
    (hm : wp m (sameFiles a) a) (hf : ∀ b a', wp (f b) (sameFiles a') a') :
    wp (m >>= f) (sameFiles a) a := by
  rw [wp_bind]
  refine wp_mono hm ?_ (fun _ _ h => h) (fun _ h => h)
  intro b a' h
  exact wp_mono (hf b a') (fun _ _ h' => h'.trans h) (fun _ _ h' => h'.trans h) (fun _ h => h)

/-- Looking a handle up leaves it too. -/
theorem wp_handleOf_same (id : Nat) (op : String) : wp (handleOf id op) (sameFiles a) a := by
  simp only [handleOf, wp_bind, wp_current]
  cases a.files.get id with
  | none => exact rfl
  | some fh => exact rfl

/-- A call on a handle, with its failure path. -/
theorem wp_ite_same {c : Prop} {inst : Decidable c} {rc : Int} {op : String} {b : α} :
    wp (if c then onCtx (failWith lib rc op) else pure b : Prog Error (Actor W) α)
      (sameFiles a) a :=
  wp_ite (fun _ => wp_onCtx_same) (fun _ => rfl)

/-- **The effect of every command.** -/
theorem wp_execute_effect (fuel : Nat) (req : Request) :
    wp (execute lib fuel req) (served a req) a := by
  have hsame : ∀ {β : Type} {m : Prog Error (Actor W) β} {g : β → Answer},
      wp m (sameFiles a) a → wp (m >>= fun b => pure (g b)) (sameFiles a) a :=
    fun hm => (wp_bind _ _).mpr hm
  -- a call on a handle looks it up and changes nothing in the table
  have hcall : ∀ {β γ : Type} {id : Nat} {op : String} {k : Fh → Prog Error (Ctx W) β}
      {f : β → Prog Error (Actor W) γ}, (∀ b a', wp (f b) (sameFiles a') a') →
      wp (handleOf id op >>= fun fh => onCtx (k fh) >>= f) (sameFiles a) a :=
    fun hf => wp_bind_same (wp_handleOf_same _ _) fun _ _ => wp_bind_same wp_onCtx_same hf
  cases req with
  | list | stat | mkdir | removeFile | removeDir | rename | copy => exact hsame wp_onCtx_same
  | openFile path mode =>
    refine (wp_bind _ _).mpr (wp_openFile (fun e => .inr ⟨rfl, e, rfl⟩)
      (fun _ e => .inr ⟨rfl, e, rfl⟩) (fun _ fh _ => ?_) (fun _ => trivial))
    exact .inl ⟨fh, _, rfl, rfl⟩
  | close id =>
    simp only [execute, closeFile, wp_bind, wp_current, OpenFiles.take, wp_update]
    -- the id leaves the table, whether the library then closes the handle or not
    cases a.files.get id with
    | none => exact rfl
    | some fh =>
      simp only [wp_bind, onCtx]
      refine wp_ite (fun _ => ?_) (fun _ => rfl)
      rw [wp_zoom]
      exact wp_failWith (fun _ => rfl) (fun _ => trivial)
  | readAt | writeAt | setLen | flush => exact hsame (hcall fun _ _ => wp_ite_same)

/-- An open that does not get to a handle: the path has a NUL in it, or the library refuses. -/
def refused (lib : Libsmb2 W) (a : Actor W) (path : VfsPath) (mode : OpenMode) : Bool :=
  decide ('\x00' ∈ (toSmbPath path).toList) ||
    ((lib.call (.openFile (toSmbPath path) (openFlags mode)) a.ctx.world).1 : Option Fh).isNone

/-- Such an open leaves the table as it was. -/
theorem same_of_refused {path : VfsPath} {mode : OpenMode} (h : refused lib a path mode = true)
    {fuel : Nat} {r : Result Answer} {a' : Actor W}
    (hrun : execute lib fuel (.openFile path mode) a = .ok (r, a')) : a'.files = a.files := by
  have hwp : wp (execute lib fuel (.openFile path mode)) (sameFiles a) a := by
    refine (wp_bind _ _).mpr (wp_openFile (fun _ => rfl) (fun _ _ => rfl) (fun hnul fh hsome => ?_)
      (fun _ => trivial))
    rcases (Bool.or_eq_true _ _).mp h with hnul' | hnone
    · exact absurd (of_decide_eq_true hnul') hnul
    · have hboth : (none : Option Fh) = some fh :=
        (Option.isNone_iff_eq_none.mp hnone).symm.trans hsome
      cases hboth
  rcases post_of_run hwp hrun with ⟨_, -, hsame⟩ | ⟨_, -, hsame⟩
  · exact hsame
  · exact hsame

/-- **What a command does to the table.** -/
theorem effect_of_execute {fuel : Nat} {req : Request} {r : Result Answer} {a' : Actor W}
    (hrun : execute lib fuel req a = .ok (r, a')) : Effect a.files a'.files r req := by
  rcases post_of_run (wp_execute_effect fuel req) hrun with ⟨ans, rfl, h⟩ | ⟨e, rfl, h⟩
  · exact h
  · exact h

/-- Closing handles never fails. -/
theorem wp_closeHandles_any (handles : List (Nat × Fh)) {c : Ctx W} :
    wp (closeHandles lib handles : Prog ε (Ctx W) Unit)
      ⟨fun _ _ => True, fun _ _ => False, fun _ => False⟩ c := by
  induction handles generalizing c with
  | nil => trivial
  | cons entry rest ih =>
    rw [closeHandles, wp_bind, wp_ffi]
    exact ih

/-- The teardown leaves the table empty. -/
theorem wp_teardown_effect : wp (teardown lib : Prog ε (Actor W) Unit)
    ⟨fun _ a' => a'.files = a.files.drain, fun _ _ => False, fun _ => False⟩ a := by
  simp only [teardown, wp_bind, wp_current, wp_update, onCtx, wp_zoom]
  exact wp_mono (wp_closeHandles_any _) (fun _ _ _ => rfl) (fun _ _ => False.elim)
    (fun _ => False.elim)

/-- The teardown empties it. -/
theorem drained_of_teardown {r : Except ε Unit} {a' : Actor W}
    (hrun : teardown lib a = .ok (r, a')) : a'.files = a.files.drain := by
  rcases post_of_run wp_teardown_effect hrun with ⟨_, -, h⟩ | ⟨_, -, h⟩
  · exact h
  · exact h.elim

/-- Nothing that the thread does past its loop fails. -/
theorem exists_teardown (lib : Libsmb2 W) (a : Actor W) :
    ∃ a', (teardown lib : Prog ε (Actor W) Unit) a = .ok (.ok (), a') := by
  obtain ⟨⟨⟩, a', hrun, -⟩ := exists_of_wp wp_teardown_effect
  exact ⟨a', hrun⟩

end Krystallos.Smb
