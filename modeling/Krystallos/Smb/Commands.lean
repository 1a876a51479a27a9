import Krystallos.Smb.Actor
import Krystallos.Smb.Calls

namespace Krystallos.Smb

open Checked Prog

/-!
# Which calls a command makes

The rules of `Calls.lean`, for the functions behind the commands: which calls each of them
makes, whatever `C` asks of a call.  A path reaches the library only as a C string, so what
`C` asks of a call with a path needs to hold for paths without a NUL only.
-/

variable {W ε α β : Type} {lib : Libsmb2 W} {C : Call → Prop}

/-- The path of a `VfsPath` in the form libsmb2 expects holds no NUL. -/
def NulFree (path : VfsPath) : Prop := '\x00' ∉ (toSmbPath path).toList

instance (path : VfsPath) : Decidable (NulFree path) := inferInstanceAs (Decidable (¬ _))

/-! ### Path operations -/

/-- What follows a C string is reached with the path itself, where that has no NUL in it. -/
theorem makes_onPath {path : VfsPath} {f : String → Prog Error (Ctx W) α}
    (hf : NulFree path → Makes lib C (f (toSmbPath path))) :
    Makes lib C (ofExcept (cstring (toSmbPath path)) >>= f) := by
  intro s
  rw [wp_bind]
  exact wp_cstring (fun hnul => hf hnul s) (fun _ _ => .refl)

/-- A listing opens its path, and then reads and closes what that gave. -/
theorem makes_listDir {path : VfsPath} (fuel : Nat)
    (hopen : NulFree path → C (.opendir (toSmbPath path)))
    (hdir : ∀ dir, C (.readdir dir) ∧ C (.closedir dir)) :
    Makes lib C (listDir lib path fuel) := by
  refine makes_onPath fun hnul => makes_bind (makes_ffi (hopen hnul)) fun dir => ?_
  cases dir with
  | none => exact makes_failWith _ _
  | some dir =>
    refine makes_bind (makes_iterate (fun entries => ?_) fuel []) fun entries =>
      makes_bind (makes_ffi (hdir dir).2) fun _ => makes_pure _
    refine makes_bind (makes_ffi (hdir dir).1) fun entry => ?_
    rcases entry with _ | ⟨name, st⟩
    · exact makes_pure _
    · exact makes_ite (makes_pure _) (makes_pure _)

/-- A `stat` asks for its path. -/
theorem makes_statPath {path : VfsPath} (hstat : NulFree path → C (.stat (toSmbPath path))) :
    Makes lib C (statPath lib path) := by
  refine makes_onPath fun hnul => makes_bind (makes_ffi (hstat hnul)) fun (rc, st) => ?_
  exact makes_ite (makes_failWith _ _) (makes_pure _)

/-- An operation on one path makes its own call, where it gets that far. -/
theorem makes_pathCall {call : String → Prog Error (Ctx W) Int} {path : VfsPath}
    (hcall : NulFree path → Makes lib C (call (toSmbPath path))) :
    Makes lib C (pathCall lib call path) :=
  makes_onPath fun hnul => makes_bind (hcall hnul) fun _ =>
    makes_ite (makes_failWith _ _) (makes_pure _)

/-- A rename hands over both paths in one call. -/
theorem makes_rename {fromPath toPath : VfsPath}
    (hcall : NulFree fromPath → NulFree toPath →
      C (.rename (toSmbPath fromPath) (toSmbPath toPath))) :
    Makes lib C (rename lib fromPath toPath) :=
  makes_onPath fun hfrom => makes_onPath fun hto =>
    makes_bind (makes_ffi (c := .rename _ _) (hcall hfrom hto)) fun _ =>
      makes_ite (makes_failWith _ _) (makes_pure _)

/-! ### Calls that are handed whole paths -/

/-- The paths a call is handed. -/
def Call.paths : Call → List String
  | .opendir path | .stat path | .mkdir path | .unlink path | .rmdir path => [path]
  | .openFile path _ => [path]
  | .rename old new => [old, new]
  | _ => []

/-- The paths of a request. -/
def Request.paths : Request → List VfsPath
  | .list path | .stat path | .mkdir path | .removeFile path | .removeDir path => [path]
  | .openFile path _ => [path]
  | .rename fromPath toPath | .copy fromPath toPath => [fromPath, toPath]
  | _ => []

/-- Every path the call is handed is one of `paths`, whole: there is no NUL in it that the
    library would read as its end. -/
def Call.Whole (paths : List VfsPath) (c : Call) : Prop :=
  ∀ text ∈ c.paths, ∃ path ∈ paths, NulFree path ∧ text = toSmbPath path

/-- A call that is handed one path, which has no NUL in it. -/
theorem whole_of_paths {paths : List VfsPath} {path : VfsPath} {c : Call} (hmem : path ∈ paths)
    (hnul : NulFree path) (hc : c.paths = [toSmbPath path]) : c.Whole paths := by
  intro text htext
  rw [hc, List.mem_singleton] at htext
  exact ⟨path, hmem, hnul, htext⟩

/-- A call without a path has nothing to get wrong. -/
theorem whole_of_no_path {paths : List VfsPath} {c : Call} (hc : c.paths = []) :
    c.Whole paths := by
  intro text htext
  rw [hc] at htext
  cases htext

variable {paths : List VfsPath}

/-- Moving bytes is done on handles alone. -/
theorem MovesBytes.whole {src dst : Fh} {c : Call} (h : MovesBytes src dst c) : c.Whole paths := by
  cases h with
  | requestResumeKey | copychunk | pread | pwrite => exact whole_of_no_path rfl

/-- A guard adds no call but its close. -/
theorem makes_guarding {C : Call → Prop} {fh : Fh} {body : Prog ε (Ctx W) α}
    (hbody : Makes lib C body) : Makes lib C (guarding lib fh body) :=
  fun s => wp_guarding.mpr (hbody s)

/-- A guard closes its handle afterwards, which takes no path. -/
theorem makes_withGuard {fh : Fh} {body : Prog ε (Ctx W) α}
    (hbody : Makes lib (Call.Whole paths) body) :
    Makes lib (Call.Whole paths) (withGuard lib fh body) :=
  makes_bind (makes_capture (makes_guarding hbody)) fun r =>
    makes_bind (makes_ffi (whole_of_no_path rfl)) fun _ => makes_ofExcept r

/-- Once both files are open, only the removal of a destination takes a path. -/
theorem makes_copyInto {src dst : Fh} {toPath : VfsPath} (size fuel : Nat) (hmem : toPath ∈ paths)
    (hto : NulFree toPath) :
    Makes lib (Call.Whole paths) (copyInto lib src dst (toSmbPath toPath) size fuel) := by
  apply makes_ite (makes_withGuard (makes_pure 0))
  have hbytes : Makes lib (Call.Whole paths) (copyBytes lib src dst size fuel) :=
    (makes_copyBytes size fuel).mono fun _ hc => hc.whole
  refine makes_bind (makes_capture (makes_guarding hbytes)) fun outcome =>
    makes_bind (makes_ffi (whole_of_no_path rfl)) fun _ => ?_
  cases outcome with
  | ok copied => exact makes_pure copied
  | error e =>
    exact makes_bind (makes_ffi (c := .unlink _) (whole_of_paths hmem hto rfl)) fun _ =>
      makes_fail e

/-- **A copy** opens its two paths, and may remove the second. -/
theorem makes_copyFile {fromPath toPath : VfsPath} (fuel : Nat) (hfrom : fromPath ∈ paths)
    (hto : toPath ∈ paths) : Makes lib (Call.Whole paths) (copyFile lib fromPath toPath fuel) := by
  refine makes_onPath fun hnul => makes_onPath fun hnul' =>
    makes_bind (makes_ffi (c := .openFile _ _) (whole_of_paths hfrom hnul rfl)) fun src => ?_
  cases src with
  | none => exact makes_failWith _ _
  | some src =>
    refine makes_withGuard (makes_bind (makes_ffi (whole_of_no_path rfl)) fun reply =>
      makes_bind (makes_ffi (c := .openFile _ _) (whole_of_paths hto hnul' rfl)) fun dst => ?_)
    cases dst with
    | none => exact makes_failWith _ _
    | some dst => exact makes_copyInto _ fuel hto hnul'

/-! ### Commands -/

/-- `m`, run by the session thread, makes only calls in `C`. -/
def Sends (lib : Libsmb2 W) (C : Call → Prop) (m : Prog ε (Actor W) α) : Prop :=
  ∀ a, wp m ⟨fun _ a' => Led lib C a.ctx a'.ctx, fun _ a' => Led lib C a.ctx a'.ctx,
    fun _ => True⟩ a

/-- What runs on the context makes the calls it makes there. -/
theorem sends_onCtx {m : Prog ε (Ctx W) α} (hm : Makes lib C m) : Sends lib C (onCtx m) := by
  intro a
  rw [onCtx, wp_zoom]
  exact hm a.ctx

theorem sends_pure (x : α) : Sends lib C (pure x : Prog ε (Actor W) α) := fun _ => .refl

/-- One part after the other. -/
theorem sends_bind {m : Prog ε (Actor W) β} {f : β → Prog ε (Actor W) α} (hm : Sends lib C m)
    (hf : ∀ b, Sends lib C (f b)) : Sends lib C (m >>= f) := by
  intro a
  rw [wp_bind]
  refine wp_mono (hm a) ?_ (fun _ _ h => h) (fun _ h => h)
  intro b a' h
  exact wp_mono (hf b a') (fun _ _ h' => h.trans h') (fun _ _ h' => h.trans h') (fun _ h => h)

theorem sends_ite {c : Prop} {inst : Decidable c} {m n : Prog ε (Actor W) α} (hm : Sends lib C m)
    (hn : Sends lib C n) : Sends lib C (if c then m else n) :=
  fun a => wp_ite (fun _ => hm a) (fun _ => hn a)

theorem sends_checked (x : Except Panic α) : Sends lib C (checked x : Prog ε (Actor W) α) :=
  fun _ => wp_checked_of (fun _ _ => .refl) (fun _ => trivial)

/-- An id is looked up without a call. -/
theorem sends_handleOf (id : Nat) (op : String) :
    Sends lib C (handleOf id op : Prog Error (Actor W) Fh) := by
  intro a
  simp only [handleOf, wp_bind, wp_current]
  cases a.files.get id with
  | none => exact .refl
  | some fh => exact .refl

/-- A call on an open file, and what is made of its answer. -/
theorem sends_onHandle {id : Nat} {op : String} {call : Fh → Call}
    {f : ∀ fh, (call fh).Reply → Prog Error (Actor W) α} (hcall : ∀ fh, C (call fh))
    (hf : ∀ fh r, Sends lib C (f fh r)) :
    Sends lib C (handleOf id op >>= fun fh => onCtx (ffi lib (call fh)) >>= f fh) :=
  sends_bind (sends_handleOf id op) fun fh =>
    sends_bind (sends_onCtx (makes_ffi (hcall fh))) (hf fh)

theorem sends_failWith (rc : Int) (path : String) :
    Sends lib C (onCtx (failWith lib rc path) : Prog Error (Actor W) α) :=
  sends_onCtx (makes_failWith rc path)

/-- An open hands over its path, and then asks for the size on the handle alone. -/
theorem sends_openFile {path : VfsPath} (mode : OpenMode) (hmem : path ∈ paths) :
    Sends lib (Call.Whole paths) (openFile lib path mode) := by
  intro a
  rw [openFile, wp_bind]
  refine wp_cstring (fun hnul => ?_) (fun _ _ => .refl)
  refine sends_bind (sends_onCtx (makes_ffi (c := .openFile _ _) (whole_of_paths hmem hnul rfl)))
    (fun handle => ?_) a
  cases handle with
  | none => exact sends_failWith _ _
  | some fh =>
    refine sends_bind (sends_onCtx (makes_ffi (whole_of_no_path rfl))) fun reply => ?_
    refine sends_bind (fun _ => .refl) fun s => sends_bind (sends_checked _) fun (files, id) => ?_
    exact sends_bind (fun _ => .refl) fun _ => sends_pure _

/-- A close takes a handle out of the table, and releases it. -/
theorem sends_closeFile (id : Nat) : Sends lib (Call.Whole paths) (closeFile lib id) := by
  refine sends_bind (fun _ => .refl) fun s => sends_bind (fun _ => .refl) fun _ => ?_
  split
  · exact sends_pure ()
  · next fh _ =>
    exact sends_bind (sends_onCtx (makes_ffi (c := .close fh) (whole_of_no_path rfl))) fun rc =>
      sends_ite (sends_failWith _ _) (sends_pure _)

-- `wp` is not to be unfolded while a rule is matched: it would run the command
attribute [local irreducible] wp in
/-- **Every command** hands the library the paths of its request and no others, whole. -/
theorem sends_execute (fuel : Nat) (req : Request) :
    Sends lib (Call.Whole req.paths) (execute lib fuel req) := by
  have hctx : ∀ {γ : Type} {m : Prog Error (Ctx W) γ} {g : γ → Answer},
      Makes lib (Call.Whole req.paths) m →
      Sends lib (Call.Whole req.paths) (onCtx m >>= fun b => pure (g b)) :=
    fun hm => sends_bind (sends_onCtx hm) fun _ => sends_pure _
  -- a call without a path has nothing to get wrong
  have hfree : ∀ {c : Call}, c.paths = [] → c.Whole req.paths := whole_of_no_path
  have hself : ∀ {path : VfsPath}, path ∈ [path] := List.mem_singleton.mpr rfl
  cases req with
  | list path =>
    exact hctx (makes_listDir fuel (fun h => whole_of_paths hself h rfl)
      fun dir => ⟨hfree rfl, hfree rfl⟩)
  | stat path => exact hctx (makes_statPath fun h => whole_of_paths hself h rfl)
  | mkdir path =>
    exact hctx (makes_pathCall fun h => makes_ffi (c := .mkdir _) (whole_of_paths hself h rfl))
  | removeFile path =>
    exact hctx (makes_pathCall fun h => makes_ffi (c := .unlink _) (whole_of_paths hself h rfl))
  | removeDir path =>
    exact hctx (makes_pathCall fun h => makes_ffi (c := .rmdir _) (whole_of_paths hself h rfl))
  | rename fromPath toPath =>
    refine hctx (makes_rename fun hfrom hto text htext => ?_)
    rcases List.mem_cons.mp htext with rfl | htext
    · exact ⟨fromPath, by simp [Request.paths], hfrom, rfl⟩
    · exact ⟨toPath, by simp [Request.paths], hto, List.mem_singleton.mp htext⟩
  | copy fromPath toPath =>
    exact hctx (makes_copyFile fuel (by simp [Request.paths]) (by simp [Request.paths]))
  | openFile path mode => exact sends_bind (sends_openFile mode hself) fun _ => sends_pure _
  | close id => exact sends_bind (sends_closeFile id) fun _ => sends_pure _
  | readAt | writeAt | setLen | flush =>
    exact sends_bind (sends_onHandle (fun _ => hfree rfl) fun _ _ =>
      sends_ite (sends_failWith _ _) (sends_pure _)) fun _ => sends_pure _

end Krystallos.Smb
