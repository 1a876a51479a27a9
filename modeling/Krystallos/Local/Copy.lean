import Krystallos.Lib.Slice
import Krystallos.Local.Backend

namespace Krystallos.Local

open Prog Slices

/-!
# `LocalBackend::copy`

The copy of one local file: open the source, create the destination, `io::copy`.  The file
system is a parameter, `Fs W`, on which any call may fail, and `UnixRules` says what its calls
change.

The destination is created before the first byte is read, and nothing removes it again:
`copy_undone_iff` says that a failed copy leaves the destination as it was if and only if it
does not fail in the transfer.
-/

/-- The calls a copy makes on the file system. Descriptors have a position. -/
structure Fs (W : Type) where
  openRead : String → W → Except IoError Fd × W
  createNew : String → W → Except IoError Fd × W
  read : Fd → Nat → W → Except IoError (List UInt8) × W
  write : Fd → List UInt8 → W → Except IoError Nat × W

variable {W : Type}

/-- The buffer of `io::copy`. -/
def bufBytes : Nat := 8 * 1024

/-- What `write_all` makes of a write that takes nothing. -/
def wroteNothing : IoError := ⟨.other, "failed to write whole buffer"⟩

/-- One call of `io::copy`, with what was written so far and what is still to be written:
    read where nothing is, write otherwise, and try again where the call was interrupted. -/
def transferTurn (fs : Fs W) (input out : Fd) :
    Nat × List UInt8 → Prog IoError W (Turn (Nat × List UInt8) Nat) := fun (written, buf) => do
  if buf = [] then
    match ← capture (call (fs.read input bufBytes)) with
    | .ok bytes => if bytes = [] then pure (.leave written) else pure (.again (written, bytes))
    | .error e => if e.kind = .interrupted then pure (.again (written, [])) else fail e
  else
    match ← capture (call (fs.write out buf)) with
    | .ok n =>
      if n = 0 then fail wroteNothing
      else pure (.again (written + n, buf.drop n))
    | .error e => if e.kind = .interrupted then pure (.again (written, buf)) else fail e

/-- `std::io::copy`. -/
def ioCopy (fs : Fs W) (input out : Fd) (fuel : Nat) : Prog IoError W Nat :=
  iterate fuel (transferTurn fs input out) (0, [])

/-- `LocalBackend::copy`. -/
def copy (fs : Fs W) (root : String) (fromPath toPath : VfsPath) (fuel : Nat) :
    Prog Error W Nat := do
  let input ← mapErr (mapIo · fromPath) (call (fs.openRead (resolve root fromPath)))
  let out ← mapErr (mapIo · toPath) (call (fs.createNew (resolve root toPath)))
  mapErr (mapIo · toPath) (ioCopy fs input out fuel)

/-! ### The file system -/

/-- What a name stands for. -/
inductive Node
  | file (content : List UInt8)
  | directory
deriving DecidableEq, Repr

/-- What the calls change.  Names are first mapped to a `κ`, so that two names may stand for
    one file. -/
structure UnixRules {κ : Type} [DecidableEq κ] (fs : Fs W) (view : W → κ → Option Node)
    (key : String → κ) : Prop where
  openRead : ∀ path w, view (fs.openRead path w).2 = view w
  create_failed : ∀ path w w' e, fs.createNew path w = (.error e, w') → view w' = view w
  created : ∀ path w w' fd, fs.createNew path w = (.ok fd, w') → view w (key path) = none ∧
    view w' = Function.update (view w) (key path) (some (.file []))
  read : ∀ fd n w, view (fs.read fd n w).2 = view w
  write : ∀ fd data w k, (view (fs.write fd data w).2 k).isSome = (view w k).isSome
  /-- a directory can be opened read-only, but not read -/
  read_directory : ∀ path w w' fd, fs.openRead path w = (.ok fd, w') →
    view w (key path) = some .directory → ∀ path' w'' fd',
    fs.createNew path' w' = (.ok fd', w'') →
    ∀ n, ∃ text, (fs.read fd n w'').1 = .error ⟨.isADirectory, text⟩

/-! ### Transfers that fail -/

/-- A call of the transfer that does not fail: from what is still to be written, and the
    world, to the next. -/
inductive Moves (fs : Fs W) (input out : Fd) : List UInt8 × W → List UInt8 × W → Prop
  | read {w w' : W} {bytes : List UInt8} : fs.read input bufBytes w = (.ok bytes, w') →
      bytes ≠ [] → Moves fs input out ([], w) (bytes, w')
  | readAgain {w w' : W} {text : String} :
      fs.read input bufBytes w = (.error ⟨.interrupted, text⟩, w') →
      Moves fs input out ([], w) ([], w')
  | write {buf : List UInt8} {w w' : W} {n : Nat} : buf ≠ [] →
      fs.write out buf w = (.ok n, w') → n ≠ 0 → Moves fs input out (buf, w) (buf.drop n, w')
  | writeAgain {buf : List UInt8} {w w' : W} {text : String} : buf ≠ [] →
      fs.write out buf w = (.error ⟨.interrupted, text⟩, w') →
      Moves fs input out (buf, w) (buf, w')

/-- A call of the transfer that fails. -/
inductive Breaks (fs : Fs W) (input out : Fd) : List UInt8 × W → Prop
  | read {w w' : W} {e : IoError} : fs.read input bufBytes w = (.error e, w') →
      e.kind ≠ .interrupted → Breaks fs input out ([], w)
  | write {buf : List UInt8} {w w' : W} {e : IoError} : buf ≠ [] →
      fs.write out buf w = (.error e, w') → e.kind ≠ .interrupted → Breaks fs input out (buf, w)
  | writeZero {buf : List UInt8} {w w' : W} : buf ≠ [] → fs.write out buf w = (.ok 0, w') →
      Breaks fs input out (buf, w)

/-- Some read or write of the transfer that starts in `w` fails. -/
def TransferFails (fs : Fs W) (input out : Fd) (w : W) : Prop :=
  ∃ t, Relation.ReflTransGen (Moves fs input out) ([], w) t ∧ Breaks fs input out t

variable {fs : Fs W} {input out : Fd}

/-- What a turn does: it moves on, ends at the end of the source, or breaks. -/
theorem transferTurn_cases (written : Nat) (buf : List UInt8) (w : W) :
    (∃ written' buf' w', transferTurn fs input out (written, buf) w
        = .ok (.ok (.again (written', buf')), w') ∧ Moves fs input out (buf, w) (buf', w')) ∨
    (∃ w', transferTurn fs input out (written, buf) w = .ok (.ok (.leave written), w')) ∨
    (∃ e w', transferTurn fs input out (written, buf) w = .ok (.error e, w') ∧
      Breaks fs input out (buf, w)) := by
  by_cases hbuf : buf = []
  · subst hbuf
    -- the buffer is empty, so the turn reads
    rcases hread : fs.read input bufBytes w with ⟨⟨kind, text⟩ | bytes, w'⟩
    · by_cases hkind : kind = .interrupted
      · subst hkind
        exact .inl ⟨written, [], w', by simp [transferTurn, run_capture_call, hread],
          .readAgain hread⟩
      · exact .inr (.inr ⟨⟨kind, text⟩, w', by simp [transferTurn, run_capture_call, hread, hkind],
          .read hread hkind⟩)
    · by_cases hbytes : bytes = []
      · exact .inr (.inl ⟨w', by simp [transferTurn, run_capture_call, hread, hbytes]⟩)
      · exact .inl ⟨written, bytes, w', by simp [transferTurn, run_capture_call, hread, hbytes],
          .read hread hbytes⟩
  · -- the turn writes what is left of the buffer
    rcases hwrite : fs.write out buf w with ⟨⟨kind, text⟩ | n, w'⟩
    · by_cases hkind : kind = .interrupted
      · subst hkind
        exact .inl ⟨written, buf, w', by simp [transferTurn, run_capture_call, hbuf, hwrite],
          .writeAgain hbuf hwrite⟩
      · exact .inr (.inr ⟨⟨kind, text⟩, w', by simp [transferTurn, run_capture_call, hbuf, hwrite, hkind],
          .write hbuf hwrite hkind⟩)
    · by_cases hn : n = 0
      · subst hn
        exact .inr (.inr ⟨wroteNothing, w',
          by simp [transferTurn, run_capture_call, hbuf, hwrite], .writeZero hbuf hwrite⟩)
      · exact .inl ⟨written + n, buf.drop n, w', by simp [transferTurn, run_capture_call, hbuf, hwrite, hn],
          .write hbuf hwrite hn⟩

/-- A transfer that fails, failed in one of its calls. -/
theorem wp_ioCopy_fails (fuel : Nat) (w : W) : wp (ioCopy fs input out fuel)
    ⟨fun _ _ => True, fun _ _ => TransferFails fs input out w, fun _ => True⟩ w := by
  refine wp_iterate_partial
    (fun b w' => Relation.ReflTransGen (Moves fs input out) ([], w) (b.2, w')) trivial ?_ fuel .refl
  rintro ⟨written, buf⟩ w₁ hmoves
  rcases transferTurn_cases written buf w₁ with
    ⟨_, _, _, hturn, hmove⟩ | ⟨_, hturn⟩ | ⟨_, _, hturn, hbreak⟩ <;> rw [wp, hturn]
  · exact hmoves.tail hmove
  · trivial
  · exact ⟨_, hmoves, hbreak⟩

/-! ### Transfers that fail, run -/

/-- A turn that goes on. -/
theorem transferTurn_of_moves {t t' : List UInt8 × W} (h : Moves fs input out t t')
    (written : Nat) : ∃ written', transferTurn fs input out (written, t.1) t.2
      = .ok (.ok (.again (written', t'.1)), t'.2) := by
  cases h with
  | read hread hbytes => exact ⟨written, by simp [transferTurn, run_capture_call, hread, hbytes]⟩
  | readAgain hread => exact ⟨written, by simp [transferTurn, run_capture_call, hread]⟩
  | write hbuf hwrite hn =>
    exact ⟨_, by simp [transferTurn, run_capture_call, hbuf, hwrite, hn]; rfl⟩
  | writeAgain hbuf hwrite =>
    exact ⟨written, by simp [transferTurn, run_capture_call, hbuf, hwrite]⟩

/-- A turn that fails. -/
theorem transferTurn_of_breaks {t : List UInt8 × W} (h : Breaks fs input out t) (written : Nat) :
    ∃ e w', transferTurn fs input out (written, t.1) t.2 = .ok (.error e, w') := by
  cases h with
  | @read w w' e hread hkind =>
    exact ⟨e, w', by simp [transferTurn, run_capture_call, hread, hkind]⟩
  | @write buf w w' e hbuf hwrite hkind =>
    exact ⟨e, w', by simp [transferTurn, run_capture_call, hbuf, hwrite, hkind]⟩
  | @writeZero buf w w' hbuf hwrite =>
    exact ⟨wroteNothing, w', by simp [transferTurn, run_capture_call, hbuf, hwrite]⟩

/-- A transfer in which a call fails ends there, after enough turns. -/
theorem exists_run_of_moves {t t' : List UInt8 × W}
    (hmoves : Relation.ReflTransGen (Moves fs input out) t t') (hbreak : Breaks fs input out t')
    (written : Nat) : ∃ fuel e w',
      iterate fuel (transferTurn fs input out) (written, t.1) t.2 = .ok (.error e, w') := by
  induction hmoves using Relation.ReflTransGen.head_induction_on generalizing written with
  | refl =>
    obtain ⟨e, w', hturn⟩ := transferTurn_of_breaks hbreak written
    exact ⟨1, e, w', run_iterate_fail hturn⟩
  | head hmove _ ih =>
    obtain ⟨written', hturn⟩ := transferTurn_of_moves hmove written
    obtain ⟨fuel, e, w', hrest⟩ := ih written'
    exact ⟨fuel + 1, e, w', by rw [run_iterate_again hturn, hrest]⟩

/-- **A transfer that fails** fails after finitely many turns. -/
theorem exists_run_of_transferFails {w : W} (h : TransferFails fs input out w) :
    ∃ fuel e w', ioCopy fs input out fuel w = .ok (.error e, w') := by
  obtain ⟨t, hmoves, hbreak⟩ := h
  exact exists_run_of_moves hmoves hbreak 0

/-! ### What a failed copy leaves -/

variable {κ : Type} [DecidableEq κ] {view : W → κ → Option Node} {key : String → κ}

/-- However the transfer ends, the names that stood for something still do. -/
theorem wp_ioCopy (h : UnixRules fs view key) (fuel : Nat) {w : W} (k : κ) :
    wp (ioCopy fs input out fuel)
      ⟨fun _ w' => (view w' k).isSome = (view w k).isSome,
        fun _ w' => (view w' k).isSome = (view w k).isSome, fun _ => True⟩ w := by
  refine wp_iterate_partial (fun _ w' => (view w' k).isSome = (view w k).isSome) trivial ?_ fuel
    rfl
  rintro ⟨written, buf⟩ w₁ hsame
  have hread : (view (fs.read input bufBytes w₁).2 k).isSome = (view w k).isSome := by
    rw [h.read, hsame]
  have hwrite : (view (fs.write out buf w₁).2 k).isSome = (view w k).isSome := by
    rw [h.write, hsame]
  refine wp_ite (fun _ => ?_) (fun _ => ?_)
  · rw [wp_bind, wp_capture, wp_call]
    generalize fs.read input bufBytes w₁ = answer at hread
    rcases answer with ⟨e | bytes, w'⟩
    · exact wp_ite (fun _ => hread) (fun _ => hread)
    · exact wp_ite (fun _ => hread) (fun _ => hread)
  · rw [wp_bind, wp_capture, wp_call]
    generalize fs.write out buf w₁ = answer at hwrite
    rcases answer with ⟨e | n, w'⟩
    · exact wp_ite (fun _ => hwrite) (fun _ => hwrite)
    · exact wp_ite (fun _ => hwrite) (fun _ => hwrite)

/-- Every copy from `w` that fails leaves the destination as it was: there or not there, and
    with the same content. -/
def FailsCleanly (fs : Fs W) (view : W → κ → Option Node) (key : String → κ) (root : String)
    (fromPath toPath : VfsPath) (w : W) : Prop :=
  ∀ fuel e w', copy fs root fromPath toPath fuel w = .ok (.error e, w') →
    view w' (key (resolve root toPath)) = view w (key (resolve root toPath))

/-- **Failed copies.** A copy that fails leaves the destination as it was, if and only if the
    source does not open, or the destination is not created, or the transfer between the two
    makes no call that fails. -/
theorem copy_failsCleanly_iff (h : UnixRules fs view key) (root : String)
    (fromPath toPath : VfsPath) (w : W) :
    FailsCleanly fs view key root fromPath toPath w ↔
      ∀ input out w₁ w₂, fs.openRead (resolve root fromPath) w = (.ok input, w₁) →
        fs.createNew (resolve root toPath) w₁ = (.ok out, w₂) →
        ¬ TransferFails fs input out w₂ := by
  constructor
  · intro hclean input out w₁ w₂ hopen hcreate hfails
    obtain ⟨fuel, e, w', hrun⟩ := exists_run_of_transferFails hfails
    have hcopy : copy fs root fromPath toPath fuel w = .ok (.error (mapIo e toPath), w') := by
      simp only [copy, bind, mapErr, call, hopen, hcreate, hrun]
    -- the destination was created, and nothing removes it
    obtain ⟨habs, hview⟩ := h.created _ _ _ _ hcreate
    have hthere : (view w' (key (resolve root toPath))).isSome = true := by
      rw [wp_fail_of_run (wp_ioCopy h fuel _) hrun, hview, Function.update_self]
      rfl
    have hopened := h.openRead (resolve root fromPath) w
    rw [hopen] at hopened
    rw [hclean fuel _ w' hcopy, ← hopened, habs] at hthere
    cases hthere
  · intro hcond fuel e w' hrun
    -- both files must have been opened for anything to be left behind
    have hcopy : wp (copy fs root fromPath toPath fuel) ⟨fun _ _ => True,
        fun _ w' => view w' (key (resolve root toPath)) = view w (key (resolve root toPath)),
        fun _ => True⟩ w := by
      have hopened := h.openRead (resolve root fromPath) w
      rw [copy, wp_bind, wp_mapErr, wp_call]
      rcases hopen : fs.openRead (resolve root fromPath) w with ⟨e | input, w₁⟩
      · rw [hopen] at hopened
        exact congrFun hopened _
      · rw [hopen] at hopened
        replace hopened : view w₁ = view w := hopened
        show wp _ _ w₁
        rw [wp_bind, wp_mapErr, wp_call]
        rcases hcreate : fs.createNew (resolve root toPath) w₁ with ⟨e | out, w₂⟩
        · rw [← hopened]
          exact congrFun (h.create_failed _ _ _ _ hcreate) _
        · show wp (mapErr _ _) _ w₂
          rw [wp_mapErr]
          exact wp_mono (wp_ioCopy_fails fuel w₂) (fun _ _ h => h)
            (fun _ _ hfails => absurd hfails (hcond input out w₁ w₂ hopen hcreate))
            (fun _ h => h)
    exact wp_fail_of_run hcopy hrun

/-- A transfer out of a directory fails at once. -/
theorem directory_transferFails (h : UnixRules fs view key) {fromPath toPath : String}
    {w w₁ w₂ : W} (hopen : fs.openRead fromPath w = (.ok input, w₁))
    (hdir : view w (key fromPath) = some .directory)
    (hcreate : fs.createNew toPath w₁ = (.ok out, w₂)) : TransferFails fs input out w₂ := by
  obtain ⟨text, hread⟩ := h.read_directory _ _ _ _ hopen hdir _ _ _ hcreate bufBytes
  exact ⟨_, .refl, .read (Prod.ext hread rfl) (fun h => by cases h)⟩

/-! ### A file system in memory -/

/-- Names, descriptors with what they are open on and their position, and the next one. -/
structure MemFs where
  nodes : String → Option Node
  fds : Fd → Option (String × Nat)
  next : Fd

namespace MemFs

/-- A file system with one name and nothing open. -/
def holding (path : String) (node : Node) : MemFs :=
  ⟨Function.update (fun _ => none) path (some node), fun _ => none, 3⟩

/-- Give out a descriptor. -/
def give (m : MemFs) (path : String) : MemFs :=
  { m with fds := Function.update m.fds m.next (some (path, 0)), next := m.next + 1 }

/-- Open what exists. -/
def openRead (path : String) (m : MemFs) : Except IoError Fd × MemFs :=
  match m.nodes path with
  | none => (.error ⟨.notFound, "No such file or directory"⟩, m)
  | some _ => (.ok m.next, m.give path)

/-- Create what does not exist. -/
def createNew (path : String) (m : MemFs) : Except IoError Fd × MemFs :=
  match m.nodes path with
  | some _ => (.error ⟨.alreadyExists, "File exists"⟩, m)
  | none => (.ok m.next,
      { m with nodes := Function.update m.nodes path (some (.file [])) }.give path)

/-- Read at a descriptor's position, all there is. -/
def read (fd : Fd) (n : Nat) (m : MemFs) : Except IoError (List UInt8) × MemFs :=
  match m.fds fd with
  | none => (.error ⟨.other, "Bad file descriptor"⟩, m)
  | some (path, pos) =>
    match m.nodes path with
    | some (.file S) =>
      (.ok (slice S pos n),
        { m with fds := Function.update m.fds fd (some (path, pos + (slice S pos n).length)) })
    | _ => (.error ⟨.isADirectory, "Is a directory"⟩, m)

/-- Write at a descriptor's position, all of it. -/
def write (fd : Fd) (data : List UInt8) (m : MemFs) : Except IoError Nat × MemFs :=
  match m.fds fd with
  | none => (.error ⟨.other, "Bad file descriptor"⟩, m)
  | some (path, pos) =>
    match m.nodes path with
    | some (.file D) =>
      (.ok data.length,
        { m with
          nodes := Function.update m.nodes path (some (.file (overwrite D pos data)))
          fds := Function.update m.fds fd (some (path, pos + data.length)) })
    | _ => (.error ⟨.isADirectory, "Is a directory"⟩, m)

/-- The calls. -/
def calls : Fs MemFs := ⟨openRead, createNew, read, write⟩

theorem unixRules : UnixRules calls nodes id where
  openRead := by
    intro path m
    show (openRead path m).2.nodes = m.nodes
    unfold openRead
    split <;> rfl
  create_failed := by
    intro path m m' e h
    replace h : createNew path m = (.error e, m') := h
    unfold createNew at h
    split at h <;> cases h
    rfl
  created := by
    intro path m m' fd h
    replace h : createNew path m = (.ok fd, m') := h
    unfold createNew at h
    split at h
    · cases h
    · next habs =>
      cases h
      exact ⟨habs, rfl⟩
  read := by
    intro fd n m
    show (read fd n m).2.nodes = m.nodes
    unfold read
    split
    · rfl
    · split <;> rfl
  write := by
    intro fd data m k
    show ((write fd data m).2.nodes k).isSome = (m.nodes k).isSome
    unfold write
    split
    · rfl
    · split
      · next path pos _ _ D hfile =>
        by_cases hk : k = path
        · subst hk
          simp [hfile]
        · simp [Function.update_of_ne hk]
      · rfl
  read_directory := by
    intro path m m' fd hopen hdir path' m'' fd' hcreate n
    replace hopen : openRead path m = (.ok fd, m') := hopen
    replace hdir : m.nodes path = some .directory := hdir
    replace hcreate : createNew path' m' = (.ok fd', m'') := hcreate
    rw [openRead, hdir] at hopen
    cases hopen
    unfold createNew at hcreate
    split at hcreate
    · cases hcreate
    · next habs =>
      cases hcreate
      refine ⟨"Is a directory", ?_⟩
      -- a directory is there already, so that it is not what was created
      have hne : path ≠ path' := by
        rintro rfl
        rw [show (m.give path).nodes path = m.nodes path from rfl, hdir] at habs
        cases habs
      show (read m.next n _).1 = _
      simp [read, give, Function.update_of_ne hne, hdir]

end MemFs

/-- A copy onto itself is refused, and the file is still there. -/
theorem copy_failsCleanly_onto_itself : FailsCleanly MemFs.calls MemFs.nodes id "" ⟨"/a"⟩ ⟨"/a"⟩
    (MemFs.holding "/a" (.file [1, 2, 3])) := by
  refine (copy_failsCleanly_iff MemFs.unixRules _ _ _ _).mpr fun input out w₁ w₂ hopen hcreate => ?_
  cases hopen
  cases hcreate

/-- A directory is not copied, but leaves an empty file in its place. -/
theorem copy_directory_leaves_file :
    (∃ w', copy MemFs.calls "" ⟨"/a"⟩ ⟨"/b"⟩ 1 (MemFs.holding "/a" .directory)
        = .ok (.error (.isADirectory "/b"), w') ∧
      (MemFs.holding "/a" .directory).nodes "/b" = none ∧ w'.nodes "/b" = some (.file [])) ∧
    ¬ FailsCleanly MemFs.calls MemFs.nodes id "" ⟨"/a"⟩ ⟨"/b"⟩ (MemFs.holding "/a" .directory) := by
  refine ⟨⟨_, rfl, by decide, by decide⟩, fun hclean => ?_⟩
  have hsame := hclean 1 _ _ rfl
  revert hsame
  decide

end Krystallos.Local
