import Krystallos.Smb.Classify
import Krystallos.Smb.Commands
import Krystallos.Smb.Paths

namespace Krystallos.Smb

open Checked Prog VfsPath

/-!
# Which path an error names

`SmbContext::error` puts the text it is given where an error has a path.  The calls on a path
give it the path; the calls on a handle give it a word for what was being done.  An error of an
operation then names one of the operation's paths if and only if the call that the operation
failed at was made on a path, or what is reported of it has no path (`names_path_iff`).
-/

/-! ### Errors with a path -/

/-- The path an error names, in the variants that have one. -/
def pathOf : Error → Option String
  | .notFound path | .permissionDenied path | .alreadyExists path | .notADirectory path
  | .isADirectory path | .directoryNotEmpty path => some path
  | _ => none

/-- The variants that have a path, an invalid one apart. -/
def Variant.hasPath : Variant → Bool
  | .notFound | .permissionDenied | .alreadyExists | .notADirectory | .isADirectory
  | .directoryNotEmpty => true
  | _ => false

/-- The error names `label`, if it names a path. -/
def NamesLabel (label : String) (e : Error) : Prop :=
  pathOf e = if (variant e).hasPath then some label else none

/-- A status is reported with the label, where its variant has a place for one. -/
theorem namesLabel_fromStatus {status : Nat} {message label : String} {e : Error}
    (h : fromStatus status message (some label) = some e) : NamesLabel label e := by
  have hall : ∀ e, fromStatus status message (some label) = some e → NamesLabel label e := by
    dsimp only [fromStatus]
    repeat refine of_ite_some (fun _ => rfl) ?_
    simp
  exact hall e h

/-- So is an errno. -/
theorem namesLabel_fromErrno {plat : Errno} {errno : Int} {message label : String} {e : Error}
    (h : fromErrno plat errno message (some label) = some e) : NamesLabel label e := by
  have hall : ∀ e, fromErrno plat errno message (some label) = some e → NamesLabel label e := by
    dsimp only [fromErrno]
    repeat refine of_ite_some (fun _ => rfl) ?_
    simp
  exact hall e h

/-- What is left unclassified is a backend error. -/
theorem unclassified_backend {statusName : Nat → String} {nterror : Nat} {rc : Int}
    {message : String} {e : Error} (h : unclassified statusName nterror rc message = .ok e) :
    ∃ text, e = .backend text := by
  unfold unclassified at h
  split at h
  · obtain ⟨errno, -, hbackend⟩ := bind_eq_ok.mp h
    split_ifs at hbackend
    · exact ⟨_, (Except.ok.inj hbackend).symm⟩
    · exact ⟨_, (Except.ok.inj hbackend).symm⟩
  · exact ⟨_, (Except.ok.inj h).symm⟩

/-- What nothing classifies has no place for a label. -/
theorem namesLabel_unclassified {statusName : Nat → String} {nterror : Nat} {rc : Int}
    {message label path : String} {e : Error}
    (h : (do
      let e ← unclassified statusName nterror rc message
      return tapPath e path : Except Panic Error) = .ok e) : NamesLabel label e := by
  obtain ⟨raw, hraw, htapped⟩ := bind_eq_ok.mp h
  obtain ⟨text, rfl⟩ := unclassified_backend hraw
  obtain rfl : tapPath (.backend text) path = e := Except.ok.inj htapped
  rw [tapPath_backend]
  rfl

/-- **The label is the path.** An error that is made with a label names it, if it names a path. -/
theorem namesLabel_fromParts {plat : Errno} {statusName : Nat → String} {nterror : Nat} {rc : Int}
    {message label : String} {e : Error}
    (h : fromParts plat statusName nterror rc message (some label) = .ok e) :
    NamesLabel label e := by
  unfold fromParts at h
  dsimp only at h
  split at h
  · -- by the status
    next e' hstatus =>
    obtain rfl := Except.ok.inj h
    split_ifs at hstatus
    exact namesLabel_fromStatus hstatus
  · -- by the status that the message names
    next e' _ hname =>
    obtain rfl := Except.ok.inj h
    obtain ⟨code, -, hcode⟩ := Option.bind_eq_some_iff.mp hname
    exact namesLabel_fromStatus hcode
  · split_ifs at h with hlost hmessage hzero
    · obtain rfl := Except.ok.inj h
      rfl
    · obtain rfl := Except.ok.inj h
      rfl
    · -- the return value decides: an errno that is known, or nothing
      obtain ⟨errno, -, h⟩ := bind_eq_ok.mp h
      obtain ⟨byErrno, hbyErrno, h⟩ := bind_eq_ok.mp h
      obtain rfl := Except.ok.inj hbyErrno
      split at h
      · next e' herrno =>
        obtain rfl := Except.ok.inj h
        exact namesLabel_fromErrno herrno
      · exact namesLabel_unclassified h
    · exact namesLabel_unclassified h

/-! ### The call that is reported -/

variable {W α β γ ε : Type} {lib : Libsmb2 W} {own : List VfsPath} {label : String} {e : Error}
  {c : Call}

/-- What a call that failed returned; a null pointer counts as zero. -/
def Call.code : (c : Call) → c.Reply → Int
  | .stat _, (rc, _) | .fstat _, (rc, _) => rc
  | .pread _ _ _, (rc, _) | .requestResumeKey _, (rc, _) => rc
  | .copychunk _ _ _, (rc, _) => rc
  | .mkdir _, rc | .unlink _, rc | .rmdir _, rc | .rename _ _, rc | .close _, rc
  | .pwrite _ _ _, rc | .ftruncate _ _, rc | .fsync _, rc | .disconnectShare, rc => rc
  | .opendir _, _ | .readdir _, _ | .closedir _, _ | .openFile _ _, _ | .destroyContext, _ => 0

/-- The texts that a call is reported with: one of the paths where it is handed any, and else a
    word that is no path. -/
def Call.LabelledBy (own : List VfsPath) (c : Call) (label : String) : Prop :=
  if c.paths = [] then label.toList.head? ≠ some '/' else ∃ p ∈ own, label = p.str

/-- A call with a path is labelled by the path of the operation. -/
theorem labelledBy_path {path : VfsPath} (hmem : path ∈ own) (hc : c.paths ≠ []) :
    c.LabelledBy own path.str := by
  rw [Call.LabelledBy, if_neg hc]
  exact ⟨path, hmem, rfl⟩

/-- A call without one is labelled by a word that is no path. -/
theorem labelledBy_word (hc : c.paths = []) (hlabel : label.toList.head? ≠ some '/') :
    c.LabelledBy own label := by
  rwa [Call.LabelledBy, if_pos hc]

/-- The answers that an operation takes for a failure of the call. -/
def Call.Fails : (c : Call) → c.Reply → Prop
  | .openFile _ _, reply => reply = none
  | .opendir _, reply => reply = none
  | .stat _, (rc, _) => rc ≠ 0
  | .requestResumeKey _, (rc, _) => rc ≠ 0
  | .copychunk _ _ _, (rc, _) => rc ≠ 0
  | .pread _ _ _, (rc, _) => rc < 0
  | .pwrite _ _ _, rc => ¬ (0 : Int) < rc
  | .mkdir _, rc | .unlink _, rc | .rmdir _, rc | .rename _ _, rc | .close _, rc
  | .ftruncate _ _, rc | .fsync _, rc => rc ≠ (0 : Int)
  | .readdir _, _ | .closedir _, _ | .fstat _, _ | .disconnectShare, _ | .destroyContext, _ => False

/-- A write that is answered with nothing, or less. -/
theorem fails_pwrite {fh : Fh} {data : List UInt8} {offset : Nat} {rc : Int} (hrc : rc ≤ 0) :
    (Call.pwrite fh data offset).Fails rc := not_lt.mpr hrc

/-- The calls that a copy makes on its way out. -/
def Call.tidies : Call → Bool
  | .close _ | .unlink _ => true
  | _ => false

/-- The calls that an operation makes on its way out. -/
def Request.tidies : Request → Call → Bool
  | .copy _ _, c => c.tidies
  | _, _ => false

@[simp] theorem Ctx.afterAll_concat (s : Ctx W) (calls : List Call) (c : Call) :
    s.afterAll lib (calls ++ [c]) = (s.afterAll lib calls).after lib c :=
  List.foldl_concat ..

/-- The calls between two contexts are in the trace. -/
theorem Ctx.trace_afterAll (s : Ctx W) (calls : List Call) :
    (s.afterAll lib calls).trace.map Event.call = s.trace.map Event.call ++ calls := by
  induction calls using List.reverseRecOn with
  | nil => exact (List.append_nil _).symm
  | append_singleton calls c ih =>
    rw [Ctx.afterAll_concat, Ctx.after, List.map_append, ih, List.append_assoc]
    rfl

/-- So there is one way only from a context to another. -/
theorem Ctx.calls_unique {s : Ctx W} {calls calls' : List Call}
    (h : s.afterAll lib calls = s.afterAll lib calls') : calls = calls' := by
  have htrace := congrArg (fun t : Ctx W => t.trace.map Event.call) h
  simp only [Ctx.trace_afterAll] at htrace
  exact List.append_cancel_left htrace

/-- Of these calls `c` is the last that was not made on the way out, after those `before`. -/
structure StoppedAt (out : Call → Bool) (calls before : List Call) (c : Call) : Prop where
  split : ∃ after, calls = before ++ c :: after ∧ ∀ c' ∈ after, out c' = true
  last : out c = false

variable {out : Call → Bool} {calls before before' : List Call} {c' : Call}

/-- A call that is not on the way out, and was made last. -/
theorem stoppedAt_last (hout : out c = false) : StoppedAt out (calls ++ [c]) calls c :=
  ⟨⟨[], rfl, by simp⟩, hout⟩

/-- A call on the way out. -/
theorem StoppedAt.concat (h : StoppedAt out calls before c) (hout : out c' = true) :
    StoppedAt out (calls ++ [c']) before c := by
  obtain ⟨after, rfl, hafter⟩ := h.split
  refine ⟨⟨after ++ [c'], by rw [List.append_assoc, List.cons_append], ?_⟩, h.last⟩
  intro d hd
  rcases List.mem_append.mp hd with hold | hnew
  · exact hafter d hold
  · rwa [List.mem_singleton.mp hnew]

/-- There is one such call at most. -/
theorem StoppedAt.unique (h : StoppedAt out calls before c) (h' : StoppedAt out calls before' c') :
    before = before' ∧ c = c' := by
  obtain ⟨after, rfl, hafter⟩ := h.split
  obtain ⟨after', heq, hafter'⟩ := h'.split
  rcases List.append_eq_append_iff.mp heq with ⟨mid, rfl, hrest⟩ | ⟨mid, rfl, hrest⟩
  · cases mid with
    | nil => exact ⟨(List.append_nil _).symm, (List.cons.inj hrest).1⟩
    | cons d mid =>
      -- the other call is one of those on the way out
      have hmem : c' ∈ after := by
        rw [(List.cons.inj hrest).2]
        exact List.mem_append_right _ List.mem_cons_self
      exact absurd (hafter c' hmem) (by rw [h'.last]; decide)
  · cases mid with
    | nil => exact ⟨List.append_nil _, (List.cons.inj hrest).1.symm⟩
    | cons d mid =>
      have hmem : c ∈ after' := by
        rw [(List.cons.inj hrest).2]
        exact List.mem_append_right _ List.mem_cons_self
      exact absurd (hafter' c hmem) (by rw [h.last]; decide)

/-- What an error has to do with the calls made from `start`: none but those on the way out were
    made, or the last other one did not fail, and it names no path; or it is the report of that
    one. -/
inductive Blamed (lib : Libsmb2 W) (own : List VfsPath) (out : Call → Bool) (start : Ctx W)
    (calls : List Call) (e : Error) : Prop
  | quiet (hpath : pathOf e = none) (hout : ∀ c ∈ calls, out c = true)
  | unreported {before : List Call} {c : Call} (hpath : pathOf e = none)
      (hstopped : StoppedAt out calls before c)
      (hanswered : ¬ c.Fails (lib.call c (start.afterAll lib before).world).1)
  | reported {before : List Call} {c : Call} {label : String}
      (hstopped : StoppedAt out calls before c)
      (hfails : c.Fails (lib.call c (start.afterAll lib before).world).1)
      (hlabel : c.LabelledBy own label)
      (hreport : fromContext lib (c.code (lib.call c (start.afterAll lib before).world).1)
        (some label) (lib.call c (start.afterAll lib before).world).2 = .ok e)

/-- Calls on the way out change nothing of what is reported. -/
theorem Blamed.concat {start : Ctx W} (h : Blamed lib own out start calls e)
    (hout : out c = true) : Blamed lib own out start (calls ++ [c]) e := by
  cases h with
  | quiet hpath hall =>
    refine .quiet hpath fun d hd => ?_
    rcases List.mem_append.mp hd with hold | hnew
    · exact hall d hold
    · rwa [List.mem_singleton.mp hnew]
  | unreported hpath hstopped hanswered => exact .unreported hpath (hstopped.concat hout) hanswered
  | reported hstopped hfails hlabel hreport =>
    exact .reported (hstopped.concat hout) hfails hlabel hreport

/-- `P` holds of the calls that lead from `start` to `s`. -/
def Through (lib : Libsmb2 W) (start s : Ctx W) (P : List Call → Prop) : Prop :=
  ∃ calls, s = start.afterAll lib calls ∧ P calls

/-- No call was made. -/
theorem Through.refl {s : Ctx W} {P : List Call → Prop} (h : P []) : Through lib s s P :=
  ⟨[], rfl, h⟩

/-- The calls are the same, whatever is said of them. -/
theorem Through.mono {start s : Ctx W} {P Q : List Call → Prop} (h : Through lib start s P)
    (hPQ : ∀ calls, P calls → Q calls) : Through lib start s Q := by
  obtain ⟨calls, hs, hP⟩ := h
  exact ⟨calls, hs, hPQ calls hP⟩

/-- One more call. -/
theorem Through.after {start s : Ctx W} {P Q : List Call → Prop} (h : Through lib start s P)
    (hPQ : ∀ calls, P calls → Q (calls ++ [c])) : Through lib start (s.after lib c) Q := by
  obtain ⟨calls, rfl, hP⟩ := h
  exact ⟨calls ++ [c], (Ctx.afterAll_concat _ _ _).symm, hPQ calls hP⟩

/-- Some calls were made. -/
abbrev Went (lib : Libsmb2 W) (start s : Ctx W) : Prop := Through lib start s fun _ => True

theorem Went.refl (s : Ctx W) : Went lib s s := Through.refl trivial

/-- One more. -/
theorem Went.after {start s : Ctx W} (h : Went lib start s) (c : Call) :
    Went lib start (s.after lib c) := Through.after h fun _ _ => trivial

/-- Where a program fails with an error, it is `Blamed`; `err` is the error in a failure. -/
def blaming (lib : Libsmb2 W) (own : List VfsPath) (out : Call → Bool) (err : ε → Option Error)
    (start : Ctx W) : Post ε (Ctx W) α where
  ret := fun _ s => Went lib start s
  fail := fun f s => Through lib start s fun calls =>
    ∀ e, err f = some e → Blamed lib own out start calls e
  stop := fun _ => True

/-- The program fails only with errors that are `Blamed`, whatever calls were made before it. -/
def Blames (lib : Libsmb2 W) (own : List VfsPath) (out : Call → Bool) (err : ε → Option Error)
    (m : Prog ε (Ctx W) α) : Prop :=
  ∀ start s, Went lib start s → wp m (blaming lib own out err start) s

/-! ### One rule for each way a program is built -/

variable {err : ε → Option Error} {start s : Ctx W}

/-- What does not fail blames nothing. -/
theorem blames_pure (a : α) : Blames lib own out err (pure a) := fun _ _ h => h

/-- A call that is not looked at fails nothing. -/
theorem blames_ffi (c : Call) : Blames lib own out err (ffi lib c) := fun _ _ h => h.after c

/-- A panic is no failure with an error. -/
theorem blames_checked (x : Except Panic α) :
    Blames lib own out err (checked x : Prog ε (Ctx W) α) :=
  fun _ _ h => wp_checked_of (fun _ _ => h) (fun _ => trivial)

/-- One part after the other. -/
theorem blames_bind {m : Prog ε (Ctx W) β} {f : β → Prog ε (Ctx W) α}
    (hm : Blames lib own out err m) (hf : ∀ b, Blames lib own out err (f b)) :
    Blames lib own out err (m >>= f) := by
  intro start s h
  rw [wp_bind]
  exact wp_mono (hm start s h) (fun b s' h' => hf b start s' h') (fun _ _ h' => h') (fun _ h' => h')

/-- Either branch. -/
theorem blames_ite {p : Prop} [Decidable p] {m n : Prog ε (Ctx W) α}
    (hm : Blames lib own out err m) (hn : Blames lib own out err n) :
    Blames lib own out err (if p then m else n) :=
  fun start s h => wp_ite (fun _ => hm start s h) (fun _ => hn start s h)

/-- A loop, as often as it is run. -/
theorem blames_iterate {body : β → Prog ε (Ctx W) (Turn β γ)}
    (hbody : ∀ b, Blames lib own out err (body b)) (fuel : Nat) (b : β) :
    Blames lib own out err (iterate fuel body b) := by
  intro start s h
  refine wp_iterate_partial (fun _ s' => Went lib start s') trivial ?_ fuel h
  intro b' s' h'
  refine wp_mono (hbody b' start s' h') ?_ (fun _ _ h => h) (fun _ h => h)
  intro turn s'' h''
  cases turn with
  | again _ => exact h''
  | leave _ => exact h''

/-- A call, and what is done with its answer. -/
theorem blames_call {f : c.Reply → Prog ε (Ctx W) α}
    (hf : ∀ start s, Went lib start s →
      wp (f (lib.call c s.world).1) (blaming lib own out err start) (s.after lib c)) :
    Blames lib own out err (ffi lib c >>= f) := by
  intro start s h
  rw [wp_bind, wp_ffi]
  exact hf start s h

/-- Going on after the call that was just made. -/
theorem wp_after_blaming (h : Went lib start s) {m : Prog ε (Ctx W) α}
    (hm : Blames lib own out err m) : wp m (blaming lib own out err start) (s.after lib c) :=
  hm start _ (h.after c)

/-- Failing after a call that did not. -/
theorem wp_fail_blaming (h : Went lib start s) {f : ε} (hf : ∀ e, err f = some e → pathOf e = none)
    (hanswered : ¬ c.Fails (lib.call c s.world).1) (hout : out c = false) :
    wp (fail f : Prog ε (Ctx W) α) (blaming lib own out err start) (s.after lib c) := by
  obtain ⟨calls, rfl, -⟩ := h
  exact ⟨calls ++ [c], (Ctx.afterAll_concat _ _ _).symm,
    fun e he => .unreported (hf e he) (stoppedAt_last hout) hanswered⟩

/-- Failing with the report of the call that was just made. -/
theorem through_reported (h : Went lib start s) {rc : Int}
    (hrc : c.code (lib.call c s.world).1 = rc) (hfails : c.Fails (lib.call c s.world).1)
    (hlabel : c.LabelledBy own label) (hout : out c = false)
    (he : fromContext lib rc (some label) (lib.call c s.world).2 = .ok e) :
    Through lib start (s.after lib c) fun calls => Blamed lib own out start calls e := by
  obtain ⟨calls, rfl, -⟩ := h
  subst hrc
  exact ⟨calls ++ [c], (Ctx.afterAll_concat _ _ _).symm,
    .reported (stoppedAt_last hout) hfails hlabel he⟩

/-- Failing with the error of the call that was just made. -/
theorem wp_failWith_blaming (h : Went lib start s) {rc : Int}
    (hrc : c.code (lib.call c s.world).1 = rc) (hfails : c.Fails (lib.call c s.world).1)
    (hlabel : c.LabelledBy own label) (hout : out c = false) :
    wp (failWith lib rc label : Prog Error (Ctx W) α) (blaming lib own out some start)
      (s.after lib c) := by
  rw [failWith, wp_bind]
  show wp (checked (fromContext lib rc (some label) (s.after lib c).world)) _ (s.after lib c)
  refine wp_checked_of (fun e he => ?_) (fun _ => trivial)
  refine (through_reported h hrc hfails hlabel hout he).mono fun calls hblamed e' he' => ?_
  obtain rfl := Option.some.inj he'
  exact hblamed

/-- Failing, or going on, after the call that was just made. -/
theorem wp_check_blaming (h : Went lib start s) {p : Prop} {inst : Decidable p} {rc : Int}
    (hrc : c.code (lib.call c s.world).1 = rc) (hfails : p → c.Fails (lib.call c s.world).1)
    (hlabel : c.LabelledBy own label) (hout : out c = false) {m : Prog Error (Ctx W) α}
    (hm : Blames lib own out some m) :
    wp (if p then failWith lib rc label else m) (blaming lib own out some start) (s.after lib c) :=
  wp_ite (fun hp => wp_failWith_blaming h hrc (hfails hp) hlabel hout)
    (fun _ => wp_after_blaming h hm)

/-! ### The operations on paths -/

variable {path fromPath toPath : VfsPath}

/-- A path with a NUL in it fails with an error of its own, before any call. -/
theorem wp_onPath_blaming {f : String → Prog Error (Ctx W) α}
    (hf : wp (f (toSmbPath path)) (blaming lib own out some s) s) :
    wp (ofExcept (cstring (toSmbPath path)) >>= f) (blaming lib own out some s) s := by
  rw [wp_bind, wp_ofExcept]
  unfold cstring
  split_ifs with hnul
  · refine .refl fun e he => .quiet ?_ (by simp)
    obtain rfl := Option.some.inj he
    rfl
  · exact hf

/-- An operation that is one call on one path. -/
theorem wp_pathCall_blaming {f : String → Call} (hpaths : ∀ p, (f p).paths = [p])
    {run : String → Prog Error (Ctx W) Int}
    (hrun : ∀ p s, run p s =
      .ok (.ok ((f p).code (lib.call (f p) s.world).1), s.after lib (f p)))
    (hfails : ∀ p reply, (f p).code reply ≠ 0 → (f p).Fails reply) (hout : ∀ c, out c = false)
    (hmem : path ∈ own) (s : Ctx W) :
    wp (pathCall lib run path) (blaming lib own out some s) s := by
  have hlabel : (f (toSmbPath path)).LabelledBy own path.str :=
    labelledBy_path hmem (by rw [hpaths]; exact List.cons_ne_nil _ _)
  apply wp_onPath_blaming
  rw [wp_bind, wp, hrun]
  exact wp_check_blaming (.refl s) rfl (hfails _ _) hlabel (hout _) (blames_pure _)

theorem wp_mkdir_blaming (hout : ∀ c, out c = false) (hmem : path ∈ own) (s : Ctx W) :
    wp (mkdir lib path) (blaming lib own out some s) s :=
  wp_pathCall_blaming (f := .mkdir) (fun _ => rfl) (fun _ _ => rfl) (fun _ _ => id) hout hmem s

theorem wp_removeFile_blaming (hout : ∀ c, out c = false) (hmem : path ∈ own) (s : Ctx W) :
    wp (removeFile lib path) (blaming lib own out some s) s :=
  wp_pathCall_blaming (f := .unlink) (fun _ => rfl) (fun _ _ => rfl) (fun _ _ => id) hout hmem s

theorem wp_removeDir_blaming (hout : ∀ c, out c = false) (hmem : path ∈ own) (s : Ctx W) :
    wp (removeDir lib path) (blaming lib own out some s) s :=
  wp_pathCall_blaming (f := .rmdir) (fun _ => rfl) (fun _ _ => rfl) (fun _ _ => id) hout hmem s

/-- A `stat` fails at its one call. -/
theorem wp_statPath_blaming (hout : ∀ c, out c = false) (hmem : path ∈ own) (s : Ctx W) :
    wp (statPath lib path) (blaming lib own out some s) s := by
  have hlabel : (Call.stat (toSmbPath path)).LabelledBy own path.str :=
    labelledBy_path hmem (List.cons_ne_nil _ _)
  exact wp_onPath_blaming (blames_call
    (fun _ _ h => wp_check_blaming h rfl id hlabel (hout _) (blames_pure _)) s s (.refl s))

/-- A rename fails at its one call, and is labelled by the path it is from. -/
theorem wp_rename_blaming (hout : ∀ c, out c = false) (hmem : fromPath ∈ own) (s : Ctx W) :
    wp (rename lib fromPath toPath) (blaming lib own out some s) s := by
  have hlabel : (Call.rename (toSmbPath fromPath) (toSmbPath toPath)).LabelledBy own fromPath.str :=
    labelledBy_path hmem (List.cons_ne_nil _ _)
  exact wp_onPath_blaming (wp_onPath_blaming (blames_call
    (fun _ _ h => wp_check_blaming h rfl id hlabel (hout _) (blames_pure _)) s s (.refl s)))

/-- A listing fails at its `opendir`, and at no call after it. -/
theorem wp_listDir_blaming (hout : ∀ c, out c = false) (hmem : path ∈ own) (fuel : Nat)
    (s : Ctx W) : wp (listDir lib path fuel) (blaming lib own out some s) s := by
  have hlabel : (Call.opendir (toSmbPath path)).LabelledBy own path.str :=
    labelledBy_path hmem (List.cons_ne_nil _ _)
  refine wp_onPath_blaming (blames_call (fun start s h => ?_) s s (.refl s))
  split
  · next hnull => exact wp_failWith_blaming h rfl hnull hlabel (hout _)
  · refine wp_after_blaming h (blames_bind (blames_iterate (fun entries => ?_) fuel []) fun entries =>
      blames_bind (blames_ffi _) fun _ => blames_pure _)
    refine blames_bind (blames_ffi (.readdir _)) fun entry => ?_
    rcases entry with _ | ⟨name, st⟩
    · exact blames_pure _
    · exact blames_ite (blames_pure _) (blames_pure _)

/-! ### The copy -/

variable {src dst : Fh}

/-- The error of a copy by the server that did not finish. -/
def CopyFailed.error? : CopyFailed → Option Error
  | .unsupported => none
  | .error e => some e

/-- A failed copy call is reported as a copy, or not at all. -/
theorem wp_classifyCopyFailure_blaming (h : Went lib start s) {rc : Int}
    (hrc : c.code (lib.call c s.world).1 = rc) (hfails : c.Fails (lib.call c s.world).1)
    (hc : c.paths = []) (hout : out c = false) :
    wp (classifyCopyFailure lib rc : Prog CopyFailed (Ctx W) α)
      (blaming lib own out CopyFailed.error? start) (s.after lib c) := by
  rw [classifyCopyFailure, wp_bind, wp_current]
  refine wp_ite (fun _ => (h.after c).mono fun _ _ _ he => nomatch he) (fun _ => ?_)
  rw [wp_bind]
  show wp (checked (fromContext lib rc (some "copy") (s.after lib c).world)) _ (s.after lib c)
  refine wp_checked_of (fun e he => ?_) (fun _ => trivial)
  have hlabel : c.LabelledBy own "copy" := labelledBy_word hc (by decide)
  refine (through_reported h hrc hfails hlabel hout he).mono fun calls hblamed e' he' => ?_
  obtain rfl := Option.some.inj he'
  exact hblamed

/-- The copy by the server fails at the request for a key or at one of its chunks. -/
theorem blames_copyServerSide (size fuel : Nat) :
    Blames lib own Call.tidies CopyFailed.error? (copyServerSide lib src dst size fuel) := by
  refine blames_call fun start s h => wp_ite
    (fun hrc => wp_classifyCopyFailure_blaming h rfl hrc rfl rfl)
    (fun _ => wp_after_blaming h ?_)
  refine blames_iterate (fun (chunkBytes, offset) => ?_) fuel _
  refine blames_ite (blames_call fun start s h => ?_) (blames_pure _)
  refine wp_ite (fun hrc => wp_ite (fun _ => ?_) (fun _ => wp_after_blaming h ?_)) (fun hrc => ?_)
  · -- a copy of zero bytes: the call is answered, and the error is the code's own
    refine wp_fail_blaming h ?_ (fun hfails => hfails hrc) rfl
    rintro e he
    obtain rfl := Option.some.inj he
    rfl
  · exact blames_bind (blames_checked _) fun _ => blames_pure _
  · exact wp_ite (fun _ => wp_after_blaming h (blames_pure _))
      (fun _ => wp_classifyCopyFailure_blaming h rfl hrc rfl rfl)

/-- Writing out what was read fails at a write. -/
theorem blames_writeTurn {buf : List UInt8} {read : Int} {offset : Nat} (written : Int) :
    Blames lib own Call.tidies some (writeTurn lib dst buf read offset written) := by
  have hlabel : ∀ data pos, (Call.pwrite dst data pos).LabelledBy own "copy (write)" :=
    fun _ _ => labelledBy_word rfl (by decide)
  have hout : ∀ data pos, Call.tidies (.pwrite dst data pos) = false := fun _ _ => rfl
  refine blames_ite (blames_bind (blames_checked _) fun pos => ?_) (blames_pure _)
  refine blames_call (c := .pwrite dst _ pos) fun start s h => ?_
  exact wp_check_blaming h rfl fails_pwrite (hlabel _ _) (hout _ _)
    (blames_bind (blames_checked _) fun _ => blames_pure _)

/-- The fallback fails at a read or at a write. -/
theorem blames_copyThroughHere (size fuel : Nat) :
    Blames lib own Call.tidies some (copyThroughHere lib src dst size fuel) := by
  have hlabel : ∀ want offset, (Call.pread src want offset).LabelledBy own "copy (read)" :=
    fun _ _ => labelledBy_word rfl (by decide)
  refine blames_iterate (fun (offset, buf) => blames_ite ?_ (blames_pure _)) fuel _
  refine blames_call fun start s h => ?_
  apply wp_check_blaming h rfl id (hlabel _ _) rfl
  refine blames_ite (blames_pure _)
    (blames_bind (blames_iterate blames_writeTurn fuel 0) fun _ => ?_)
  exact blames_bind (blames_checked _) fun _ => blames_pure _

/-- Moving the bytes, by the server or through here. -/
theorem blames_copyBytes (size fuel : Nat) :
    Blames lib own Call.tidies some (copyBytes lib src dst size fuel) := by
  intro start s h
  have hserved : wp (copyServerSide lib src dst size fuel)
      (blaming lib own Call.tidies CopyFailed.error? start) s :=
    blames_copyServerSide size fuel start s h
  rw [copyBytes, wp_bind, wp_capture]
  refine wp_mono hserved (fun _ _ h' => h') ?_ (fun _ h' => h')
  intro f s' h'
  cases f with
  | unsupported => exact blames_copyThroughHere size fuel start s' (h'.mono fun _ _ => trivial)
  | error e => exact h'

/-- Calls that are made on the way out change nothing of what is reported. -/
theorem through_blamed_after (c : Call) (hout : out c = true)
    (h : Through lib start s fun calls => ∀ e', some e = some e' →
      Blamed lib own out start calls e') :
    Through lib start (s.after lib c) fun calls => ∀ e', some e = some e' →
      Blamed lib own out start calls e' :=
  h.after fun _ hblamed e' he' => (hblamed e' he').concat hout

/-- The close of a guard comes on the way out. -/
theorem blames_withGuard {fh : Fh} {body : Prog Error (Ctx W) α}
    (hbody : Blames lib own Call.tidies some body) :
    Blames lib own Call.tidies some (withGuard lib fh body) := by
  intro start s h
  rw [wp_withGuard]
  exact wp_mono (hbody start s h) (fun _ _ h' => Went.after h' _)
    (fun _ _ h' => through_blamed_after _ rfl h') (fun _ h' => h')

/-- So do the close of the destination and its removal. -/
theorem blames_copyInto (smbTo : String) (size fuel : Nat) :
    Blames lib own Call.tidies some (copyInto lib src dst smbTo size fuel) := by
  refine blames_ite (blames_withGuard (blames_pure _)) fun start s h => ?_
  have hcopied : wp (copyBytes lib src dst size fuel) (blaming lib own Call.tidies some start) s :=
    blames_copyBytes size fuel start s h
  rw [wp_bind, wp_capture, wp_guarding]
  refine wp_mono hcopied ?_ ?_ (fun _ h' => h')
  · exact fun _ _ h' => Went.after h' _
  · intro e s' h'
    exact through_blamed_after _ rfl (through_blamed_after _ rfl h')

/-- **A copy** fails at an open, with that path, or at a call that moves bytes. -/
theorem wp_copyFile_blaming (hfrom : fromPath ∈ own) (hto : toPath ∈ own) (fuel : Nat)
    (s : Ctx W) :
    wp (copyFile lib fromPath toPath fuel) (blaming lib own Call.tidies some s) s := by
  have hsource : (Call.openFile (toSmbPath fromPath) sourceFlags).LabelledBy own fromPath.str :=
    labelledBy_path hfrom (List.cons_ne_nil _ _)
  have htarget : (Call.openFile (toSmbPath toPath) destinationFlags).LabelledBy own toPath.str :=
    labelledBy_path hto (List.cons_ne_nil _ _)
  refine wp_onPath_blaming (wp_onPath_blaming (blames_call (fun start s h => ?_) s s (.refl s)))
  split
  · next hnull => exact wp_failWith_blaming h rfl hnull hsource rfl
  · next src _ =>
    refine wp_after_blaming h
      (blames_withGuard (blames_bind (blames_ffi (.fstat src)) fun reply => ?_))
    refine blames_call fun start s h => ?_
    split
    · next hnull => exact wp_failWith_blaming h rfl hnull htarget rfl
    · exact wp_after_blaming h (blames_copyInto _ _ fuel)

/-! ### The operations on the session thread -/

/-- Where a command fails with an error, it is `Blamed`. -/
def blamingActor (lib : Libsmb2 W) (own : List VfsPath) (out : Call → Bool) (start : Actor W) :
    Post Error (Actor W) α where
  ret := fun _ a => Went lib start.ctx a.ctx
  fail := fun e a => Through lib start.ctx a.ctx fun calls =>
    Blamed lib own out start.ctx calls e
  stop := fun _ => True

variable {first a : Actor W} {id : Nat}

/-- What runs on the context fails there. -/
theorem wp_onCtx_blaming {m : Prog Error (Ctx W) α}
    (hm : wp m (blaming lib own out some first.ctx) a.ctx) :
    wp (onCtx m) (blamingActor lib own out first) a := by
  rw [onCtx, wp_zoom]
  refine wp_mono hm (fun _ _ h => h) (fun e s' h => ?_) (fun _ h => h)
  exact Through.mono h fun calls hblamed => hblamed e rfl

/-- An operation on a context, as a command. -/
theorem wp_command_blaming {m : Prog Error (Ctx W) β}
    (hm : wp m (blaming lib own out some a.ctx) a.ctx) (f : β → α) :
    wp (onCtx m >>= fun b => pure (f b)) (blamingActor lib own out a) a :=
  wp_bind_pure.mpr (wp_onCtx_blaming hm)

/-- Failing, or returning, after the call that was just made. -/
theorem wp_actorCheck_blaming (h : Went lib first.ctx a.ctx) {p : Prop} {inst : Decidable p}
    {rc : Int} (hrc : c.code (lib.call c a.ctx.world).1 = rc)
    (hfails : p → c.Fails (lib.call c a.ctx.world).1) (hlabel : c.LabelledBy own label)
    (hout : out c = false) (x : α) :
    wp (if p then onCtx (failWith lib rc label) else pure x) (blamingActor lib own out first)
      { a with ctx := a.ctx.after lib c } :=
  wp_ite (fun hp => wp_onCtx_blaming (a := { a with ctx := a.ctx.after lib c })
      (wp_failWith_blaming h hrc (hfails hp) hlabel hout))
    (fun _ => h.after c)

/-- A call on the handle that an id stands for. -/
theorem wp_onHandle_blaming {op : String} {c : Fh → Call}
    {f : (fh : Fh) → (c fh).Reply → Prog Error (Actor W) α}
    (hf : ∀ fh, wp (f fh (lib.call (c fh) a.ctx.world).1) (blamingActor lib own out a)
      { a with ctx := a.ctx.after lib (c fh) }) :
    wp (handleOf id op >>= fun fh => onCtx (ffi lib (c fh)) >>= f fh)
      (blamingActor lib own out a) a := by
  rw [wp_bind]
  refine wp_handleOf (fun fh _ => ?_) (fun _ => .refl (.quiet rfl (by simp)))
  exact (wp_bind (onCtx (ffi lib (c fh))) (f fh)).mpr (wp_onCtx_ffi.mpr (hf fh))

section

variable (hout : ∀ c, out c = false)
include hout

/-- A read fails at its `pread`. -/
theorem wp_readAt_blaming (offset len : Nat) :
    wp (readAt lib id offset len) (blamingActor lib own out a) a := by
  have hlabel : ∀ fh, (Call.pread fh len offset).LabelledBy own "read" :=
    fun _ => labelledBy_word rfl (by decide)
  refine wp_onHandle_blaming (c := fun fh => .pread fh len offset) fun fh => ?_
  exact wp_actorCheck_blaming (.refl _) rfl (fun hrc => hrc) (hlabel fh) (hout _) _

/-- A write fails at its `pwrite`. -/
theorem wp_writeAt_blaming (offset : Nat) (data : List UInt8) :
    wp (writeAt lib id offset data) (blamingActor lib own out a) a := by
  have hlabel : ∀ fh, (Call.pwrite fh (data.take (castU 32 data.length)) offset).LabelledBy own
      "write" :=
    fun _ => labelledBy_word rfl (by decide)
  refine wp_onHandle_blaming
    (c := fun fh => .pwrite fh (data.take (castU 32 data.length)) offset) fun fh => ?_
  exact wp_actorCheck_blaming (.refl _) rfl (fun hrc => fails_pwrite (le_of_lt hrc)) (hlabel fh)
    (hout _) _

/-- A truncation fails at its `ftruncate`. -/
theorem wp_setLen_blaming (len : Nat) : wp (setLen lib id len) (blamingActor lib own out a) a := by
  have hlabel : ∀ fh, (Call.ftruncate fh len).LabelledBy own "truncate" :=
    fun _ => labelledBy_word rfl (by decide)
  refine wp_onHandle_blaming (c := fun fh => .ftruncate fh len) fun fh => ?_
  exact wp_actorCheck_blaming (.refl _) rfl (fun hrc => hrc) (hlabel fh) (hout _) _

/-- A flush fails at its `fsync`. -/
theorem wp_flush_blaming : wp (flush lib id) (blamingActor lib own out a) a := by
  have hlabel : ∀ fh, (Call.fsync fh).LabelledBy own "flush" :=
    fun _ => labelledBy_word rfl (by decide)
  refine wp_onHandle_blaming (c := fun fh => .fsync fh) fun fh => ?_
  exact wp_actorCheck_blaming (.refl _) rfl (fun hrc => hrc) (hlabel fh) (hout _) _

/-- A close fails at its `close`; where there is nothing to close, it does not fail. -/
theorem wp_closeFile_blaming : wp (closeFile lib id) (blamingActor lib own out a) a := by
  have hlabel : ∀ fh, (Call.close fh).LabelledBy own ("file handle " ++ toString id) := by
    refine fun _ => labelledBy_word rfl ?_
    rw [String.toList_append]
    exact of_decide_eq_false rfl
  rw [closeFile, wp_bind, wp_current]
  refine (wp_bind _ _).mpr ((wp_update _).mpr ?_)
  split
  · exact .refl _
  · next fh _ =>
    refine (wp_bind (onCtx (ffi lib (.close fh))) _).mpr (wp_onCtx_ffi.mpr ?_)
    exact wp_actorCheck_blaming (a := { a with files := a.files.remove id }) (.refl _) rfl
      (fun hrc => hrc) (hlabel fh) (hout _) ()

/-- An open fails at the open itself: the query that follows it is not looked at. -/
theorem wp_openFile_blaming (hmem : path ∈ own) (mode : OpenMode) :
    wp (openFile lib path mode) (blamingActor lib own out a) a := by
  have hlabel : (Call.openFile (toSmbPath path) (openFlags mode)).LabelledBy own path.str :=
    labelledBy_path hmem (List.cons_ne_nil _ _)
  rw [openFile, wp_bind, wp_ofExcept]
  unfold cstring
  split_ifs with hnul
  · exact .refl (.quiet rfl (by simp))
  · refine (wp_bind (onCtx (ffi lib (.openFile _ _))) _).mpr (wp_onCtx_ffi.mpr ?_)
    have hafter : Went lib a.ctx
        (a.ctx.after lib (.openFile (toSmbPath path) (openFlags mode))) := (Went.refl _).after _
    dsimp only
    split
    · next hnull =>
      exact wp_onCtx_blaming (wp_failWith_blaming (.refl _) rfl hnull hlabel (hout _))
    · next fh _ =>
      refine (wp_bind (onCtx (ffi lib (.fstat fh))) _).mpr (wp_onCtx_ffi.mpr ?_)
      refine (wp_bind _ _).mpr (wp_current.mpr ((wp_bind _ _).mpr ?_))
      exact wp_checked_of (fun _ _ => hafter.after _) (fun _ => trivial)

end

/-- The paths of an operation: its arguments, or for one on a file the path the file was opened
    from. -/
def Request.ownPaths (opened : VfsPath) (req : Request) : List VfsPath :=
  match req.paths with
  | [] => [opened]
  | paths => paths

/-- **Every failure** of an operation is `Blamed`. -/
theorem wp_execute_blaming (fuel : Nat) (req : Request) (opened : VfsPath) (a : Actor W) :
    wp (execute lib fuel req) (blamingActor lib (req.ownPaths opened) req.tidies a) a := by
  have hself : ∀ {path : VfsPath}, path ∈ [path] := List.mem_singleton.mpr rfl
  have hnone : ∀ c : Call, (fun _ : Call => false) c = false := fun _ => rfl
  have hanswer : ∀ {γ : Type} {m : Prog Error (Actor W) γ} {g : γ → Answer},
      wp m (blamingActor lib (req.ownPaths opened) req.tidies a) a →
      wp (m >>= fun b => pure (g b)) (blamingActor lib (req.ownPaths opened) req.tidies a) a :=
    fun hm => wp_bind_pure.mpr hm
  cases req with
  | list path => exact wp_command_blaming (wp_listDir_blaming hnone hself fuel _) _
  | stat path => exact wp_command_blaming (wp_statPath_blaming hnone hself _) _
  | mkdir path => exact wp_command_blaming (wp_mkdir_blaming hnone hself _) _
  | removeFile path => exact wp_command_blaming (wp_removeFile_blaming hnone hself _) _
  | removeDir path => exact wp_command_blaming (wp_removeDir_blaming hnone hself _) _
  | rename fromPath toPath =>
    exact wp_command_blaming (wp_rename_blaming hnone (List.mem_cons_self ..) _) _
  | copy fromPath toPath =>
    exact wp_command_blaming
      (wp_copyFile_blaming (List.mem_cons_self ..) (List.mem_cons_of_mem _ hself) fuel _) _
  | openFile path mode => exact hanswer (wp_openFile_blaming hnone hself mode)
  | close id => exact hanswer (wp_closeFile_blaming hnone)
  | readAt id offset len => exact hanswer (wp_readAt_blaming hnone offset len)
  | writeAt id offset data => exact hanswer (wp_writeAt_blaming hnone offset data)
  | setLen id len => exact hanswer (wp_setLen_blaming hnone len)
  | flush id => exact hanswer (wp_flush_blaming hnone)

/-! ### Where the path is one of the operation's -/

/-- The call that an operation failed at, in the world in which it was made: of the calls between
    two contexts the last that was not made on the way out, if its answer stands for a failure. -/
def FailedAt (lib : Libsmb2 W) (req : Request) (start finish : Ctx W) (c : Call) (w : W) : Prop :=
  ∃ calls before, finish = start.afterAll lib calls ∧ StoppedAt req.tidies calls before c ∧
    w = (start.afterAll lib before).world ∧ c.Fails (lib.call c w).1

/-- The variant that a call's report stands for. -/
def reportedVariant (lib : Libsmb2 W) (c : Call) (w : W) : Option Variant :=
  variantOf (fromContext lib (c.code (lib.call c w).1) none (lib.call c w).2)

/-- The error names no path that is not one of `paths`. -/
def NamesOwn (paths : List VfsPath) (e : Error) : Prop :=
  ∀ text, pathOf e = some text → ∃ p ∈ paths, text = p.str

/-- The report of a call stands for the variant of the error, whatever it is labelled with. -/
theorem reportedVariant_eq {w : W} (h : fromContext lib (c.code (lib.call c w).1) (some label)
    (lib.call c w).2 = .ok e) : reportedVariant lib c w = some (variant e) := by
  have hvariant : variantOf (fromContext lib (c.code (lib.call c w).1) (some label)
      (lib.call c w).2) = some (variant e) := by
    rw [h]
    rfl
  rw [reportedVariant, ← hvariant, fromContext, fromContext, variantOf_fromParts,
    variantOf_fromParts]

/-- A path that can be built begins with a slash. -/
theorem leading_slash_of_built {p : VfsPath} (hp : Built p) : p.str.toList.head? = some '/' := by
  obtain ⟨segs, hsegs, rfl⟩ := hp.exists_render
  exact (normalForm_render hsegs).leading_slash

/-- A report names one of the paths where its call was made on one, or where it has none. -/
theorem namesOwn_iff_of_report {w : W} (hbuilt : ∀ p ∈ own, Built p)
    (hlabel : c.LabelledBy own label)
    (hreport : fromContext lib (c.code (lib.call c w).1) (some label) (lib.call c w).2 = .ok e) :
    NamesOwn own e ↔ c.paths ≠ [] ∨ ∀ v, reportedVariant lib c w = some v → v.hasPath = false := by
  have hpath : pathOf e = if (variant e).hasPath then some label else none :=
    namesLabel_fromParts hreport
  have hvariant := reportedVariant_eq hreport
  constructor
  · intro hnames
    by_cases hc : c.paths = []
    · -- the label is no path, so it is not named
      refine .inr fun v hv => ?_
      obtain rfl : variant e = v := Option.some.inj (hvariant.symm.trans hv)
      by_contra hhas
      rw [if_pos (Bool.not_eq_false _ ▸ hhas)] at hpath
      obtain ⟨p, hp, rfl⟩ := hnames label hpath
      rw [Call.LabelledBy, if_pos hc] at hlabel
      exact hlabel (leading_slash_of_built (hbuilt p hp))
    · exact .inl hc
  · rintro (hc | hno) text htext
    · rw [Call.LabelledBy, if_neg hc] at hlabel
      rw [hpath] at htext
      split_ifs at htext
      obtain rfl := Option.some.inj htext
      exact hlabel
    · rw [hpath, hno _ hvariant] at htext
      cases htext

/-- **An error names a path of its operation** if and only if the call that the operation failed at,
    where it failed at one, was made on a path or what is reported of it has no path. -/
theorem names_path_iff (lib : Libsmb2 W) (fuel : Nat) (req : Request) (opened : VfsPath)
    (hbuilt : ∀ p ∈ req.ownPaths opened, Built p) {a a' : Actor W} {e : Error}
    (hrun : execute lib fuel req a = .ok (.error e, a')) :
    NamesOwn (req.ownPaths opened) e ↔ ∀ c w, FailedAt lib req a.ctx a'.ctx c w →
      c.paths ≠ [] ∨ ∀ v, reportedVariant lib c w = some v → v.hasPath = false := by
  obtain ⟨calls, hcalls, hblamed⟩ := wp_fail_of_run (wp_execute_blaming fuel req opened a) hrun
  have hsilent : pathOf e = none → NamesOwn (req.ownPaths opened) e := by
    intro hpath text htext
    rw [hpath] at htext
    cases htext
  -- the calls of the operation, and the one it stopped at, are no others
  have hsame : ∀ {c w before₀ c₀}, FailedAt lib req a.ctx a'.ctx c w →
      StoppedAt req.tidies calls before₀ c₀ →
      c = c₀ ∧ w = (a.ctx.afterAll lib before₀).world := by
    rintro c w before₀ c₀ ⟨calls', before, hcalls', hstopped, rfl, -⟩ hstopped₀
    obtain rfl : calls = calls' := Ctx.calls_unique (hcalls.symm.trans hcalls')
    obtain ⟨rfl, rfl⟩ := hstopped.unique hstopped₀
    exact ⟨rfl, rfl⟩
  cases hblamed with
  | quiet hpath hout =>
    refine iff_of_true (hsilent hpath) ?_
    rintro c w ⟨calls', before, hcalls', hstopped, -, -⟩
    obtain rfl : calls = calls' := Ctx.calls_unique (hcalls.symm.trans hcalls')
    obtain ⟨after, rfl, -⟩ := hstopped.split
    exact absurd (hout c (by simp)) (by rw [hstopped.last]; decide)
  | unreported hpath hstopped hanswered =>
    refine iff_of_true (hsilent hpath) fun c w hfailed => ?_
    obtain ⟨rfl, rfl⟩ := hsame hfailed hstopped
    obtain ⟨_, _, _, _, _, hfails⟩ := hfailed
    exact absurd hfails hanswered
  | reported hstopped hfails hlabel hreport =>
    rw [namesOwn_iff_of_report hbuilt hlabel hreport]
    constructor
    · intro hreported c w hfailed
      obtain ⟨rfl, rfl⟩ := hsame hfailed hstopped
      exact hreported
    · exact fun hall => hall _ _ ⟨calls, _, hcalls, hstopped, rfl, hfails⟩

/-- A session with a file open under the id `1`. -/
def readyActor : Actor MemServer := ⟨⟨MemServer.ready, []⟩, OpenFiles.empty.add 2⟩

/-- What is not there is reported under its path. -/
theorem names_path_stat : ∃ a', execute (MemServer.lib .none) 0 (.stat ⟨"/x"⟩) readyActor =
      .ok (.error (.notFound "/x"), a') ∧
    (NamesOwn (Request.ownPaths ⟨"/b"⟩ (.stat ⟨"/x"⟩)) (.notFound "/x") ↔
      ∀ c w, FailedAt (MemServer.lib .none) (.stat ⟨"/x"⟩) readyActor.ctx a'.ctx c w →
        c.paths ≠ [] ∨ ∀ v, reportedVariant (MemServer.lib .none) c w = some v →
          v.hasPath = false) := by
  refine ⟨_, rfl, names_path_iff (MemServer.lib .none) 0 (.stat ⟨"/x"⟩) ⟨"/b"⟩ ?_ rfl⟩
  intro p hp
  obtain rfl : p = ⟨"/x"⟩ := List.mem_singleton.mp hp
  exact .new "/x" (by decide)

/-- **A read that is refused** is reported as a file `read` that is forbidden, whatever file was
    read. -/
theorem readAt_names_word :
    Built ⟨"/b"⟩ ∧
    (∃ a', execute (MemServer.lib (.failing (fun | .pread _ _ _ => true | _ => false)
        Status.accessDenied)) 0 (.readAt 1 0 3) readyActor =
      .ok (.error (.permissionDenied "read"), a')) ∧
    ¬ NamesOwn (Request.ownPaths ⟨"/b"⟩ (.readAt 1 0 3)) (.permissionDenied "read") := by
  refine ⟨.new "/b" (by decide), ⟨_, rfl⟩, fun hnames => ?_⟩
  obtain ⟨p, hp, hword⟩ := hnames "read" rfl
  obtain rfl : p = ⟨"/b"⟩ := List.mem_singleton.mp hp
  exact absurd hword (by decide)

end Krystallos.Smb
