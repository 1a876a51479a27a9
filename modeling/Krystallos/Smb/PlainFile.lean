import Krystallos.Core.PlainFile
import Krystallos.Smb.Idle
import Krystallos.Smb.Overflow

namespace Krystallos.Smb

open Checked Contract Prog Slices

/-!
# A file on the session is a plain file

`Stores` is what the library's calls on an open handle do to the file behind it, as their
documentation has it.  Over a session that is up, the calls of a `RemoteFile` are then those of
a plain file (`meets_short`): capped at the negotiated sizes, sent through the channel, executed
by the session thread, and answered.
-/

variable {W : Type}

/-- While `J` holds, nobody else changes the file open as `fh`, whose content `content` reads off
    the world: reads give parts of it, and what is written or cut is what was reported.  Nothing
    returns the least `i32`. -/
structure Stores (lib : Libsmb2 W) (J : W → Prop) (fh : Fh) (content : W → FileContent) : Prop where
  pread : ∀ count offset w (n : Int) bytes w', offset < 2 ^ 64 → J w →
    lib.call (.pread fh count offset) w = ((n, bytes), w') →
    J w' ∧ -2 ^ 31 < n ∧ content w' = content w ∧
      (0 ≤ n → n = bytes.length ∧ ShortRead (content w).bytes offset count bytes)
  pwrite : ∀ data offset w (n : Int) w', offset < 2 ^ 64 → J w →
    lib.call (.pwrite fh data offset) w = (n, w') →
    J w' ∧ -2 ^ 31 < n ∧ (0 ≤ n → n ≤ data.length ∧
      (content w').bytes = overwrite (content w).bytes offset (data.take n.toNat))
  ftruncate : ∀ len w (rc : Int) w', len < 2 ^ 64 → J w →
    lib.call (.ftruncate fh len) w = (rc, w') →
    J w' ∧ -2 ^ 31 < rc ∧ (rc = 0 → (content w').bytes = resize (content w).bytes len)
  fsync : ∀ w (rc : Int) w', J w → lib.call (.fsync fh) w = (rc, w') →
    J w' ∧ -2 ^ 31 < rc ∧ content w' = content w

/-! ### The session thread's calls -/

section Calls

variable {lib : Libsmb2 W} {J : W → Prop} {fh : Fh} {content : W → FileContent} {id : Nat}
  {a : Actor W} {offset len : Nat} {data : List UInt8}

/-- A call on a handle is over: the file is still open, and holds what `Q` says. -/
def stored (J : W → Prop) (content : W → FileContent) (a : Actor W) (Q : FileContent → Prop)
    (a' : Actor W) : Prop :=
  J a'.ctx.world ∧ a'.files = a.files ∧ Q (content a'.ctx.world)

/-- The error of a call that failed is found without a panic. -/
theorem wp_failWith_onCtx {α : Type} {rc : Int} {label : String} {p : Post Error (Actor W) α}
    (hfail : ∀ e, p.fail e a) (hrc : -2 ^ 31 < rc) : wp (onCtx (failWith lib rc label)) p a := by
  rw [onCtx, wp_zoom, failWith, wp_bind]
  exact wp_ctxError_of (fun e => hfail e) (fun hnot => absurd (by omega) hnot)

/-- The handle of a file that is open is found. -/
theorem wp_handleOf_open {op : String} {p : Post Error (Actor W) Fh}
    (hid : a.files.get id = some fh) (hret : p.ret fh a) : wp (handleOf id op) p a := by
  refine wp_handleOf (fun fh' hfh => ?_) (fun hnone => ?_)
  · obtain rfl : fh = fh' := Option.some.inj (hid.symm.trans hfh)
    exact hret
  · rw [hid] at hnone
    cases hnone

/-- A call of the library, and what follows on its answer. -/
theorem wp_onCtx_call {α : Type} {c : Call} {k : c.Reply → Prog Error (Actor W) α}
    {p : Post Error (Actor W) α}
    (hk : ∀ r w ctx, lib.call c a.ctx.world = (r, w) → ctx.world = w → wp (k r) p ⟨ctx, a.files⟩) :
    wp (onCtx (ffi lib c) >>= k) p a :=
  (wp_bind _ _).mpr (wp_onCtx_ffi.mpr (hk _ _ _ rfl rfl))

/-- The thread reads part of the content. -/
theorem wp_readAt_stores (hstores : Stores lib J fh content) (hJ : J a.ctx.world)
    (hid : a.files.get id = some fh) (hoff : offset < 2 ^ 64) :
    wp (readAt lib id offset len)
      ⟨fun bs a' => stored J content a (· = content a.ctx.world) a' ∧
          ShortRead (content a.ctx.world).bytes offset len bs,
        fun _ a' => stored J content a (· = content a.ctx.world) a', fun _ => False⟩ a := by
  rw [readAt, wp_bind]
  refine wp_handleOf_open hid ?_
  refine wp_onCtx_call (c := .pread fh len offset) ?_
  rintro ⟨n, bytes⟩ w ctx hanswer rfl
  obtain ⟨hJ', hrc, hsame, hread⟩ := hstores.pread len offset _ n bytes _ hoff hJ hanswer
  refine wp_ite (fun _ => wp_failWith_onCtx (fun _ => ⟨hJ', rfl, hsame⟩) hrc) (fun hpos => ?_)
  obtain ⟨rfl, hshort⟩ := hread (not_lt.mp hpos)
  rw [wp_pure, Int.toNat_natCast, fillBuf_take hshort.fits]
  exact ⟨⟨hJ', rfl, hsame⟩, hshort⟩

/-- The thread writes as much as it reports. -/
theorem wp_writeAt_stores (hstores : Stores lib J fh content) (hJ : J a.ctx.world)
    (hid : a.files.get id = some fh) (hoff : offset < 2 ^ 64) (hdata : data.length < 2 ^ 32) :
    wp (writeAt lib id offset data)
      ⟨fun n a' => n ≤ data.length ∧ stored J content a (fun F =>
          F.bytes = overwrite (content a.ctx.world).bytes offset (data.take n)) a',
        fun _ a' => stored J content a (fun _ => True) a', fun _ => False⟩ a := by
  rw [writeAt, wp_bind]
  refine wp_handleOf_open hid ?_
  rw [castU_of_lt hdata, List.take_length]
  refine wp_onCtx_call (c := .pwrite fh data offset) ?_
  rintro n w ctx hanswer rfl
  obtain ⟨hJ', hrc, hwrote⟩ := hstores.pwrite data offset _ n _ hoff hJ hanswer
  refine wp_ite (fun _ => wp_failWith_onCtx (fun _ => ⟨hJ', rfl, trivial⟩) hrc) (fun hpos => ?_)
  obtain ⟨hle, hbytes⟩ := hwrote (not_lt.mp hpos)
  exact ⟨Int.toNat_le.mpr hle, hJ', rfl, hbytes⟩

/-- The thread cuts the file to the length it is given. -/
theorem wp_setLen_stores (hstores : Stores lib J fh content) (hJ : J a.ctx.world)
    (hid : a.files.get id = some fh) (hlen : len < 2 ^ 64) :
    wp (setLen lib id len)
      ⟨fun _ a' => stored J content a (fun F =>
          F.bytes = resize (content a.ctx.world).bytes len) a',
        fun _ a' => stored J content a (fun _ => True) a', fun _ => False⟩ a := by
  rw [setLen, wp_bind]
  refine wp_handleOf_open hid ?_
  refine wp_onCtx_call (c := .ftruncate fh len) ?_
  rintro rc w ctx hanswer rfl
  obtain ⟨hJ', hrc, hcut⟩ := hstores.ftruncate len _ rc _ hlen hJ hanswer
  exact wp_ite (fun _ => wp_failWith_onCtx (fun _ => ⟨hJ', rfl, trivial⟩) hrc)
    (fun hok => ⟨hJ', rfl, hcut (not_not.mp hok)⟩)

/-- A flush changes nothing of the content. -/
theorem wp_flush_stores (hstores : Stores lib J fh content) (hJ : J a.ctx.world)
    (hid : a.files.get id = some fh) :
    wp (flush lib id)
      ⟨fun _ a' => stored J content a (· = content a.ctx.world) a',
        fun _ a' => stored J content a (· = content a.ctx.world) a', fun _ => False⟩ a := by
  rw [flush, wp_bind]
  refine wp_handleOf_open hid ?_
  refine wp_onCtx_call (c := .fsync fh) ?_
  rintro rc w ctx hanswer rfl
  obtain ⟨hJ', hrc, hsame⟩ := hstores.fsync _ rc _ hJ hanswer
  exact wp_ite (fun _ => wp_failWith_onCtx (fun _ => ⟨hJ', rfl, hsame⟩) hrc)
    (fun _ => ⟨hJ', rfl, hsame⟩)

end Calls

/-! ### A call through the session -/

namespace Sys

variable {lib : Libsmb2 W} {limits : Limits} {fuel f : Nat} {fh : Fh} {base s : Sys W} {o : Opened}
  {call : FileCall}

/-- A call on a file that is open may change its length, and no other file. -/
theorem run_fileCall {r : Result Answer} {actor : Actor W} (hserving : s.phase = .serving)
    (hqueue : s.queue = []) (hf : s.files[f]? = some o) (howned : o.life = .owned)
    (hopen : o.closed = false) (hasks : call.nothing = none)
    (hrun : execute lib fuel (call.request o.file) s.actor = .ok (r, actor))
    (hlen : ∀ answer, r = .ok answer → ∃ len, call.newLen answer o.len = .ok len) :
    ∃ s' len, perform lib limits fuel (.fileCall f call) s = .ok (r.map call.result, s') ∧
      s'.actor = actor ∧ s'.phase = .serving ∧ s'.queue = [] ∧ s'.held = s.held ∧
      s'.join = s.join ∧
      ∀ j, s'.files[j]? = if j = f then some { o with len := len } else s.files[j]? := by
  have hstart : step lib limits s (.fileCall f call) = some (s.spawn (.file f call) .ready) := by
    simp only [step, hf, howned, Opened.begin, hasks, hopen]
    rfl
  have hkind : CallKind.file f call ≠ .shutdown := by simp
  have hcmd : s.command s.tasks.length (.file f call)
      = some (.run (call.request o.file) (some s.tasks.length)) := by
    show (s.files[f]?).map _ = _
    rw [hf]
    rfl
  cases r with
  | error e =>
    obtain ⟨s', hperform, hactor, hfiles, hserving', hqueue', hkept⟩ := run_served hserving hqueue
      hkind rfl hstart hcmd hrun rfl
    refine ⟨s', o.len, hperform, hactor, hserving', hqueue', hkept.1, hkept.2, fun j => ?_⟩
    rw [hfiles]
    split
    · next hj => exact hj ▸ hf
    · rfl
  | ok answer =>
    obtain ⟨len, hnew⟩ := hlen answer rfl
    have hreceived : s.received limits (.file f call) (.ok answer)
        = (.done (.ok (call.result answer)), s.files.modify f fun o => { o with len := len }) := by
      simp only [received, hf, Option.map_some, hnew]
    obtain ⟨s', hperform, hactor, hfiles, hserving', hqueue', hkept⟩ := run_served hserving hqueue
      hkind rfl hstart hcmd hrun hreceived
    refine ⟨s', len, hperform, hactor, hserving', hqueue', hkept.1, hkept.2, fun j => ?_⟩
    rw [hfiles, List.getElem?_modify]
    split
    · next hj =>
      subst hj
      rw [if_pos rfl, hf]
      rfl
    · next hj =>
      rw [if_neg (Ne.symm hj)]
      cases s.files[j]? <;> rfl

/-- The session is up with nothing left to execute, as it was in `base` for whoever else uses it, and
    file `f` is open on it as `fh`, with a read size that is not zero. -/
structure HasOpen (base : Sys W) (fh : Fh) (f : Nat) (s : Sys W) : Prop where
  serving : s.phase = .serving
  queue : s.queue = []
  held : s.held = base.held
  join : s.join = base.join
  table : s.actor.files = base.actor.files
  file : ∃ o, s.files[f]? = some o ∧ o.life = .owned ∧ o.closed = false ∧
    0 < o.file.limits.maxRead ∧ s.actor.files.get o.file.id = some fh

/-- A call that has nothing to ask for. -/
theorem wp_fileCall_nothing {answer : Answer} {p : Post Error (Sys W) Answer}
    (hs : HasOpen base fh f s) (hnothing : call.nothing = some answer)
    (hret : ∀ s' : Sys W, HasOpen base fh f s' → s'.actor = s.actor → p.ret answer s') :
    wp (perform lib limits fuel (.fileCall f call)) p s := by
  obtain ⟨o, hf, howned, hopen, hmax, hid⟩ := hs.file
  let s' := s.spawn (.file f call) (.done (.ok answer))
  have hstart : step lib limits s (.fileCall f call) = some s' := by
    simp only [step, hf, howned, Opened.begin, hnothing]
    rfl
  have hdone : s'.tasks[s.tasks.length]? = some ⟨.file f call, .done (.ok answer)⟩ :=
    List.getElem?_concat_length
  rw [wp, run_perform hstart, run_await_done hdone 6]
  exact hret s' { hs with file := ⟨o, hf, howned, hopen, hmax, hid⟩ } rfl

/-- A call that the thread executes. -/
theorem wp_fileCall_served {Q : Answer → Actor W → Prop} {E : Actor W → Prop}
    (hs : HasOpen base fh f s) (hasks : call.nothing = none)
    (hexec : ∀ o : Opened, 0 < o.file.limits.maxRead → s.actor.files.get o.file.id = some fh →
      wp (execute lib fuel (call.request o.file))
        ⟨fun answer a' => a'.files = s.actor.files ∧
            (∃ len, call.newLen answer o.len = .ok len) ∧ Q (call.result answer) a',
          fun _ a' => a'.files = s.actor.files ∧ E a', fun _ => False⟩ s.actor) :
    wp (perform lib limits fuel (.fileCall f call))
      ⟨fun answer s' => HasOpen base fh f s' ∧ Q answer s'.actor,
        fun _ s' => HasOpen base fh f s' ∧ E s'.actor, fun _ => False⟩ s := by
  obtain ⟨o, hf, howned, hopen, hmax, hid⟩ := hs.file
  have hwp := hexec o hmax hid
  rcases hrun : execute lib fuel (call.request o.file) s.actor with t | ⟨r, actor⟩
  · exact (stop_of_run hwp hrun).elim
  have hlen : ∀ answer, r = .ok answer → ∃ len, call.newLen answer o.len = .ok len := by
    rintro answer rfl
    exact (wp_ret hwp hrun).2.1
  obtain ⟨s', len, hperform, rfl, hserving, hqueue, hheld, hjoin, hfiles⟩ :=
    run_fileCall hs.serving hs.queue hf howned hopen hasks hrun hlen
  have hfile : s'.files[f]? = some { o with len := len } := by rw [hfiles, if_pos rfl]
  -- the file is where it was, whatever the call did to its length
  have hkept : s'.actor.files = s.actor.files → HasOpen base fh f s' := fun hsame =>
    { serving := hserving
      queue := hqueue
      held := hheld.trans hs.held
      join := hjoin.trans hs.join
      table := hsame.trans hs.table
      file := ⟨_, hfile, howned, hopen, hmax, by rw [hsame]; exact hid⟩ }
  rw [wp, hperform]
  cases r with
  | error e =>
    obtain ⟨hsame, hQ⟩ := wp_fail_of_run hwp hrun
    exact ⟨hkept hsame, hQ⟩
  | ok answer =>
    obtain ⟨hsame, -, hQ⟩ := wp_ret hwp hrun
    exact ⟨hkept hsame, hQ⟩

end Sys

/-! ### The open -/

/-- **An open on a session that is up** fails, or the file is the next one, and its handle is the one
    that the library has given. -/
theorem wp_openRemote {lib : Libsmb2 W} {limits : Limits} {fuel : Nat} {path : VfsPath}
    {mode : OpenMode} {s : Sys W} (hserving : s.phase = .serving) (hqueue : s.queue = [])
    (hheld : s.held = true) {p : Post Error (Sys W) (FileHandle (Sys W))}
    (hret : ∀ fh len s', (lib.call (.openFile (toSmbPath path) (openFlags mode))
        s.actor.ctx.world).1 = some fh →
      s'.phase = .serving → s'.queue = [] → s'.held = true → s'.join = s.join →
      s'.files = s.opened limits path (s.actor.files.nextId + 1) len →
      s'.actor.files = s.actor.files.add fh →
      s'.actor.ctx.world = (lib.call (.fstat fh)
        (lib.call (.openFile (toSmbPath path) (openFlags mode)) s.actor.ctx.world).2).2 →
      p.ret (fileHandle lib limits fuel s.files.length) s')
    (hfail : ∀ e s', p.fail e s') (hstop : p.stop .fuel) :
    wp (openRemote lib limits fuel path mode) p s := by
  let req : Request := .openFile path mode
  have hstart : Sys.step lib limits s (.call req) = some (s.spawn (.session req) .ready) :=
    if_pos ⟨hheld, rfl⟩
  have hkind : CallKind.session req ≠ .shutdown := by simp
  rw [openRemote, wp_bind, wp_current]
  refine wp_expect ?_
  show wp (Sys.perform lib limits fuel (.call req)) _ s
  -- what the thread makes of the command
  let Q : Answer → Actor W → Prop := fun answer a' => ∃ fh len,
    (lib.call (.openFile (toSmbPath path) (openFlags mode)) s.actor.ctx.world).1 = some fh ∧
    answer = .opened (s.actor.files.nextId + 1) len ∧ a'.files = s.actor.files.add fh ∧
    a'.ctx.world = (lib.call (.fstat fh)
      (lib.call (.openFile (toSmbPath path) (openFlags mode)) s.actor.ctx.world).2).2
  have hexec : wp (execute lib fuel req) ⟨Q, fun _ _ => True, fun _ => True⟩ s.actor := by
    refine (wp_bind _ _).mpr (wp_openFile (fun _ => trivial) (fun _ _ => trivial)
      (fun _ fh hopen => ?_) (fun _ => trivial))
    exact ⟨fh, _, hopen, rfl, rfl, rfl⟩
  rcases hrun : execute lib fuel req s.actor with t | ⟨r, actor⟩
  · obtain ⟨s', hstuck⟩ := Sys.run_stuck hserving hqueue rfl hstart rfl hrun
    rw [wp, hstuck]
    exact hstop
  cases r with
  | error e =>
    obtain ⟨s', hperform, -⟩ := Sys.run_served hserving hqueue hkind rfl hstart rfl hrun rfl
    rw [wp, hperform]
    exact hfail e s'
  | ok answer =>
    obtain ⟨fh, len, hopen, rfl, htable, hworld⟩ := wp_ret hexec hrun
    obtain ⟨s', hperform, rfl, hfiles, hserving', hqueue', hheld', hjoin⟩ :=
      Sys.run_served hserving hqueue hkind rfl hstart rfl hrun rfl
    rw [wp, hperform]
    exact ⟨_, rfl, hret fh len s' hopen hserving' hqueue' (hheld'.trans hheld) hjoin hfiles htable
      hworld⟩

/-! ### The file -/

/-- File `f` of the session is open, all else is as it was in `base`, and the file holds what the
    library's world says it holds. -/
def Stored (base : Sys W) (J : W → Prop) (fh : Fh) (content : W → FileContent) (f : Nat) (x : PlainFile)
    (s : Sys W) : Prop :=
  Sys.HasOpen base fh f s ∧ J s.actor.ctx.world ∧ x.content = content s.actor.ctx.world

variable {lib : Libsmb2 W} {limits : Limits} {fuel f : Nat} {fh : Fh} {J : W → Prop}
  {content : W → FileContent} {base : Sys W}

/-- A call that left the content as it was. -/
theorem Stored.unchanged {x : PlainFile} {s s' : Sys W} (h : Stored base J fh content f x s)
    (hs' : Sys.HasOpen base fh f s') (hJ : J s'.actor.ctx.world)
    (hsame : content s'.actor.ctx.world = content s.actor.ctx.world) :
    Stored base J fh content f x s' := ⟨hs', hJ, h.2.2.trans hsame.symm⟩

/-- **A read** gives part of what it covers, and something where there is something. -/
theorem wp_handle_readAt (hstores : Stores lib J fh content) {offset : Nat} (len : Nat)
    {x : PlainFile} {s : Sys W} (hs : Stored base J fh content f x s) (hoff : offset < 2 ^ 64) :
    wp ((fileHandle lib limits fuel f).readAt offset len)
      ⟨fun bs s' => Stored base J fh content f x s' ∧ ShortRead x.content.bytes offset len bs,
        fun _ s' => Stored base J fh content f x s', fun _ => False⟩ s := by
  obtain ⟨hopen, hJ, hx⟩ := id hs
  refine wp_expect ?_
  by_cases hlen : len = 0
  · subst hlen
    refine Sys.wp_fileCall_nothing hopen rfl fun s' hs' hactor => ?_
    exact ⟨[], rfl, hs.unchanged hs' (by rw [hactor]; exact hJ) (by rw [hactor]), shortRead_nil _ _⟩
  · have hasks : (FileCall.readAt offset len).nothing = none := by
      cases len with
      | zero => exact absurd rfl hlen
      | succ => rfl
    refine wp_mono (Sys.wp_fileCall_served (Q := fun answer a' => ∃ bs, answer = .bytes bs ∧
        ShortRead x.content.bytes offset len bs ∧ J a'.ctx.world ∧
        content a'.ctx.world = content s.actor.ctx.world)
      (E := fun a' => J a'.ctx.world ∧ content a'.ctx.world = content s.actor.ctx.world)
      hopen hasks fun o hmax hid => ?_) ?_ ?_ (fun _ h => h)
    · -- the thread reads at most the limit, which the caller's buffer holds
      refine (wp_bind _ _).mpr (wp_mono (wp_readAt_stores hstores hJ hid hoff) ?_ ?_ (fun _ h => h))
      · rintro bs a' ⟨⟨hJ', hfiles, hsame⟩, hshort⟩
        have hlt : min len o.file.limits.maxRead < 2 ^ 32 :=
          lt_of_le_of_lt (Nat.min_le_right _ _) o.file.limits.maxRead_lt
        rw [castU_of_lt hlt, ← hx] at hshort
        have hread := hshort.of_le (Nat.min_le_left _ _) (by omega)
        have hwhole : bs.take (min bs.length len) = bs := by
          rw [Nat.min_eq_left hread.fits, List.take_length]
        exact ⟨hfiles, ⟨o.len, rfl⟩, bs, congrArg Answer.bytes hwhole, hread, hJ', hsame⟩
      · rintro e a' ⟨hJ', hfiles, hsame⟩
        exact ⟨hfiles, hJ', hsame⟩
    · rintro answer s' ⟨hs', bs, rfl, hshort, hJ', hsame⟩
      exact ⟨bs, rfl, hs.unchanged hs' hJ' hsame, hshort⟩
    · rintro e s' ⟨hs', hJ', hsame⟩
      exact hs.unchanged hs' hJ' hsame

/-- **A write** has taken the bytes it says; one that fails may have changed the file. -/
theorem wp_handle_writeAt (hstores : Stores lib J fh content) {offset : Nat} (data : List UInt8)
    {x : PlainFile} {s : Sys W} (hs : Stored base J fh content f x s) (hoff : offset < 2 ^ 64) :
    wp ((fileHandle lib limits fuel f).writeAt offset data)
      ⟨fun n s' => ∃ x', x.Wrote offset data n x' ∧ Stored base J fh content f x' s',
        fun _ s' => ∃ x', x.Failed x' ∧ Stored base J fh content f x' s', fun _ => False⟩ s := by
  obtain ⟨hopen, hJ, hx⟩ := id hs
  refine wp_expect ?_
  by_cases hdata : data = []
  · subst hdata
    refine Sys.wp_fileCall_nothing hopen rfl fun s' hs' hactor => ?_
    refine ⟨0, rfl, PlainFile.holding x.content, ⟨Nat.le_refl _, ?_, rfl⟩, hs', ?_, ?_⟩
    · rw [List.take_nil, overwrite_nil]
      rfl
    · rw [hactor]
      exact hJ
    · rw [hactor]
      exact hx
  · have hasks : (FileCall.writeAt offset data).nothing = none := by
      cases data with
      | nil => exact absurd rfl hdata
      | cons => rfl
    refine wp_mono (Sys.wp_fileCall_served (Q := fun answer a' => ∃ n, answer = .written n ∧
        n ≤ data.length ∧ J a'.ctx.world ∧ (content a'.ctx.world).bytes
          = overwrite x.content.bytes offset (data.take n))
      (E := fun a' => J a'.ctx.world) hopen hasks fun o hmax hid => ?_) ?_ ?_ (fun _ h => h)
    · let want := min data.length o.file.limits.maxWrite
      have hlen : (data.take want).length = want := by
        rw [List.length_take]
        exact Nat.min_eq_left (Nat.min_le_left _ _)
      have hlt : (data.take want).length < 2 ^ 32 := by
        rw [hlen]
        exact lt_of_le_of_lt (Nat.min_le_right _ _) o.file.limits.maxWrite_lt
      refine (wp_bind _ _).mpr (wp_mono (wp_writeAt_stores hstores hJ hid hoff hlt) ?_ ?_
        (fun _ h => h))
      · rintro n a' ⟨hn, hJ', hfiles, hbytes⟩
        rw [hlen] at hn
        rw [List.take_take, Nat.min_eq_left hn, ← hx] at hbytes
        have hle : n ≤ data.length := le_trans hn (Nat.min_le_left _ _)
        -- the file has grown to the end of what was written, which is a `u64`
        have hwrote : x.Wrote offset data n (.holding (content a'.ctx.world)) := ⟨hle, hbytes, rfl⟩
        refine ⟨hfiles, ⟨max o.len (offset + n), ?_⟩, n, rfl, hle, hJ', hbytes⟩
        simp only [FileCall.newLen, addU_ok (hwrote.add_lt hoff)]
        rfl
      · rintro e a' ⟨hJ', hfiles, -⟩
        exact ⟨hfiles, hJ'⟩
    · rintro answer s' ⟨hs', n, rfl, hn, hJ', hbytes⟩
      exact ⟨n, rfl, .holding (content s'.actor.ctx.world), ⟨hn, hbytes, rfl⟩, hs', hJ', rfl⟩
    · rintro e s' ⟨hs', hJ'⟩
      exact ⟨⟨content s'.actor.ctx.world, x.contents⟩, rfl, hs', hJ', rfl⟩

/-- **A truncation** has cut the file; one that fails may have. -/
theorem wp_handle_setLen (hstores : Stores lib J fh content) {len : Nat} {x : PlainFile} {s : Sys W}
    (hs : Stored base J fh content f x s) (hlen : len < 2 ^ 64) :
    wp ((fileHandle lib limits fuel f).setLen len)
      ⟨fun _ s' => ∃ x', PlainFile.Changed (resize x.content.bytes len) x' ∧
          Stored base J fh content f x' s',
        fun _ s' => ∃ x', x.Failed x' ∧ Stored base J fh content f x' s', fun _ => False⟩ s := by
  obtain ⟨hopen, hJ, hx⟩ := id hs
  refine (wp_bind _ _).mpr (wp_mono (Sys.wp_fileCall_served (Q := fun _ a' => J a'.ctx.world ∧
      (content a'.ctx.world).bytes = resize x.content.bytes len)
    (E := fun a' => J a'.ctx.world) hopen rfl fun o hmax hid => ?_) ?_ ?_ (fun _ h => h))
  · refine (wp_bind _ _).mpr (wp_mono (wp_setLen_stores hstores hJ hid hlen) ?_ ?_ (fun _ h => h))
    · rintro - a' ⟨hJ', hfiles, hbytes⟩
      rw [← hx] at hbytes
      exact ⟨hfiles, ⟨len, rfl⟩, hJ', hbytes⟩
    · rintro e a' ⟨hJ', hfiles, -⟩
      exact ⟨hfiles, hJ'⟩
  · rintro answer s' ⟨hs', hJ', hbytes⟩
    exact ⟨.holding (content s'.actor.ctx.world), ⟨hbytes, rfl⟩, hs', hJ', rfl⟩
  · rintro e s' ⟨hs', hJ'⟩
    exact ⟨⟨content s'.actor.ctx.world, x.contents⟩, rfl, hs', hJ', rfl⟩

/-- **A flush** changes nothing. -/
theorem wp_handle_flush (hstores : Stores lib J fh content) {x : PlainFile} {s : Sys W}
    (hs : Stored base J fh content f x s) :
    wp (fileHandle lib limits fuel f).flush
      ⟨fun _ s' => Stored base J fh content f x s', fun _ s' => Stored base J fh content f x s',
        fun _ => False⟩ s := by
  obtain ⟨hopen, hJ, hx⟩ := id hs
  refine (wp_bind _ _).mpr (wp_mono (Sys.wp_fileCall_served (Q := fun _ a' => J a'.ctx.world ∧
      content a'.ctx.world = content s.actor.ctx.world)
    (E := fun a' => J a'.ctx.world ∧ content a'.ctx.world = content s.actor.ctx.world)
    hopen rfl fun o hmax hid => ?_) ?_ ?_ (fun _ h => h))
  · refine (wp_bind _ _).mpr (wp_mono (wp_flush_stores hstores hJ hid) ?_ ?_ (fun _ h => h))
    · rintro - a' ⟨hJ', hfiles, hsame⟩
      exact ⟨hfiles, ⟨o.len, rfl⟩, hJ', hsame⟩
    · rintro e a' ⟨hJ', hfiles, hsame⟩
      exact ⟨hfiles, hJ', hsame⟩
  · rintro answer s' ⟨hs', hJ', hsame⟩
    exact hs.unchanged hs' hJ' hsame
  · rintro e s' ⟨hs', hJ', hsame⟩
    exact hs.unchanged hs' hJ' hsame

/-- **The handle of a file on the session** is a plain file whose reads may be short. -/
theorem isShort_fileHandle (hstores : Stores lib J fh content) :
    (fileHandle lib limits fuel f).IsShort (Stored base J fh content f) where
  readAt := fun _ len _ _ hs hoff _ => wp_handle_readAt hstores len hs hoff
  writeAt := fun _ data _ _ hs hoff => wp_handle_writeAt hstores data hs hoff
  setLen := fun _ _ _ hs hlen => wp_handle_setLen hstores hs hlen
  flush := fun _ _ hs => wp_handle_flush hstores hs

/-- **A file on the session is a plain file**, for a caller that awaits each call: it ends, with no
    call that panics or goes unanswered, and every answer is by the content that the calls before
    it have left. -/
theorem sessionFile_plain (hstores : Stores lib J fh content) {α : Type}
    {caller : Caller (fileCalls Error) α} {x : PlainFile} {s : Sys W}
    (hs : Stored base J fh content f x s) (hsafe : Safe (PlainFile.shortSpec Error) x caller) :
    ∃ a s' x', (run (fileHandle lib limits fuel f).calls caller : Prog Error (Sys W) α) s
        = .ok (.ok a, s') ∧
      Ends (PlainFile.shortSpec Error) x caller a x' ∧ Stored base J fh content f x' s' :=
  ((isShort_fileHandle hstores).meets PlainFile.gathers_short).exists_run hs hsafe

/-! ### A server with one file -/

/-- The library over a server with one file, which every path names and every open gives `1` for.
    A write that would make it too large fails. -/
def oneFileLib : Libsmb2 FileContent where
  call
    | .openFile _ flags, F => (some 1, if flags.trunc then .empty else F)
    | .close _, F => ((0 : Int), F)
    | .fstat _, F => ((0, MemServer.statOf F.bytes.length), F)
    | .stat _, F => ((0, MemServer.statOf F.bytes.length), F)
    | .pread _ count offset, F =>
      (((slice F.bytes offset count).length, slice F.bytes offset count), F)
    | .pwrite _ data offset, F =>
      if h : (overwrite F.bytes offset data).length < 2 ^ 64 then ((data.length : Int), ⟨_, h⟩)
      else ((-28 : Int), F)
    | .ftruncate _ len, F =>
      if h : (resize F.bytes len).length < 2 ^ 64 then ((0 : Int), ⟨_, h⟩) else ((-27 : Int), F)
    | .fsync _, F => ((0 : Int), F)
    | .requestResumeKey _, F => ((-95, []), F)
    | .copychunk _ _ _, F => ((-95, ⟨0, 0, 0⟩), F)
    | .opendir _, F => (none, F)
    | .readdir _, F => (none, F)
    | .closedir _, F => ((), F)
    | .mkdir _, F => ((-95 : Int), F)
    | .unlink _, F => ((-95 : Int), F)
    | .rmdir _, F => ((-95 : Int), F)
    | .rename _ _, F => ((-95 : Int), F)
    | .disconnectShare, F => ((0 : Int), F)
    | .destroyContext, F => ((), F)
  nterror := fun _ => 0
  message := fun _ => ""
  nterrorToStr := fun _ => none
  errno := .linux

/-- The one file is stored under every handle. -/
theorem stores_oneFile (fh : Fh) : Stores oneFileLib (fun _ => True) fh id where
  pread := by
    rintro count offset F n bytes w - - h
    cases h
    exact ⟨trivial, by omega, rfl, fun _ => ⟨rfl, shortRead_slice _ _ _⟩⟩
  pwrite := by
    rintro data offset F n w - - h
    simp only [oneFileLib] at h
    split at h
    · cases h
      refine ⟨trivial, by omega, fun _ => ⟨le_refl _, ?_⟩⟩
      rw [Int.toNat_natCast, List.take_length]
      rfl
    · cases h
      exact ⟨trivial, by decide, fun h => absurd h (by decide)⟩
  ftruncate := by
    rintro len F rc w - - h
    simp only [oneFileLib] at h
    split at h
    · cases h
      exact ⟨trivial, by decide, fun _ => rfl⟩
    · cases h
      exact ⟨trivial, by decide, fun h => absurd h (by decide)⟩
  fsync := by
    rintro F rc w - h
    cases h
    exact ⟨trivial, by decide, rfl⟩

/-- Two bytes in a read, and three in a write. -/
def oneLimits : Limits := ⟨2, 3, by decide, by decide⟩

/-- A session over it, with the file open and five bytes in it. -/
def oneSession : Sys FileContent :=
  let F : FileContent := ⟨[1, 2, 3, 4, 5], by decide⟩
  { Sys.init F with
    actor := ⟨⟨F, []⟩, OpenFiles.empty.add 1⟩
    files := [⟨⟨1, ⟨"/a"⟩, oneLimits⟩, 5, false, .owned, 0⟩] }

theorem stored_oneSession : Stored oneSession (fun _ => True) 1 id 0
    (.holding ⟨[1, 2, 3, 4, 5], by decide⟩) oneSession :=
  ⟨⟨rfl, rfl, rfl, rfl, rfl, _, rfl, rfl, rfl, by decide, rfl⟩, trivial, rfl⟩

/-- A write of four bytes past the end, of which three fit, and a read of the gap. -/
theorem sessionFile_plain_oneFile : ∃ a s' x',
    (run (fileHandle oneFileLib oneLimits 1 0).calls
      (.ask (.writeAt 6 [6, 7, 8, 9]) fun _ => .ask (.readAt 4 9) .ret) :
        Prog Error (Sys FileContent) (Result (List UInt8))) oneSession = .ok (.ok a, s') ∧
    Ends (PlainFile.shortSpec Error) (.holding ⟨[1, 2, 3, 4, 5], by decide⟩)
      (.ask (.writeAt 6 [6, 7, 8, 9]) fun _ => .ask (.readAt 4 9) .ret) a x' ∧
    Stored oneSession (fun _ => True) 1 id 0 x' s' :=
  sessionFile_plain (stores_oneFile 1) stored_oneSession
    ⟨(by decide : 6 < 2 ^ 64), fun _ _ _ => ⟨⟨(by decide : 4 < 2 ^ 64), trivial⟩,
      fun _ _ _ => trivial⟩⟩

end Krystallos.Smb
