import Krystallos.Cache.Stale

namespace Krystallos

open Checked Slices Lts

/-!
# A write that fails after it changed the file

`write_at` and `set_len` leave with the handle's error before `invalidate`, so the window stays
as it was.  Reads started afterwards get the file's bytes exactly where what is buffered, in the
window or by a read in flight, is still true of the file: `failedWrite_fresh_iff`.
-/

/-! ### What misleads a read -/

namespace Window

/-- No read is misled by the window: it agrees with the file, or it starts beyond the file and
    beyond what a `usize` can hold. -/
def Harmless (ptr : Nat) (F : List UInt8) (w : Window) : Prop :=
  Agrees F w ∨ F.length < w.start ∧ 2 ^ ptr ≤ w.start

/-- An offset that a program with a `usize` of `ptr` bits can tell from every other, or that lies
    in the file. -/
def Addressed (ptr : Nat) (F : List UInt8) (offset : Nat) : Prop :=
  offset ≤ F.length ∨ offset < 2 ^ ptr

variable {ptr : Nat} {F : List UInt8} {w : Window} {offset len : Nat}

/-- What a harmless window serves is a read the handle could have given. -/
theorem Harmless.serveFrom (h : Harmless ptr F w) (hF : F.length < 2 ^ 64)
    (hrange : w.start + w.data.length < 2 ^ 64) (hdata : w.data.length < 2 ^ ptr)
    (hoff : offset < 2 ^ 64) (haddr : Addressed ptr F offset) (hlen : 0 < len) :
    w.serveFrom ptr offset len = .ok none ∨
      ∃ bs, w.serveFrom ptr offset len = .ok (some bs) ∧ ShortRead F offset len bs := by
  rcases h with hag | ⟨hpast, hbeyond⟩
  · refine serveFrom_cases hag hF hoff (fun hout => ?_) hdata hlen
    rcases haddr with hin | hfits
    · omega
    · omega
  · -- the window is out of reach
    have hbelow : offset < w.start := by
      rcases haddr with hin | hfits
      · omega
      · omega
    exact .inl (serveFrom_missed hrange hlen fun hcov => absurd hcov.1 (by omega))

/-- What begins a harmless window is one. -/
theorem Harmless.front {start : Nat} {buf more : List UInt8} {hitEof : Bool}
    (h : Harmless ptr F ⟨buf ++ more, start, hitEof⟩) : Harmless ptr F ⟨buf, start, false⟩ := by
  rcases h with hag | hfar
  · have hrange : start + (buf ++ more).length < 2 ^ 64 := hag.range
    have hdata : buf ++ more = slice F start (buf ++ more).length := hag.data
    rw [List.length_append] at hrange hdata
    refine .inl ⟨?_, nofun, by simp only; omega⟩
    calc buf = (buf ++ more).take buf.length := by simp
      _ = (slice F start (buf.length + more.length)).take buf.length := by rw [← hdata]
      _ = slice F start buf.length := by
        rw [take_slice, Nat.min_eq_left (Nat.le_add_right _ _)]
  · exact .inr hfar

/-- **A window that is not harmless misleads**: there is a read that it answers wrongly. -/
theorem exists_misled (h : ¬ Harmless ptr F w)
    (hrange : w.start + w.data.length < 2 ^ 64) (hdata : w.data.length < 2 ^ ptr)
    (hone : w.eof = true → 1 < 2 ^ ptr) :
    ∃ offset len bs, 0 < len ∧ offset < 2 ^ 64 ∧ len < 2 ^ ptr ∧ Addressed ptr F offset ∧
      w.serveFrom ptr offset len = .ok (some bs) ∧ ¬ ShortRead F offset len bs := by
  obtain ⟨hag, hfar⟩ := not_or.mp h
  by_cases hbytes : w.data = slice F w.start w.data.length
  · -- what is wrong is the end it remembers
    have heof : w.eof = true ∧ w.start + w.data.length < F.length := by
      by_contra hno
      exact hag ⟨hbytes, fun heof => by by_contra hlt; exact hno ⟨heof, by omega⟩, hrange⟩
    refine ⟨w.start + w.data.length, 1, [], Nat.one_pos, hrange, hone heof.1,
      .inl (le_of_lt heof.2), ?_, ?_⟩
    · rw [serveFrom_covered hrange hdata Nat.one_pos (Nat.le_add_right _ _) (by omega)
        (.inr heof.1), slice_of_length_le (by omega)]
    · intro hread
      exact absurd ((hread.empty Nat.one_pos).mp rfl) (by omega)
  · -- what is wrong is a byte
    have hne : w.data ≠ [] := by
      intro hnil
      rw [hnil] at hbytes
      exact hbytes (by simp)
    have hpos := List.length_pos_iff.mpr hne
    refine ⟨w.start, w.data.length, w.data, hpos, by omega, hdata, ?_, ?_, fun hread =>
      hbytes hread.bytes⟩
    · unfold Addressed
      omega
    · rw [serveFrom_covered hrange hdata hpos (le_refl _) (by simp)
        (.inl (Nat.min_le_left _ _)), Nat.sub_self, slice_zero_left, List.take_length]

end Window

/-! ### What a read in flight holds -/

namespace ReadPc

/-- The part of a window that was fetched, or the window about to be published. -/
def fetched : ReadPc → Option Window
  | .fetch start _ buf _ => some ⟨buf, start, false⟩
  | .publish start buf hitEof => some ⟨buf, start, hitEof⟩
  | _ => none

/-- What every call in flight keeps to, whatever the file does. -/
def Formed (cfg : Config) : ReadPc → Prop
  | .look | .probe | .serve => 0 < cfg.windowSize
  | .size start => 0 < cfg.windowSize ∧ start < 2 ^ 64
  | .fetch start want buf pos => 0 < cfg.windowSize ∧ buf.length < want ∧
      pos = start + buf.length ∧ pos < 2 ^ 64
  | .publish start buf _ => 0 < cfg.windowSize ∧ start + buf.length < 2 ^ 64
  | .pass _ | .done _ => True

end ReadPc

namespace ReadAhead

variable {cfg : Config} {F : List UInt8} {offset len : Nat} {ra ra' : ReadAhead} {pc pc' : ReadPc}
  {inp : Input}

theorem fillNext_formed {start want : Nat} {buf : List UInt8} (hwin : 0 < cfg.windowSize)
    (hpos : start + buf.length < 2 ^ 64) : (fillNext start want buf).Formed cfg := by
  unfold fillNext
  by_cases hmore : buf.length < want
  · rw [if_pos hmore, addU_ok hpos]
    exact ⟨hwin, hmore, rfl, hpos⟩
  · rw [if_neg hmore]
    exact ⟨hwin, hpos⟩

/-- What the loop head holds is what was read so far. -/
theorem fetched_fillNext {start want : Nat} {buf : List UInt8}
    (hpos : start + buf.length < 2 ^ 64) :
    (fillNext start want buf).fetched = some ⟨buf, start, false⟩ := by
  unfold fillNext
  split
  · rw [addU_ok hpos]
    rfl
  · rfl

/-- The end of what was read stays a `u64`. -/
theorem add_length_append_lt {bs buf : List UInt8} {start n : Nat} (hF : F.length < 2 ^ 64)
    (hpos : start + buf.length < 2 ^ 64) (hbs : ShortRead F (start + buf.length) n bs) :
    start + (buf ++ bs).length < 2 ^ 64 := by
  have h := add_length_lt_of_eq_slice hbs.bytes hF hpos
  rw [List.length_append]
  omega

theorem resume_formed (hF : F.length < 2 ^ 64) (hoff : offset < 2 ^ 64)
    (hformed : pc.Formed cfg) (hin : AnswerOk F offset len pc inp)
    (h : resume cfg offset len ra pc inp = some (ra', pc')) : pc'.Formed cfg := by
  cases resumed_of_resume h with
  | miss =>
    unfold afterMiss
    split
    · trivial
    · exact hformed
  | worth => exact ⟨hformed, lt_of_le_of_lt (Nat.div_mul_le_self _ _) hoff⟩
  | sized => exact fillNext_formed hformed.1 (by simpa using hformed.2)
  | fetchEnded => exact ⟨hformed.1, hformed.2.2.1 ▸ hformed.2.2.2⟩
  | fetched =>
    obtain ⟨hwin, -, rfl, hpos⟩ := hformed
    exact fillNext_formed hwin (add_length_append_lt hF hpos (hin _ _ rfl))
  | published => exact hformed.1
  | _ => trivial

/-- What a call holds stays harmless, with a handle that reads the file as it is. -/
theorem resume_fetched (hF : F.length < 2 ^ 64) (hformed : pc.Formed cfg)
    (hharm : ∀ w ∈ pc.fetched, w.Harmless cfg.ptr F) (hin : AnswerOk F offset len pc inp)
    (h : resume cfg offset len ra pc inp = some (ra', pc')) :
    ∀ w ∈ pc'.fetched, w.Harmless cfg.ptr F := by
  cases resumed_of_resume h with
  | miss =>
    unfold afterMiss
    split <;> exact nofun
  | @sized start n =>
    have hpos : start + ([] : List UInt8).length < 2 ^ 64 := by simpa using hformed.2
    rw [fetched_fillNext hpos]
    rintro w ⟨⟩
    exact .inl ⟨by simp, nofun, hpos⟩
  | fetchEnded =>
    obtain ⟨-, hmore, rfl, hpos⟩ := hformed
    rintro w ⟨⟩
    -- what is known of the window so far goes on to hold, or it is behind every address
    rcases hharm _ rfl with hag | hfar
    · have hend := (hin _ _ rfl).ended (by omega)
      exact .inl ⟨hag.data, fun _ => hend, hag.range⟩
    · exact .inr hfar
  | fetched =>
    obtain ⟨-, hmore, rfl, hpos⟩ := hformed
    have hrange := add_length_append_lt hF hpos (hin _ _ rfl)
    rw [fetched_fillNext hrange]
    rintro w ⟨⟩
    rcases hharm _ rfl with hag | hfar
    · exact .inl ⟨(hin _ _ rfl).append hag.data, nofun, hrange⟩
    · exact .inr hfar
  | _ => exact nofun

end ReadAhead

/-! ### The system -/

namespace Task

/-- What a read in flight holds of a window. -/
def fetched : Task → Option Window
  | .read _ _ pc => pc.fetched
  | _ => none

/-- What every task keeps to. -/
def Formed (cfg : Config) : Task → Prop
  | .read offset _ pc => offset < 2 ^ 64 ∧ pc.Formed cfg
  | _ => True

end Task

namespace Sys

variable {cfg : Config} {s s' : Sys}

/-- What every reachable state keeps to, whatever the writes do. -/
structure WellFormed (cfg : Config) (s : Sys) : Prop where
  range : s.shared.state.start + s.shared.state.data.length < 2 ^ 64
  eof : s.shared.state.eof = true → 0 < cfg.windowSize
  tasks : ∀ t ∈ s.tasks, t.Formed cfg

theorem wellFormed_init (cfg : Config) (F : FileContent) : WellFormed cfg (init F) where
  range := (by decide : 0 + ([] : List UInt8).length < 2 ^ 64)
  eof := nofun
  tasks := nofun

theorem readAt_formed (cfg : Config) (len : Nat) : (ReadAhead.readAt cfg len).Formed cfg := by
  unfold ReadAhead.readAt
  split
  · trivial
  · split
    · trivial
    · exact Nat.pos_of_ne_zero ‹_›

/-- **Step lemma.** No step breaks the form of the window or of a task. -/
theorem wellFormed_step {a : Action} (h : WellFormed cfg s) (hstep : step cfg s a = some s') :
    WellFormed cfg s' := by
  obtain ⟨⟨hrange, heof⟩, htasks⟩ :=
    keeps_step (P := fun w => w.start + w.data.length < 2 ^ 64 ∧ (w.eof = true → 0 < cfg.windowSize))
      (Q := Task.Formed cfg) ⟨by decide, by rintro ⟨⟩⟩ (fun _ _ => trivial) (fun _ => trivial)
      (fun _ len hoff => ⟨hoff, readAt_formed cfg len⟩)
      (fun _ _ _ _ _ _ _ _ _ hpc hok hres =>
        ⟨hpc.1, ReadAhead.resume_formed s.file.bound hpc.1 hpc.2 hok hres⟩)
      (fun _ _ _ _ _ hpc => ⟨hpc.2.2, fun _ => hpc.2.1⟩) ⟨h.range, h.eof⟩ h.tasks hstep
  exact ⟨hrange, heof, htasks⟩

/-- Every reachable state is well formed. -/
theorem wellFormed_run {F : FileContent} {acts : List Action}
    (hrun : run (step cfg) (init F) acts = some s) : WellFormed cfg s :=
  run_invariant (fun _ _ _ hI hs => wellFormed_step hI hs) (wellFormed_init cfg F) hrun

/-- Nothing buffered misleads a read of `F`. -/
structure Harmless (cfg : Config) (F : FileContent) (s : Sys) : Prop where
  window : s.shared.state.Harmless cfg.ptr F.bytes
  fetched : ∀ t ∈ s.tasks, ∀ w ∈ t.fetched, w.Harmless cfg.ptr F.bytes

/-- What may happen after the write: anything but another write, and reads at offsets that a
    program can address. -/
def Later (cfg : Config) (F : FileContent) : Action → Prop
  | .startRead offset _ => Window.Addressed cfg.ptr F.bytes offset
  | .startWrite _ => False
  | _ => True

/-- What holds while no write is in flight and nothing buffered misleads: the reads started
    since, the tasks from `n` on, know only true things. -/
structure Kept (cfg : Config) (n : Nat) (F : FileContent) (s : Sys) : Prop where
  file : s.file = F
  quiet : ∀ t ∈ s.tasks, t.writing = false
  harmless : Harmless cfg F s
  formed : WellFormed cfg s
  sized : Sized cfg s
  later : ∀ i offset len pc, n ≤ i → s.tasks[i]? = some (Task.read offset len pc) →
    Window.Addressed cfg.ptr F.bytes offset ∧ ReadAhead.ReadInv F.bytes offset len pc

/-- While the file does not change, nothing that is buffered comes to mislead. -/
theorem harmless_step {F : FileContent} {a : Action} (hfile : s.file = F)
    (hformed : WellFormed cfg s) (h : Harmless cfg F s) (hstep : step cfg s a = some s') :
    Harmless cfg F s' := by
  have hstart : ∀ len, (ReadAhead.readAt cfg len).fetched = none := by
    intro len
    unfold ReadAhead.readAt
    split
    · rfl
    · split <;> rfl
  obtain ⟨hwindow, hfetched⟩ :=
    keeps_step (P := fun w => w.Harmless cfg.ptr F.bytes)
      (Q := fun t => ∀ w ∈ t.fetched, w.Harmless cfg.ptr F.bytes)
      (.inl (Window.agrees_empty _)) (by rintro op pc w ⟨⟩) (by rintro dropped w ⟨⟩)
      (fun _ len _ w hw => by rw [Task.fetched, hstart] at hw; cases hw)
      (fun _ _ _ _ _ _ _ _ htask hpc hok hres =>
        ReadAhead.resume_fetched F.bound (hformed.tasks _ (List.mem_of_getElem? htask)).2 hpc
          (hfile ▸ hok) hres)
      (fun _ _ _ _ _ hpc => hpc _ rfl) h.window h.fetched hstep
  exact ⟨hwindow, hfetched⟩

/-- **Step lemma.** What is kept stays so. -/
theorem kept_step {n : Nat} {F : FileContent} {a : Action} (hno : Later cfg F a)
    (h : Kept cfg n F s) (hstep : step cfg s a = some s') : Kept cfg n F s' := by
  have hwrite : ∀ op, a ≠ .startWrite op := by
    rintro op rfl
    exact hno
  obtain ⟨hfile, hquiet⟩ := quiet_step h.quiet hwrite hstep
  refine ⟨hfile.trans h.file, hquiet,
    harmless_step h.file h.formed h.harmless hstep, wellFormed_step h.formed hstep,
    sized_step h.sized hstep, later_step hstep ?_ ?_ h.later⟩
  · rintro offset len rfl -
    exact ⟨hno, ReadAhead.readAt_inv cfg F.bytes offset len⟩
  · rintro i offset len inp pc ra' pc' hold ⟨haddr, hinv⟩ hans hres
    have hoff : offset < 2 ^ 64 := (h.formed.tasks _ (List.mem_of_getElem? hold)).1
    have hdata : s.shared.state.data.length < 2 ^ cfg.ptr :=
      lt_of_le_of_lt h.sized.window cfg.fits
    rw [h.file] at hans
    refine ⟨haddr, ReadAhead.resume_known F.bound hoff ?_ ?_ hinv hans hres⟩
    · intro _
      exact h.harmless.window.serveFrom F.bound h.formed.range hdata hoff haddr
    · intro p hpanic
      rw [Window.knownPastEnd_eq h.formed.range] at hpanic
      cases hpanic

/-! ### Runs that mislead -/

/-- A new read is answered wrongly where the window is not harmless. -/
theorem exists_misled {F : FileContent} (hformed : WellFormed cfg s) (hsized : Sized cfg s)
    (h : ¬ s.shared.state.Harmless cfg.ptr F.bytes) :
    ∃ acts s' offset len bs, (∀ a ∈ acts, Later cfg F a) ∧ run (step cfg) s acts = some s' ∧
      s'.Returned s.tasks.length offset len (.ok (.ok bs)) ∧ ¬ ShortRead F.bytes offset len bs := by
  have hdata : s.shared.state.data.length < 2 ^ cfg.ptr := lt_of_le_of_lt hsized.window cfg.fits
  have hwin : 0 < cfg.windowSize := by
    by_contra hzero
    have hnil : s.shared.state.data = [] :=
      List.length_eq_zero_iff.mp (by have := hsized.window; omega)
    exact h (.inl ⟨by simp [hnil], fun heof => absurd (hformed.eof heof) hzero, hformed.range⟩)
  have hone : 1 < 2 ^ cfg.ptr := lt_of_le_of_lt hwin cfg.fits
  obtain ⟨offset, len, bs, hlen, hoff, hfits, haddr, hserve, hwrong⟩ :=
    Window.exists_misled h hformed.range hdata (fun _ => hone)
  have hlook : ReadAhead.readAt cfg len = .look := by
    rw [ReadAhead.readAt, if_neg (by omega), if_neg (by omega)]
  let started : Sys := { s with tasks := s.tasks ++ [.read offset len .look] }
  have hstart : step cfg s (.startRead offset len) = some started := by
    rw [step, if_pos ⟨hoff, hfits⟩, hlook]
  let served : Sys := { s with
    tasks := started.tasks.set s.tasks.length (.read offset len (.done (.ok (.ok bs)))) }
  have hresume : step cfg started (.resume s.tasks.length .lock) = some served := by
    have htask : started.tasks[s.tasks.length]? = some (.read offset len .look) := by
      simp [started]
    rw [step, htask]
    simp only [ReadAhead.AnswerOk, if_true, ReadAhead.resume, started, hserve, Option.map_some,
      logCall, served]
  refine ⟨[.startRead offset len, .resume s.tasks.length .lock], served, offset, len, bs, ?_, ?_,
    ?_, hwrong⟩
  · intro a ha
    rcases List.mem_pair.mp ha with rfl | rfl
    · exact haddr
    · trivial
  · exact run_cons_iff.mpr ⟨started, hstart, run_cons_iff.mpr ⟨served, hresume, rfl⟩⟩
  · simp [Returned, served, started]

/-- A full answer takes a fetch in flight on, or to its publish. -/
theorem exists_answer {i offset len start want pos : Nat} {buf : List UInt8}
    (hformed : WellFormed cfg s)
    (htask : s.tasks[i]? = some (.read offset len (.fetch start want buf pos))) :
    ∃ inp s' pc', step cfg s (.resume i inp) = some s' ∧
      s'.tasks = s.tasks.set i (.read offset len pc') ∧
      ((∃ more hitEof, pc' = .publish start (buf ++ more) hitEof) ∨
        ∃ more pos', more ≠ [] ∧ pc' = .fetch start want (buf ++ more) pos') := by
  obtain ⟨-, -, hmore, rfl, hpos⟩ := hformed.tasks _ (List.mem_of_getElem? htask)
  -- the handle answers in full
  obtain ⟨bs, hread⟩ : ∃ bs, ShortRead s.file.bytes (start + buf.length) (want - buf.length) bs :=
    ⟨_, shortRead_slice _ _ _⟩
  have hok : ReadAhead.AnswerOk s.file.bytes offset len
      (.fetch start want buf (start + buf.length)) (.answer (.ok bs)) := by
    intro pos n hreq
    obtain ⟨rfl, rfl⟩ := Prod.mk.inj (Option.some.inj hreq)
    exact hread
  have hstep : ∀ ra' pc', ReadAhead.resume cfg offset len s.shared
      (.fetch start want buf (start + buf.length)) (.answer (.ok bs)) = some (ra', pc') →
      ∃ s', step cfg s (.resume i (.answer (.ok bs))) = some s' ∧
        s'.tasks = s.tasks.set i (.read offset len pc') := by
    intro ra' pc' hres
    simp only [step, htask, if_pos hok, hres, Option.map_some]
    exact ⟨_, rfl, rfl⟩
  rcases bs with _ | ⟨b, bs⟩
  · obtain ⟨s', hs', htasks⟩ := hstep _ (.publish start buf true) rfl
    exact ⟨_, s', _, hs', htasks, .inl ⟨[], true, by rw [List.append_nil]⟩⟩
  · obtain ⟨s', hs', htasks⟩ := hstep _ (ReadAhead.fillNext start want (buf ++ b :: bs)) rfl
    refine ⟨_, s', _, hs', htasks, ?_⟩
    have hrange := ReadAhead.add_length_append_lt s.file.bound hpos hread
    unfold ReadAhead.fillNext
    -- more may be wanted, or the answer was the last
    split
    · rw [addU_ok hrange]
      exact .inr ⟨b :: bs, _, List.cons_ne_nil _ _, rfl⟩
    · exact .inl ⟨b :: bs, false, rfl⟩

/-- A fetch in flight comes to publish what it holds, with more behind it. -/
theorem exists_publish {i offset len start want pos d : Nat} {buf : List UInt8}
    (hd : want - buf.length = d) (hformed : WellFormed cfg s)
    (htask : s.tasks[i]? = some (.read offset len (.fetch start want buf pos))) :
    ∃ acts s' more hitEof, (∀ a ∈ acts, ∃ inp, a = .resume i inp) ∧
      run (step cfg) s acts = some s' ∧ s'.tasks.length = s.tasks.length ∧
      s'.tasks[i]? = some (.read offset len (.publish start (buf ++ more) hitEof)) := by
  -- on what is still wanted: every answer that is not empty makes it less
  induction d using Nat.strong_induction_on generalizing s buf pos with
  | h d ih =>
    have hi : i < s.tasks.length := (List.getElem?_eq_some_iff.mp htask).1
    have hmore := (hformed.tasks _ (List.mem_of_getElem? htask)).2.2.1
    obtain ⟨inp, s', pc', hstep, htasks, hpc'⟩ := exists_answer hformed htask
    have htask' : s'.tasks[i]? = some (.read offset len pc') := by
      rw [htasks, List.getElem?_set_self hi]
    have hlength : s'.tasks.length = s.tasks.length := by rw [htasks, List.length_set]
    rcases hpc' with ⟨more, hitEof, rfl⟩ | ⟨more, pos', hne, rfl⟩
    · refine ⟨[.resume i inp], s', more, hitEof, ?_, ?_, hlength, htask'⟩
      · simp
      · exact run_cons_iff.mpr ⟨s', hstep, rfl⟩
    · have hpos := List.length_pos_iff.mpr hne
      have hless : want - (buf ++ more).length < d := by
        rw [List.length_append]
        omega
      obtain ⟨acts, t, more', hitEof, hacts, hrun, htlen, httask⟩ :=
        ih _ hless rfl (wellFormed_step hformed hstep) htask'
      refine ⟨.resume i inp :: acts, t, more ++ more', hitEof, ?_, ?_, htlen.trans hlength, ?_⟩
      · intro a ha
        rcases List.mem_cons.mp ha with rfl | ha
        · exact ⟨inp, rfl⟩
        · exact hacts a ha
      · exact run_cons_iff.mpr ⟨s', hstep, hrun⟩
      · rw [httask, List.append_assoc]

/-- What a read in flight holds gets into the window, with more behind it. -/
theorem exists_published {i : Nat} {t : Task} {w : Window} (hformed : WellFormed cfg s)
    (htask : s.tasks[i]? = some t) (hw : w ∈ t.fetched) :
    ∃ acts s' more hitEof, (∀ a ∈ acts, ∃ inp, a = .resume i inp) ∧
      run (step cfg) s acts = some s' ∧ s'.tasks.length = s.tasks.length ∧
      s'.shared.state = ⟨w.data ++ more, w.start, hitEof⟩ ∧
      (w.eof = true → hitEof = true ∧ more = []) := by
  -- one more step publishes what was fetched
  have hpublish : ∀ {s : Sys} {offset len start buf hitEof},
      s.tasks[i]? = some (.read offset len (.publish start buf hitEof)) →
      ∃ s', step cfg s (.resume i .lock) = some s' ∧ s'.tasks.length = s.tasks.length ∧
        s'.shared.state = ⟨buf, start, hitEof⟩ := by
    intro s offset len start buf hitEof htask
    simp only [step, htask, ReadAhead.AnswerOk, ReadAhead.resume, Option.map_some]
    exact ⟨_, rfl, List.length_set, rfl⟩
  rcases t with ⟨offset, len, pc⟩ | _ | _
  · cases pc with
    | publish start buf hitEof =>
      obtain rfl := Option.some.inj hw
      obtain ⟨s', hs', hlength, hstate⟩ := hpublish htask
      refine ⟨[.resume i .lock], s', [], hitEof, by simp, run_cons_iff.mpr ⟨s', hs', rfl⟩, hlength,
        by rw [hstate, List.append_nil], fun heof => ⟨heof, rfl⟩⟩
    | fetch start want buf pos =>
      obtain rfl := Option.some.inj hw
      -- the fetch is answered until it publishes
      obtain ⟨acts, s', more, hitEof, hacts, hrun, hlength, htask'⟩ :=
        exists_publish rfl hformed htask
      obtain ⟨s'', hs'', hlength', hstate⟩ := hpublish htask'
      refine ⟨acts ++ [.resume i .lock], s'', more, hitEof, ?_, ?_, hlength'.trans hlength, hstate,
        by simp⟩
      · intro a ha
        rcases List.mem_append.mp ha with ha | ha
        · exact hacts a ha
        · exact ⟨.lock, by simpa using ha⟩
      · exact run_append_iff.mpr ⟨s', hrun, run_cons_iff.mpr ⟨s'', hs'', rfl⟩⟩
    | _ => cases hw
  all_goals cases hw

/-! ### After the write -/

/-- **After a write that failed**, having left the file as `F'`: every later `read_at` that
    returns `Ok` gives what the file holds if and only if what was buffered before, in the window
    or by a read in flight, misleads no read of `F'`. -/
theorem failedWrite_fresh_iff (cfg : Config) (F : FileContent) (before : List Action) (s s₁ : Sys)
    (i : Nat) (e : Error) (F' : FileContent) (hrun : run (step cfg) (init F) before = some s)
    (hfail : step cfg s (.fail i e F') = some s₁) (hquiet : ∀ t ∈ s₁.tasks, t.writing = false) :
    (∀ after s', (∀ a ∈ after, Later cfg F' a) → run (step cfg) s₁ after = some s' →
      ∀ j offset len bs, s₁.tasks.length ≤ j → s'.Returned j offset len (.ok (.ok bs)) →
        ShortRead F'.bytes offset len bs) ↔
    Harmless cfg F' s := by
  have hformed : WellFormed cfg s₁ := wellFormed_step (wellFormed_run hrun) hfail
  have hsized : Sized cfg s₁ := sized_step (sized_run hrun) hfail
  obtain ⟨op, htask, hs₁⟩ : ∃ op, s.tasks[i]? = some (.write op .inner) ∧
      s₁ = { s with file := F', tasks := s.tasks.set i (.write op (.done (.error e))) } := by
    cases moved_of_step hfail with
    | failed htask => exact ⟨_, htask, rfl⟩
  have hfile : s₁.file = F' := by rw [hs₁]
  have hshared : s₁.shared = s.shared := by rw [hs₁]
  have htasks : s₁.tasks = s.tasks.set i (.write op (.done (.error e))) := by rw [hs₁]
  have hi : i < s.tasks.length := (List.getElem?_eq_some_iff.mp htask).1
  constructor
  · intro hfresh
    -- where the calls in flight lead to a misleading window, a new read is misled
    have hreach : ∀ acts s', (∀ a ∈ acts, ∃ j inp, a = .resume j inp) →
        run (step cfg) s₁ acts = some s' → s'.tasks.length = s₁.tasks.length →
        s'.shared.state.Harmless cfg.ptr F'.bytes := by
      intro acts s' hacts hrun' hlength
      by_contra hbad
      have hformed' := run_invariant (fun _ _ _ hI hs => wellFormed_step hI hs) hformed hrun'
      have hsized' := run_invariant (fun _ _ _ hI hs => sized_step hI hs) hsized hrun'
      obtain ⟨acts', s'', offset, len, bs, hacts', hrun'', hret, hwrong⟩ :=
        exists_misled hformed' hsized' hbad
      refine hwrong (hfresh (acts ++ acts') s'' ?_ (run_append_iff.mpr ⟨s', hrun', hrun''⟩)
        s'.tasks.length offset len bs (le_of_eq hlength.symm) hret)
      intro a ha
      rcases List.mem_append.mp ha with ha | ha
      · obtain ⟨j, inp, rfl⟩ := hacts a ha
        trivial
      · exact hacts' a ha
    constructor
    · rw [← hshared]
      exact hreach [] s₁ nofun (run_nil _) rfl
    · intro t ht w hw
      have ht' : t ∈ s₁.tasks := by
        rw [htasks]
        apply mem_set_of_ne htask ht
        rintro rfl
        cases hw
      obtain ⟨j, hj⟩ := List.mem_iff_getElem?.mp ht'
      obtain ⟨acts, s', more, hitEof, hacts, hrun', hlength, hstate, heof⟩ :=
        exists_published hformed hj hw
      have hharm := hreach acts s' (fun a ha => ⟨j, hacts a ha⟩) hrun' hlength
      rw [hstate] at hharm
      rcases w with ⟨data, start, eof⟩
      cases eof with
      | false => exact hharm.front
      | true =>
        obtain ⟨rfl, rfl⟩ := heof rfl
        simpa using hharm
  · intro hharm after s' hlater hrun' j offset len bs hj hret
    -- no read has begun behind the failure, and what is fetched is harmless
    have hkept : Kept cfg s₁.tasks.length F' s₁ := by
      refine ⟨hfile, hquiet, ⟨hshared ▸ hharm.window, ?_⟩, hformed, hsized, ?_⟩
      · rw [htasks]
        exact forall_mem_set hharm.fetched nofun
      · intro k offset len pc hk htask'
        rw [List.getElem?_eq_none hk] at htask'
        cases htask'
    have hsteps : AllSteps (step cfg) (fun _ a => Later cfg F' a) s₁ after :=
      allSteps_of_forall hlater
    have hend : Kept cfg s₁.tasks.length F' s' :=
      run_invariant_of_allSteps (fun _ _ _ hno hI hs => kept_step hno hI hs) hsteps hkept hrun'
    exact (hend.later j offset len _ hj hret).2

/-- Bytes outside the window changed, and what it holds is served. -/
theorem failedWrite_fresh_elsewhere :
    let F : FileContent := ⟨[1, 2, 3, 4, 5, 6], by decide⟩
    let F' : FileContent := ⟨[1, 2, 3, 4, 9, 6], by decide⟩
    let before : List Action := [.startRead 0 2, .resume 0 .lock, .resume 0 .lock,
      .resume 0 (.total 6), .resume 0 (.answer (.ok [1, 2, 3, 4])), .resume 0 .lock,
      .resume 0 .lock, .startWrite (.writeAt 4 [9, 9])]
    (run (step ⟨64, 4, by decide⟩) (init F) (before ++ [.fail 1 (.connectionLost "") F',
      .startRead 1 2, .resume 2 .lock])).isSome = true ∧ ShortRead F'.bytes 1 2 [2, 3] := by
  intro F F' before
  let writing : Sys := ⟨F, ⟨⟨[1, 2, 3, 4], 0, false⟩, 1, 4⟩,
    [.read 0 2 (.done (.ok (.ok [1, 2]))), .write (.writeAt 4 [9, 9]) .inner], [4]⟩
  let failed : Sys := ⟨F', ⟨⟨[1, 2, 3, 4], 0, false⟩, 1, 4⟩,
    [.read 0 2 (.done (.ok (.ok [1, 2]))),
      .write (.writeAt 4 [9, 9]) (.done (.error (.connectionLost "")))], [4]⟩
  let served : Sys := ⟨F', ⟨⟨[1, 2, 3, 4], 0, false⟩, 1, 4⟩,
    [.read 0 2 (.done (.ok (.ok [1, 2]))),
      .write (.writeAt 4 [9, 9]) (.done (.error (.connectionLost ""))),
      .read 1 2 (.done (.ok (.ok [2, 3])))], [4]⟩
  refine ⟨by decide, ?_⟩
  have hharm : Harmless ⟨64, 4, by decide⟩ F' writing := by
    refine ⟨.inl (by decide), ?_⟩
    intro t ht w hw
    rcases List.mem_pair.mp ht with rfl | rfl
    · cases hw
    · cases hw
  refine (failedWrite_fresh_iff ⟨64, 4, by decide⟩ F before writing failed 1 (.connectionLost "") F'
    (by decide) (by decide) (by decide)).mpr hharm [.startRead 1 2, .resume 2 .lock] served ?_
    (by decide) 2 1 2 [2, 3] (by decide) rfl
  intro a ha
  rcases List.mem_pair.mp ha with rfl | rfl
  · exact .inl (by decide)
  · trivial

/-- **Bytes from before a failed write are served.** The window is full, a write of two of its
    bytes reaches the server and is reported as failed, and a read started after that returns
    what was there before. -/
theorem failedWrite_serves_old :
    ∃ (F F' : FileContent) (before : List Action) (s s' : Sys),
      F.bytes = [1, 2, 3, 4] ∧ F'.bytes = [9, 9, 3, 4] ∧
      run (step ⟨64, 4, by decide⟩) (init F) before = some s ∧ s.file = F' ∧
      s.tasks[1]? = some (Task.write (.writeAt 0 [9, 9])
        (.done (.error (.connectionLost "timed out")))) ∧
      s.tasks.length = 2 ∧ (∀ t ∈ s.tasks, t.reading = false ∧ t.writing = false) ∧
      run (step ⟨64, 4, by decide⟩) s [.startRead 0 2, .resume 2 .lock] = some s' ∧
      s'.Returned 2 0 2 (.ok (.ok [1, 2])) ∧ ¬ ShortRead F'.bytes 0 2 [1, 2] := by
  let F : FileContent := ⟨[1, 2, 3, 4], by decide⟩
  let F' : FileContent := ⟨[9, 9, 3, 4], by decide⟩
  let failed : Sys := ⟨F', ⟨⟨[1, 2, 3, 4], 0, false⟩, 1, 4⟩,
    [.read 0 2 (.done (.ok (.ok [1, 2]))),
      .write (.writeAt 0 [9, 9]) (.done (.error (.connectionLost "timed out")))], [4]⟩
  let served : Sys := ⟨F', ⟨⟨[1, 2, 3, 4], 0, false⟩, 1, 4⟩,
    [.read 0 2 (.done (.ok (.ok [1, 2]))),
      .write (.writeAt 0 [9, 9]) (.done (.error (.connectionLost "timed out"))),
      .read 0 2 (.done (.ok (.ok [1, 2])))], [4]⟩
  exact ⟨F, F', [.startRead 0 2, .resume 0 .lock, .resume 0 .lock, .resume 0 (.total 4),
      .resume 0 (.answer (.ok [1, 2, 3, 4])), .resume 0 .lock, .resume 0 .lock,
      .startWrite (.writeAt 0 [9, 9]), .fail 1 (.connectionLost "timed out") F'],
    failed, served, rfl, rfl, by decide, rfl, rfl, rfl, by decide, by decide, rfl, by decide⟩

end Sys

end Krystallos
