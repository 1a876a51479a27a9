import Krystallos.Cache.Window

namespace Krystallos

open Checked Slices

/-!
# `ReadAhead::read_at`, cut at its awaits and lock sections

A call of `read_at` is a program counter, `ReadPc`; `resume` is everything the call does
from one lock section or answer of the wrapped handle to the next.  `ReadInv` is what a call
in flight has already learnt about the file, and `resume_sound` is the one step lemma: on a
window that agrees with the file no step panics, what is published agrees again, and what is
returned is a read the handle itself could have given.

Memory is taken to suffice for the buffer of a fetch.
-/

/-- The width of `usize`, and a window size of that type. -/
structure Config where
  ptr : Nat
  windowSize : Nat
  fits : windowSize < 2 ^ ptr

/-- What the calls on one `ReadAhead` share: the window under its lock and the counters. -/
structure ReadAhead where
  state : Window
  innerReads : Nat
  innerBytes : Nat
deriving DecidableEq, Repr

/-- Where a call of `read_at` stands. -/
inductive ReadPc
  /-- before the first lock section -/
  | look
  /-- before the lock section of `worth_fetching` -/
  | probe
  /-- in `fill`, before it asks for `inner.len()` -/
  | size (start : Nat)
  /-- in `fill`, waiting for a read at `pos`, the end of what `buf` holds -/
  | fetch (start want : Nat) (buf : List UInt8) (pos : Nat)
  /-- in `fill`, before the lock section that publishes the window -/
  | publish (start : Nat) (buf : List UInt8) (hitEof : Bool)
  /-- before the second look at the window -/
  | serve
  /-- waiting for the handle to answer the caller's own request -/
  | pass (counted : Bool)
  | done (r : Outcome (List UInt8))
deriving DecidableEq

/-- What a waiting call is resumed with. -/
inductive Input
  /-- the lock was granted -/
  | lock
  /-- `inner.len()` -/
  | total (n : Nat)
  /-- the wrapped handle answered a read -/
  | answer (r : Result (List UInt8))

namespace ReadAhead

/-- A fresh wrapper. -/
def init : ReadAhead := ⟨Window.empty, 0, 0⟩

/-- The counters `read_through` bumps before it reads `n` bytes. -/
def count (ra : ReadAhead) (n : Nat) : ReadAhead :=
  { ra with innerReads := castU 64 (ra.innerReads + 1),
            innerBytes := castU 64 (ra.innerBytes + n) }

/-- Drop the buffered window. -/
def invalidate (ra : ReadAhead) : ReadAhead := { ra with state := Window.empty }

@[simp] theorem count_state (ra : ReadAhead) (n : Nat) : (ra.count n).state = ra.state := by
  rw [count]

/-- Counting, or not counting, a read leaves the window. -/
theorem count_if_state (ra : ReadAhead) (counted : Bool) (n : Nat) :
    (if counted then ra.count n else ra).state = ra.state := by
  cases counted
  · rfl
  · exact count_state ra n

@[simp] theorem invalidate_state (ra : ReadAhead) : ra.invalidate.state = Window.empty := rfl

/-- How much of the file lies at or after `start`, given `inner.len()`. -/
def remainingFrom (cfg : Config) (start total : Nat) : Nat :=
  if total ≤ start then cfg.windowSize
  else min (castU cfg.ptr (total - start)) cfg.windowSize

/-- The loop head of `fill`: read on from `start + buf.len()`, or publish. -/
def fillNext (start want : Nat) (buf : List UInt8) : ReadPc :=
  if buf.length < want then
    match addU 64 start buf.length with
    | .error p => .done (.error p)
    | .ok pos => .fetch start want buf pos
  else .publish start buf false

/-- Where `read_at` begins: the checks that need neither the lock nor the handle. -/
def readAt (cfg : Config) (len : Nat) : ReadPc :=
  if len = 0 then .done (.ok (.ok []))
  else if cfg.windowSize = 0 then .pass true
  else .look

/-- After the first look found nothing to serve. -/
def afterMiss (cfg : Config) (len : Nat) : ReadPc :=
  if cfg.windowSize < len then .pass true else .probe

/-- One step of a call of `read_at(offset, buf)` with `buf.len() = len`; `none` where the
    call waits for something else. -/
def resume (cfg : Config) (offset len : Nat) (ra : ReadAhead) :
    ReadPc → Input → Option (ReadAhead × ReadPc)
  | .look, .lock =>
    match ra.state.serveFrom cfg.ptr offset len with
    | .error p => some (ra, .done (.error p))
    | .ok (some bs) => some (ra, .done (.ok (.ok bs)))
    | .ok none => some (ra, afterMiss cfg len)
  | .probe, .lock =>
    match ra.state.knownPastEnd offset with
    | .error p => some (ra, .done (.error p))
    | .ok true => some (ra, .pass true)
    | .ok false => some (ra, .size (offset / cfg.windowSize * cfg.windowSize))
  | .size start, .total n =>
    some (ra, fillNext start (min cfg.windowSize (remainingFrom cfg start n)) [])
  | .fetch start want buf _, .answer r =>
    let ra' := ra.count (want - buf.length)
    match r with
    | .error e => some (ra', .done (.ok (.error e)))
    | .ok [] => some (ra', .publish start buf true)
    | .ok bs => some (ra', fillNext start want (buf ++ bs))
  | .publish start buf hitEof, .lock =>
    some ({ ra with state := ⟨buf, start, hitEof⟩ }, .serve)
  | .serve, .lock =>
    match ra.state.serveFrom cfg.ptr offset len with
    | .error p => some (ra, .done (.error p))
    | .ok (some bs) => some (ra, .done (.ok (.ok bs)))
    | .ok none => some (ra, .pass false)
  | .pass counted, .answer r =>
    some (if counted then ra.count len else ra, .done (.ok r))
  | _, _ => none

/-- The read of the wrapped handle a call waits for: its offset and its buffer's length. -/
def request (offset len : Nat) : ReadPc → Option (Nat × Nat)
  | .fetch _ want buf pos => some (pos, want - buf.length)
  | .pass _ => some (offset, len)
  | _ => none

variable {cfg : Config} {F : List UInt8} {offset len : Nat} {ra ra' : ReadAhead}

/-- The transitions of `read_at`, one constructor for each way through `resume`. -/
inductive Resumed (cfg : Config) (offset len : Nat) (ra : ReadAhead) :
    ReadPc → Input → ReadAhead → ReadPc → Prop
  | lookPanic {pc : ReadPc} {p : Panic} (hpc : pc = .look ∨ pc = .serve)
      (h : ra.state.serveFrom cfg.ptr offset len = .error p) :
      Resumed cfg offset len ra pc .lock ra (.done (.error p))
  | hit {pc : ReadPc} {bs : List UInt8} (hpc : pc = .look ∨ pc = .serve)
      (h : ra.state.serveFrom cfg.ptr offset len = .ok (some bs)) :
      Resumed cfg offset len ra pc .lock ra (.done (.ok (.ok bs)))
  | miss (h : ra.state.serveFrom cfg.ptr offset len = .ok none) :
      Resumed cfg offset len ra .look .lock ra (afterMiss cfg len)
  | fallback (h : ra.state.serveFrom cfg.ptr offset len = .ok none) :
      Resumed cfg offset len ra .serve .lock ra (.pass false)
  | probePanic {p : Panic} (h : ra.state.knownPastEnd offset = .error p) :
      Resumed cfg offset len ra .probe .lock ra (.done (.error p))
  | pastEnd (h : ra.state.knownPastEnd offset = .ok true) :
      Resumed cfg offset len ra .probe .lock ra (.pass true)
  | worth (h : ra.state.knownPastEnd offset = .ok false) :
      Resumed cfg offset len ra .probe .lock ra
        (.size (offset / cfg.windowSize * cfg.windowSize))
  | sized {start n : Nat} :
      Resumed cfg offset len ra (.size start) (.total n) ra
        (fillNext start (min cfg.windowSize (remainingFrom cfg start n)) [])
  | fetchFailed {start want pos : Nat} {buf : List UInt8} {e : Error} :
      Resumed cfg offset len ra (.fetch start want buf pos) (.answer (.error e))
        (ra.count (want - buf.length)) (.done (.ok (.error e)))
  | fetchEnded {start want pos : Nat} {buf : List UInt8} :
      Resumed cfg offset len ra (.fetch start want buf pos) (.answer (.ok []))
        (ra.count (want - buf.length)) (.publish start buf true)
  | fetched {start want pos : Nat} {buf bs : List UInt8} (hbs : bs ≠ []) :
      Resumed cfg offset len ra (.fetch start want buf pos) (.answer (.ok bs))
        (ra.count (want - buf.length)) (fillNext start want (buf ++ bs))
  | published {start : Nat} {buf : List UInt8} {hitEof : Bool} :
      Resumed cfg offset len ra (.publish start buf hitEof) .lock
        { ra with state := ⟨buf, start, hitEof⟩ } .serve
  | passed {counted : Bool} {r : Result (List UInt8)} :
      Resumed cfg offset len ra (.pass counted) (.answer r)
        (if counted then ra.count len else ra) (.done (.ok r))

/-- Every step of `resume` is one of the transitions. -/
theorem resumed_of_resume {pc pc' : ReadPc} {inp : Input}
    (h : resume cfg offset len ra pc inp = some (ra', pc')) :
    Resumed cfg offset len ra pc inp ra' pc' := by
  unfold resume at h
  split at h
  · -- the first look
    split at h <;> (rename_i hserve; obtain ⟨rfl, rfl⟩ := Prod.mk.inj (Option.some.inj h))
    · exact .lookPanic (.inl rfl) hserve
    · exact .hit (.inl rfl) hserve
    · exact .miss hserve
  · -- `worth_fetching`
    split at h <;> (rename_i hpast; obtain ⟨rfl, rfl⟩ := Prod.mk.inj (Option.some.inj h))
    · exact .probePanic hpast
    · exact .pastEnd hpast
    · exact .worth hpast
  · obtain ⟨rfl, rfl⟩ := Prod.mk.inj (Option.some.inj h)
    exact .sized
  · -- the loop of `fill`
    split at h <;> obtain ⟨rfl, rfl⟩ := Prod.mk.inj (Option.some.inj h)
    · exact .fetchFailed
    · exact .fetchEnded
    · rename_i hne
      exact .fetched (fun hnil => hne (by rw [hnil]))
  · obtain ⟨rfl, rfl⟩ := Prod.mk.inj (Option.some.inj h)
    exact .published
  · -- the second look
    split at h <;> (rename_i hserve; obtain ⟨rfl, rfl⟩ := Prod.mk.inj (Option.some.inj h))
    · exact .lookPanic (.inr rfl) hserve
    · exact .hit (.inr rfl) hserve
    · exact .fallback hserve
  · obtain ⟨rfl, rfl⟩ := Prod.mk.inj (Option.some.inj h)
    exact .passed
  · cases h

/-! ### What a call in flight knows about the file -/

/-- What a call of `read_at(offset, buf)` has learnt about content `F` where it stands. -/
def ReadInv (F : List UInt8) (offset len : Nat) : ReadPc → Prop
  | .look | .probe | .serve => 0 < len
  | .size start => 0 < len ∧ start < 2 ^ 64
  | .fetch start want buf pos =>
    0 < len ∧ buf = slice F start buf.length ∧ buf.length < want ∧
      pos = start + buf.length ∧ pos < 2 ^ 64
  | .publish start buf hitEof => 0 < len ∧ Window.Agrees F ⟨buf, start, hitEof⟩
  | .pass _ => True
  | .done (.error _) => False
  | .done (.ok (.error _)) => True
  | .done (.ok (.ok bs)) => ShortRead F offset len bs

/-- The handle below answers within its contract: a read that succeeds is one that content
    `F` allows, and any read may fail. -/
def AnswerOk (F : List UInt8) (offset len : Nat) (pc : ReadPc) : Input → Prop
  | .answer (.ok bs) => ∀ pos n, request offset len pc = some (pos, n) → ShortRead F pos n bs
  | _ => True

/-- The loop head of `fill` neither overflows nor publishes a window that disagrees. -/
theorem fillNext_inv {F : List UInt8} {offset len start want : Nat} {buf : List UInt8}
    (hlen : 0 < len) (hbuf : buf = slice F start buf.length)
    (hpos : start + buf.length < 2 ^ 64) :
    ReadInv F offset len (fillNext start want buf) := by
  unfold fillNext
  by_cases hmore : buf.length < want
  · rw [if_pos hmore, addU_ok hpos]
    exact ⟨hlen, hbuf, hmore, rfl, hpos⟩
  · rw [if_neg hmore]
    exact ⟨hlen, hbuf, by simp, hpos⟩

/-- Both looks at the window are made with a non-empty buffer. -/
theorem pos_of_looking {pc : ReadPc} (hinv : ReadInv F offset len pc)
    (hpc : pc = .look ∨ pc = .serve) : 0 < len := by
  rcases hpc with rfl | rfl
  · exact hinv
  · exact hinv

/-- A step leaves the window alone, or is the lock section that publishes one. -/
theorem resume_window {pc pc' : ReadPc} {inp : Input}
    (h : resume cfg offset len ra pc inp = some (ra', pc')) :
    ra'.state = ra.state ∨
      ∃ start buf hitEof, pc = .publish start buf hitEof ∧ inp = .lock ∧
        ra'.state = ⟨buf, start, hitEof⟩ := by
  cases resumed_of_resume h with
  | published => exact .inr ⟨_, _, _, rfl, rfl, rfl⟩
  | fetchFailed | fetchEnded | fetched => exact .inl (count_state _ _)
  | passed => exact .inl (count_if_state _ _ _)
  | _ => exact .inl rfl

/-- What a call knows stays true, with a handle that keeps its contract and a window that serves
    only reads the handle could have given. -/
theorem resume_known {pc pc' : ReadPc} {inp : Input} (hF : F.length < 2 ^ 64)
    (hoff : offset < 2 ^ 64)
    (hserve : pc = .look ∨ pc = .serve → 0 < len →
      ra.state.serveFrom cfg.ptr offset len = .ok none ∨
      ∃ bs, ra.state.serveFrom cfg.ptr offset len = .ok (some bs) ∧ ShortRead F offset len bs)
    (hprobe : ∀ p, ra.state.knownPastEnd offset ≠ .error p)
    (hinv : ReadInv F offset len pc) (hin : AnswerOk F offset len pc inp)
    (h : resume cfg offset len ra pc inp = some (ra', pc')) : ReadInv F offset len pc' := by
  cases resumed_of_resume h with
  -- what a look at the window gives was promised
  | lookPanic hpc hpanic =>
    rcases hserve hpc (pos_of_looking hinv hpc) with hmiss | ⟨bs, hhit, -⟩
    · rw [hmiss] at hpanic
      cases hpanic
    · rw [hhit] at hpanic
      cases hpanic
  | hit hpc hserved =>
    rcases hserve hpc (pos_of_looking hinv hpc) with hmiss | ⟨bs, hhit, hread⟩
    · rw [hmiss] at hserved
      cases hserved
    · rw [hhit] at hserved
      cases hserved
      exact hread
  | miss =>
    unfold afterMiss
    split
    · trivial
    · exact hinv
  | fallback => trivial
  | probePanic hpast => exact absurd hpast (hprobe _)
  | pastEnd => trivial
  | worth => exact ⟨hinv, lt_of_le_of_lt (Nat.div_mul_le_self _ _) hoff⟩
  | sized => exact fillNext_inv hinv.1 (by simp) (by simpa using hinv.2)
  | fetchFailed => trivial
  | fetchEnded =>
    -- only an empty read proves the file ended
    obtain ⟨hlen, hbuf, hmore, rfl, hpos⟩ := hinv
    have hend := (hin _ _ rfl).ended (by omega)
    exact ⟨hlen, hbuf, fun _ => hend, hpos⟩
  | fetched =>
    obtain ⟨hlen, hbuf, hmore, rfl, hpos⟩ := hinv
    have hext := (hin _ _ rfl).append hbuf
    exact fillNext_inv hlen hext (add_length_lt_of_eq_slice hext hF (by omega))
  | published => exact hinv.1
  | @passed counted r =>
    cases r with
    | error e => trivial
    | ok bs => exact hin _ _ rfl

/-- **Step lemma of `read_at`.** On a window that agrees with the file, with a handle that
    keeps its contract, a step leaves the window agreeing and the call's knowledge true; in
    particular it does not panic, and what it returns is a read the handle could have
    given.  Past the end of the file the distance from the window's start has to fit in
    `usize`. -/
theorem resume_sound (hF : F.length < 2 ^ 64) (hoff : offset < 2 ^ 64)
    (hskip : F.length < offset → offset - ra.state.start < 2 ^ cfg.ptr)
    (hdata : ra.state.data.length < 2 ^ cfg.ptr)
    (hag : Window.Agrees F ra.state) {pc pc' : ReadPc} {inp : Input}
    (hinv : ReadInv F offset len pc) (hin : AnswerOk F offset len pc inp)
    (h : resume cfg offset len ra pc inp = some (ra', pc')) :
    Window.Agrees F ra'.state ∧ ReadInv F offset len pc' := by
  constructor
  · rcases resume_window h with hsame | ⟨start, buf, hitEof, rfl, rfl, hpub⟩
    · rw [hsame]
      exact hag
    · rw [hpub]
      exact hinv.2
  · refine resume_known hF hoff (fun _ => Window.serveFrom_cases hag hF hoff hskip hdata) ?_ hinv
      hin h
    intro p hpanic
    rw [Window.knownPastEnd_eq hag.range] at hpanic
    cases hpanic

/-! ### What a step can publish -/

/-- A fetch never holds more than a window. -/
def Bounded (cfg : Config) : ReadPc → Prop
  | .fetch _ want buf _ => buf.length ≤ want ∧ want ≤ cfg.windowSize
  | .publish _ buf _ => buf.length ≤ cfg.windowSize
  | _ => True

theorem fillNext_bounded {start want : Nat} {buf : List UInt8} (hbuf : buf.length ≤ want)
    (hwant : want ≤ cfg.windowSize) : Bounded cfg (fillNext start want buf) := by
  unfold fillNext
  split
  · split
    · trivial
    · exact ⟨hbuf, hwant⟩
  · exact le_trans hbuf hwant

/-- The part of a window a fetch holds stays within the window size, whatever the file
    does meanwhile. -/
theorem resume_bounded {pc pc' : ReadPc} {inp : Input} (hb : Bounded cfg pc)
    (hin : AnswerOk F offset len pc inp)
    (h : resume cfg offset len ra pc inp = some (ra', pc')) : Bounded cfg pc' := by
  cases resumed_of_resume h with
  | miss =>
    unfold afterMiss
    split
    · trivial
    · trivial
  | sized => exact fillNext_bounded (Nat.zero_le _) (Nat.min_le_left _ _)
  | fetchEnded => exact le_trans hb.1 hb.2
  | fetched =>
    have hfits := (hin _ _ rfl).fits
    have hroom := hb.1
    exact fillNext_bounded (by rw [List.length_append]; omega) hb.2
  | _ => trivial

/-- What is known before the first await. -/
theorem readAt_inv (cfg : Config) (F : List UInt8) (offset len : Nat) :
    ReadInv F offset len (readAt cfg len) := by
  unfold readAt
  by_cases hlen : len = 0
  · subst hlen
    exact shortRead_nil F offset
  · rw [if_neg hlen]
    by_cases hwin : cfg.windowSize = 0
    · rw [if_pos hwin]
      trivial
    · rw [if_neg hwin]
      exact Nat.pos_of_ne_zero hlen

end ReadAhead

end Krystallos
