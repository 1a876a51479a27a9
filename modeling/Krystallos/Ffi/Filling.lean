import Krystallos.Ffi.Session

namespace Krystallos

open Checked Prog Slices

/-!
# The filling loops

`read_exact_at` of a handle and `read_at` of the facade fill a buffer by short reads, and differ in
what they make of an early end.  `FileHandle.recorded` keeps the reads that were made of a handle,
so that `fills_exact` can say of both loops how many there are, and that a read that fails is what
the loop ends with.
-/

/-- A call of `read_at`, and how it ended. -/
structure ReadCall where
  offset : Nat
  len : Nat
  result : Except Error (List UInt8)

variable {σ : Type}

/-- The handle, over a world that also keeps the reads made so far. -/
def FileHandle.recorded (h : FileHandle σ) : FileHandle (σ × List ReadCall) where
  readAt offset len := fun w =>
    match h.readAt offset len w.1 with
    | .error (stop, s) => .error (stop, (s, w.2))
    | .ok (r, s) => .ok (r, (s, w.2 ++ [⟨offset, len, r⟩]))
  writeAt offset data := zoom Prod.fst (fun s w => (s, w.2)) (h.writeAt offset data)
  setLen len := zoom Prod.fst (fun s w => (s, w.2)) (h.setLen len)
  flush := zoom Prod.fst (fun s w => (s, w.2)) h.flush
  close := zoom Prod.fst (fun s w => (s, w.2)) h.close
  len w := h.len w.1

/-- What `read_exact_at` makes of content `F`: all that was asked for, or the error that says how
    much there was. -/
def exactly (F : List UInt8) (offset len : Nat) : Except Error (List UInt8) :=
  if len = 0 ∨ offset + len ≤ F.length then .ok (slice F offset len)
  else .error (.io (endedAfter (slice F offset len).length len offset))

/-- All reads of the log succeeded. -/
def Succeeded (log : List ReadCall) : Prop := ∀ call ∈ log, ∃ bytes, call.result = .ok bytes

/-- A filling loop that ended with `r` after the reads of `log`: they are few, a read that failed is
    what it ended with, and where none failed it ended with `expected`. -/
structure Fills {ε α : Type} (len : Nat) (ofCore : Error → ε) (expected : Except ε α)
    (r : Except ε α) (log : List ReadCall) : Prop where
  bounded : log.length ≤ len + 1
  failed : ∀ call ∈ log, ∀ e, call.result = .error e → r = .error (ofCore e)
  exact : Succeeded log → r = expected

/-! ### Recorded reads -/

variable {h : FileHandle σ} {I : σ → Prop} {F : List UInt8} {offset len : Nat}

/-- One more read that succeeded. -/
theorem succeeded_append {log : List ReadCall} (hlog : Succeeded log) (offset len : Nat)
    (bytes : List UInt8) : Succeeded (log ++ [⟨offset, len, .ok bytes⟩]) := by
  intro call hcall
  rcases List.mem_append.mp hcall with hold | hnew
  · exact hlog call hold
  · exact ⟨bytes, by rw [List.mem_singleton.mp hnew]⟩

/-- A recorded read does what the read does, and is the last one recorded. -/
theorem wp_recorded_readAt {p : Post Error (σ × List ReadCall) (List UInt8)}
    {w : σ × List ReadCall} : wp (h.recorded.readAt offset len) p w ↔
      wp (h.readAt offset len) ⟨fun bytes s => p.ret bytes (s, w.2 ++ [⟨offset, len, .ok bytes⟩]),
        fun e s => p.fail e (s, w.2 ++ [⟨offset, len, .error e⟩]), p.stop⟩ w.1 := by
  simp only [FileHandle.recorded, wp]
  cases hrun : h.readAt offset len w.1 with
  | error stop => simp only
  | ok x =>
    obtain ⟨r, s⟩ := x
    cases r <;> simp only

/-! ### What both loops keep -/

/-- At the head of a loop: the file has what was read so far, and there was a byte for each read. -/
structure Filling (I : σ → Prop) (F : List UInt8) (offset len : Nat) (buf : List UInt8)
    (w : σ × List ReadCall) : Prop where
  inv : I w.1
  bytes : buf = slice F offset buf.length
  fits : buf.length ≤ len
  few : w.2.length ≤ buf.length
  succeeded : Succeeded w.2

variable {buf bytes : List UInt8} {w : σ × List ReadCall} {s : σ}

/-- Nothing is read yet. -/
theorem filling_start (hI : I s) : Filling I F offset len [] (s, []) where
  inv := hI
  bytes := by simp
  fits := Nat.zero_le _
  few := le_rfl
  succeeded := by simp [Succeeded]

/-- A read that finds something is one more, and brings a byte. -/
theorem Filling.append (hw : Filling I F offset len buf w) (hI : I s)
    (hread : ShortRead F (offset + buf.length) (len - buf.length) bytes) (hne : bytes ≠ [])
    (hlt : buf.length < len) : Filling I F offset len (buf ++ bytes)
      (s, w.2 ++ [⟨offset + buf.length, len - buf.length, .ok bytes⟩]) := by
  have hpos := List.length_pos_iff.mpr hne
  have hfew := hw.few
  refine ⟨hI, hread.append hw.bytes, length_append_le_of_rest hlt hread.fits, ?_,
    succeeded_append hw.succeeded _ _ _⟩
  show (w.2 ++ _).length ≤ _
  rw [List.length_append, List.length_append, List.length_singleton]
  omega

/-- A full buffer is what was asked for. -/
theorem Filling.slice_of_full (hw : Filling I F offset len buf w) (hfull : ¬ buf.length < len) :
    slice F offset len = buf ∧ len = buf.length := by
  have hlen : len = buf.length := by
    have := hw.fits
    omega
  exact ⟨by rw [hlen, ← hw.bytes], hlen⟩

/-- A loop that no read failed. -/
theorem Filling.fills {ε α : Type} {ofCore : Error → ε} {expected r : Except ε α}
    (hw : Filling I F offset len buf w) (hr : r = expected) :
    Fills len ofCore expected r w.2 where
  bounded := by
    have := hw.few
    have := hw.fits
    omega
  failed := by
    intro call hcall e he
    obtain ⟨bytes, hok⟩ := hw.succeeded call hcall
    rw [hok] at he
    cases he
  exact := fun _ => hr

/-- A loop whose last read found nothing. -/
theorem Filling.fills_end {ε α : Type} {ofCore : Error → ε} {expected r : Except ε α}
    (hw : Filling I F offset len buf w) (hr : r = expected) (pos n : Nat) :
    Fills len ofCore expected r (w.2 ++ [⟨pos, n, .ok []⟩]) where
  bounded := by
    have := hw.few
    have := hw.fits
    rw [List.length_append, List.length_singleton]
    omega
  failed := by
    intro call hcall e he
    obtain ⟨bytes, hok⟩ := succeeded_append hw.succeeded pos n [] call hcall
    rw [hok] at he
    cases he
  exact := fun _ => hr

/-- A loop whose last read failed. -/
theorem Filling.fills_failed {ε α : Type} {ofCore : Error → ε} {expected : Except ε α} {e : Error}
    (hw : Filling I F offset len buf w) (pos n : Nat) :
    Fills len ofCore expected (.error (ofCore e)) (w.2 ++ [⟨pos, n, .error e⟩]) where
  bounded := by
    have := hw.few
    have := hw.fits
    rw [List.length_append, List.length_singleton]
    omega
  failed := by
    intro call hcall e' he
    rcases List.mem_append.mp hcall with hold | hnew
    · obtain ⟨bytes, hok⟩ := hw.succeeded call hold
      rw [hok] at he
      cases he
    · rw [List.mem_singleton.mp hnew] at he
      cases he
      rfl
  exact := by
    intro hall
    obtain ⟨bytes, hok⟩ := hall ⟨pos, n, .error e⟩ (by simp)
    cases hok

/-- The loop ends as `Fills` says. -/
def fillsPost {ε α τ : Type} (len : Nat) (ofCore : Error → ε) (expected : Except ε α)
    (log : τ → List ReadCall) : Post ε τ α where
  ret := fun a t => Fills len ofCore expected (.ok a) (log t)
  fail := fun e t => Fills len ofCore expected (.error e) (log t)
  stop := fun _ => False

/-! ### The two loops -/

/-- **One turn** of `read_exact_at` adds what comes next, or ends the loop. -/
theorem wp_exactTurn (hF : F.length < 2 ^ 64) (hoff : offset < 2 ^ 64)
    (hreads : h.Reads I F (· < 2 ^ 64)) (buf : List UInt8) (w : σ × List ReadCall)
    (hw : Filling I F offset len buf w) :
    wp (h.recorded.exactTurn offset len buf)
      (turnPost (Filling I F offset len) (fun buf _ => len - buf.length)
        (fillsPost len id (exactly F offset len) Prod.snd) (len - buf.length)) w := by
  refine wp_ite (fun hlt => ?_) (fun hfull => ?_)
  · have hpos : offset + buf.length < 2 ^ 64 := add_length_lt_of_eq_slice hw.bytes hF hoff
    simp only [wp_bind, wp_checked_ok (addU_ok hpos), wp_recorded_readAt]
    refine wp_mono (hreads.readAt _ (len - buf.length) w.1 hpos hw.inv) ?_ ?_ (fun _ => False.elim)
    · rintro bytes s ⟨hI, hread⟩
      refine wp_ite (fun hnil => ?_) (fun hne => ?_)
      · -- the file ends here
        subst hnil
        have hend := hread.ended (by omega)
        apply hw.fills_end
        rw [exactly, if_neg (by omega), hread.slice_eq hw.bytes hlt]
      · exact ⟨hw.append hI hread hne hlt, rest_append_lt hlt hne⟩
    · intro e s _
      exact hw.fills_failed _ _
  · obtain ⟨hslice, hlen⟩ := hw.slice_of_full hfull
    apply hw.fills
    have hin : len = 0 ∨ offset + len ≤ F.length := by
      have hslicelen := length_le_of_eq_slice hw.bytes
      omega
    rw [exactly, if_pos hin, hslice]

/-- **`read_exact_at`** over a recorded handle. -/
theorem wp_readExactAt (hF : F.length < 2 ^ 64) (hoff : offset < 2 ^ 64)
    (hreads : h.Reads I F (· < 2 ^ 64)) (hI : I s) :
    wp (h.recorded.readExactAt offset len) (fillsPost len id (exactly F offset len) Prod.snd)
      (s, []) :=
  wp_iterate (Filling I F offset len) (fun buf _ => len - buf.length)
    (wp_exactTurn hF hoff hreads) (filling_start hI) (.inl (by simp))

/-- **One turn** of the facade's `read_at` does the same. -/
theorem wp_recorded_fillTurn (hF : F.length < 2 ^ 64) (hoff : offset < 2 ^ 64)
    (hreads : h.Reads I F (· < 2 ^ 64)) (buf : List UInt8) (f : Ffi.RemoteFile (σ × List ReadCall))
    (hf : Filling I F offset len buf f.world) :
    wp (Ffi.RemoteFile.fillTurn h.recorded offset len buf)
      (turnPost (fun buf f => Filling I F offset len buf f.world) (fun buf _ => len - buf.length)
        (fillsPost len .ofCore (.ok (slice F offset len)) fun f => f.world.2)
        (len - buf.length)) f := by
  refine wp_ite (fun hlt => ?_) (fun hfull => ?_)
  · have hpos : offset + buf.length < 2 ^ 64 := add_length_lt_of_eq_slice hf.bytes hF hoff
    simp only [wp_bind, wp_checked_ok (addU_ok hpos), Ffi.wp_onHandle, wp_recorded_readAt]
    refine wp_mono (hreads.readAt _ (len - buf.length) f.world.1 hpos hf.inv) ?_ ?_
      (fun _ => False.elim)
    · rintro bytes s ⟨hI, hread⟩
      refine wp_ite (fun hnil => ?_) (fun hne => ?_)
      · subst hnil
        -- an empty read: what has been read is all that there is
        exact hf.fills_end (by rw [hread.slice_eq hf.bytes hlt]) _ _
      · exact ⟨hf.append hI hread hne hlt, rest_append_lt hlt hne⟩
    · intro e s _
      exact hf.fills_failed _ _
  · obtain ⟨hslice, -⟩ := hf.slice_of_full hfull
    exact hf.fills (by rw [hslice])

/-- A result that is wrapped, and a failure that is translated. -/
theorem Fills.map {ε ε' α β : Type} {ofCore : Error → ε} {expected r : Except ε α}
    {log : List ReadCall} (h : Fills len ofCore expected r log) (f : ε → ε') (g : α → β) :
    Fills len (f ∘ ofCore) ((expected.mapError f).map g) ((r.mapError f).map g) log where
  bounded := h.bounded
  failed := by
    intro call hcall e he
    rw [h.failed call hcall e he]
    rfl
  exact := by
    intro hall
    rw [h.exact hall]

/-- **`read_at` of the facade** over a recorded handle. -/
theorem wp_facade_readAt (hF : F.length < 2 ^ 64) (hoff : offset < 2 ^ 64)
    (hreads : h.Reads I F (· < 2 ^ 64)) (hI : I s) (cached : Nat) :
    wp (Ffi.RemoteFile.readAt h.recorded offset len)
      (fillsPost len .ofCore (.ok ⟨offset, slice F offset len⟩) fun f => f.world.2)
      ⟨(s, []), cached, false⟩ := by
  have hloop : wp (iterate (len + 1) (Ffi.RemoteFile.fillTurn h.recorded offset len) [])
      (fillsPost len .ofCore (.ok (slice F offset len)) fun f => f.world.2)
      ⟨(s, []), cached, false⟩ :=
    wp_iterate (fun buf f => Filling I F offset len buf f.world) (fun buf _ => len - buf.length)
      (wp_recorded_fillTurn hF hoff hreads) (filling_start hI) (.inl (by simp))
  simp only [Ffi.RemoteFile.readAt, wp_bind, Ffi.wp_handle, wp_pure]
  refine wp_mono hloop (fun buf f hfills => ?_) (fun e f hfills => ?_) (fun _ => False.elim)
  · exact hfills.map id (Ffi.ByteRange.mk offset)
  · exact hfills.map id (Ffi.ByteRange.mk offset)

/-- **`read_exact_at` of the facade** over a recorded handle. -/
theorem wp_facade_readExactAt (hF : F.length < 2 ^ 64) (hoff : offset < 2 ^ 64)
    (hreads : h.Reads I F (· < 2 ^ 64)) (hI : I s) (cached : Nat) :
    wp (Ffi.RemoteFile.readExactAt h.recorded offset len)
      (fillsPost len .ofCore (((exactly F offset len).mapError .ofCore).map (⟨offset, ·⟩))
        fun f => f.world.2) ⟨(s, []), cached, false⟩ := by
  simp only [Ffi.RemoteFile.readExactAt, wp_bind, Ffi.wp_handle]
  refine wp_ite (fun hlen => ?_) (fun _ => ?_)
  · have hstart : Filling I F offset len [] (s, []) := filling_start hI
    apply hstart.fills
    rw [exactly, if_pos (.inl hlen), hlen, slice_zero]
    rfl
  · simp only [wp_bind, Ffi.wp_onHandle, wp_pure]
    refine wp_mono (wp_readExactAt hF hoff hreads hI) (fun buf w hfills => ?_)
      (fun e w hfills => ?_) (fun _ => False.elim)
    · exact hfills.map Ffi.KernelError.ofCore (Ffi.ByteRange.mk offset)
    · exact hfills.map Ffi.KernelError.ofCore (Ffi.ByteRange.mk offset)

/-! ### Recording changes nothing -/

/-- Recording changes nothing of a read. -/
theorem lifts_recorded_readAt (offset len : Nat) :
    Lifts Prod.fst (h.recorded.readAt offset len) (h.readAt offset len) := by
  intro w
  show outcome _ (match h.readAt offset len w.1 with
    | .error (stop, s) => .error (stop, (s, w.2))
    | .ok (r, s) => .ok (r, (s, w.2 ++ [⟨offset, len, r⟩]))) = _
  cases h.readAt offset len w.1 <;> rfl

/-- Nor of an exact one. -/
theorem lifts_readExactAt (offset len : Nat) :
    Lifts Prod.fst (h.recorded.readExactAt offset len) (h.readExactAt offset len) := by
  apply Lifts.iterate
  intro buf
  apply Lifts.ite _ (lifts_pure _)
  refine (lifts_checked _).bind fun pos => ?_
  refine (lifts_recorded_readAt pos _).bind fun bytes => ?_
  exact (lifts_fail _).ite (lifts_pure _)

/-- The file without the record of its reads. -/
def withoutLog (f : Ffi.RemoteFile (σ × List ReadCall)) : Ffi.RemoteFile σ :=
  ⟨f.world.1, f.len, f.closed⟩

/-- Nor of what the facade asks of its handle. -/
theorem lifts_onHandle {α : Type} {m' : Prog Error (σ × List ReadCall) α} {m : Prog Error σ α}
    (hm : Lifts Prod.fst m' m) :
    Lifts withoutLog (Ffi.RemoteFile.onHandle m') (Ffi.RemoteFile.onHandle m) := by
  apply Lifts.mapErr
  exact hm.zoom (fun _ => rfl) (fun _ _ => rfl)

/-- The handle of the file is the recorded one, or there is none. -/
theorem lifts_handle {α : Type} {k' : FileHandle (σ × List ReadCall) →
      Prog Ffi.KernelError (Ffi.RemoteFile (σ × List ReadCall)) α}
    {k : FileHandle σ → Prog Ffi.KernelError (Ffi.RemoteFile σ) α}
    (hk : Lifts withoutLog (k' h.recorded) (k h)) :
    Lifts withoutLog (Ffi.RemoteFile.handle h.recorded >>= k') (Ffi.RemoteFile.handle h >>= k) := by
  intro f
  have hrun := hk f
  obtain ⟨w, cached, closed⟩ := f
  cases closed with
  | false => exact hrun
  | true => rfl

theorem lifts_facade_readAt (offset len : Nat) : Lifts withoutLog
    (Ffi.RemoteFile.readAt h.recorded offset len) (Ffi.RemoteFile.readAt h offset len) := by
  apply lifts_handle
  refine Lifts.bind (Lifts.iterate (fun buf => ?_) _ _) fun buf => lifts_pure _
  apply Lifts.ite _ (lifts_pure _)
  refine (lifts_checked _).bind fun pos => ?_
  refine (lifts_onHandle (lifts_recorded_readAt pos _)).bind fun bytes => ?_
  exact (lifts_pure _).ite (lifts_pure _)

theorem lifts_facade_readExactAt (offset len : Nat) : Lifts withoutLog
    (Ffi.RemoteFile.readExactAt h.recorded offset len)
    (Ffi.RemoteFile.readExactAt h offset len) := by
  apply lifts_handle
  apply (lifts_pure _).ite
  exact (lifts_onHandle (lifts_readExactAt offset len)).bind fun buf => lifts_pure _

/-! ### Exactness -/

/-- The run of `m` ends as `Fills` says of the reads recorded in that of `m'`. -/
def RunFills {ε α τ' τ : Type} (m' : Prog ε τ' α) (m : Prog ε τ α) (proj : τ' → τ)
    (log : τ' → List ReadCall) (len : Nat) (ofCore : Error → ε) (expected : Except ε α) (t : τ') :
    Prop :=
  ∃ r t', m' t = .ok (r, t') ∧ m (proj t) = .ok (r, proj t') ∧ Fills len ofCore expected r (log t')

/-- What was shown of the recorded run holds of the run itself. -/
theorem runFills_of_wp {ε α τ' τ : Type} {m' : Prog ε τ' α} {m : Prog ε τ α} {proj : τ' → τ}
    {log : τ' → List ReadCall} {ofCore : Error → ε} {expected : Except ε α} {t : τ'}
    (hlifts : Lifts proj m' m) (hwp : wp m' (fillsPost len ofCore expected log) t) :
    RunFills m' m proj log len ofCore expected t := by
  have hrun := hlifts t
  unfold wp at hwp
  cases hm' : m' t with
  | error stop =>
    rw [hm'] at hwp
    exact hwp.elim
  | ok x =>
    obtain ⟨r, t'⟩ := x
    rw [hm'] at hrun hwp
    refine ⟨r, t', hm', hrun.symm, ?_⟩
    cases r <;> exact hwp

/-- **The filling loops are exact** over every handle that keeps its contract. -/
theorem fills_exact (F : FileContent) (hreads : h.Reads I F.bytes (· < 2 ^ 64)) (hI : I s)
    (offset len : Nat) (hoff : offset < 2 ^ 64) (cached : Nat) :
    RunFills (h.recorded.readExactAt offset len) (h.readExactAt offset len) Prod.fst Prod.snd len id
      (exactly F.bytes offset len) (s, []) ∧
    RunFills (Ffi.RemoteFile.readAt h.recorded offset len) (Ffi.RemoteFile.readAt h offset len)
      withoutLog (fun f => f.world.2) len .ofCore (.ok ⟨offset, slice F.bytes offset len⟩)
      ⟨(s, []), cached, false⟩ ∧
    RunFills (Ffi.RemoteFile.readExactAt h.recorded offset len)
      (Ffi.RemoteFile.readExactAt h offset len) withoutLog (fun f => f.world.2) len .ofCore
      (((exactly F.bytes offset len).mapError .ofCore).map (⟨offset, ·⟩))
      ⟨(s, []), cached, false⟩ :=
  ⟨runFills_of_wp (lifts_readExactAt offset len) (wp_readExactAt F.bound hoff hreads hI),
    runFills_of_wp (lifts_facade_readAt offset len)
      (wp_facade_readAt F.bound hoff hreads hI cached),
    runFills_of_wp (lifts_facade_readExactAt offset len)
      (wp_facade_readExactAt F.bound hoff hreads hI cached)⟩

/-- A handle on unchanging content that reads one byte at a time. -/
def FileHandle.dripping (F : List UInt8) : FileHandle Unit where
  readAt offset len := pure (slice F offset (min len 1))
  writeAt _ _ := fail (.unsupported "write")
  setLen _ := fail (.unsupported "set_len")
  flush := pure ()
  close := pure ()
  len _ := F.length

theorem FileHandle.reads_dripping (F : List UInt8) (D : Nat → Prop) :
    (FileHandle.dripping F).Reads (fun _ => True) F D where
  readAt := fun offset len _ _ _ =>
    ⟨trivial, (shortRead_slice F offset (min len 1)).of_le (Nat.min_le_left _ _) (by omega)⟩

/-- Across the end, byte by byte: the one loop fails, and the other reads what there is. -/
theorem fills_exact_dripping :
    RunFills ((FileHandle.dripping [1, 2, 3]).recorded.readExactAt 1 4)
      ((FileHandle.dripping [1, 2, 3]).readExactAt 1 4) Prod.fst Prod.snd 4 id
      (.error (.io ⟨.unexpectedEof, "file ended after 2 of 4 bytes at offset 1"⟩)) ((), []) ∧
    RunFills (Ffi.RemoteFile.readAt (FileHandle.dripping [1, 2, 3]).recorded 1 4)
      (Ffi.RemoteFile.readAt (FileHandle.dripping [1, 2, 3]) 1 4) withoutLog (fun f => f.world.2) 4
      .ofCore (.ok ⟨1, [2, 3]⟩) ⟨((), []), 3, false⟩ := by
  obtain ⟨hexact, hfill, -⟩ := fills_exact ⟨[1, 2, 3], by decide⟩
    (FileHandle.reads_dripping [1, 2, 3] (· < 2 ^ 64)) trivial 1 4 (by decide) 3
  exact ⟨hexact, hfill⟩

end Krystallos
