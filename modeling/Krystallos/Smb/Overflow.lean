import Krystallos.Smb.Classify
import Krystallos.Smb.Faithful

namespace Krystallos.Smb

open Checked Prog

/-!
# What the session thread's arithmetic can overflow

Two places do arithmetic on what the library returns.  `from_parts` negates the return value,
which the least one does not survive (`fromParts_ok_iff`), and the writing loop of
`copy_through_here` adds up what `smb2_pwrite` says it wrote.
-/

/-! ### Classification -/

theorem isSome_returnVariant (plat : Errno) (rc : Int) :
    (returnVariant plat rc).isSome ↔ -rc < 2 ^ 31 := by
  unfold returnVariant
  split_ifs with hlost hzero hneg
  · simp [hlost]
  · simp [hzero]
  · exact iff_of_true rfl hneg
  · exact iff_of_false (by simp) hneg

/-- **Classifying a failure** overflows only for the least return value, and then only where
    neither the status nor the message says what it is. -/
theorem fromParts_ok_iff (plat : Errno) (statusName : Nat → String) (nterror : Nat) (rc : Int)
    (message : String) (path : Option String) :
    (∃ e, fromParts plat statusName nterror rc message path = .ok e) ↔
      (statusVariant nterror).isSome ∨ (namedVariant message).isSome ∨ -rc < 2 ^ 31 := by
  have hsome : (∃ e, fromParts plat statusName nterror rc message path = .ok e) ↔
      (variantOf (fromParts plat statusName nterror rc message path)).isSome := by
    rcases fromParts plat statusName nterror rc message path with p | e
    · exact iff_of_false (fun ⟨_, h⟩ => nomatch h) (by simp [variantOf, Except.toOption])
    · exact iff_of_true ⟨e, rfl⟩ (by simp [variantOf, Except.toOption])
  rw [hsome, variantOf_fromParts, ownVariant, Option.isSome_or, Option.isSome_or, Bool.or_eq_true,
    Bool.or_eq_true, isSome_returnVariant]

variable {W : Type} {lib : Libsmb2 W}

/-- Classifying the failure of the call just made, where the return value can be negated. -/
theorem wp_ctxError_of {ε : Type} {rc : Int} {path : String} {p : Post ε (Ctx W) Error}
    {s : Ctx W} (hret : ∀ e, p.ret e s) (hstop : ¬ -rc < 2 ^ 31 → ∀ q, p.stop (.panic q)) :
    wp (ctxError lib rc path) p s := by
  rw [ctxError, wp_bind, wp_current]
  dsimp only
  rw [wp_checked]
  split
  · next q hpanic =>
    refine hstop (fun hneg => ?_) q
    obtain ⟨e, hok⟩ := (fromParts_ok_iff lib.errno lib.statusName (lib.nterror s.world) rc
      (lib.message s.world) (some path)).mpr (.inr (.inr hneg))
    rw [hok] at hpanic
    cases hpanic
  · exact hret _

/-! ### The writing loop -/

variable {src dst : Fh} {buf : List UInt8} {read written : Int} {offset size fuel : Nat}
  {s s' : Ctx W}

/-- The write that the loop makes with `written` bytes done. -/
def writeCall (dst : Fh) (buf : List UInt8) (read : Int) (offset : Nat) (written : Int) : Call :=
  .pwrite dst ((buf.drop written.toNat).take (read - written).toNat) (offset + written.toNat)

/-- What the library says that the write put into the file. -/
def writeCount (lib : Libsmb2 W) (dst : Fh) (buf : List UInt8) (read : Int) (offset : Nat)
    (written : Int) (s : Ctx W) : Int :=
  (lib.call (writeCall dst buf read offset written) s.world).1

/-- A turn of the loop, call by call. -/
theorem writeTurn_eq (hmore : written < read) (hpos : offset + written.toNat < 2 ^ 64) :
    writeTurn lib dst buf read offset written s =
      (if writeCount lib dst buf read offset written s ≤ 0 then
        failWith lib (writeCount lib dst buf read offset written s) "copy (write)"
      else do
        let written' ← checked (addI 32 written (writeCount lib dst buf read offset written s))
        pure (.again written')) (s.after lib (writeCall dst buf read offset written)) := by
  rw [writeTurn, if_pos hmore, addU_ok hpos]
  rfl

/-- A turn whose write succeeds and whose sum fits goes on with the sum. -/
theorem again_writeTurn {sum : Int} (hmore : written < read) (hpos : offset + written.toNat < 2 ^ 64)
    (hcount : 0 < writeCount lib dst buf read offset written s)
    (hsum : addI 32 written (writeCount lib dst buf read offset written s) = .ok sum) :
    Again (writeTurn lib dst buf read offset) (written, s)
      (sum, s.after lib (writeCall dst buf read offset written)) := by
  show writeTurn lib dst buf read offset written s = _
  rw [writeTurn_eq hmore hpos, if_neg (by omega)]
  simp only [bind, checked, hsum, run_pure]

/-- The loop goes on with what was written added. -/
theorem writeTurn_again {written' : Int} (hpos : offset + read.toNat < 2 ^ 64)
    (h : writeTurn lib dst buf read offset written s = .ok (.ok (.again written'), s')) :
    written < read ∧ 0 < writeCount lib dst buf read offset written s ∧
      written' = written + writeCount lib dst buf read offset written s := by
  by_cases hmore : written < read
  · rw [writeTurn_eq hmore (by omega)] at h
    by_cases hfailed : writeCount lib dst buf read offset written s ≤ 0
    · rw [if_pos hfailed] at h
      -- a write that takes nothing ends the loop
      have hnever : wp (failWith lib (writeCount lib dst buf read offset written s) "copy (write)" :
          Prog Error (Ctx W) (Turn Int Unit)) ⟨fun _ _ => False, fun _ _ => True, fun _ => True⟩
          (s.after lib (writeCall dst buf read offset written)) :=
        wp_failWith (fun _ => trivial) (fun _ => trivial)
      exact (wp_ret hnever h).elim
    · rw [if_neg hfailed] at h
      refine ⟨hmore, by omega, ?_⟩
      rcases hsum : addI 32 written (writeCount lib dst buf read offset written s) with p | w
      · simp only [bind, checked, hsum] at h
        cases h
      · simp only [bind, checked, hsum, run_pure, Except.ok.injEq, Prod.mk.injEq,
          Turn.again.injEq] at h
        rw [← h.1, eq_add_of_addI hsum]
  · rw [writeTurn, if_neg hmore] at h
    cases h

/-- No write of the loop is credited with more than it was given. -/
def CreditsFit (lib : Libsmb2 W) (dst : Fh) (buf : List UInt8) (read : Int) (offset : Nat)
    (written : Int) (s : Ctx W) : Prop :=
  written < read → writeCount lib dst buf read offset written s ≤ read - written

/-- What is written stays within what was read, and adding up does not overflow. -/
structure WithinRead (lib : Libsmb2 W) (dst : Fh) (buf : List UInt8) (read : Int) (offset : Nat)
    (written : Int) (s : Ctx W) : Prop where
  nonneg : 0 ≤ written
  le : written ≤ read
  adds : written < read → 0 < writeCount lib dst buf read offset written s →
    ∃ sum, addI 32 written (writeCount lib dst buf read offset written s) = .ok sum

/-- A sum within what was read is an `i32`. -/
theorem addI_of_fits {n : Int} (hread : read < 2 ^ 31) (hwritten : 0 ≤ written) (hn : 0 < n)
    (hfits : n ≤ read - written) : addI 32 written n = .ok (written + n) :=
  if_pos (by omega)

/-- **The writing loop** stays within what was read, at every head it comes to, if and only if no
    write it makes is credited with more than it was given. -/
theorem writes_within_iff (hpos : 0 < read) (hread : read < 2 ^ 31)
    (hoffset : offset + read.toNat < 2 ^ 64) (s : Ctx W) :
    (∀ y, Heads (writeTurn lib dst buf read offset) (0, s) y →
        WithinRead lib dst buf read offset y.1 y.2) ↔
      ∀ y, Heads (writeTurn lib dst buf read offset) (0, s) y →
        CreditsFit lib dst buf read offset y.1 y.2 := by
  constructor
  · intro hwithin y hy hmore
    by_contra hover
    have hcount : 0 < writeCount lib dst buf read offset y.1 y.2 := by omega
    obtain ⟨sum, hsum⟩ := (hwithin y hy).adds hmore hcount
    -- the loop comes to a head beyond what was read
    have hturn := again_writeTurn hmore (by omega) hcount hsum
    have hnext := (hwithin _ (hy.tail hturn)).le
    have hadded := eq_add_of_addI hsum
    dsimp only at hnext
    omega
  · intro hfits y hy
    have hrange : 0 ≤ y.1 ∧ y.1 ≤ read := by
      induction hy with
      | refl => exact ⟨le_rfl, le_of_lt hpos⟩
      | tail hy hturn ih =>
        obtain ⟨hmore, hcount, hadded⟩ := writeTurn_again hoffset hturn
        have hfit := hfits _ hy hmore
        omega
    refine ⟨hrange.1, hrange.2, fun hmore hcount => ?_⟩
    exact ⟨_, addI_of_fits hread hrange.1 hcount (hfits y hy hmore)⟩

/-! ### The whole copy -/

/-- The fallback comes to a head of its writing loop: `read` bytes were read into `buf` at
    `offset`, and `written` of them are done. -/
inductive WriteHead (lib : Libsmb2 W) (src dst : Fh) (size fuel : Nat) (s : Ctx W) :
    List UInt8 → Int → Nat → Int → Ctx W → Prop
  | mk {offset want : Nat} {buf₀ bytes : List UInt8} {read written : Int} {s₁ s₂ : Ctx W}
      (houter : Heads (copyThroughHereTurn lib src dst size fuel)
        ((0, List.replicate copyChunkBytes 0), s) ((offset, buf₀), s₁))
      (hin : offset < size) (hwant : want = castU 32 (min (size - offset) buf₀.length))
      (hread : (lib.call (.pread src want offset) s₁.world).1 = (read, bytes)) (hpos : 0 < read)
      (hinner : Heads (writeTurn lib dst (fillBuf buf₀ want bytes) read offset)
        (0, s₁.after lib (.pread src want offset)) (written, s₂)) :
      WriteHead lib src dst size fuel s (fillBuf buf₀ want bytes) read offset written s₂

/-- What a read is asked for is no more than the buffer holds, or than is left. -/
theorem want_le (size offset : Nat) (buf : List UInt8) :
    castU 32 (min (size - offset) buf.length) ≤ buf.length ∧
      castU 32 (min (size - offset) buf.length) ≤ size - offset := by
  have hcast : castU 32 (min (size - offset) buf.length) ≤ min (size - offset) buf.length :=
    Nat.mod_le _ _
  exact ⟨le_trans hcast (Nat.min_le_right _ _), le_trans hcast (Nat.min_le_left _ _)⟩

/-- The buffer keeps its size over a turn of the fallback. -/
theorem wp_copyThroughHereTurn_buf (b : Nat × List UInt8) (s : Ctx W) :
    wp (copyThroughHereTurn lib src dst size fuel b)
      (keepPost (fun b' _ => b'.2.length = b.2.length) ⟨fun _ _ => True, fun _ _ => True,
        fun _ => True⟩) s := by
  obtain ⟨offset, buf⟩ := b
  refine wp_ite (fun _ => ?_) (fun _ => trivial)
  rw [wp_bind, wp_ffi]
  refine wp_ite (fun _ => wp_failWith (fun _ => trivial) (fun _ => trivial)) (fun _ => ?_)
  refine wp_ite (fun _ => trivial) (fun _ => ?_)
  rw [wp_bind]
  refine wp_of_forall (fun _ s₂ => ?_) (fun _ _ => trivial) (fun _ => trivial)
  refine (wp_bind _ _).mpr (wp_checked_of (fun offset' _ => ?_) (fun _ => trivial))
  exact length_fillBuf (want_le size offset buf).1 _

/-- It has its size at every head of the fallback's loop. -/
theorem length_buf_of_heads {x y : (Nat × List UInt8) × Ctx W}
    (h : Heads (copyThroughHereTurn lib src dst size fuel) x y)
    (hbuf : x.1.2.length = copyChunkBytes) : y.1.2.length = copyChunkBytes := by
  refine h.invariant (I := fun b _ => b.2.length = copyChunkBytes) ?_ hbuf
  intro b s b' s' hb hturn
  have hkept : b'.2.length = b.2.length := wp_ret (wp_copyThroughHereTurn_buf b s) hturn
  exact hkept.trans hb

/-- **The session thread's arithmetic.** The writing loop of the fallback stays within what was
    read, and within the buffer, if and only if no write is credited with more than it was given;
    and a failure is classified without overflow if and only if it does not come with the least
    return value, or its status or its message says what it is. -/
theorem arithmetic_iff (lib : Libsmb2 W)
    (hpread : ∀ fh count offset w, (lib.call (.pread fh count offset) w).1.1 ≤ (count : Int))
    (src dst : Fh) (size fuel : Nat) (hsize : size < 2 ^ 64) (s : Ctx W) (plat : Errno)
    (statusName : Nat → String) (nterror : Nat) (rc : Int) (hrc : -2 ^ 31 ≤ rc)
    (message : String) (path : Option String) :
    ((∀ buf read offset written s', WriteHead lib src dst size fuel s buf read offset written s' →
        WithinRead lib dst buf read offset written s' ∧ read ≤ buf.length) ↔
      ∀ buf read offset written s', WriteHead lib src dst size fuel s buf read offset written s' →
        CreditsFit lib dst buf read offset written s') ∧
    ((∃ e, fromParts plat statusName nterror rc message path = .ok e) ↔
      (statusVariant nterror).isSome ∨ (namedVariant message).isSome ∨ rc ≠ -2 ^ 31) := by
  constructor
  · -- one writing loop at a time
    have hloop : ∀ {offset want : Nat} {buf₀ bytes : List UInt8} {read : Int} {s₁ : Ctx W},
        Heads (copyThroughHereTurn lib src dst size fuel)
          ((0, List.replicate copyChunkBytes 0), s) ((offset, buf₀), s₁) →
        offset < size → want = castU 32 (min (size - offset) buf₀.length) →
        (lib.call (.pread src want offset) s₁.world).1 = (read, bytes) → 0 < read →
        read ≤ (fillBuf buf₀ want bytes).length ∧ read < 2 ^ 31 ∧ offset + read.toNat < 2 ^ 64 := by
      intro offset want buf₀ bytes read s₁ houter hin hwant hread hpos
      have hbuf : buf₀.length = copyChunkBytes := length_buf_of_heads houter List.length_replicate
      obtain ⟨hle, hleft⟩ := want_le size offset buf₀
      have hmost := hpread src want offset s₁.world
      rw [hread] at hmost
      rw [← hwant] at hle hleft
      rw [length_fillBuf hle]
      dsimp only at hmost
      unfold copyChunkBytes at hbuf
      omega
    constructor
    · -- each loop stays within the read if and only if its credits fit
      intro hwithin buf read offset written s' hhead
      obtain ⟨houter, hin, hwant, hread, hpos, hinner⟩ := hhead
      obtain ⟨-, hlt, hend⟩ := hloop houter hin hwant hread hpos
      refine (writes_within_iff hpos hlt hend _).mp (fun y hy => ?_) _ hinner
      exact (hwithin _ _ _ _ _ ⟨houter, hin, hwant, hread, hpos, hy⟩).1
    · intro hfits buf read offset written s' hhead
      obtain ⟨houter, hin, hwant, hread, hpos, hinner⟩ := hhead
      obtain ⟨hbuf, hlt, hend⟩ := hloop houter hin hwant hread hpos
      refine ⟨(writes_within_iff hpos hlt hend _).mpr (fun y hy => ?_) _ hinner, hbuf⟩
      exact hfits _ _ _ _ _ ⟨houter, hin, hwant, hread, hpos, hy⟩
  · -- the classification negates the return value only where nothing else says what failed
    rw [fromParts_ok_iff]
    have hneg : -rc < 2 ^ 31 ↔ rc ≠ -2 ^ 31 := by omega
    rw [hneg]

/-- A server that credits writes with what they were given. -/
theorem arithmetic_truthful :
    (∀ buf read offset written s', WriteHead (MemServer.lib .none) 1 2 3 1 ⟨MemServer.ready, []⟩
        buf read offset written s' →
      WithinRead (MemServer.lib .none) 2 buf read offset written s' ∧ read ≤ buf.length) ∧
    ∃ e, fromParts .linux (fun _ => "") 0 (-5) "" (some "copy (write)") = .ok e := by
  obtain ⟨hwrites, hparts⟩ := arithmetic_iff (MemServer.lib .none) (MemServer.pread_le .none) 1 2 3 1
    (by decide) ⟨MemServer.ready, []⟩ .linux (fun _ => "") 0 (-5) (by decide) "" (some "copy (write)")
  refine ⟨hwrites.mpr fun buf read offset written s' _ hmore => ?_,
    hparts.mpr (.inr (.inr (by decide)))⟩
  have hcount := MemServer.pwrite_le .none 2 ((buf.drop written.toNat).take (read - written).toNat)
    (offset + written.toNat) s'.world rfl
  have hlength := List.length_take_le (read - written).toNat (buf.drop written.toNat)
  unfold writeCount writeCall
  omega

/-- **A write that is credited with too much** takes the loop beyond what was read, here by all of
    `i32`; and the least return value overflows where it is classified. -/
theorem arithmetic_overflows :
    (∃ buf s', WriteHead (MemServer.crediting (2 ^ 31 - 1)) 1 2 3 1 ⟨MemServer.ready, []⟩ buf 3 0
      (2 ^ 31 - 1) s') ∧
    fromParts .linux (fun _ => "") 0 (-2 ^ 31) "" none = .error .subOverflow := by
  constructor
  · have hbuf : (List.replicate copyChunkBytes (0 : UInt8)).length = copyChunkBytes :=
      List.length_replicate
    have hwant : 3 = castU 32 (min (3 - 0) (List.replicate copyChunkBytes (0 : UInt8)).length) := by
      rw [hbuf]
      rfl
    have hread : ((MemServer.crediting (2 ^ 31 - 1)).call (.pread 1 3 0) MemServer.ready).1 =
        ((3 : Int), [1, 2, 3]) := rfl
    have hsum : addI 32 0 (2 ^ 31 - 1) = .ok (2 ^ 31 - 1) := by decide
    have hturn : ∀ buf s, Again (writeTurn (MemServer.crediting (2 ^ 31 - 1)) 2 buf 3 0) (0, s)
        (2 ^ 31 - 1, s.after (MemServer.crediting (2 ^ 31 - 1)) (writeCall 2 buf 3 0 0)) :=
      fun buf s => again_writeTurn (by decide) (by decide)
        (show (0 : Int) < 2 ^ 31 - 1 by decide) hsum
    exact ⟨_, _, .mk .refl (by decide) hwant hread (by decide) (.single (hturn _ _))⟩
  · rfl

end Krystallos.Smb
