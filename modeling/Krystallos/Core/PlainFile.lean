import Krystallos.Core.Handle
import Krystallos.Lib.Contract

namespace Krystallos

open Checked Contract Prog Slices

/-!
# What an open file is for

The layers above a backend call a file one call at a time, and a `PlainFile` says what they may
rely on: it has a content, a read gives some of it, `read_exact_at` all that it was asked for or an
error, and a write or a truncation that succeeds changes it as it says.  One that fails may have changed it in any way.  A layer that keeps bytes
of its own and does not drop them then may go on showing what was there before, so the earlier
contents are remembered until a change succeeds.
-/

/-- The calls on a file that is open. -/
inductive FileOp
  | readAt (offset len : Nat)
  | readExactAt (offset len : Nat)
  | writeAt (offset : Nat) (data : List UInt8)
  | setLen (len : Nat)
  | flush
deriving DecidableEq, Repr

/-- What a call that succeeds answers. -/
def FileOp.Answer : FileOp → Type
  | .readAt _ _ | .readExactAt _ _ => List UInt8
  | .writeAt _ _ => Nat
  | .setLen _ | .flush => Unit

/-- The calls, each of which may fail with an `E`. -/
def fileCalls (E : Type) : Interface := ⟨FileOp, fun op => Except E op.Answer⟩

/-- The calls of a handle. A failure is an answer too. -/
def FileHandle.calls {σ ε : Type} (h : FileHandle σ) : Impl (fileCalls Error) ε σ
  | .readAt offset len => capture (h.readAt offset len)
  | .readExactAt offset len => capture (h.readExactAt offset len)
  | .writeAt offset data => capture (h.writeAt offset data)
  | .setLen len => capture (h.setLen len)
  | .flush => capture h.flush

/-- What a file holds, and what it held before the calls that failed since it last was changed. -/
structure PlainFile where
  content : FileContent
  past : List FileContent

namespace PlainFile

/-- What a reader may come to see. -/
def contents (x : PlainFile) : List FileContent := x.content :: x.past

/-- The file that holds `content`, and nothing is known to have failed. -/
def holding (content : FileContent) : PlainFile := ⟨content, []⟩

/-- A change that failed has left `x'`. -/
def Failed (x x' : PlainFile) : Prop := x'.past = x.contents

/-- A change that succeeded has left `bytes`. -/
def Changed (bytes : List UInt8) (x' : PlainFile) : Prop :=
  x'.content.bytes = bytes ∧ x'.past = []

/-- A write has accepted `n` bytes of `data`. -/
def Wrote (x : PlainFile) (offset : Nat) (data : List UInt8) (n : Nat) (x' : PlainFile) : Prop :=
  n ≤ data.length ∧ Changed (overwrite x.content.bytes offset (data.take n)) x'

/-- A write ends at a `u64`, since the file reaches that far. -/
theorem Wrote.add_lt {x x' : PlainFile} {offset n : Nat} {data : List UInt8}
    (h : x.Wrote offset data n x') (hoff : offset < 2 ^ 64) : offset + n < 2 ^ 64 := by
  obtain ⟨hn, hbytes, -⟩ := h
  by_cases hn0 : n = 0
  · rwa [hn0]
  · have hlen : (data.take n).length = n := by rw [List.length_take, Nat.min_eq_left hn]
    have hne : data.take n ≠ [] := by
      rw [← List.length_pos_iff, hlen]
      omega
    have hgrown := add_length_le_overwrite x.content.bytes offset hne
    rw [← hbytes, hlen] at hgrown
    exact lt_of_le_of_lt hgrown x'.content.bound

variable {E : Type}

/-- What a file may answer, where `reads` says what a read may give and `exact` what one may that
    gives all it was asked for. -/
def Answers (reads exact : PlainFile → Nat → Nat → List UInt8 → Prop) (x : PlainFile) :
    (op : FileOp) → Except E op.Answer → PlainFile → Prop
  | .readAt offset len, .ok bs, x' => x' = x ∧ reads x offset len bs
  | .readExactAt offset len, .ok bs, x' => x' = x ∧ exact x offset len bs
  | .readAt _ _, .error _, x' | .readExactAt _ _, .error _, x' => x' = x
  | .writeAt offset data, .ok n, x' => Wrote x offset data n x'
  | .setLen len, .ok _, x' => Changed (resize x.content.bytes len) x'
  | .writeAt _ _, .error _, x' | .setLen _, .error _, x' => Failed x x'
  | .flush, _, x' => x' = x

/-- Offsets and lengths are `u64`s, and reads are made where `reach` allows. -/
def Asks (reach : PlainFile → Nat → Prop) (x : PlainFile) : FileOp → Prop
  | .readAt offset _ => offset < 2 ^ 64 ∧ reach x offset
  | .readExactAt offset len => offset < 2 ^ 64 ∧ ∀ i < len, reach x (offset + i)
  | .writeAt offset _ => offset < 2 ^ 64
  | .setLen len => len < 2 ^ 64
  | .flush => True

/-- A file whose reads are made where `reach` allows and give what `reads` and `exact` say. -/
def spec (E : Type) (reach : PlainFile → Nat → Prop)
    (reads exact : PlainFile → Nat → Nat → List UInt8 → Prop) : Spec (fileCalls E) PlainFile :=
  ⟨Asks reach, Answers reads exact⟩

/-- Reads can be made anywhere. -/
def anywhere (_ : PlainFile) (_ : Nat) : Prop := True

/-- Past the end of what may be seen, offsets fit in a `usize` of `ptr` bits. -/
def within (ptr : Nat) (x : PlainFile) (offset : Nat) : Prop :=
  ∀ F ∈ x.contents, offset ≤ F.bytes.length ∨ offset < 2 ^ ptr

/-- A read may be short, but is empty only at the end. -/
def short (x : PlainFile) (offset len : Nat) (bs : List UInt8) : Prop :=
  ShortRead x.content.bytes offset len bs

/-- A read gives everything that the request covers. -/
def whole (x : PlainFile) (offset len : Nat) (bs : List UInt8) : Prop :=
  bs = slice x.content.bytes offset len

/-- Every byte that was asked for. -/
def every (x : PlainFile) (offset len : Nat) (bs : List UInt8) : Prop :=
  bs.length = len ∧ bs = slice x.content.bytes offset len

/-- **A backend's file.** -/
abbrev shortSpec (E : Type) : Spec (fileCalls E) PlainFile := spec E anywhere short every

/-- **A file as the other side of the FFI sees it.** -/
abbrev wholeSpec (E : Type) : Spec (fileCalls E) PlainFile := spec E anywhere whole every

/-! ### Reads that are put together -/

/-- What the reads of `read_exact_at` give together is what it may give. -/
structure Gathers (reads exact : PlainFile → Nat → Nat → List UInt8 → Prop) : Prop where
  start : ∀ x offset, exact x offset 0 []
  fits : ∀ x offset len bs, reads x offset len bs → bs.length ≤ len
  reached : ∀ x offset buf, offset < 2 ^ 64 → exact x offset buf.length buf →
    offset + buf.length < 2 ^ 64
  append : ∀ x offset buf len bs, exact x offset buf.length buf →
    reads x (offset + buf.length) len bs → exact x offset (buf ++ bs).length (buf ++ bs)

/-- Every byte of a request is what the file has there. -/
theorem every_iff {x : PlainFile} {offset : Nat} {bs : List UInt8} :
    every x offset bs.length bs ↔ bs = slice x.content.bytes offset bs.length :=
  and_iff_right rfl

/-- Reads that may be short gather every byte. -/
theorem gathers_short : Gathers short every where
  start x offset := ⟨rfl, by simp⟩
  fits x offset len bs h := h.fits
  reached x offset buf hoff h := add_length_lt_of_eq_slice (every_iff.mp h) x.content.bound hoff
  append x offset buf len bs h hread := every_iff.mpr (hread.append (every_iff.mp h))

end PlainFile

/-! ### Handles -/

variable {σ ε : Type}

/-- What each call of a handle establishes, where `R` relates the file to the state. -/
structure FileHandle.IsPlain (h : FileHandle σ) (R : PlainFile → σ → Prop)
    (reach : PlainFile → Nat → Prop) (reads : PlainFile → Nat → Nat → List UInt8 → Prop) :
    Prop where
  readAt : ∀ offset len x s, R x s → offset < 2 ^ 64 → reach x offset →
    wp (h.readAt offset len) ⟨fun bs s' => R x s' ∧ reads x offset len bs, fun _ s' => R x s',
      fun _ => False⟩ s
  writeAt : ∀ offset data x s, R x s → offset < 2 ^ 64 →
    wp (h.writeAt offset data) ⟨fun n s' => ∃ x', x.Wrote offset data n x' ∧ R x' s',
      fun _ s' => ∃ x', x.Failed x' ∧ R x' s', fun _ => False⟩ s
  setLen : ∀ len x s, R x s → len < 2 ^ 64 →
    wp (h.setLen len) ⟨fun _ s' => ∃ x', PlainFile.Changed (resize x.content.bytes len) x' ∧ R x' s',
      fun _ s' => ∃ x', x.Failed x' ∧ R x' s', fun _ => False⟩ s
  flush : ∀ x s, R x s → wp h.flush ⟨fun _ s' => R x s', fun _ s' => R x s', fun _ => False⟩ s

/-- The file of a backend. -/
abbrev FileHandle.IsShort (h : FileHandle σ) (R : PlainFile → σ → Prop) : Prop :=
  h.IsPlain R PlainFile.anywhere PlainFile.short

section Gather

variable {h : FileHandle σ} {R : PlainFile → σ → Prop} {reach : PlainFile → Nat → Prop}
  {reads exact : PlainFile → Nat → Nat → List UInt8 → Prop} {x : PlainFile} {offset len : Nat}

/-- `read_exact_at` ends with all that was asked for, or fails. -/
def exactPost (R : PlainFile → σ → Prop) (exact : PlainFile → Nat → Nat → List UInt8 → Prop)
    (x : PlainFile) (offset len : Nat) : Post Error σ (List UInt8) where
  ret := fun bs s => R x s ∧ exact x offset len bs
  fail := fun _ s => R x s
  stop := fun _ => False

/-- **Step lemma.** What was read so far is all that was asked for up to there. -/
theorem FileHandle.IsPlain.wp_exactTurn (hplain : h.IsPlain R reach reads)
    (hgathers : PlainFile.Gathers reads exact) (hoff : offset < 2 ^ 64)
    (hreach : ∀ i < len, reach x (offset + i)) (buf : List UInt8) (s : σ)
    (hs : R x s ∧ exact x offset buf.length buf ∧ buf.length ≤ len) :
    wp (h.exactTurn offset len buf)
      (turnPost (fun buf s => R x s ∧ exact x offset buf.length buf ∧ buf.length ≤ len)
        (fun buf _ => len - buf.length) (exactPost R exact x offset len) (len - buf.length)) s := by
  obtain ⟨hR, hbuf, hle⟩ := hs
  refine wp_ite (fun hlt => ?_) (fun hfull => ?_)
  · have hpos := hgathers.reached x offset buf hoff hbuf
    simp only [wp_bind, wp_checked_ok (addU_ok hpos)]
    refine wp_mono (hplain.readAt _ (len - buf.length) x s hR hpos (hreach _ hlt)) ?_
      (fun _ _ h => h) (fun _ h => h)
    rintro bs s' ⟨hR', hreads⟩
    refine wp_ite (fun _ => hR') (fun hne => ?_)
    have hfits := length_append_le_of_rest hlt (hgathers.fits _ _ _ _ hreads)
    exact ⟨⟨hR', hgathers.append _ _ _ _ _ hbuf hreads, hfits⟩, rest_append_lt hlt hne⟩
  · have hlen : buf.length = len := by omega
    rw [hlen] at hbuf
    exact ⟨hR, hbuf⟩

/-- **`read_exact_at`** of a plain file. -/
theorem FileHandle.IsPlain.wp_readExactAt (hplain : h.IsPlain R reach reads)
    (hgathers : PlainFile.Gathers reads exact) (hoff : offset < 2 ^ 64)
    (hreach : ∀ i < len, reach x (offset + i)) {s : σ} (hR : R x s) :
    wp (h.readExactAt offset len) (exactPost R exact x offset len) s :=
  wp_iterate _ (fun buf _ => len - buf.length) (hplain.wp_exactTurn hgathers hoff hreach)
    ⟨hR, hgathers.start x offset, Nat.zero_le _⟩ (.inl (by simp))

/-- Such a handle meets the contract. -/
theorem FileHandle.IsPlain.meets (hplain : h.IsPlain R reach reads)
    (hgathers : PlainFile.Gathers reads exact) :
    Meets (ε := ε) h.calls R (PlainFile.spec Error reach reads exact) where
  call := by
    intro op x s hR hpre
    cases op with
    | readAt offset len =>
      refine (wp_capture _).mpr (wp_mono (hplain.readAt offset len x s hR hpre.1 hpre.2) ?_ ?_
        (fun _ h => h))
      · rintro bs s' ⟨hR', hreads⟩
        exact ⟨x, ⟨rfl, hreads⟩, hR'⟩
      · intro e s' hR'
        exact ⟨x, rfl, hR'⟩
    | readExactAt offset len =>
      refine (wp_capture _).mpr (wp_mono (hplain.wp_readExactAt hgathers hpre.1 hpre.2 hR) ?_ ?_
        (fun _ h => h))
      · rintro bs s' ⟨hR', hexact⟩
        exact ⟨x, ⟨rfl, hexact⟩, hR'⟩
      · intro e s' hR'
        exact ⟨x, rfl, hR'⟩
    | writeAt offset data =>
      exact (wp_capture _).mpr (hplain.writeAt offset data x s hR hpre)
    | setLen len => exact (wp_capture _).mpr (hplain.setLen len x s hR hpre)
    | flush =>
      refine (wp_capture _).mpr (wp_mono (hplain.flush x s hR) ?_ ?_ (fun _ h => h))
      · intro _ s' hR'
        exact ⟨x, rfl, hR'⟩
      · intro _ s' hR'
        exact ⟨x, rfl, hR'⟩

end Gather

end Krystallos
