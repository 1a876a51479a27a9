import Krystallos.Smb.Copy

namespace Krystallos.Smb

open Prog

/-!
# Which calls a program makes

`Makes lib C m` says that `m` gets from the state it starts in to the state it ends in by
calls in `C` and in no other way.  What calls in `C` preserve, `m` then preserves.
-/

variable {W ε ε' α β γ : Type} {lib : Libsmb2 W} {C : Call → Prop}

/-- One call in `C`. -/
def CallStep (lib : Libsmb2 W) (C : Call → Prop) (s s' : Ctx W) : Prop :=
  ∃ c, C c ∧ s' = s.after lib c

/-- Any number of calls in `C`. -/
abbrev Led (lib : Libsmb2 W) (C : Call → Prop) : Ctx W → Ctx W → Prop :=
  Relation.ReflTransGen (CallStep lib C)

/-- `m` makes only calls in `C`. -/
def Makes (lib : Libsmb2 W) (C : Call → Prop) (m : Prog ε (Ctx W) α) : Prop :=
  ∀ s, wp m ⟨fun _ s' => Led lib C s s', fun _ s' => Led lib C s s', fun _ => True⟩ s

/-- **Invariants.** What every call in `C` preserves holds after any number of them. -/
theorem Led.invariant {I : Ctx W → Prop} (hcall : ∀ c s, C c → I s → I (s.after lib c))
    {s s' : Ctx W} (h : Led lib C s s') (hI : I s) : I s' := by
  induction h with
  | refl => exact hI
  | tail _ hstep ih =>
    obtain ⟨c, hc, rfl⟩ := hstep
    exact hcall c _ hc ih

/-- The calls made between two states are in the trace. -/
theorem Led.trace {C : Call → Prop} {s s' : Ctx W} (h : Led lib C s s') :
    ∃ calls, s'.trace = s.trace ++ calls ∧ ∀ ev ∈ calls, C ev.call := by
  induction h with
  | refl => exact ⟨[], (List.append_nil _).symm, by simp⟩
  | tail _ hstep ih =>
    obtain ⟨calls, htrace, hcalls⟩ := ih
    obtain ⟨c, hc, rfl⟩ := hstep
    refine ⟨calls ++ [⟨c, _⟩], by rw [Ctx.after, htrace, List.append_assoc], ?_⟩
    simpa [or_imp, forall_and] using ⟨hcalls, hc⟩

/-- A program that makes only calls in `C` keeps what they keep, however it ends. -/
theorem Makes.wp_invariant {m : Prog ε (Ctx W) α} (hm : Makes lib C m) {I : Ctx W → Prop}
    (hcall : ∀ c s, C c → I s → I (s.after lib c)) {s : Ctx W} (hI : I s) :
    wp m ⟨fun _ s' => I s', fun _ s' => I s', fun _ => True⟩ s :=
  wp_mono (hm s) (fun _ _ h => h.invariant hcall hI) (fun _ _ h => h.invariant hcall hI)
    (fun _ h => h)

/-- More calls. -/
theorem Makes.mono {C' : Call → Prop} {m : Prog ε (Ctx W) α} (hm : Makes lib C m)
    (hC : ∀ c, C c → C' c) : Makes lib C' m :=
  fun _ => hm.wp_invariant (fun c _ hc h => h.tail ⟨c, hC c hc, rfl⟩) .refl

/-! ### The calls made since -/

section

variable {start s : Ctx W} {P Q : List Event → Prop}

/-- `P` holds of the calls made since `start`. -/
def Since (start s : Ctx W) (P : List Event → Prop) : Prop :=
  ∃ calls, s.trace = start.trace ++ calls ∧ P calls

/-- No call yet. -/
theorem Since.refl (h : P []) : Since s s P := ⟨[], (List.append_nil _).symm, h⟩

/-- The calls since are the same, whatever is said of them. -/
theorem Since.mono (h : Since start s P) (hPQ : ∀ calls, P calls → Q calls) : Since start s Q := by
  obtain ⟨calls, htrace, hP⟩ := h
  exact ⟨calls, htrace, hPQ calls hP⟩

/-- One more call. -/
theorem Since.after (h : Since start s P) {c : Call} {reply : c.Reply}
    (hreply : (lib.call c s.world).1 = reply) (hPQ : ∀ calls, P calls → Q (calls ++ [⟨c, reply⟩])) :
    Since start (s.after lib c) Q := by
  obtain ⟨calls, htrace, hP⟩ := h
  refine ⟨calls ++ [⟨c, reply⟩], ?_, hPQ calls hP⟩
  rw [Ctx.after, htrace, hreply, List.append_assoc]

/-- A first call. -/
theorem Since.first {c : Call} {reply : c.Reply} (hreply : (lib.call c s.world).1 = reply)
    (hQ : Q [⟨c, reply⟩]) : Since s (s.after lib c) Q :=
  ⟨[⟨c, reply⟩], by rw [Ctx.after, hreply], hQ⟩

end

/-! ### One rule for each way a program is built -/

theorem makes_pure (a : α) : Makes lib C (pure a : Prog ε (Ctx W) α) := fun _ => .refl

theorem makes_fail (e : ε) : Makes lib C (fail e : Prog ε (Ctx W) α) := fun _ => .refl

theorem makes_current : Makes lib C (current : Prog ε (Ctx W) (Ctx W)) := fun _ => .refl

theorem makes_ofExcept (r : Except ε α) : Makes lib C (ofExcept r : Prog ε (Ctx W) α) := by
  intro s
  rw [wp_ofExcept]
  cases r with
  | error e => exact .refl
  | ok a => exact .refl

/-- Arithmetic makes no call, and a panic ends the calls. -/
theorem makes_checked (x : Except Checked.Panic α) :
    Makes lib C (checked x : Prog ε (Ctx W) α) := by
  intro s
  rw [wp_checked]
  cases x with
  | error p => trivial
  | ok a => exact .refl

/-- A call makes itself. -/
theorem makes_ffi {c : Call} (hc : C c) : Makes lib C (ffi lib c : Prog ε (Ctx W) c.Reply) :=
  fun _ => .single ⟨c, hc, rfl⟩

/-- One part after the other. -/
theorem makes_bind {m : Prog ε (Ctx W) β} {f : β → Prog ε (Ctx W) α} (hm : Makes lib C m)
    (hf : ∀ b, Makes lib C (f b)) : Makes lib C (m >>= f) := by
  intro s
  rw [wp_bind]
  refine wp_mono (hm s) ?_ (fun _ _ h => h) (fun _ h => h)
  intro b s' h
  exact wp_mono (hf b s') (fun _ _ h' => h.trans h') (fun _ _ h' => h.trans h') (fun _ h => h)

/-- An error that is held on to changes none of the calls before it. -/
theorem makes_capture {m : Prog ε' (Ctx W) α} (hm : Makes lib C m) :
    Makes lib C (capture m : Prog ε (Ctx W) (Except ε' α)) := by
  intro s
  rw [wp_capture]
  exact hm s

/-- Either branch. -/
theorem makes_ite {c : Prop} [Decidable c] {m n : Prog ε (Ctx W) α} (hm : Makes lib C m)
    (hn : Makes lib C n) : Makes lib C (if c then m else n) :=
  fun s => wp_ite (fun _ => hm s) (fun _ => hn s)

/-- A loop, as often as it is run. -/
theorem makes_iterate {body : β → Prog ε (Ctx W) (Turn β γ)}
    (hbody : ∀ b, Makes lib C (body b)) (fuel : Nat) (b : β) :
    Makes lib C (iterate fuel body b) := by
  intro s
  refine wp_iterate_partial (fun _ s' => Led lib C s s') trivial ?_ fuel .refl
  intro b' s' h
  refine wp_mono (hbody b' s') ?_ (fun _ _ h' => h.trans h') (fun _ h => h)
  intro turn s'' h'
  cases turn with
  | again _ => exact h.trans h'
  | leave _ => exact h.trans h'

/-- An error is put together from what the context remembers, without a call. -/
theorem makes_ctxError (rc : Int) (path : String) :
    Makes lib C (ctxError lib rc path : Prog ε (Ctx W) Error) :=
  fun _ => wp_ctxError (fun _ => .refl) (fun _ => trivial)

theorem makes_failWith (rc : Int) (path : String) :
    Makes lib C (failWith lib rc path : Prog Error (Ctx W) α) :=
  fun _ => wp_failWith (fun _ => .refl) (fun _ => trivial)

/-! ### What moving the bytes calls -/

/-- The calls that move bytes from one handle to another. -/
inductive MovesBytes (src dst : Fh) : Call → Prop
  | requestResumeKey : MovesBytes src dst (.requestResumeKey src)
  | copychunk (key : List UInt8) (chunk : CopyChunk) :
      MovesBytes src dst (.copychunk key dst chunk)
  | pread (count offset : Nat) : MovesBytes src dst (.pread src count offset)
  | pwrite (data : List UInt8) (offset : Nat) : MovesBytes src dst (.pwrite dst data offset)

variable {src dst : Fh}

/-- Whether a server can copy is read off the error of the call before. -/
theorem makes_classifyCopyFailure (rc : Int) :
    Makes lib C (classifyCopyFailure lib rc : Prog CopyFailed (Ctx W) α) :=
  makes_bind makes_current fun _ =>
    makes_ite (makes_fail _) (makes_bind (makes_ctxError _ _) fun _ => makes_fail _)

/-- The server is asked for a key, and then to copy chunk by chunk. -/
theorem makes_copyServerSide (size fuel : Nat) :
    Makes lib (MovesBytes src dst) (copyServerSide lib src dst size fuel) := by
  refine makes_bind (makes_ffi .requestResumeKey) fun (rc, key) => ?_
  refine makes_ite (makes_classifyCopyFailure rc) (makes_iterate ?_ _ _)
  intro (chunkBytes, offset)
  refine makes_ite ?_ (makes_pure _)
  refine makes_bind (makes_ffi (.copychunk key _)) fun (rc, reply) => ?_
  refine makes_ite (makes_ite (makes_fail _) ?_) ?_
  · exact makes_bind (makes_checked _) fun _ => makes_pure _
  · exact makes_ite (makes_pure _) (makes_classifyCopyFailure rc)

/-- What was read is written in as many calls as it takes. -/
theorem makes_writes (buf : List UInt8) (read : Int) (offset fuel : Nat) :
    Makes lib (MovesBytes src dst) (iterate fuel (writeTurn lib dst buf read offset) 0) := by
  refine makes_iterate (fun written => makes_ite ?_ (makes_pure _)) _ _
  refine makes_bind (makes_checked _) fun pos => makes_bind (makes_ffi (.pwrite _ pos)) fun n => ?_
  exact makes_ite (makes_failWith _ _) (makes_bind (makes_checked _) fun _ => makes_pure _)

/-- The fallback reads from the one handle and writes to the other. -/
theorem makes_copyThroughHere (size fuel : Nat) :
    Makes lib (MovesBytes src dst) (copyThroughHere lib src dst size fuel) := by
  refine makes_iterate (fun (offset, buf) => makes_ite ?_ (makes_pure _)) _ _
  refine makes_bind (makes_ffi (.pread _ offset)) fun (read, bytes) => ?_
  refine makes_ite (makes_failWith _ _) (makes_ite (makes_pure _) ?_)
  exact makes_bind (makes_writes _ _ _ _) fun _ =>
    makes_bind (makes_checked _) fun _ => makes_pure _

/-- **Moving the bytes** makes no call on any other handle, and none on a path. -/
theorem makes_copyBytes (size fuel : Nat) :
    Makes lib (MovesBytes src dst) (copyBytes lib src dst size fuel) := by
  refine makes_bind (makes_capture (makes_copyServerSide size fuel)) fun served => ?_
  rcases served with e | copied
  · cases e with
    | unsupported => exact makes_copyThroughHere size fuel
    | error e => exact makes_fail e
  · exact makes_pure copied

end Krystallos.Smb
