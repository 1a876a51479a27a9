import Krystallos.Lib.Checked

namespace Prog

open Checked

/-!
# Sequential programs and their weakest preconditions

`Prog ε σ α` is a program over a state `σ` that returns an `α` or fails with an `ε`, or stops
for good: it panics, or a loop uses up its fuel.  Each way of ending keeps the state it came to.
`wp m p s` says that `m`, run from `s`, ends as the postcondition `p` allows; `p` has one part for
each way of ending.  The rules are one lemma for each way programs are built, and an invariant
rule for loops, with a measure where the loop is to be shown to end.  `Lifts` compares a program
with one that does the same and keeps more state.
-/

/-- Why a program ended without returning. -/
inductive Stop
  | panic (p : Panic)
  | fuel
deriving DecidableEq, Repr

end Prog

/-- A program over the state `σ` that returns an `α` or fails with an `ε`. -/
def Prog (ε σ α : Type) : Type := σ → Except (Prog.Stop × σ) (Except ε α × σ)

namespace Prog

open Checked

variable {ε ε' σ τ α β γ : Type}

instance : Monad (Prog ε σ) where
  pure a := fun s => .ok (.ok a, s)
  bind m f := fun s =>
    match m s with
    | .error t => .error t
    | .ok (.error e, s') => .ok (.error e, s')
    | .ok (.ok a, s') => f a s'

/-- Fail with `e`. -/
def fail (e : ε) : Prog ε σ α := fun s => .ok (.error e, s)

/-- The current state. -/
def current : Prog ε σ σ := fun s => .ok (.ok s, s)

/-- Change the state. -/
def update (f : σ → σ) : Prog ε σ Unit := fun s => .ok (.ok (), f s)

/-- An operation of the environment. -/
def call (op : σ → Except ε α × σ) : Prog ε σ α := fun s => .ok (op s)

/-- The value of a checked computation; a panic stops the program. -/
def checked (x : Except Panic α) : Prog ε σ α := fun s =>
  match x with
  | .error p => .error (.panic p, s)
  | .ok a => .ok (.ok a, s)

/-- Return or fail as `r` says. -/
def ofExcept (r : Except ε α) : Prog ε σ α := fun s => .ok (r, s)

/-- Run `m` and return how it ended, a failure included. -/
def capture (m : Prog ε σ α) : Prog ε' σ (Except ε α) := fun s =>
  match m s with
  | .error t => .error t
  | .ok (r, s') => .ok (.ok r, s')

/-- Run `m`, and `cleanup` where it panics. -/
def onPanic (cleanup : σ → σ) (m : Prog ε σ α) : Prog ε σ α := fun s =>
  match m s with
  | .error (.panic p, s') => .error (.panic p, cleanup s')
  | .error (.fuel, s') => .error (.fuel, s')
  | .ok x => .ok x

/-- Change the failure. -/
def mapErr (f : ε → ε') (m : Prog ε σ α) : Prog ε' σ α := fun s =>
  match m s with
  | .error t => .error t
  | .ok (.error e, s') => .ok (.error (f e), s')
  | .ok (.ok a, s') => .ok (.ok a, s')

/-- Run a program on a part of a larger state. -/
def zoom (proj : τ → σ) (put : σ → τ → τ) (m : Prog ε σ α) : Prog ε τ α := fun t =>
  match m (proj t) with
  | .error (stop, s') => .error (stop, put s' t)
  | .ok (r, s') => .ok (r, put s' t)

/-- What a turn of a loop ends with. -/
inductive Turn (β γ : Type)
  | again (b : β)
  | leave (c : γ)

/-- A loop of at most `fuel` turns. -/
def iterate : Nat → (β → Prog ε σ (Turn β γ)) → β → Prog ε σ γ
  | 0, _, _ => fun s => .error (.fuel, s)
  | fuel + 1, body, b => do
    match ← body b with
    | .again b' => iterate fuel body b'
    | .leave c => pure c

/-- What a program may end as. -/
structure Post (ε σ α : Type) where
  ret : α → σ → Prop
  fail : ε → σ → Prop
  stop : Stop → Prop

/-- Run from `s`, the program ends as `p` allows. -/
def wp (m : Prog ε σ α) (p : Post ε σ α) (s : σ) : Prop :=
  match m s with
  | .error (t, _) => p.stop t
  | .ok (.error e, s') => p.fail e s'
  | .ok (.ok a, s') => p.ret a s'

/-! ### Runs -/

@[simp] theorem run_pure (a : α) (s : σ) : (pure a : Prog ε σ α) s = .ok (.ok a, s) := rfl

@[simp] theorem run_fail (e : ε) (s : σ) : (fail e : Prog ε σ α) s = .ok (.error e, s) := rfl

/-- An operation whose outcome is looked at. -/
theorem run_capture_call (op : σ → Except ε' β × σ) (f : Except ε' β → Prog ε σ α) (s : σ) :
    (capture (call op) >>= f) s = f (op s).1 (op s).2 := rfl

/-- A turn that goes on. -/
theorem run_iterate_again {body : β → Prog ε σ (Turn β γ)} {fuel : Nat} {b b' : β} {s s' : σ}
    (h : body b s = .ok (.ok (.again b'), s')) :
    iterate (fuel + 1) body b s = iterate fuel body b' s' := by
  simp only [iterate, bind, h]

/-- A turn that fails. -/
theorem run_iterate_fail {body : β → Prog ε σ (Turn β γ)} {fuel : Nat} {b : β} {s s' : σ} {e : ε}
    (h : body b s = .ok (.error e, s')) : iterate (fuel + 1) body b s = .ok (.error e, s') := by
  simp only [iterate, bind, h]

/-! ### What a run says -/

/-- A run that returned. -/
theorem wp_ret {m : Prog ε σ α} {p : Post ε σ α} {s s' : σ} {a : α} (h : wp m p s)
    (hrun : m s = .ok (.ok a, s')) : p.ret a s' := by
  rw [wp, hrun] at h
  exact h

/-- A run that failed. -/
theorem wp_fail_of_run {m : Prog ε σ α} {p : Post ε σ α} {s s' : σ} {e : ε} (h : wp m p s)
    (hrun : m s = .ok (.error e, s')) : p.fail e s' := by
  rw [wp, hrun] at h
  exact h

/-- A run that stopped. -/
theorem stop_of_run {m : Prog ε σ α} {p : Post ε σ α} {s s' : σ} {t : Stop} (h : wp m p s)
    (hrun : m s = .error (t, s')) : p.stop t := by
  rw [wp, hrun] at h
  exact h

/-- What two specifications say of the same run. -/
theorem wp_and {m : Prog ε σ α} {p q : Post ε σ α} {s : σ} (hp : wp m p s) (hq : wp m q s) :
    wp m ⟨fun a s => p.ret a s ∧ q.ret a s, fun e s => p.fail e s ∧ q.fail e s,
      fun t => p.stop t ∧ q.stop t⟩ s := by
  rcases hrun : m s with ⟨t, s'⟩ | ⟨e | a, s'⟩ <;> rw [wp, hrun]
  · exact ⟨stop_of_run hp hrun, stop_of_run hq hrun⟩
  · exact ⟨wp_fail_of_run hp hrun, wp_fail_of_run hq hrun⟩
  · exact ⟨wp_ret hp hrun, wp_ret hq hrun⟩

/-- How a run ended, returned or failed. -/
theorem post_of_run {m : Prog ε σ α} {p : Post ε σ α} {s s' : σ} {r : Except ε α} (h : wp m p s)
    (hrun : m s = .ok (r, s')) :
    (∃ a, r = .ok a ∧ p.ret a s') ∨ ∃ e, r = .error e ∧ p.fail e s' := by
  cases r with
  | ok a => exact .inl ⟨a, rfl, wp_ret h hrun⟩
  | error e => exact .inr ⟨e, rfl, wp_fail_of_run h hrun⟩

/-- What a run returned, and the state it left. -/
def returned : Except (Stop × σ) (Except ε α × σ) → Option (α × σ)
  | .ok (.ok a, s) => some (a, s)
  | _ => none

/-- What a run returned, where a check says that it returned. -/
theorem exists_of_returned {x : Except (Stop × σ) (Except ε α × σ)} (h : (returned x).isSome = true) :
    ∃ a s, returned x = some (a, s) ∧ x = .ok (.ok a, s) := by
  match x with
  | .ok (.ok a, s) => exact ⟨a, s, rfl, rfl⟩
  | .ok (.error e, s) => cases h
  | .error t => cases h

/-- A program that can end in no other way returns. -/
theorem exists_of_wp {m : Prog ε σ α} {Q : α → σ → Prop} {s : σ}
    (h : wp m ⟨Q, fun _ _ => False, fun _ => False⟩ s) :
    ∃ a s', m s = .ok (.ok a, s') ∧ Q a s' := by
  unfold wp at h
  split at h
  · exact h.elim
  · exact h.elim
  · exact ⟨_, _, by assumption, h⟩

/-- **Consequence.** -/
theorem wp_mono {m : Prog ε σ α} {p q : Post ε σ α} {s : σ} (h : wp m p s)
    (hret : ∀ a s', p.ret a s' → q.ret a s') (hfail : ∀ e s', p.fail e s' → q.fail e s')
    (hstop : ∀ t, p.stop t → q.stop t) : wp m q s := by
  unfold wp at h ⊢
  split at h
  · exact hstop _ h
  · exact hfail _ _ h
  · exact hret _ _ h

/-- A postcondition that allows everything. -/
theorem wp_of_forall {m : Prog ε σ α} {p : Post ε σ α} {s : σ} (hret : ∀ a s', p.ret a s')
    (hfail : ∀ e s', p.fail e s') (hstop : ∀ t, p.stop t) : wp m p s := by
  unfold wp
  split
  · exact hstop _
  · exact hfail _ _
  · exact hret _ _

/-- Where the program succeeds, `Q` holds. -/
def ifDone (Q : α → σ → Prop) : Post ε σ α := ⟨Q, fun _ _ => True, fun _ => True⟩

/-- **Consequence**, where nothing is said of a program that fails or stops. -/
theorem wp_done {m : Prog ε σ α} {p : Post ε σ α} {Q : α → σ → Prop} {s : σ} (h : wp m p s)
    (hret : ∀ a s', p.ret a s' → Q a s') : wp m (ifDone Q) s :=
  wp_mono h hret (fun _ _ _ => trivial) (fun _ _ => trivial)

/-! ### The rules -/

variable {p : Post ε σ α} {s : σ}

@[simp] theorem wp_pure (a : α) : wp (pure a) p s ↔ p.ret a s := Iff.rfl

@[simp] theorem wp_fail (e : ε) : wp (fail e) p s ↔ p.fail e s := Iff.rfl

@[simp] theorem wp_current {p : Post ε σ σ} : wp current p s ↔ p.ret s s := Iff.rfl

@[simp] theorem wp_update {p : Post ε σ Unit} (f : σ → σ) : wp (update f) p s ↔ p.ret () (f s) :=
  Iff.rfl

/-- **Sequence.** -/
theorem wp_bind (m : Prog ε σ β) (f : β → Prog ε σ α) :
    wp (m >>= f) p s ↔ wp m ⟨fun b s' => wp (f b) p s', p.fail, p.stop⟩ s := by
  unfold wp
  simp only [bind]
  rcases m s with ⟨t, s'⟩ | ⟨e | b, s'⟩ <;> exact Iff.rfl

/-- A result that is only wrapped. -/
theorem wp_bind_pure {m : Prog ε σ β} {g : β → α} :
    wp (m >>= fun b => pure (g b)) p s ↔ wp m ⟨fun b => p.ret (g b), p.fail, p.stop⟩ s :=
  wp_bind m fun b => pure (g b)

/-- Sequence, where nothing is said of a program that fails or stops. -/
theorem wp_bind_done {m : Prog ε σ β} {f : β → Prog ε σ α} {p : Post ε σ β} {Q : α → σ → Prop}
    (h : wp m p s) (hf : ∀ b s', p.ret b s' → wp (f b) (ifDone Q) s') :
    wp (m >>= f) (ifDone Q) s :=
  (wp_bind m f).mpr (wp_mono h hf (fun _ _ _ => trivial) (fun _ _ => trivial))

/-- An operation of the world. -/
theorem wp_call (op : σ → Except ε α × σ) :
    wp (call op) p s ↔ match op s with
      | (.error e, s') => p.fail e s'
      | (.ok a, s') => p.ret a s' := by
  unfold wp call
  rcases op s with ⟨e | a, s'⟩ <;> exact Iff.rfl

/-- A result that is there already. -/
theorem wp_ofExcept (r : Except ε α) :
    wp (ofExcept r) p s ↔ match r with
      | .error e => p.fail e s
      | .ok a => p.ret a s := by
  cases r with
  | error e => exact Iff.rfl
  | ok a => exact Iff.rfl

/-- A computation that may panic. -/
theorem wp_checked (x : Except Panic α) :
    wp (checked x) p s ↔ match x with
      | .error q => p.stop (.panic q)
      | .ok a => p.ret a s := by
  cases x with
  | error q => exact Iff.rfl
  | ok a => exact Iff.rfl

/-- A checked computation that succeeds. -/
theorem wp_checked_ok {x : Except Panic α} {a : α} (h : x = .ok a) :
    wp (checked x) p s ↔ p.ret a s := by
  rw [h]
  exact Iff.rfl

/-- A checked computation whose panic is allowed. -/
theorem wp_checked_of {x : Except Panic α} (hret : ∀ a, x = .ok a → p.ret a s)
    (hstop : ∀ q, p.stop (.panic q)) : wp (checked x) p s := by
  rw [wp_checked]
  split
  · exact hstop _
  · exact hret _ rfl

/-- An error that is held on to. -/
theorem wp_capture (m : Prog ε' σ α) {p : Post ε σ (Except ε' α)} :
    wp (capture m) p s ↔
      wp m ⟨fun a s' => p.ret (.ok a) s', fun e s' => p.ret (.error e) s', p.stop⟩ s := by
  unfold wp capture
  rcases m s with ⟨t, s'⟩ | ⟨e | a, s'⟩ <;> exact Iff.rfl

/-- What a panic cleans up is not part of what a postcondition says of it. -/
theorem wp_onPanic (cleanup : σ → σ) (m : Prog ε σ α) :
    wp (onPanic cleanup m) p s ↔ wp m p s := by
  unfold wp onPanic
  rcases m s with ⟨q | _, s'⟩ | ⟨e | a, s'⟩ <;> exact Iff.rfl

/-- Errors under another name. -/
theorem wp_mapErr (f : ε' → ε) (m : Prog ε' σ α) :
    wp (mapErr f m) p s ↔ wp m ⟨p.ret, fun e s' => p.fail (f e) s', p.stop⟩ s := by
  unfold wp mapErr
  rcases m s with ⟨t, s'⟩ | ⟨e | a, s'⟩ <;> exact Iff.rfl

/-- A program on a part of the state. -/
theorem wp_zoom (proj : τ → σ) (put : σ → τ → τ) (m : Prog ε σ α) {p : Post ε τ α} {t : τ} :
    wp (zoom proj put m) p t ↔
      wp m ⟨fun a s' => p.ret a (put s' t), fun e s' => p.fail e (put s' t), p.stop⟩
        (proj t) := by
  unfold wp zoom
  rcases m (proj t) with ⟨stop, s'⟩ | ⟨e | a, s'⟩ <;> exact Iff.rfl

/-- Either branch, with what it is taken for. -/
theorem wp_ite {c : Prop} {inst : Decidable c} {m n : Prog ε σ α} (ht : c → wp m p s)
    (he : ¬ c → wp n p s) : wp (if c then m else n) p s := by
  by_cases h : c
  · rw [if_pos h]
    exact ht h
  · rw [if_neg h]
    exact he h

/-! ### What a program keeps -/

/-- However the program ends, `I` holds of the state. -/
def keeping (I : σ → Prop) : Post ε σ α := ⟨fun _ s => I s, fun _ s => I s, fun _ => True⟩

/-- An invariant is kept through one part and then the other. -/
theorem wp_bind_keeping {I : σ → Prop} {m : Prog ε σ β} {f : β → Prog ε σ α}
    (hm : wp m (keeping I) s) (hf : ∀ b s', I s' → wp (f b) (keeping I) s') :
    wp (m >>= f) (keeping I) s :=
  (wp_bind m f).mpr (wp_mono hm hf (fun _ _ h => h) (fun _ h => h))

/-- A weaker invariant. -/
theorem wp_keeping_mono {I J : σ → Prop} {m : Prog ε σ α} (hm : wp m (keeping I) s)
    (hIJ : ∀ s', I s' → J s') : wp m (keeping J) s :=
  wp_mono hm (fun _ s' => hIJ s') (fun _ s' => hIJ s') (fun _ h => h)

/-- However the program ends, `I` holds of the state, and `E` of its failure. -/
def ending (I : σ → Prop) (E : ε → Prop) : Post ε σ α :=
  ⟨fun _ s => I s, fun e s => I s ∧ E e, fun _ => True⟩

/-- The same with what is known of errors. -/
theorem wp_bind_ending {I : σ → Prop} {E : ε → Prop} {m : Prog ε σ β} {f : β → Prog ε σ α}
    (hm : wp m (ending I E) s) (hf : ∀ b s', I s' → wp (f b) (ending I E) s') :
    wp (m >>= f) (ending I E) s :=
  (wp_bind m f).mpr (wp_mono hm hf (fun _ _ h => h) (fun _ h => h))

/-- What is known of errors is left out. -/
theorem wp_keeping_of_ending {I : σ → Prop} {E : ε → Prop} {m : Prog ε σ α}
    (hm : wp m (ending I E) s) : wp m (keeping I) s :=
  wp_mono hm (fun _ _ h => h) (fun _ _ h => h.1) (fun _ h => h)

/-- What a run that ended kept. -/
theorem keeping_of_run {I : σ → Prop} {m : Prog ε σ α} {s' : σ} {r : Except ε α}
    (h : wp m (keeping I) s) (hrun : m s = .ok (r, s')) : I s' := by
  rcases post_of_run h hrun with ⟨_, -, hI⟩ | ⟨_, -, hI⟩ <;> exact hI

/-! ### Loops -/

/-- One turn, and the rest of the loop. -/
theorem wp_iterate_succ {body : β → Prog ε σ (Turn β γ)} {p : Post ε σ γ} {fuel : Nat} {b : β}
    {s : σ} : wp (iterate (fuel + 1) body b) p s ↔ wp (body b) ⟨fun turn s' =>
      match turn with
      | .again b' => wp (iterate fuel body b') p s'
      | .leave c => p.ret c s', p.fail, p.stop⟩ s := by
  rw [iterate, wp_bind]
  constructor
  · intro h
    refine wp_mono h (fun turn s' hturn => ?_) (fun _ _ h => h) (fun _ h => h)
    cases turn <;> exact hturn
  · intro h
    refine wp_mono h (fun turn s' hturn => ?_) (fun _ _ h => h) (fun _ h => h)
    cases turn <;> exact hturn

/-- What one turn must establish: the invariant and a smaller measure, or the loop's
    postcondition. -/
def turnPost (I : β → σ → Prop) (μ : β → σ → Nat) (p : Post ε σ γ) (m : Nat) :
    Post ε σ (Turn β γ) where
  ret := fun turn s' =>
    match turn with
    | .again b' => I b' s' ∧ μ b' s' < m
    | .leave c => p.ret c s'
  fail := p.fail
  stop := p.stop

/-- **Loop rule.** A turn that keeps the invariant and lowers the measure makes a loop that
    ends as `p` allows, given more fuel than the measure, or where `p` allows running out. -/
theorem wp_iterate {body : β → Prog ε σ (Turn β γ)} {p : Post ε σ γ} (I : β → σ → Prop)
    (μ : β → σ → Nat) (hbody : ∀ b s, I b s → wp (body b) (turnPost I μ p (μ b s)) s)
    {fuel : Nat} {b : β} {s : σ} (hI : I b s) (hfuel : μ b s < fuel ∨ p.stop .fuel) :
    wp (iterate fuel body b) p s := by
  induction fuel generalizing b s with
  | zero => exact hfuel.resolve_left (Nat.not_lt_zero _)
  | succ fuel ih =>
    rw [wp_iterate_succ]
    refine wp_mono (hbody b s hI) ?_ (fun _ _ h => h) (fun _ h => h)
    intro turn s' hturn
    cases turn with
    | again b' => exact ih hturn.1 (hfuel.imp_left fun hlt => by have := hturn.2; omega)
    | leave c => exact hturn

/-- From one head of the loop, with its state, to the next. -/
def Again (body : β → Prog ε σ (Turn β γ)) (x y : β × σ) : Prop :=
  body x.1 x.2 = .ok (.ok (.again y.1), y.2)

/-- The heads a loop comes to. -/
abbrev Heads (body : β → Prog ε σ (Turn β γ)) : β × σ → β × σ → Prop :=
  Relation.ReflTransGen (Again body)

/-- What every turn keeps holds at every head. -/
theorem Heads.invariant {body : β → Prog ε σ (Turn β γ)} {I : β → σ → Prop}
    (hkeep : ∀ b s b' s', I b s → body b s = .ok (.ok (.again b'), s') → I b' s') {x y : β × σ}
    (h : Heads body x y) (hI : I x.1 x.2) : I y.1 y.2 := by
  induction h with
  | refl => exact hI
  | tail _ hturn ih => exact hkeep _ _ _ _ ih hturn

/-- What one turn must establish where the loop need not end. -/
def keepPost (I : β → σ → Prop) (p : Post ε σ γ) : Post ε σ (Turn β γ) where
  ret := fun turn s' =>
    match turn with
    | .again b' => I b' s'
    | .leave c => p.ret c s'
  fail := p.fail
  stop := p.stop

/-- **Loop rule, partial.** Where running out of fuel is allowed no measure is needed. -/
theorem wp_iterate_partial {body : β → Prog ε σ (Turn β γ)} {p : Post ε σ γ}
    (I : β → σ → Prop) (hstop : p.stop .fuel)
    (hbody : ∀ b s, I b s → wp (body b) (keepPost I p) s)
    (fuel : Nat) {b : β} {s : σ} (hI : I b s) : wp (iterate fuel body b) p s := by
  induction fuel generalizing b s with
  | zero => exact hstop
  | succ fuel ih =>
    rw [wp_iterate_succ]
    refine wp_mono (hbody b s hI) ?_ (fun _ _ h => h) (fun _ h => h)
    intro turn s' hturn
    cases turn with
    | again b' => exact ih hturn
    | leave c => exact hturn

/-! ### Programs on a larger state -/

/-- How a program ended, with a part of the state. -/
def outcome (proj : τ → σ) :
    Except (Stop × τ) (Except ε α × τ) → Except (Stop × σ) (Except ε α × σ)
  | .error (stop, t) => .error (stop, proj t)
  | .ok (r, t) => .ok (r, proj t)

/-- `m'` does what `m` does, on a part of its state. -/
def Lifts (proj : τ → σ) (m' : Prog ε τ α) (m : Prog ε σ α) : Prop :=
  ∀ t, outcome proj (m' t) = m (proj t)

variable {proj : τ → σ}

theorem lifts_pure (a : α) : Lifts proj (pure a : Prog ε τ α) (pure a) := fun _ => rfl

theorem lifts_fail (e : ε) : Lifts proj (fail e : Prog ε τ α) (fail e) := fun _ => rfl

theorem lifts_checked (x : Except Panic α) :
    Lifts proj (checked x : Prog ε τ α) (checked x) := by
  intro t
  cases x <;> rfl

/-- One part after the other. -/
theorem Lifts.bind {m' : Prog ε τ β} {m : Prog ε σ β} {f' : β → Prog ε τ α} {f : β → Prog ε σ α}
    (hm : Lifts proj m' m) (hf : ∀ b, Lifts proj (f' b) (f b)) :
    Lifts proj (m' >>= f') (m >>= f) := by
  intro t
  have hrun := hm t
  cases hm' : m' t with
  | error stop =>
    rw [hm'] at hrun
    simp only [Bind.bind, hm', ← hrun, outcome]
  | ok x =>
    obtain ⟨r, t'⟩ := x
    rw [hm'] at hrun
    cases r with
    | error e => simp only [Bind.bind, hm', ← hrun, outcome]
    | ok b =>
      simp only [Bind.bind, hm', ← hrun, outcome]
      exact hf b t'

/-- Errors under another name. -/
theorem Lifts.mapErr {m' : Prog ε τ α} {m : Prog ε σ α} (f : ε → ε') (h : Lifts proj m' m) :
    Lifts proj (mapErr f m') (mapErr f m) := by
  intro t
  have hrun := h t
  cases hm' : m' t with
  | error stop =>
    rw [hm'] at hrun
    simp only [Prog.mapErr, hm', ← hrun, outcome]
  | ok x =>
    obtain ⟨r, t'⟩ := x
    rw [hm'] at hrun
    cases r <;> simp only [Prog.mapErr, hm', ← hrun, outcome]

/-- A call on a part of the state, where the part is a part of the other's. -/
theorem Lifts.zoom {σ' τ' : Type} {proj' : τ' → σ'} {part' : τ' → τ} {put' : τ → τ' → τ'}
    {part : σ' → σ} {put : σ → σ' → σ'} {m' : Prog ε τ α} {m : Prog ε σ α}
    (hpart : ∀ t, proj (part' t) = part (proj' t))
    (hput : ∀ x t, proj' (put' x t) = put (proj x) (proj' t)) (h : Lifts proj m' m) :
    Lifts proj' (zoom part' put' m') (zoom part put m) := by
  intro t
  have hrun := h (part' t)
  rw [hpart] at hrun
  cases hm' : m' (part' t) with
  | error stop =>
    rw [hm'] at hrun
    simp only [Prog.zoom, hm', ← hrun, outcome, hput]
  | ok x =>
    rw [hm'] at hrun
    simp only [Prog.zoom, hm', ← hrun, outcome, hput]

/-- Either branch. -/
theorem Lifts.ite {c : Prop} [Decidable c] {m' n' : Prog ε τ α} {m n : Prog ε σ α}
    (hm : Lifts proj m' m) (hn : Lifts proj n' n) :
    Lifts proj (if c then m' else n') (if c then m else n) := by
  split
  · exact hm
  · exact hn

/-- A loop, turn by turn. -/
theorem Lifts.iterate {body' : β → Prog ε τ (Turn β γ)} {body : β → Prog ε σ (Turn β γ)}
    (h : ∀ b, Lifts proj (body' b) (body b)) (fuel : Nat) (b : β) :
    Lifts proj (iterate fuel body' b) (iterate fuel body b) := by
  induction fuel generalizing b with
  | zero => exact fun _ => rfl
  | succ fuel ih =>
    refine (h b).bind fun turn => ?_
    cases turn with
    | again b' => exact ih b'
    | leave c => exact lifts_pure c

end Prog
