import Krystallos.Lib.Prog

namespace Contract

open Prog

/-!
# Interfaces, their callers and their contracts

An interface is a set of calls with the answers each may get.  A `Caller` makes one call after
the other, and what it does next may depend on every answer so far.  A `Spec` is a machine with
states of its own that says which calls may be made and what each may answer, and an
implementation `Meets` it through a relation between the two kinds of states.
`Meets.exists_run` says that a caller that stays within the contract ends, over any
implementation that meets it, with a result the machine allows.
-/

/-- The calls of an interface, and what each is answered with. -/
structure Interface where
  Op : Type
  Reply : Op → Type

/-- A program that makes calls: it returns, or makes one and goes on with the answer. -/
inductive Caller (𝓘 : Interface) (α : Type)
  | ret (a : α)
  | ask (op : 𝓘.Op) (next : 𝓘.Reply op → Caller 𝓘 α)

/-- What the calls may do, as a machine. -/
structure Spec (𝓘 : Interface) (S : Type) where
  pre : S → 𝓘.Op → Prop
  post : S → (op : 𝓘.Op) → 𝓘.Reply op → S → Prop

variable {𝓘 : Interface} {S T α ε σ : Type}

/-- The caller makes only calls that may be made, whatever the answers before. -/
def Safe (spec : Spec 𝓘 S) : S → Caller 𝓘 α → Prop
  | _, .ret _ => True
  | x, .ask op next => spec.pre x op ∧ ∀ r x', spec.post x op r x' → Safe spec x' (next r)

/-- With answers that the machine allows, the caller returns `a` and the machine ends in `x'`. -/
inductive Ends (spec : Spec 𝓘 S) : S → Caller 𝓘 α → α → S → Prop
  | ret {x : S} {a : α} : Ends spec x (.ret a) a x
  | ask {x x' x'' : S} {op : 𝓘.Op} {next : 𝓘.Reply op → Caller 𝓘 α} {r : 𝓘.Reply op} {a : α}
      (hpost : spec.post x op r x') (hrest : Ends spec x' (next r) a x'') :
    Ends spec x (.ask op next) a x''

/-- The calls as programs over the state `σ`. -/
abbrev Impl (𝓘 : Interface) (ε σ : Type) : Type := (op : 𝓘.Op) → Prog ε σ (𝓘.Reply op)

/-- Run the caller over an implementation. -/
def run (impl : Impl 𝓘 ε σ) : Caller 𝓘 α → Prog ε σ α
  | .ret a => pure a
  | .ask op next => do
    let r ← impl op
    run impl (next r)

/-- A program that returns, with `Q`. -/
def returning (Q : α → σ → Prop) : Post ε σ α := ⟨Q, fun _ _ => False, fun _ => False⟩

/-- Less is said of what is returned. -/
theorem wp_returning_mono {m : Prog ε σ α} {Q Q' : α → σ → Prop} {s : σ}
    (h : wp m (returning Q) s) (hQ : ∀ a s', Q a s' → Q' a s') : wp m (returning Q') s :=
  wp_mono h hQ (fun _ _ h => h) (fun _ h => h)

/-- A call that may be made returns, with an answer the machine allows. -/
structure Meets (impl : Impl 𝓘 ε σ) (R : S → σ → Prop) (spec : Spec 𝓘 S) : Prop where
  call : ∀ op x s, R x s → spec.pre x op →
    wp (impl op) (returning fun r s' => ∃ x', spec.post x op r x' ∧ R x' s') s

/-- **The run lemma.** -/
theorem wp_run {impl : Impl 𝓘 ε σ} {R : S → σ → Prop} {spec : Spec 𝓘 S}
    (hmeets : Meets impl R spec) {caller : Caller 𝓘 α} {x : S} {s : σ} (hR : R x s)
    (hsafe : Safe spec x caller) :
    wp (run impl caller) (returning fun a s' => ∃ x', Ends spec x caller a x' ∧ R x' s') s := by
  induction caller generalizing x s with
  | ret a => exact ⟨x, .ret, hR⟩
  | ask op next ih =>
    obtain ⟨hpre, hnext⟩ := hsafe
    rw [run, wp_bind]
    refine wp_returning_mono (hmeets.call op x s hR hpre) ?_
    rintro r s' ⟨x', hpost, hR'⟩
    refine wp_returning_mono (ih r hR' (hnext r x' hpost)) ?_
    rintro a s'' ⟨x'', hends, hR''⟩
    exact ⟨x'', .ask hpost hends, hR''⟩

/-- **A caller within the contract ends**, as the machine allows. -/
theorem Meets.exists_run {impl : Impl 𝓘 ε σ} {R : S → σ → Prop} {spec : Spec 𝓘 S}
    (hmeets : Meets impl R spec) {caller : Caller 𝓘 α} {x : S} {s : σ} (hR : R x s)
    (hsafe : Safe spec x caller) :
    ∃ a s' x', run impl caller s = .ok (.ok a, s') ∧ Ends spec x caller a x' ∧ R x' s' := by
  obtain ⟨a, s', hrun, x', hends, hR'⟩ := exists_of_wp (wp_run hmeets hR hsafe)
  exact ⟨a, s', x', hrun, hends, hR'⟩

end Contract
