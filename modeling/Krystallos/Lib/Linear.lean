import Krystallos.Lib.Lts

namespace Linear

open Lts

/-!
# Linearizability

Calls on an object are made by many callers at once, and each takes its time.  A `Linearization`
is a list of what was executed, in an order in which the object could have been called by one
caller alone: it gives the results that were returned, and a call that had returned before
another began comes before it.

An object that keeps a list of what it executes has one where an entry is added only while its
call is under way, whatever else goes on: `respects_realTime`.
-/

/-- Something that was executed, and the call it was for, where one waits for it. -/
structure Entry (ι Op Ret : Type*) where
  caller : Option ι
  op : Op
  ret : Ret
deriving DecidableEq

variable {Obj Op Ret ι σ α η : Type*}

/-- One after the other, from `x` to `x'`. -/
inductive Runs (exec : Obj → Op → Ret → Obj → Prop) : Obj → List (Entry ι Op Ret) → Obj → Prop
  | nil {x : Obj} : Runs exec x [] x
  | snoc {x y z : Obj} {l : List (Entry ι Op Ret)} {e : Entry ι Op Ret} (hl : Runs exec x l y)
      (he : exec y e.op e.ret z) : Runs exec x (l ++ [e]) z

/-- The calls that were made: what each asks for, which have returned and what for which result,
    and which had returned before others began. -/
structure Calls (ι Op Ret : Type*) where
  asked : ι → Op → Prop
  returned : ι → Prop
  gives : ι → Ret → Prop
  before : ι → ι → Prop

/-- The calls are explained by executing `l`, from `x` to `x'`. -/
structure Linearization (exec : Obj → Op → Ret → Obj → Prop) (x x' : Obj) (calls : Calls ι Op Ret)
    (l : List (Entry ι Op Ret)) : Prop where
  legal : Runs exec x l x'
  /-- no call takes effect twice -/
  once : (l.filterMap Entry.caller).Nodup
  asked : ∀ e ∈ l, ∀ i, e.caller = some i → calls.asked i e.op
  /-- a call that has returned gives the result it was executed with -/
  complete : ∀ i, calls.returned i → ∃ e ∈ l, e.caller = some i ∧ calls.gives i e.ret
  /-- the order of calls that do not overlap is kept -/
  realTime : l.Pairwise fun e e' =>
    ∀ i j, e.caller = some i → e'.caller = some j → ¬ calls.before j i

/-! ### Objects that keep a list -/

variable {step : σ → α → Option σ} {record : σ → α → η → η} {list : η → List (Entry ι Op Ret)}
  {started ended : σ → ι → Prop}

/-- The record of a run of two pieces. -/
theorem history_append {s u : σ} {h : η} {as bs : List α} (hu : run step s as = some u) :
    history step record s h (as ++ bs) = history step record u (history step record s h as) bs := by
  induction as generalizing s h with
  | nil =>
    obtain rfl : s = u := by simpa using hu
    rfl
  | cons a as ih =>
    obtain ⟨v, hv, hrest⟩ := run_cons_iff.mp hu
    rw [List.cons_append, history, history, hv]
    exact ih hrest

/-- What each step must do to the list: add entries of calls that have begun and not ended. -/
structure Records (step : σ → α → Option σ) (record : σ → α → η → η)
    (list : η → List (Entry ι Op Ret)) (started ended : σ → ι → Prop) (I : σ → η → Prop) :
    Prop where
  keeps : ∀ s h a s', I s h → step s a = some s' → I s' (record s a h)
  adds : ∀ s h a s', I s h → step s a = some s' → ∃ new, list (record s a h) = list h ++ new ∧
    ∀ e ∈ new, ∀ i, e.caller = some i → ¬ ended s i
  begun : ∀ s h, I s h → ∀ e ∈ list h, ∀ i, e.caller = some i → started s i
  stays : ∀ s a s' i, step s a = some s' → ended s i → ended s' i

variable {I : σ → η → Prop}

/-- **Run lemma.** Nothing is added for calls that had ended. -/
theorem Records.added (hrec : Records step record list started ended I) {s t : σ} {h : η}
    {as : List α} (hI : I s h) (hrun : run step s as = some t) :
    ∃ new, list (history step record s h as) = list h ++ new ∧
      ∀ e ∈ new, ∀ i, e.caller = some i → ¬ ended s i := by
  induction as generalizing s h with
  | nil => exact ⟨[], (List.append_nil _).symm, nofun⟩
  | cons a as ih =>
    obtain ⟨u, hu, hrest⟩ := run_cons_iff.mp hrun
    obtain ⟨new, hnew, hopen⟩ := hrec.adds s h a u hI hu
    obtain ⟨rest, hlist, hopen'⟩ := ih (hrec.keeps s h a u hI hu) hrest
    refine ⟨new ++ rest, ?_, fun e he i hi hended => ?_⟩
    · rw [history, hu]
      exact hlist.trans (by rw [hnew, List.append_assoc])
    · rcases List.mem_append.mp he with hfirst | hlater
      · exact hopen e hfirst i hi hended
      · exact hopen' e hlater i hi (hrec.stays s a u i hu hended)

/-- Call `j` had ended before call `i` began, in a run. -/
def Before (step : σ → α → Option σ) (started ended : σ → ι → Prop) (s : σ) (as : List α)
    (j i : ι) : Prop :=
  ∃ bs cs u, as = bs ++ cs ∧ run step s bs = some u ∧ ended u j ∧ ¬ started u i

/-- **Real time is respected** by the list, in every run. -/
theorem respects_realTime (hrec : Records step record list started ended I) {s t : σ} {h : η}
    {as : List α} (hI : I s h) (hrun : run step s as = some t) :
    (list (history step record s h as)).Pairwise fun e e' =>
      ∀ i j, e.caller = some i → e'.caller = some j → ¬ Before step started ended s as j i := by
  rw [List.pairwise_iff_getElem]
  rintro m n hm hn hlt i j hi hj ⟨bs, cs, u, rfl, hu, hended, hnot⟩
  -- at the moment in between, the list was a front part of what it is
  have hIu := history_invariant record (fun s h a s' hs hstep => hrec.keeps s h a s' hs hstep) hI hu
  obtain ⟨v, hv, hrest⟩ := run_append_iff.mp hrun
  obtain rfl : v = u := Option.some.inj (hv.symm.trans hu)
  obtain ⟨new, hlist, hopen⟩ := hrec.added hIu hrest
  rw [← history_append hu] at hlist
  have hsplit : ∀ k (hk : k < (list (history step record s h (bs ++ cs))).length),
      k < (list (history step record s h bs)).length ∧
        (list (history step record s h (bs ++ cs)))[k] ∈ list (history step record s h bs) ∨
      (list (history step record s h bs)).length ≤ k ∧
        (list (history step record s h (bs ++ cs)))[k] ∈ new := by
    intro k hk
    by_cases hin : k < (list (history step record s h bs)).length
    · left
      simp only [hlist, List.getElem_append_left hin]
      exact ⟨hin, List.getElem_mem _⟩
    · right
      simp only [hlist] at hk ⊢
      rw [List.getElem_append_right (by omega)]
      exact ⟨by omega, List.getElem_mem _⟩
  rcases hsplit n hn with ⟨hfront, -⟩ | ⟨-, hadded⟩
  · rcases hsplit m hm with ⟨-, hin⟩ | ⟨hbehind, -⟩
    · exact hnot (hrec.begun v _ hIu _ hin i hi)
    · omega
  · exact hopen _ hadded j hj hended

end Linear
