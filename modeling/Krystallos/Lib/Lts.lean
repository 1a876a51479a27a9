import Mathlib

namespace Lts

/-!
# Runs of a partial step function

A system whose steps are labelled by actions, given by a function
`step : σ → α → Option σ` that refuses an action (`none`) where it is not enabled.
`run` follows a list of actions, `AllSteps` says that every step of a run meets a
condition on the state before it and the action, and the invariant rules
(`run_invariant`, `run_invariant_of_allSteps`) turn a step lemma into a run lemma.
-/

variable {σ α : Type*} (step : σ → α → Option σ)

/-- The state reached by taking the actions in order; `none` once one is refused. -/
def run : σ → List α → Option σ
  | s, [] => some s
  | s, a :: as =>
    match step s a with
    | none => none
    | some s' => run s' as

/-- Every step taken along the actions meets `ok` in the state it starts from. -/
def AllSteps (ok : σ → α → Prop) : σ → List α → Prop
  | _, [] => True
  | s, a :: as => ok s a ∧ ∀ s', step s a = some s' → AllSteps ok s' as

variable {step}

@[simp] theorem run_nil (s : σ) : run step s [] = some s := rfl

theorem run_cons_iff {s t : σ} {a : α} {as : List α} :
    run step s (a :: as) = some t ↔ ∃ u, step s a = some u ∧ run step u as = some t := by
  rw [run]
  cases h : step s a with
  | none => simp
  | some u => simp

/-- A run of two pieces passes through the state its first piece reaches. -/
theorem run_append_iff {s t : σ} {as bs : List α} :
    run step s (as ++ bs) = some t ↔ ∃ u, run step s as = some u ∧ run step u bs = some t := by
  induction as generalizing s with
  | nil => simp
  | cons a as ih =>
    rw [List.cons_append, run_cons_iff]
    constructor
    · rintro ⟨u, hu, hrest⟩
      obtain ⟨v, hv, hbs⟩ := ih.mp hrest
      exact ⟨v, run_cons_iff.mpr ⟨u, hu, hv⟩, hbs⟩
    · rintro ⟨v, hv, hbs⟩
      obtain ⟨u, hu, hv'⟩ := run_cons_iff.mp hv
      exact ⟨u, hu, ih.mpr ⟨v, hv', hbs⟩⟩

@[simp] theorem allSteps_nil (ok : σ → α → Prop) (s : σ) : AllSteps step ok s [] := trivial

theorem allSteps_cons {ok : σ → α → Prop} {s : σ} {a : α} {as : List α} :
    AllSteps step ok s (a :: as) ↔
      ok s a ∧ ∀ s', step s a = some s' → AllSteps step ok s' as := Iff.rfl

/-- A decidable condition on the steps of a given run is checked by running it. -/
instance decidableAllSteps {ok : σ → α → Prop} [∀ s a, Decidable (ok s a)] :
    ∀ (s : σ) (as : List α), Decidable (AllSteps step ok s as)
  | _, [] => isTrue trivial
  | s, a :: as =>
    match h : step s a with
    | none => decidable_of_iff (ok s a)
        ⟨fun hok => ⟨hok, fun _ hs => by rw [h] at hs; cases hs⟩, fun hall => hall.1⟩
    | some u =>
      have : Decidable (AllSteps step ok u as) := decidableAllSteps u as
      decidable_of_iff (ok s a ∧ AllSteps step ok u as)
        ⟨fun hok => ⟨hok.1, fun _ hs => by rw [h] at hs; cases hs; exact hok.2⟩,
         fun hall => ⟨hall.1, hall.2 u h⟩⟩

/-- The condition on the steps of a run splits at any state the run passes through. -/
theorem allSteps_append {ok : σ → α → Prop} {s u : σ} {as bs : List α}
    (hu : run step s as = some u) :
    AllSteps step ok s (as ++ bs) ↔ AllSteps step ok s as ∧ AllSteps step ok u bs := by
  induction as generalizing s with
  | nil =>
    obtain rfl : s = u := by simpa using hu
    simp
  | cons a as ih =>
    obtain ⟨v, hv, hrest⟩ := run_cons_iff.mp hu
    rw [List.cons_append, allSteps_cons, allSteps_cons, and_assoc]
    refine and_congr_right fun _ => ⟨fun h => ?_, fun h s' hs' => ?_⟩
    · have hv' := (ih hrest).mp (h v hv)
      refine ⟨fun s' hs' => ?_, hv'.2⟩
      obtain rfl : v = s' := by simpa [hv] using hs'
      exact hv'.1
    · obtain rfl : v = s' := by simpa [hv] using hs'
      exact (ih hrest).mpr ⟨h.1 v hv, h.2⟩

/-- A condition on the actions alone joins any condition on the steps. -/
theorem AllSteps.and_mem {ok : σ → α → Prop} {Q : α → Prop} {s : σ} {as : List α}
    (h : AllSteps step ok s as) (hQ : ∀ a ∈ as, Q a) :
    AllSteps step (fun s a => ok s a ∧ Q a) s as := by
  induction as generalizing s with
  | nil => trivial
  | cons a as ih =>
    refine ⟨⟨h.1, hQ a (List.mem_cons_self ..)⟩, fun s' hs' => ?_⟩
    exact ih (h.2 s' hs') fun b hb => hQ b (List.mem_cons_of_mem _ hb)

/-- A condition on the actions alone is one on the steps. -/
theorem allSteps_of_forall {Q : α → Prop} {s : σ} {as : List α} (hQ : ∀ a ∈ as, Q a) :
    AllSteps step (fun _ a => Q a) s as := by
  induction as generalizing s with
  | nil => trivial
  | cons a as ih =>
    refine ⟨hQ a (List.mem_cons_self ..), fun s' _ => ?_⟩
    exact ih fun b hb => hQ b (List.mem_cons_of_mem _ hb)

/-- Where an invariant implies a condition, the steps that keep it meet the condition. -/
theorem allSteps_of_invariant {ok : σ → α → Prop} {I : σ → Prop} {s : σ} {as : List α}
    (hok : ∀ s, ∀ a ∈ as, I s → ok s a)
    (hstep : ∀ s, ∀ a ∈ as, ∀ s', I s → step s a = some s' → I s') (hs : I s) :
    AllSteps step ok s as := by
  induction as generalizing s with
  | nil => trivial
  | cons a as ih =>
    refine ⟨hok s a List.mem_cons_self hs, fun s' hs' => ?_⟩
    apply ih (fun s b hb => hok s b (List.mem_cons_of_mem _ hb))
      (fun s b hb => hstep s b (List.mem_cons_of_mem _ hb))
    exact hstep s a List.mem_cons_self s' hs hs'

/-- **Guarded invariant rule.** What every step that meets the condition preserves holds
    after any run whose steps all meet it. -/
theorem run_invariant_of_allSteps {ok : σ → α → Prop} {I : σ → Prop}
    (hstep : ∀ s a s', ok s a → I s → step s a = some s' → I s')
    {s t : σ} {as : List α} (hok : AllSteps step ok s as) (hs : I s)
    (hrun : run step s as = some t) : I t := by
  induction as generalizing s with
  | nil =>
    obtain rfl : s = t := by simpa using hrun
    exact hs
  | cons a as ih =>
    obtain ⟨u, hu, hrest⟩ := run_cons_iff.mp hrun
    exact ih (hok.2 u hu) (hstep s a u hok.1 hs hu) hrest

/-- **Invariant rule.** What every step preserves holds after any run. -/
theorem run_invariant {I : σ → Prop} (hstep : ∀ s a s', I s → step s a = some s' → I s')
    {s t : σ} {as : List α} (hs : I s) (hrun : run step s as = some t) : I t := by
  have hany : AllSteps step (fun _ _ => True) s as := allSteps_of_forall fun _ _ => trivial
  exact run_invariant_of_allSteps (fun s a s' _ => hstep s a s') hany hs hrun

/-- Where every action is enabled, there is a run. -/
theorem exists_run {I : σ → Prop} {s : σ} {as : List α}
    (hstep : ∀ s, ∀ a ∈ as, I s → ∃ s', step s a = some s' ∧ I s') (hs : I s) :
    ∃ t, run step s as = some t ∧ I t := by
  induction as generalizing s with
  | nil => exact ⟨s, rfl, hs⟩
  | cons a as ih =>
    obtain ⟨u, hu, hI⟩ := hstep s a List.mem_cons_self hs
    obtain ⟨t, ht, hIt⟩ := ih (fun s b hb => hstep s b (List.mem_cons_of_mem _ hb)) hI
    exact ⟨t, run_cons_iff.mpr ⟨u, hu, ht⟩, hIt⟩

/-! ### Every state along a run -/

/-- `P` holds in every state the actions pass through, the first and the last among them. -/
def AllStates (step : σ → α → Option σ) (P : σ → Prop) : σ → List α → Prop
  | s, [] => P s
  | s, a :: as => P s ∧ ∀ s', step s a = some s' → AllStates step P s' as

/-- The states along a run are those its pieces reach. -/
theorem allStates_iff {P : σ → Prop} {s : σ} {as : List α} :
    AllStates step P s as ↔ ∀ bs cs u, as = bs ++ cs → run step s bs = some u → P u := by
  induction as generalizing s with
  | nil =>
    constructor
    · intro h bs cs u hsplit hrun
      obtain ⟨rfl, rfl⟩ := List.append_eq_nil_iff.mp hsplit.symm
      obtain rfl : s = u := by simpa using hrun
      exact h
    · intro h
      exact h [] [] s rfl rfl
  | cons a as ih =>
    constructor
    · intro h bs cs u hsplit hrun
      cases bs with
      | nil =>
        obtain rfl : s = u := by simpa using hrun
        exact h.1
      | cons b bs =>
        obtain ⟨rfl, rfl⟩ := List.cons.inj hsplit
        obtain ⟨v, hv, hrest⟩ := run_cons_iff.mp hrun
        exact ih.mp (h.2 v hv) bs cs u rfl hrest
    · intro h
      refine ⟨h [] (a :: as) s rfl rfl, fun s' hs' => ih.mpr fun bs cs u hsplit hrun => ?_⟩
      exact h (a :: bs) cs u (by rw [hsplit]; rfl) (run_cons_iff.mpr ⟨s', hs', hrun⟩)

/-- A decidable property of the states of a given run is checked by running it. -/
instance decidableAllStates {P : σ → Prop} [DecidablePred P] :
    ∀ (s : σ) (as : List α), Decidable (AllStates step P s as)
  | s, [] => inferInstanceAs (Decidable (P s))
  | s, a :: as =>
    match h : step s a with
    | none => decidable_of_iff (P s)
        ⟨fun hP => ⟨hP, fun _ hs => by rw [h] at hs; cases hs⟩, fun hall => hall.1⟩
    | some u =>
      have : Decidable (AllStates step P u as) := decidableAllStates u as
      decidable_of_iff (P s ∧ AllStates step P u as)
        ⟨fun hP => ⟨hP.1, fun _ hs => by rw [h] at hs; cases hs; exact hP.2⟩,
         fun hall => ⟨hall.1, hall.2 u h⟩⟩

theorem AllStates.first {P : σ → Prop} {s : σ} {as : List α} (h : AllStates step P s as) :
    P s := by
  cases as with
  | nil => exact h
  | cons a as => exact h.1

theorem AllStates.last {P : σ → Prop} {s t : σ} {as : List α} (h : AllStates step P s as)
    (hrun : run step s as = some t) : P t :=
  allStates_iff.mp h as [] t (List.append_nil as).symm hrun

theorem AllStates.mono {P Q : σ → Prop} (himp : ∀ s, P s → Q s) {s : σ} {as : List α}
    (h : AllStates step P s as) : AllStates step Q s as :=
  allStates_iff.mpr fun bs cs u hsplit hrun => himp u (allStates_iff.mp h bs cs u hsplit hrun)

theorem AllStates.and {P Q : σ → Prop} {s : σ} {as : List α} (hP : AllStates step P s as)
    (hQ : AllStates step Q s as) : AllStates step (fun s => P s ∧ Q s) s as :=
  allStates_iff.mpr fun bs cs u hsplit hrun =>
    ⟨allStates_iff.mp hP bs cs u hsplit hrun, allStates_iff.mp hQ bs cs u hsplit hrun⟩

/-- **Guarded invariant rule, for every state.** What the steps that meet a condition preserve holds
    in every state of a run whose steps all meet it. -/
theorem allStates_of_allSteps {ok : σ → α → Prop} {I P : σ → Prop} (hP : ∀ s, I s → P s)
    {s : σ} {as : List α} (hstep : ∀ s, ∀ a ∈ as, ∀ s', ok s a → I s → step s a = some s' → I s')
    (hok : AllSteps step ok s as) (hs : I s) : AllStates step P s as := by
  induction as generalizing s with
  | nil => exact hP s hs
  | cons a as ih =>
    refine ⟨hP s hs, fun s' hs' => ?_⟩
    apply ih (fun s b hb => hstep s b (List.mem_cons_of_mem _ hb)) (hok.2 s' hs')
    exact hstep s a List.mem_cons_self s' hok.1 hs hs'

/-- What no step makes true held all along where it holds in the end. -/
theorem allStates_of_last {P : σ → Prop} (hback : ∀ s a s', step s a = some s' → P s' → P s)
    {s t : σ} {as : List α} (hrun : run step s as = some t) (ht : P t) :
    AllStates step P s as := by
  induction as generalizing s with
  | nil =>
    obtain rfl : s = t := by simpa using hrun
    exact ht
  | cons a as ih =>
    obtain ⟨u, hu, hrest⟩ := run_cons_iff.mp hrun
    have hall := ih hrest
    refine ⟨hback s a u hu hall.first, fun s' hs' => ?_⟩
    obtain rfl : u = s' := by simpa [hu] using hs'
    exact hall

/-- **Exact invariant rule.** Where the steps that meet a condition keep an invariant and the
    others break what it implies, that holds in every state of a run exactly where all its steps
    meet the condition. -/
theorem allStates_iff_allSteps {ok : σ → α → Prop} {I P : σ → Prop} {s t : σ} {as : List α}
    (hP : ∀ s, I s → P s)
    (hkeep : ∀ s, ∀ a ∈ as, ∀ s', ok s a → I s → step s a = some s' → I s')
    (hbreak : ∀ s, ∀ a ∈ as, ∀ s', ¬ ok s a → I s → step s a = some s' → ¬ P s')
    (hs : I s) (hrun : run step s as = some t) :
    AllStates step P s as ↔ AllSteps step ok s as := by
  induction as generalizing s with
  | nil => exact ⟨fun _ => trivial, fun _ => hP s hs⟩
  | cons a as ih =>
    obtain ⟨u, hu, hrest⟩ := run_cons_iff.mp hrun
    have hrule : I u → (AllStates step P u as ↔ AllSteps step ok u as) := fun hu' =>
      ih (fun s b hb => hkeep s b (List.mem_cons_of_mem _ hb))
        (fun s b hb => hbreak s b (List.mem_cons_of_mem _ hb)) hu' hrest
    constructor
    · intro h
      -- a step that breaks what holds in every state was not taken
      have hok : ok s a := by
        by_contra hnot
        exact hbreak s a List.mem_cons_self u hnot hs hu (h.2 u hu).first
      refine ⟨hok, fun s' hs' => ?_⟩
      obtain rfl : u = s' := by simpa [hu] using hs'
      exact (hrule (hkeep s a List.mem_cons_self u hok hs hu)).mp (h.2 u hu)
    · rintro ⟨hok, hall⟩
      refine ⟨hP s hs, fun s' hs' => ?_⟩
      obtain rfl : u = s' := by simpa [hu] using hs'
      exact (hrule (hkeep s a List.mem_cons_self u hok hs hu)).mpr (hall u hu)

/-! ### What happened along a run -/

/-- What was recorded along a run: each step adds to it, from the state before it and its
    action. -/
def history {η : Type*} (step : σ → α → Option σ) (record : σ → α → η → η) : σ → η → List α → η
  | _, h, [] => h
  | s, h, a :: as =>
    match step s a with
    | none => h
    | some s' => history step record s' (record s a h) as

/-- **Invariant rule with history.** -/
theorem history_invariant {η : Type*} (record : σ → α → η → η) {I : σ → η → Prop}
    (hstep : ∀ s h a s', I s h → step s a = some s' → I s' (record s a h)) {s t : σ} {h : η}
    {as : List α} (hs : I s h) (hrun : run step s as = some t) :
    I t (history step record s h as) := by
  induction as generalizing s h with
  | nil =>
    obtain rfl : s = t := by simpa using hrun
    exact hs
  | cons a as ih =>
    obtain ⟨u, hu, hrest⟩ := run_cons_iff.mp hrun
    rw [history, hu]
    exact ih (hstep s h a u hs hu) hrest

/-- The system with a record of what happened. -/
def recorded {η : Type*} (step : σ → α → Option σ) (record : σ → α → η → η) (x : σ × η) (a : α) :
    Option (σ × η) :=
  (step x.1 a).map fun s' => (s', record x.1 a x.2)

/-- What holds in every state, whatever was recorded. -/
theorem allStates_of_recorded {η : Type*} {record : σ → α → η → η} {P : σ → Prop} {s : σ} {h : η}
    {as : List α} (hall : AllStates (recorded step record) (fun x => P x.1) (s, h) as) :
    AllStates step P s as := by
  induction as generalizing s h with
  | nil => exact hall
  | cons a as ih =>
    refine ⟨hall.1, fun s' hs' => ih (hall.2 (s', record s a h) ?_)⟩
    rw [recorded, hs']
    rfl

/-! ### Steps that go wrong -/

section

variable {β η : Type*} {fault : σ → β → Option σ} {os : List (α ⊕ β)}

/-- The system where something may also go wrong. -/
def withFaults (step : σ → α → Option σ) (fault : σ → β → Option σ) (s : σ) :
    α ⊕ β → Option σ
  | .inl a => step s a
  | .inr b => fault s b

/-- **Invariant rule**: what steps and faults keep. -/
theorem run_withFaults_invariant {I : σ → Prop} (hstep : ∀ s a s', I s → step s a = some s' → I s')
    (hfault : ∀ s b s', I s → fault s b = some s' → I s') {s t : σ} (hs : I s)
    (hrun : run (withFaults step fault) s os = some t) : I t := by
  refine run_invariant (fun s o s' hI ho => ?_) hs hrun
  cases o with
  | inl a => exact hstep s a s' hI ho
  | inr b => exact hfault s b s' hI ho

/-- Where nothing goes wrong there are only steps. -/
theorem exists_eq_map_inl (hnone : ∀ o ∈ os, o.isLeft = true) : ∃ as : List α, os = as.map .inl := by
  induction os with
  | nil => exact ⟨[], rfl⟩
  | cons o os ih =>
    obtain ⟨as, rfl⟩ := ih fun o ho => hnone o (List.mem_cons_of_mem _ ho)
    cases o with
    | inl a => exact ⟨a :: as, rfl⟩
    | inr b => exact absurd (hnone _ List.mem_cons_self) nofun

/-- **A run in which nothing goes wrong** is a run of the steps. -/
theorem run_map_inl (s : σ) (as : List α) :
    run (withFaults step fault) s (as.map .inl) = run step s as := by
  induction as generalizing s with
  | nil => rfl
  | cons a as ih =>
    rw [List.map_cons, run, run]
    show (match step s a with | none => none | some s' => _) = _
    cases step s a with
    | none => rfl
    | some s' => exact ih s'

/-- What is recorded along it is what is recorded along the steps. -/
theorem history_map_inl (record : σ → α ⊕ β → η → η) (s : σ) (h : η) (as : List α) :
    history (withFaults step fault) record s h (as.map .inl) =
      history step (fun s a => record s (.inl a)) s h as := by
  induction as generalizing s h with
  | nil => rfl
  | cons a as ih =>
    rw [List.map_cons, history, history]
    show (match step s a with | none => h | some s' => _) = _
    cases step s a with
    | none => rfl
    | some s' => exact ih s' _

end

/-! ### Actions that come to an end -/

section

variable {own : α → Prop} {μ : σ → Nat}

/-- None of the actions is enabled. -/
def Quiet (step : σ → α → Option σ) (own : α → Prop) (s : σ) : Prop :=
  ∀ a, own a → step s a = none

/-- A run by actions that lower a measure is no longer than the measure. -/
theorem length_add_le_of_lowers
    (hlower : ∀ s a s', own a → step s a = some s' → μ s' < μ s) {s t : σ} {as : List α}
    (hown : ∀ a ∈ as, own a) (hrun : run step s as = some t) : as.length + μ t ≤ μ s := by
  induction as generalizing s with
  | nil =>
    obtain rfl : s = t := by simpa using hrun
    simp
  | cons a as ih =>
    obtain ⟨u, hu, hrest⟩ := run_cons_iff.mp hrun
    have hhead := hlower s a u (hown a List.mem_cons_self) hu
    have htail := ih (fun b hb => hown b (List.mem_cons_of_mem _ hb)) hrest
    rw [List.length_cons]
    omega

/-- Such actions are taken until none is enabled. -/
theorem exists_quiet (hlower : ∀ s a s', own a → step s a = some s' → μ s' < μ s) (s : σ) :
    ∃ as t, (∀ a ∈ as, own a) ∧ run step s as = some t ∧ Quiet step own t := by
  induction hμ : μ s using Nat.strong_induction_on generalizing s with
  | _ m ih =>
    by_cases hquiet : Quiet step own s
    · exact ⟨[], s, by simp, rfl, hquiet⟩
    · simp only [Quiet, not_forall] at hquiet
      obtain ⟨a, ha, henabled⟩ := hquiet
      obtain ⟨u, hu⟩ := Option.ne_none_iff_exists'.mp henabled
      obtain ⟨as, t, hown, hrun, ht⟩ := ih (μ u) (hμ ▸ hlower s a u ha hu) u rfl
      exact ⟨a :: as, t, List.forall_mem_cons.mpr ⟨ha, hown⟩, run_cons_iff.mpr ⟨u, hu, hrun⟩, ht⟩

end

/-! ### States that hold a list of tasks -/

/-- What holds of every task and of the new one holds of all after one was replaced. -/
theorem forall_mem_set {τ : Type*} {P : τ → Prop} {ts : List τ} {i : Nat} {t : τ}
    (h : ∀ u ∈ ts, P u) (ht : P t) : ∀ u ∈ ts.set i t, P u := by
  intro u hu
  rcases List.mem_or_eq_of_mem_set hu with hold | rfl
  · exact h u hold
  · exact ht

/-- A task other than the replaced one is still there. -/
theorem mem_set_of_ne {τ : Type*} {ts : List τ} {i : Nat} {t u old : τ}
    (hold : ts[i]? = some old) (hu : u ∈ ts) (hne : u ≠ old) : u ∈ ts.set i t := by
  obtain ⟨j, hj⟩ := List.mem_iff_getElem?.mp hu
  have hij : i ≠ j := by
    rintro rfl
    exact hne (Option.some.inj (hj.symm.trans hold))
  exact List.mem_iff_getElem?.mpr ⟨j, by rw [List.getElem?_set_ne hij, hj]⟩

/-- The converse, where it holds of the replaced task too. -/
theorem forall_mem_of_set {τ : Type*} {P : τ → Prop} {ts : List τ} {i : Nat} {t old : τ}
    (hold : ts[i]? = some old) (hP : P old) (h : ∀ u ∈ ts.set i t, P u) : ∀ u ∈ ts, P u := by
  intro u hu
  by_cases heq : u = old
  · rw [heq]
    exact hP
  · exact h u (mem_set_of_ne hold hu heq)

/-- What holds of every task and of a new one holds of all after it was appended. -/
theorem forall_mem_concat {τ : Type*} {P : τ → Prop} {ts : List τ} {t : τ}
    (h : ∀ u ∈ ts, P u) (ht : P t) : ∀ u ∈ ts ++ [t], P u := by
  intro u hu
  rcases List.mem_append.mp hu with hold | hnew
  · exact h u hold
  · obtain rfl : u = t := by simpa using hnew
    exact ht

/-- Where a task of a list comes from, after one was replaced. -/
theorem getElem?_set_cases {τ : Type*} {ts : List τ} {i j : Nat} {t u : τ}
    (h : (ts.set i t)[j]? = some u) : i = j ∧ u = t ∨ i ≠ j ∧ ts[j]? = some u := by
  by_cases hij : i = j
  · subst hij
    have hi : i < ts.length := by simpa using (List.getElem?_eq_some_iff.mp h).1
    rw [List.getElem?_set_self hi, Option.some.injEq] at h
    exact .inl ⟨rfl, h.symm⟩
  · rw [List.getElem?_set_ne hij] at h
    exact .inr ⟨hij, h⟩

/-- Where a task of a list comes from, after one was appended. -/
theorem getElem?_concat_cases {τ : Type*} {ts : List τ} {j : Nat} {t u : τ}
    (h : (ts ++ [t])[j]? = some u) : ts[j]? = some u ∨ j = ts.length ∧ u = t := by
  rcases Nat.lt_trichotomy j ts.length with hlt | rfl | hgt
  · rw [List.getElem?_append_left hlt] at h
    exact .inl h
  · rw [List.getElem?_concat_length, Option.some.injEq] at h
    exact .inr ⟨rfl, h.symm⟩
  · rw [List.getElem?_eq_none (by simp; omega)] at h
    cases h

/-- What the tasks hold together, after one was replaced. -/
theorem flatMap_set_perm {τ β : Type*} {ts : List τ} {i : Nat} {old : τ} (f : τ → List β) (t : τ)
    (hold : ts[i]? = some old) :
    ((ts.set i t).flatMap f ++ f old).Perm (ts.flatMap f ++ f t) := by
  induction ts generalizing i with
  | nil => cases hold
  | cons u us ih =>
    cases i with
    | zero =>
      obtain rfl : u = old := by simpa using hold
      have hmove : (us.flatMap f ++ f u).Perm (f u ++ us.flatMap f) := List.perm_append_comm
      rw [List.set_cons_zero, List.flatMap_cons, List.flatMap_cons, List.append_assoc]
      exact List.perm_append_comm.trans (hmove.append_right _)
    | succ i =>
      rw [List.set_cons_succ, List.flatMap_cons, List.flatMap_cons, List.append_assoc,
        List.append_assoc]
      exact (ih (by simpa using hold)).append_left _

/-- What the tasks count for together, after one was replaced. -/
theorem sum_map_set_add {τ : Type*} {ts : List τ} {i : Nat} {old : τ} (f : τ → Nat) (t : τ)
    (hold : ts[i]? = some old) :
    ((ts.set i t).map f).sum + f old = (ts.map f).sum + f t := by
  induction ts generalizing i with
  | nil => cases hold
  | cons u us ih =>
    cases i with
    | zero =>
      obtain rfl : u = old := by simpa using hold
      simp only [List.set_cons_zero, List.map_cons, List.sum_cons]
      omega
    | succ i =>
      have htail := ih (i := i) (by simpa using hold)
      simp only [List.set_cons_succ, List.map_cons, List.sum_cons]
      omega

/-- How many tasks meet a condition, after one was replaced. -/
theorem countP_set_add {τ : Type*} {ts : List τ} {i : Nat} {t old : τ} (p : τ → Bool)
    (hold : ts[i]? = some old) :
    (ts.set i t).countP p + (if p old then 1 else 0) = ts.countP p + (if p t then 1 else 0) := by
  obtain ⟨hi, rfl⟩ := List.getElem?_eq_some_iff.mp hold
  have hle : (if p ts[i] then 1 else 0) ≤ ts.countP p := by
    split
    · next h => exact List.countP_pos_iff.mpr ⟨_, List.getElem_mem hi, h⟩
    · exact Nat.zero_le _
  rw [List.countP_set hi]
  omega

end Lts
