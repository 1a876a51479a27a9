import Krystallos.Smb.Session

namespace Krystallos.Smb

open Lts

/-!
# A file is closed by one task

The swap of a file's `closed` lets one task through: the `Close` commands a file has sent and
the tasks about to send one are together one if the file is closed and none if it is not.
`Closers` says so of every file, and every step keeps it.
-/

/-- The file a call is about. -/
def CallKind.about : CallKind → Option Nat
  | .file f _ | .close f | .drop f => some f
  | _ => none

/-- The task is about to send a `Close` for the file. -/
def Task.closing (f : Nat) : Task → Bool
  | ⟨.close g, .ready⟩ | ⟨.drop g, .ready⟩ => g == f
  | _ => false

/-- How many tasks are about to send a `Close` for the file. -/
def closers (tasks : List Task) (f : Nat) : Nat := tasks.countP (Task.closing f)

/-- What ties the tasks to the files. -/
structure Closers (tasks : List Task) (files : List Opened) : Prop where
  known : ∀ t ∈ tasks, ∀ f, t.kind.about = some f → f < files.length
  closes : ∀ (f : Nat) (o : Opened), files[f]? = some o → closers tasks f + o.closes = if o.closed then 1 else 0
  dropped : ∀ (f : Nat) (o : Opened), files[f]? = some o → o.life = .dropped → o.closes = 1
  dropping : ∀ t ∈ tasks, ∀ (f : Nat) (o : Opened), t.kind = .drop f → files[f]? = some o → o.life ≠ .owned

/-! ### Tasks -/

variable {tasks : List Task} {files : List Opened} {kind : CallKind} {pc pc' : Pc} {i f : Nat}
  {o : Opened}

/-- Only a task that has yet to send can send a `Close`. -/
theorem closing_of_ne_ready (h : pc ≠ .ready) : Task.closing f ⟨kind, pc⟩ = false := by
  cases pc with
  | ready => exact absurd rfl h
  | _ => cases kind <;> rfl

/-- And only one that is about the file. -/
theorem closing_of_about (h : kind.about ≠ some f) : Task.closing f ⟨kind, pc⟩ = false := by
  cases pc with
  | ready =>
    cases kind with
    | close g | drop g => simpa [Task.closing, CallKind.about] using h
    | _ => rfl
  | _ => cases kind <;> rfl

/-- The tasks that were there are about files that were there. -/
theorem Closers.closers_new (h : Closers tasks files) : closers tasks files.length = 0 := by
  refine List.countP_eq_zero.mpr fun t ht hclosing => ?_
  have hfalse : Task.closing files.length t = false :=
    closing_of_about fun habout => lt_irrefl _ (h.known t ht _ habout)
  rw [hfalse] at hclosing
  cases hclosing

/-- One more task. -/
theorem closers_concat (t : Task) :
    closers (tasks ++ [t]) f = closers tasks f + if t.closing f then 1 else 0 := by
  rw [closers, List.countP_append, List.countP_singleton, ← closers]

/-- A call that closes nothing starts. -/
theorem Closers.spawn (h : Closers tasks files)
    (hknown : ∀ f, kind.about = some f → f < files.length)
    (hidle : ∀ f, Task.closing f ⟨kind, pc⟩ = false) (hdrop : ∀ f, kind ≠ .drop f) :
    Closers (tasks ++ [⟨kind, pc⟩]) files where
  known := forall_mem_concat h.known hknown
  closes f o hf := by
    rw [closers_concat, hidle]
    exact h.closes f o hf
  dropped := h.dropped
  dropping := forall_mem_concat h.dropping fun f _ heq => absurd heq (hdrop f)

/-- A task that has no command to send goes on, and has none to send. -/
theorem Closers.setPc (h : Closers tasks files) (htask : tasks[i]? = some ⟨kind, pc⟩)
    (hpc : pc ≠ .ready) (hpc' : pc' ≠ .ready) : Closers (tasks.set i ⟨kind, pc'⟩) files where
  known := by
    have hold := h.known _ (List.mem_of_getElem? htask)
    exact forall_mem_set h.known hold
  closes f o hf := by
    have hcount := countP_set_add (t := ⟨kind, pc'⟩) (Task.closing f) htask
    rw [closing_of_ne_ready hpc, closing_of_ne_ready hpc'] at hcount
    rw [closers, Nat.add_right_cancel hcount]
    exact h.closes f o hf
  dropped := h.dropped
  dropping := by
    have hold := h.dropping _ (List.mem_of_getElem? htask)
    exact forall_mem_set h.dropping hold

/-- An answer makes no task send. -/
theorem Closers.settle (h : Closers tasks files) (reply : Option Nat) (hpc : pc ≠ .ready) :
    Closers (Sys.settle tasks reply pc) files := by
  rcases Sys.settle_cases tasks reply pc with hsame | ⟨i, kind, -, htask, hset⟩
  · rw [hsame]
    exact h
  · rw [hset]
    exact h.setPc htask nofun hpc

/-! ### Files -/

/-- What is not about a file's length. -/
theorem Closers.setLen (h : Closers tasks files) (f len : Nat) :
    Closers tasks (files.modify f fun o => { o with len := len }) := by
  -- every handle is as before, but for the length of one
  have hback : ∀ {g : Nat} {o' : Opened},
      (files.modify f fun o => { o with len := len })[g]? = some o' →
      ∃ o : Opened, files[g]? = some o ∧ o'.closes = o.closes ∧ o'.closed = o.closed ∧
        o'.life = o.life := by
    intro g o' hg
    rw [List.getElem?_modify] at hg
    obtain ⟨o, ho, rfl⟩ := Option.map_eq_some_iff.mp hg
    refine ⟨o, ho, ?_⟩
    split <;> exact ⟨rfl, rfl, rfl⟩
  constructor
  · rw [List.length_modify]
    exact h.known
  · intro g o' hg
    obtain ⟨o, ho, hcloses, hclosed, -⟩ := hback hg
    rw [hcloses, hclosed]
    exact h.closes g o ho
  · intro g o' hg hdropped
    obtain ⟨o, ho, hcloses, -, hlife⟩ := hback hg
    rw [hcloses]
    exact h.dropped g o ho (hlife ▸ hdropped)
  · intro t ht g o' hdrop hg
    obtain ⟨o, ho, -, -, hlife⟩ := hback hg
    rw [hlife]
    exact h.dropping t ht g o hdrop ho

/-- An open that was answered: the file is new, and no task is about it. -/
theorem Closers.open (h : Closers tasks files) (hcloses : o.closes = 0) (hclosed : o.closed = false)
    (hlife : o.life = .owned) : Closers tasks (files ++ [o]) where
  known t ht f hf := by
    rw [List.length_append]
    exact Nat.lt_add_right _ (h.known t ht f hf)
  closes f o' hf := by
    rcases getElem?_concat_cases hf with hold | ⟨rfl, rfl⟩
    · exact h.closes f o' hold
    · rw [h.closers_new, hcloses, hclosed]
      rfl
  dropped f o' hf hdropped := by
    rcases getElem?_concat_cases hf with hold | ⟨-, rfl⟩
    · exact h.dropped f o' hold hdropped
    · rw [hlife] at hdropped
      cases hdropped
  dropping t ht f o' hdrop hf := by
    rcases getElem?_concat_cases hf with hold | ⟨rfl, -⟩
    · exact h.dropping t ht f o' hdrop hold
    · exact absurd (h.known t ht _ (by rw [hdrop, CallKind.about])) (lt_irrefl _)

/-- A new task about a file that is there. -/
theorem Closers.known_concat (h : Closers tasks files) (hf : files[f]? = some o)
    (hkind : kind.about = some f) (o' : Opened) :
    ∀ t ∈ tasks ++ [⟨kind, pc⟩], ∀ g, t.kind.about = some g → g < (files.set f o').length := by
  rw [List.length_set]
  refine forall_mem_concat h.known fun g hg => ?_
  obtain rfl : f = g := Option.some.inj (hkind.symm.trans hg)
  exact (List.getElem?_eq_some_iff.mp hf).1

/-- A new task that is about another file. -/
theorem closers_concat_other {g : Nat} (hkind : kind.about = some f) (hne : f ≠ g) :
    closers (tasks ++ [⟨kind, pc⟩]) g = closers tasks g := by
  have hidle : Task.closing g ⟨kind, pc⟩ = false := by
    apply closing_of_about
    rw [hkind]
    exact fun heq => hne (Option.some.inj heq)
  rw [closers_concat, hidle]
  rfl

/-- `close`: the first to swap has a command to send. -/
theorem Closers.close (h : Closers tasks files) (hf : files[f]? = some o) {r : Result Answer} :
    Closers (tasks ++ [⟨.close f, if o.closed then .done r else .ready⟩])
      (files.set f { o with closed := true }) where
  known := h.known_concat hf rfl _
  closes g o' hg := by
    rcases getElem?_set_cases hg with ⟨rfl, rfl⟩ | ⟨hne, hold⟩
    · -- the first to close sends, and the others have nothing to do
      rw [closers_concat]
      have hbefore := h.closes f o hf
      cases hclosed : o.closed with
      | true =>
        rw [hclosed, if_pos rfl] at hbefore
        exact hbefore
      | false =>
        rw [hclosed, if_neg Bool.false_ne_true] at hbefore
        have hself : Task.closing f ⟨.close f, .ready⟩ = true := beq_self_eq_true f
        simp only [Bool.false_eq_true, if_false, hself, if_true]
        omega
    · rw [closers_concat_other rfl hne]
      exact h.closes g o' hold
  dropped g o' hg hdropped := by
    rcases getElem?_set_cases hg with ⟨rfl, rfl⟩ | ⟨-, hold⟩
    · exact h.dropped f o hf hdropped
    · exact h.dropped g o' hold hdropped
  dropping := by
    refine forall_mem_concat (fun t ht g o' hdrop hg => ?_) fun g o' hdrop => by cases hdrop
    rcases getElem?_set_cases hg with ⟨rfl, rfl⟩ | ⟨-, hold⟩
    · exact h.dropping t ht f o hdrop hf
    · exact h.dropping t ht g o' hdrop hold

/-- `drop` of a file that is not closed: it has the command to send. -/
theorem Closers.dropOpen (h : Closers tasks files) (hf : files[f]? = some o)
    (hclosed : o.closed = false) : Closers (tasks ++ [⟨.drop f, .ready⟩])
      (files.set f { o with closed := true, life := .dropping }) where
  known := h.known_concat hf rfl _
  closes g o' hg := by
    rcases getElem?_set_cases hg with ⟨rfl, rfl⟩ | ⟨hne, hold⟩
    · -- nobody closed it, so that the one who drops it does
      rw [closers_concat]
      have hbefore := h.closes f o hf
      rw [hclosed, if_neg Bool.false_ne_true] at hbefore
      have hself : Task.closing f ⟨.drop f, .ready⟩ = true := beq_self_eq_true f
      simp only [hself, if_true]
      omega
    · rw [closers_concat_other rfl hne]
      exact h.closes g o' hold
  dropped g o' hg hdropped := by
    rcases getElem?_set_cases hg with ⟨rfl, rfl⟩ | ⟨-, hold⟩
    · cases hdropped
    · exact h.dropped g o' hold hdropped
  dropping := by
    refine forall_mem_concat (fun t ht g o' hdrop hg => ?_) fun g o' hdrop hg => ?_
    · rcases getElem?_set_cases hg with ⟨rfl, rfl⟩ | ⟨-, hold⟩
      · exact nofun
      · exact h.dropping t ht g o' hdrop hold
    · cases hdrop
      rcases getElem?_set_cases hg with ⟨-, rfl⟩ | ⟨hne, -⟩
      · exact nofun
      · exact absurd rfl hne

/-- Where nothing borrows an owned file, no task is about to close it. -/
theorem Closers.closers_unborrowed (h : Closers tasks files) (hf : files[f]? = some o)
    (howned : o.life = .owned)
    (hfree : ∀ t ∈ tasks, t.kind.borrows = some f → t.pc.over = true) : closers tasks f = 0 := by
  refine List.countP_eq_zero.mpr fun t ht hclosing => ?_
  obtain ⟨kind, pc⟩ := t
  unfold Task.closing at hclosing
  split at hclosing
  · -- a `close` borrows the file
    next g heq =>
    cases heq
    have hg : g = f := by simpa using hclosing
    have hover := hfree _ ht (by rw [CallKind.borrows, hg])
    cases hover
  · -- a `drop` has taken the file
    next g heq =>
    cases heq
    have hg : g = f := by simpa using hclosing
    exact h.dropping _ ht f o (by rw [hg]) hf howned
  · cases hclosing

/-- `drop` of a file that is closed has nothing to send. -/
theorem Closers.dropClosed (h : Closers tasks files) (hf : files[f]? = some o)
    (howned : o.life = .owned) (hclosed : o.closed = true)
    (hfree : ∀ t ∈ tasks, t.kind.borrows = some f → t.pc.over = true) :
    Closers tasks (files.set f { o with life := .dropped }) where
  known := by
    rw [List.length_set]
    exact h.known
  closes g o' hg := by
    rcases getElem?_set_cases hg with ⟨rfl, rfl⟩ | ⟨-, hold⟩
    · exact h.closes f o hf
    · exact h.closes g o' hold
  dropped g o' hg hdropped := by
    rcases getElem?_set_cases hg with ⟨rfl, rfl⟩ | ⟨-, hold⟩
    · have hbefore := h.closes f o hf
      rwa [h.closers_unborrowed hf howned hfree, hclosed, if_pos rfl, Nat.zero_add] at hbefore
    · exact h.dropped g o' hold hdropped
  dropping t ht g o' hdrop hg := by
    rcases getElem?_set_cases hg with ⟨rfl, rfl⟩ | ⟨-, hold⟩
    · exact nofun
    · exact h.dropping t ht g o' hdrop hold

/-- What a file is after a task sent its command. -/
theorem getElem?_afterSend (h : (kind.afterSend files)[f]? = some o) :
    ∃ o₀ : Opened, files[f]? = some o₀ ∧ o.closed = o₀.closed ∧ o.file = o₀.file ∧
      o.closes = o₀.closes + (if Task.closing f ⟨kind, .ready⟩ then 1 else 0) ∧
      (o.life = o₀.life ∨ kind = .drop f ∧ o.life = .dropped) := by
  cases kind with
  | session | shutdown | file => exact ⟨o, h, rfl, rfl, rfl, .inl rfl⟩
  | close g =>
    rw [CallKind.afterSend, List.getElem?_modify] at h
    obtain ⟨o₀, ho, rfl⟩ := Option.map_eq_some_iff.mp h
    by_cases hg : g = f
    · simp [ho, hg, Task.closing, Opened.sent]
    · simp [ho, hg, Task.closing]
  | drop g =>
    rw [CallKind.afterSend, List.getElem?_modify] at h
    obtain ⟨o₀, ho, rfl⟩ := Option.map_eq_some_iff.mp h
    by_cases hg : g = f
    · simp [ho, hg, Task.closing, Opened.sent]
    · simp [ho, hg, Task.closing]

/-- A command that was sent leaves as many files. -/
theorem length_afterSend : (kind.afterSend files).length = files.length := by
  cases kind with
  | close | drop => exact List.length_modify ..
  | _ => rfl

/-- A task sent its command, or found the receiver gone. -/
theorem Closers.sent (h : Closers tasks files) (htask : tasks[i]? = some ⟨kind, .ready⟩)
    (hpc : pc ≠ .ready) : Closers (tasks.set i ⟨kind, pc⟩) (kind.afterSend files) := by
  -- a task that was about to close is not any more, and its file has one more close
  have hcount : ∀ f, closers (tasks.set i ⟨kind, pc⟩) f +
      (if Task.closing f ⟨kind, .ready⟩ then 1 else 0) = closers tasks f := by
    intro f
    have hset := countP_set_add (t := ⟨kind, pc⟩) (Task.closing f) htask
    rw [closing_of_ne_ready hpc] at hset
    exact hset
  constructor
  · rw [length_afterSend]
    have hold := h.known _ (List.mem_of_getElem? htask)
    exact forall_mem_set h.known hold
  · intro f o hf
    obtain ⟨o₀, ho, hclosed, -, hcloses, -⟩ := getElem?_afterSend hf
    have hbefore := h.closes f o₀ ho
    have hsum := hcount f
    rw [hclosed, hcloses, ← hbefore]
    omega
  · intro f o hf hdropped
    obtain ⟨o₀, ho, -, -, hcloses, hlife | ⟨rfl, -⟩⟩ := getElem?_afterSend hf
    · have hone := h.dropped f o₀ ho (hlife ▸ hdropped)
      have hbefore := h.closes f o₀ ho
      have hsum := hcount f
      split at hbefore
      · omega
      · omega
    · -- the file that is dropped: its task was the one about to close
      have hself : Task.closing f ⟨.drop f, .ready⟩ = true := beq_self_eq_true f
      have hbefore := h.closes f o₀ ho
      have hsum := hcount f
      rw [hself, if_pos rfl] at hsum hcloses
      split at hbefore
      · omega
      · omega
  · have hold : ∀ t ∈ tasks, ∀ f o, t.kind = .drop f → (kind.afterSend files)[f]? = some o →
        o.life ≠ .owned := by
      intro t ht f o hdrop hf
      obtain ⟨o₀, ho, -, -, -, hlife | ⟨-, hlife⟩⟩ := getElem?_afterSend hf
      · rw [hlife]
        exact h.dropping t ht f o₀ hdrop ho
      · rw [hlife]
        exact nofun
    have hself := hold _ (List.mem_of_getElem? htask)
    exact forall_mem_set hold hself

/-! ### Every step -/

namespace Sys

variable {W : Type} {lib : Libsmb2 W} {limits : Limits} {s s' : Sys W} {a : Action}

/-- Taking the thread to join it sends nothing. -/
theorem closers_takeJoin (h : Closers s.tasks s.files)
    (htask : s.tasks[i]? = some ⟨.shutdown, pc⟩) :
    Closers (s.takeJoin i).tasks (s.takeJoin i).files := by
  have hpc' : (if s.join then .joining else .done (.ok .unit) : Pc) ≠ .ready := by
    split <;> exact nofun
  by_cases hpc : pc = .ready
  · subst hpc
    exact h.sent htask hpc'
  · exact h.setPc htask hpc hpc'

/-- A task with its reply is not about to send anything, and a file it adds is open. -/
theorem closers_received {r : Result Answer} (h : Closers s.tasks s.files)
    (htask : s.tasks[i]? = some ⟨kind, .delivered r⟩) :
    Closers (s.tasks.set i ⟨kind, (s.received limits kind r).1⟩)
      (s.received limits kind r).2 := by
  have hset : ∀ {pc}, pc ≠ .ready → Closers (s.tasks.set i ⟨kind, pc⟩) s.files :=
    fun hpc => h.setPc htask nofun hpc
  unfold received
  split
  · exact (hset (by nofun)).open rfl rfl rfl
  · split
    · exact (hset (by nofun)).setLen _ _
    · exact hset (by nofun)
    · exact hset (by nofun)
  · exact hset (by nofun)

/-- Nor do any number of answers. -/
theorem closers_settle_foldl {queue : List Command} (h : Closers tasks files) :
    Closers (queue.foldl (fun tasks cmd => settle tasks cmd.reply .lost) tasks) files := by
  induction queue generalizing tasks with
  | nil => exact h
  | cons cmd queue ih => exact ih (h.settle cmd.reply nofun)

/-- **Step lemma.** -/
theorem closers_step (h : Closers s.tasks s.files) (hstep : step lib limits s a = some s') :
    Closers s'.tasks s'.files := by
  cases moved_of_step hstep with
  | call | shutdown =>
    exact h.spawn (fun f hf => by cases hf) (fun f => rfl) (fun f hf => by cases hf)
  | fileCall hf howned =>
    refine h.spawn (fun g hg => ?_) (fun g => ?_) (fun g hg => by cases hg)
    · cases hg
      exact (List.getElem?_eq_some_iff.mp hf).1
    · unfold Task.closing
      split <;> simp_all
  | close hf howned => exact h.close hf
  | dropClosed hf howned hfree hclosed =>
    exact h.dropClosed hf howned hclosed (unborrowed_iff.mp hfree)
  | dropOpen hf howned hfree hclosed => exact h.dropOpen hf hclosed
  | enqueue htask hup hcmd =>
    apply h.sent htask
    split <;> exact nofun
  | @refuse i kind htask hexited =>
    cases kind with
    | shutdown => exact closers_takeJoin h htask
    | _ => exact h.sent htask nofun
  | takeJoin htask hpc => exact closers_takeJoin h htask
  | joined htask hexited | disconnected htask hkind =>
    exact h.setPc htask nofun nofun
  | received htask hkind => exact closers_received h htask
  -- a task that is abandoned was waiting, and has sent what it had to
  | abandon htask hawait =>
    refine h.setPc htask (fun hready => ?_) nofun
    rw [hready] at hawait
    cases hawait
  | letGo hover => exact h
  | ran hserving hqueue hrun => exact h.settle _ (by nofun)
  | stopped hserving hqueue =>
    apply h.settle (some _)
    nofun
  | hangUp hserving hqueue hheld hdropped => exact h
  | teardown hleaving hrun => exact h
  | exit hdown => exact closers_settle_foldl h

/-- A file sends one `Close` at most. -/
theorem closes_le_one (h : Closers s.tasks s.files) {o : Opened} (ho : o ∈ s.files) :
    o.closes ≤ 1 := by
  obtain ⟨f, hf⟩ := List.mem_iff_getElem?.mp ho
  have hcloses := h.closes f o hf
  split at hcloses <;> omega

theorem closers_init (w : W) : Closers (init w).tasks (init w).files where
  known := by simp [init]
  closes := by simp [init]
  dropped := by simp [init]
  dropping := by simp [init]

end Sys

end Krystallos.Smb
