import Krystallos.Lib.Assoc
import Krystallos.Smb.Share

namespace Krystallos.Smb

open Slices

/-!
# A server in memory

A share that can be computed with, on which any set of calls fails, reads shrink to what the
credits cover, and chunks above the server's limit are refused with the limit.  It is
`Truthful` for every choice of these, so that what is assumed of a server is not too much.
-/

/-- The share, and the next handle to give out. -/
structure MemServer where
  nodes : String → Option Node
  files : List (Fh × String)
  keys : List UInt8 → Option String
  next : Fh

/-- How the server and the connection to it behave. -/
structure Quirks where
  fails : Call → Bool
  nterror : Nat
  maxChunk : Nat
  credits : Nat

/-- Some calls fail, with a status, and nothing is limited. -/
def Quirks.failing (fails : Call → Bool) (nterror : Nat) : Quirks :=
  ⟨fails, nterror, 2 ^ 32, 2 ^ 32⟩

/-- Nothing fails and nothing is limited. -/
def Quirks.none : Quirks := .failing (fun _ => false) 0

namespace MemServer

/-- The share of a server. -/
def view (m : MemServer) : Share String := ⟨m.nodes, fun fh => m.files.lookup fh, m.keys⟩

/-- A server with one name on it and nothing open. -/
def holding (path : String) (node : Node) : MemServer :=
  ⟨Function.update (fun _ => Option.none) path (some node), [], fun _ => Option.none, 1⟩

/-- What a handle is open on. -/
def nodeOf (m : MemServer) (fh : Fh) : Option (String × Node) :=
  (m.files.lookup fh).bind fun path => (m.nodes path).map fun node => (path, node)

/-- Whether a handle is open on `path`. -/
def isOpen (m : MemServer) (path : String) : Bool :=
  m.files.any fun f => m.files.lookup f.1 == some path

/-- A name now stands for `node`. -/
def put (m : MemServer) (path : String) (node : Option Node) : MemServer :=
  { m with nodes := Function.update m.nodes path node }

/-- Give out a handle on `path`. -/
def give (m : MemServer) (path : String) : Option Fh × MemServer :=
  (some m.next, { m with files := (m.next, path) :: m.files, next := m.next + 1 })

/-- A `Stat` with a size and nothing else. -/
def statOf (size : Nat) : Stat := ⟨0, size, 0, 0, 0, 0, 0, 0, 0⟩

/-- `smb2_open`: of what exists, or of a new file where the flags ask for one. -/
def openFile (m : MemServer) (path : String) (flags : OpenFlags) : Option Fh × MemServer :=
  if (m.files.lookup m.next).isSome then (Option.none, m)
  else if flags.creat then
    if flags.excl ∧ (m.nodes path).isNone ∧ m.isOpen path = false then
      (m.put path (some (.file []))).give path
    else (Option.none, m)
  else if (m.nodes path).isSome then m.give path
  else (Option.none, m)

/-- `smb2_copychunk`: all of a chunk that is not above the limit. -/
def copychunk (m : MemServer) (maxChunk : Nat) (rk : List UInt8) (fh : Fh) (chunk : CopyChunk) :
    (Int × CopyReply) × MemServer :=
  match (m.keys rk).bind m.nodes, m.nodeOf fh with
  | some (.file S), some (path, .file D) =>
    if chunk.length ≤ maxChunk ∧ chunk.sourceOffset + chunk.length ≤ S.length then
      ((0, ⟨1, chunk.length, chunk.length⟩),
        m.put path (some (.file (overwrite D chunk.targetOffset
          (slice S chunk.sourceOffset chunk.length)))))
    else ((-22, ⟨16, maxChunk, 16 * maxChunk⟩), m)
  | _, _ => ((-22, ⟨0, 0, 0⟩), m)

/-- `smb2_pwrite`: everything, on a file. -/
def pwrite (m : MemServer) (fh : Fh) (data : List UInt8) (offset : Nat) : Int × MemServer :=
  match m.nodeOf fh with
  | some (path, .file D) =>
    (data.length, m.put path (some (.file (overwrite D offset data))))
  | _ => (-9, m)

/-- `smb2_unlink`: of what exists and is not open. -/
def unlink (m : MemServer) (path : String) : Int × MemServer :=
  if (m.nodes path).isNone then (-2, m)
  else if m.isOpen path then (-16, m)
  else (0, m.put path Option.none)

/-- The answer to a call that does not fail outright. -/
def answer (q : Quirks) : (c : Call) → MemServer → c.Reply × MemServer
  | .openFile path flags, m => m.openFile path flags
  | .close fh, m => ((0 : Int), { m with files := m.files.filter (·.1 ≠ fh) })
  | .fstat fh, m =>
    match m.nodeOf fh with
    | some (_, node) => ((0, statOf node.size), m)
    | Option.none => ((-9, statOf 0), m)
  | .pread fh count offset, m =>
    match m.nodeOf fh with
    | some (_, .file S) =>
      let bytes := slice S offset (min count (q.credits + 1))
      ((bytes.length, bytes), m)
    | _ => ((-21, []), m)
  | .pwrite fh data offset, m => m.pwrite fh data offset
  | .requestResumeKey fh, m =>
    match m.files.lookup fh with
    | some path =>
      ((0, [UInt8.ofNat fh]), { m with keys := Function.update m.keys [UInt8.ofNat fh] path })
    | Option.none => ((-9, []), m)
  | .copychunk rk fh chunk, m => m.copychunk q.maxChunk rk fh chunk
  | .unlink path, m => m.unlink path
  | .stat path, m =>
    match m.nodes path with
    | some node => ((0, statOf node.size), m)
    | Option.none => ((-2, statOf 0), m)
  | .opendir _, m => (Option.none, m)
  | .readdir _, m => (Option.none, m)
  | .closedir _, m => ((), m)
  | .fsync _, m => ((0 : Int), m)
  | .ftruncate _ _, m => ((-95 : Int), m)
  | .mkdir _, m => ((-95 : Int), m)
  | .rmdir _, m => ((-95 : Int), m)
  | .rename _ _, m => ((-95 : Int), m)
  | .disconnectShare, m => ((0 : Int), m)
  | .destroyContext, m => ((), m)

/-- The answer to a call that fails, where it can. -/
def refusal : (c : Call) → Option c.Reply
  | .openFile _ _ => some Option.none
  | .fstat _ => some (-5, statOf 0)
  | .pread _ _ _ => some (-5, [])
  | .pwrite _ _ _ => some (-5 : Int)
  | .requestResumeKey _ => some (-5, [])
  | .copychunk _ _ _ => some (-5, ⟨0, 0, 0⟩)
  | .unlink _ => some (-13 : Int)
  | _ => Option.none

/-- Answer a call. -/
def serve (q : Quirks) (c : Call) (m : MemServer) : c.Reply × MemServer :=
  match refusal c, q.fails c with
  | some reply, true => (reply, m)
  | _, _ => answer q c m

/-- The library on top of the server. -/
def lib (q : Quirks) : Libsmb2 MemServer where
  call := serve q
  nterror := fun _ => q.nterror
  message := fun _ => ""
  nterrorToStr := fun _ => Option.none
  errno := .linux

/-- Three bytes under `a` and a new file under `b`, with a handle on each. -/
def ready : MemServer where
  nodes := Function.update (Function.update (fun _ => Option.none) "a" (some (.file [1, 2, 3])))
    "b" (some (.file []))
  files := [(2, "b"), (1, "a")]
  keys := fun _ => Option.none
  next := 3

/-- A server that credits every write and every chunk with `n` bytes, and moves none. -/
def crediting (n : Nat) : Libsmb2 MemServer :=
  { lib .none with
    call := fun c m =>
      match c with
      | .pwrite _ _ _ => ((n : Int), m)
      | .copychunk _ _ _ => ((0, ⟨1, n, n⟩), m)
      | c => answer .none c m }

/-! ### The server is truthful -/

variable {q : Quirks} {m : MemServer}

/-- A call is refused, and then changes nothing, or answered. -/
theorem serve_cases {c : Call} {reply : c.Reply} (h : refusal c = some reply) :
    (lib q).call c m = (reply, m) ∨ (lib q).call c m = answer q c m := by
  show serve q c m = _ ∨ serve q c m = _
  unfold serve
  rw [h]
  cases q.fails c with
  | true => exact .inl rfl
  | false => exact .inr rfl

theorem view_give (path : String) : (m.give path).2.view = m.view.opened m.next path := by
  show (⟨m.nodes, _, m.keys⟩ : Share String) = ⟨m.nodes, _, m.keys⟩
  congr 1
  funext fh
  show ((m.next, path) :: m.files).lookup fh = _
  rw [List.lookup_cons, Function.update_apply]
  by_cases h : fh = m.next
  · simp [h]
  · simp [h, beq_eq_false_iff_ne.mpr h, view]

theorem view_close (fh : Fh) :
    ({ m with files := m.files.filter (·.1 ≠ fh) } : MemServer).view = m.view.closed fh := by
  show (⟨m.nodes, _, m.keys⟩ : Share String) = ⟨m.nodes, _, m.keys⟩
  congr 1
  funext fh'
  rw [Assoc.lookup_filter_ne, Function.update_apply]
  rfl

/-- What a handle is open on, as the share has it. -/
theorem nodeOf_eq {fh : Fh} {path : String} {node : Node} (hfh : m.view.handles fh = some path)
    (hnode : m.view.nodes path = some node) : m.nodeOf fh = some (path, node) := by
  have hfh' : m.files.lookup fh = some path := hfh
  have hnode' : m.nodes path = some node := hnode
  simp [nodeOf, hfh', hnode']

theorem isOpen_eq_false {path : String} :
    m.isOpen path = false ↔ ∀ fh, m.view.handles fh ≠ some path := by
  rw [isOpen, List.any_eq_false]
  constructor
  · intro h fh hfh
    exact h (fh, path) (Assoc.mem_of_lookup hfh) (beq_iff_eq.mpr hfh)
  · intro h f _ hf
    exact h f.1 (beq_iff_eq.mp hf)

/-- The ways an open ends. -/
theorem openFile_cases (m : MemServer) (path : String) (flags : OpenFlags) :
    m.openFile path flags = (Option.none, m) ∨
    m.view.handles m.next = Option.none ∧
      (flags.creat = true ∧ flags.excl = true ∧ m.nodes path = Option.none ∧
          m.isOpen path = false ∧
          m.openFile path flags = (m.put path (some (.file []))).give path ∨
        flags.creat = false ∧ (m.nodes path).isSome ∧ m.openFile path flags = m.give path) := by
  unfold openFile
  by_cases hnext : (m.files.lookup m.next).isSome
  · rw [if_pos hnext]
    exact .inl rfl
  have hfree : m.files.lookup m.next = Option.none := by
    rwa [Option.not_isSome_iff_eq_none] at hnext
  rw [if_neg hnext]
  cases hcreat : flags.creat with
  | true =>
    -- an exclusive create, of a path that is free
    rw [if_pos rfl]
    split
    · next h => exact .inr ⟨hfree, .inl ⟨rfl, h.1, by simpa using h.2.1, h.2.2, rfl⟩⟩
    · exact .inl rfl
  | false =>
    -- an open of what there is
    rw [if_neg Bool.false_ne_true]
    split
    · next h => exact .inr ⟨hfree, .inr ⟨rfl, h, rfl⟩⟩
    · exact .inl rfl

/-- A chunk is moved whole, or refused. -/
theorem copychunk_cases (m : MemServer) (maxChunk : Nat) (rk : List UInt8) (fh : Fh)
    (chunk : CopyChunk) :
    (∃ reply, m.copychunk maxChunk rk fh chunk = ((-22, reply), m)) ∨
    ∃ S path D, (m.keys rk).bind m.nodes = some (.file S) ∧ m.nodeOf fh = some (path, .file D) ∧
      chunk.sourceOffset + chunk.length ≤ S.length ∧
      m.copychunk maxChunk rk fh chunk = ((0, ⟨1, chunk.length, chunk.length⟩),
        m.put path (some (.file (overwrite D chunk.targetOffset
          (slice S chunk.sourceOffset chunk.length))))) := by
  unfold copychunk
  split
  · next S path D hsrc hdst =>
    split
    · next hfits => exact .inr ⟨S, path, D, hsrc, hdst, hfits.2, rfl⟩
    · exact .inl ⟨_, rfl⟩
  · exact .inl ⟨_, rfl⟩

/-- The ways an unlink ends. -/
theorem unlink_cases (m : MemServer) (path : String) :
    ((m.unlink path).1 ≠ 0 ∧ (m.unlink path).2 = m) ∨
      m.unlink path = (0, m.put path Option.none) := by
  unfold unlink
  split
  · exact .inl ⟨(by decide : (-2 : Int) ≠ 0), rfl⟩
  · split
    · exact .inl ⟨(by decide : (-16 : Int) ≠ 0), rfl⟩
    · exact .inr rfl

/-- Nothing was written. -/
theorem view_eq_put {path : String} {node : Node} (hnode : m.view.nodes path = some node) :
    m.view = m.view.put path (some node) := by
  rw [Share.put, ← hnode, Function.update_eq_self]

theorem framed (q : Quirks) : Framed (lib q) view id where
  open_failed := by
    intro path flags m hnone
    -- the call fails outright, or it is answered
    rcases serve_cases (c := .openFile path flags) rfl with h | h
    · rw [h]
    · rw [h] at hnone ⊢
      show (m.openFile path flags).2.view = _
      replace hnone : (m.openFile path flags).1 = Option.none := hnone
      rcases openFile_cases m path flags with h' | ⟨-, ⟨-, -, -, -, h'⟩ | ⟨-, -, h'⟩⟩
      · rw [h']
      · rw [h'] at hnone
        cases hnone
      · rw [h'] at hnone
        cases hnone
  open_source := by
    intro path m fh hsome
    rcases serve_cases (c := .openFile path sourceFlags) rfl with h | h
    · rw [h] at hsome
      cases hsome
    · rw [h] at hsome ⊢
      show _ ∧ _ ∧ (m.openFile path sourceFlags).2.view = _
      replace hsome : (m.openFile path sourceFlags).1 = some fh := hsome
      -- the flags of the source create nothing
      rcases openFile_cases m path sourceFlags with h' | ⟨hfree, ⟨hc, -⟩ | ⟨-, hex, h'⟩⟩
      · rw [h'] at hsome
        cases hsome
      · cases hc
      · rw [h'] at hsome ⊢
        cases hsome
        exact ⟨hfree, hex, view_give path⟩
  open_destination := by
    intro path m fh hsome
    rcases serve_cases (c := .openFile path destinationFlags) rfl with h | h
    · rw [h] at hsome
      cases hsome
    · rw [h] at hsome ⊢
      show _ ∧ _ ∧ _ ∧ (m.openFile path destinationFlags).2.view = _
      replace hsome : (m.openFile path destinationFlags).1 = some fh := hsome
      -- and those of the destination open nothing that is there
      rcases openFile_cases m path destinationFlags with
        h' | ⟨hfree, ⟨-, -, habs, hshut, h'⟩ | ⟨hc, -⟩⟩
      · rw [h'] at hsome
        cases hsome
      · rw [h'] at hsome ⊢
        cases hsome
        refine ⟨hfree, habs, fun fh' hfh' => ?_, view_give path⟩
        exact isOpen_eq_false.mp hshut fh' hfh'
      · cases hc
  fstat := by
    intro fh m
    rcases serve_cases (c := .fstat fh) rfl with h | h <;> rw [h]
    simp only [answer]
    split <;> rfl
  requestResumeKey := by
    intro fh m
    rcases serve_cases (c := .requestResumeKey fh) rfl with h | h <;> rw [h]
    · exact ⟨_, rfl⟩
    · simp only [answer]
      split <;> exact ⟨_, rfl⟩
  copychunk := by
    intro rk fh chunk m path D hfh hnode
    rcases serve_cases (c := .copychunk rk fh chunk) rfl with h | h <;> rw [h]
    · exact ⟨D, view_eq_put hnode⟩
    · show ∃ D', (m.copychunk q.maxChunk rk fh chunk).2.view = _
      -- what a chunk is copied to is what the handle is open on
      rcases copychunk_cases m q.maxChunk rk fh chunk with ⟨_, h'⟩ | ⟨S, path', D', -, hdst, -, h'⟩
      · rw [h']
        exact ⟨D, view_eq_put hnode⟩
      · rw [h']
        cases (nodeOf_eq hfh hnode).symm.trans hdst
        exact ⟨_, rfl⟩
  pread := by
    intro fh count offset m
    rcases serve_cases (c := .pread fh count offset) rfl with h | h <;> rw [h]
    simp only [answer]
    split <;> rfl
  pwrite := by
    intro fh data offset m path D hfh hnode
    rcases serve_cases (c := .pwrite fh data offset) rfl with h | h <;> rw [h]
    · exact ⟨D, by rw [Share.put, ← hnode, Function.update_eq_self]⟩
    · simp only [answer, pwrite, nodeOf_eq hfh hnode]
      exact ⟨_, rfl⟩
  close := fun fh m => view_close fh
  unlink_failed := by
    intro path m hrc
    rcases serve_cases (c := .unlink path) rfl with h | h
    · rw [h]
    · rw [h] at hrc ⊢
      rcases unlink_cases m path with ⟨-, h'⟩ | h'
      · exact congrArg view h'
      · exact absurd (congrArg Prod.fst h') hrc
  unlinked := by
    intro path m hrc
    rcases serve_cases (c := .unlink path) rfl with h | h
    · rw [h] at hrc
      cases hrc
    · rw [h] at hrc ⊢
      rcases unlink_cases m path with ⟨h', -⟩ | h'
      · exact absurd hrc h'
      · exact congrArg (fun r => r.2.view) h'

/-- A write is credited with no more than it was given. -/
theorem pwrite_le (q : Quirks) (fh : Fh) (data : List UInt8) (offset : Nat) (m : MemServer) {n : Int}
    (hn : ((lib q).call (.pwrite fh data offset) m).1 = n) : n ≤ data.length := by
  subst hn
  rcases serve_cases (c := .pwrite fh data offset) rfl with h | h
  · rw [h]
    exact le_trans (by decide : (-5 : Int) ≤ 0) (Int.natCast_nonneg _)
  · rw [h]
    show (m.pwrite fh data offset).1 ≤ data.length
    unfold pwrite
    split
    · exact le_rfl
    · exact le_trans (by decide : (-9 : Int) ≤ 0) (Int.natCast_nonneg _)

/-- A read gives no more than it was asked for. -/
theorem pread_le (q : Quirks) (fh : Fh) (count offset : Nat) (m : MemServer) :
    ((lib q).call (.pread fh count offset) m).1.1 ≤ (count : Int) := by
  rcases serve_cases (c := .pread fh count offset) rfl with h | h
  · rw [h]
    exact le_trans (by decide : (-5 : Int) ≤ 0) (Int.natCast_nonneg _)
  · rw [h]
    simp only [answer]
    split
    · simp only [length_slice]
      omega
    · exact le_trans (by decide : (-21 : Int) ≤ 0) (Int.natCast_nonneg _)

/-- **The server is truthful**, whatever fails and whatever its limits are. -/
theorem truthful (q : Quirks) : Truthful (lib q) view id where
  toFramed := framed q
  size := by
    intro fh m path node hfh hnode hrc
    rcases serve_cases (c := .fstat fh) rfl with h | h
    · rw [h] at hrc
      cases hrc
    · rw [h]
      simp only [answer, nodeOf_eq hfh hnode]
      rfl
  resumeKey := by
    intro fh m path hfh hrc
    have hfh' : m.files.lookup fh = some path := hfh
    rcases serve_cases (c := .requestResumeKey fh) rfl with h | h
    · rw [h] at hrc
      cases hrc
    · rw [h]
      simp only [answer, hfh']
      exact Function.update_self _ _ _
  chunk := by
    intro rk fh m path l source D offset length hfh hnode hkey hsource
    have hsrc : (m.keys rk).bind m.nodes = some source := by
      have hkey' : m.keys rk = some l := hkey
      rw [hkey']
      exact hsource
    -- a chunk that is refused moves nothing
    have hrefused : ∀ rc : Int, rc ≠ 0 → ∀ reply : CopyReply, ∃ D',
        m.view = m.view.put path (some (.file D')) ∧
          CopyMoves source offset length (rc, reply) D D' := by
      intro rc hrc reply
      refine ⟨D, view_eq_put hnode, ?_⟩
      cases source with
      | file S => exact ⟨0, Nat.zero_le _, Nat.zero_le _, by simp, fun h => absurd h hrc⟩
      | other n => exact ⟨rfl, hrc⟩
    rcases serve_cases (c := .copychunk rk fh ⟨offset, offset, length⟩) rfl with h | h <;> rw [h]
    · exact hrefused (-5) (by decide) _
    · show ∃ D', (m.copychunk q.maxChunk rk fh ⟨offset, offset, length⟩).2.view = _ ∧
        CopyMoves source offset length (m.copychunk q.maxChunk rk fh ⟨offset, offset, length⟩).1
          D D'
      rcases copychunk_cases m q.maxChunk rk fh ⟨offset, offset, length⟩ with
        ⟨_, h'⟩ | ⟨S, path', D', hsrc', hdst, hfits, h'⟩ <;> rw [h']
      · exact hrefused (-22) (by decide) _
      · cases (nodeOf_eq hfh hnode).symm.trans hdst
        cases hsrc.symm.trans hsrc'
        replace hfits : offset + length ≤ S.length := hfits
        exact ⟨_, rfl, length, le_rfl, by omega, rfl, fun _ => rfl⟩
  read := by
    intro fh m path source count offset hfh hnode
    -- a read that is refused gives nothing
    have hrefused : ∀ rc : Int, rc < 0 → ReadAnswers source count offset (rc, []) := by
      intro rc hrc
      cases source with
      | file S => exact fun h => absurd h (Int.not_le.mpr hrc)
      | other n => exact hrc
    rcases serve_cases (c := .pread fh count offset) rfl with h | h <;> rw [h]
    · exact hrefused (-5) (by decide)
    · simp only [answer, nodeOf_eq hfh hnode]
      cases source with
      | file S =>
        refine fun _ => ⟨rfl, ?_⟩
        exact (shortRead_slice S offset (min count (q.credits + 1))).of_le (Nat.min_le_left _ _)
          (by omega)
      | other n => exact hrefused (-21) (by decide)
  written := by
    intro fh m path D data offset hfh hnode
    rcases serve_cases (c := .pwrite fh data offset) rfl with h | h <;> rw [h]
    · exact ⟨0, Nat.zero_le _, by simpa using view_eq_put hnode,
        fun h => absurd h (by decide : ¬ (0 : Int) ≤ -5)⟩
    · simp only [answer, pwrite, nodeOf_eq hfh hnode]
      exact ⟨data.length, le_rfl, by rw [List.take_length]; rfl, fun _ => rfl⟩

end MemServer

end Krystallos.Smb
