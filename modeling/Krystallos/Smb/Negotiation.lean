import Krystallos.Smb.Calls
import Krystallos.Smb.Fallback
import Krystallos.Smb.Overflow

namespace Krystallos.Smb

open Checked Prog Slices

/-!
# The limit negotiation of the server's copy

`copy_server_side` has two ways of going on: a chunk that was copied moves the offset, and a
refusal that names a smaller limit lowers the chunk size.  Each turn does one or the other, so
that the sum of what is left and of the chunk size bounds the turns, whatever the server answers
(`copyServerSide_ends`); and a server with any limit is found out (`copyServerSide_finds_limit`).
-/

variable {W κ : Type} [DecidableEq κ] {lib : Libsmb2 W} {view : W → Share κ} {key : String → κ}
  {src dst : Fh} {l k : κ} {S : List UInt8} {rk : List UInt8} {limit size chunkBytes offset : Nat}

/-- The length of the next chunk. -/
def chunkLength (size chunkBytes offset : Nat) : Nat :=
  min chunkBytes (castU 32 (min (size - offset) (umax 32)))

/-- The next chunk has a byte at least, is no longer than the chunk size, and lies in the source. -/
theorem chunkLength_within (hchunk : 0 < chunkBytes) (hin : offset < size) :
    0 < chunkLength size chunkBytes offset ∧ chunkLength size chunkBytes offset ≤ chunkBytes ∧
      offset + chunkLength size chunkBytes offset ≤ size := by
  have hmax : umax 32 = 2 ^ 32 - 1 := rfl
  unfold chunkLength
  rw [castU_of_lt (by omega)]
  omega

/-- The request for the next chunk. -/
def chunkCall (rk : List UInt8) (dst : Fh) (size chunkBytes offset : Nat) : Call :=
  .copychunk rk dst ⟨offset, offset, chunkLength size chunkBytes offset⟩

/-- What a turn does with the answer. -/
def chunkAnswered (lib : Libsmb2 W) (chunkBytes offset : Nat) (rc : Int) (reply : CopyReply) :
    Prog CopyFailed (Ctx W) (Turn (Nat × Nat) Nat) :=
  if rc = 0 then
    if reply.totalBytesWritten = 0 then
      fail (.error (.backend "the server reported a copy of zero bytes"))
    else do
      let offset' ← checked (addU 64 offset reply.totalBytesWritten)
      pure (.again (chunkBytes, offset'))
  else if 0 < reply.chunkBytesWritten ∧ reply.chunkBytesWritten < chunkBytes then
    pure (.again (reply.chunkBytesWritten, offset))
  else classifyCopyFailure lib rc

omit [DecidableEq κ] in
/-- A turn leaves the loop, or deals with the answer to its request. -/
theorem wp_copyServerSideTurn_of {p : Post CopyFailed (Ctx W) (Turn (Nat × Nat) Nat)} {s : Ctx W}
    (hleave : size ≤ offset → p.ret (.leave offset) s)
    (hanswer : offset < size → ∀ rc reply,
      (lib.call (chunkCall rk dst size chunkBytes offset) s.world).1 = (rc, reply) →
      wp (chunkAnswered lib chunkBytes offset rc reply) p
        (s.after lib (chunkCall rk dst size chunkBytes offset))) :
    wp (copyServerSideTurn lib rk dst size (chunkBytes, offset)) p s :=
  wp_ite (fun hin => hanswer hin _ _ rfl) (fun hend => hleave (Nat.not_lt.mp hend))

/-! ### Any server -/

/-- The chunks that were requested. -/
def requests (trace : List Event) : Nat :=
  trace.countP fun ev => match ev.call with
    | .copychunk _ _ _ => true
    | _ => false

omit [DecidableEq κ] in
/-- Each request for a chunk is one more. -/
theorem requests_after_chunkCall (s : Ctx W) :
    requests (s.after lib (chunkCall rk dst size chunkBytes offset)).trace =
      requests s.trace + 1 := by
  simp [requests, Ctx.after, chunkCall]

/-- The return codes can be negated, as `0` and `-errno` can. -/
structure ReturnsErrno (lib : Libsmb2 W) : Prop where
  resumeKey : ∀ fh w, -2 ^ 31 < (lib.call (.requestResumeKey fh) w).1.1
  chunk : ∀ rk fh chunk w, -2 ^ 31 < (lib.call (.copychunk rk fh chunk) w).1.1

/-- What is left to copy, and what the chunk size can still be lowered by. -/
def slack (size : Nat) (b : Nat × Nat) : Nat := size - b.2 + (b.1 - 1)

/-- The loop ends with no more requests than there is slack, and one; what keeps it from
    returning is a return code that cannot be negated. -/
def endsPost (lib : Libsmb2 W) (bound : Nat) : Post CopyFailed (Ctx W) Nat where
  ret := fun _ s => requests s.trace ≤ bound
  fail := fun _ s => requests s.trace ≤ bound
  stop := fun t => t ≠ .fuel ∧ ¬ ReturnsErrno lib

omit [DecidableEq κ] in
theorem wp_classifyCopyFailure_of {α : Type} {rc : Int} {p : Post CopyFailed (Ctx W) α} {s : Ctx W}
    (hfail : ∀ e, p.fail e s) (hstop : ¬ -rc < 2 ^ 31 → ∀ q, p.stop (.panic q)) :
    wp (classifyCopyFailure lib rc : Prog CopyFailed (Ctx W) α) p s := by
  simp only [classifyCopyFailure, wp_bind, wp_current]
  refine wp_ite (fun _ => hfail _) (fun _ => ?_)
  rw [wp_bind]
  exact wp_ctxError_of (fun e => hfail _) hstop

omit [DecidableEq κ] in
/-- **Step lemma.** Whatever is answered, a turn that goes on has made one request and used up
    slack. -/
theorem wp_copyServerSideTurn_ends (hsize : size < 2 ^ 63)
    (htotal : ∀ rk fh chunk w, (lib.call (.copychunk rk fh chunk) w).1.2.totalBytesWritten < 2 ^ 32)
    {bound : Nat} (b : Nat × Nat) (s : Ctx W)
    (hs : 0 < b.1 ∧ requests s.trace + slack size b < bound) :
    wp (copyServerSideTurn lib rk dst size b)
      (turnPost (fun b s => 0 < b.1 ∧ requests s.trace + slack size b < bound)
        (fun b _ => slack size b) (endsPost lib bound) (slack size b)) s := by
  obtain ⟨chunkBytes, offset⟩ := b
  obtain ⟨hchunk, hbound⟩ := hs
  dsimp only at hchunk
  refine wp_copyServerSideTurn_of (fun hend => ?_) (fun hin rc reply hanswer => ?_)
  · exact le_of_lt (lt_of_le_of_lt (Nat.le_add_right _ _) hbound)
  have hcount : requests (s.after lib (chunkCall rk dst size chunkBytes offset)).trace =
      requests s.trace + 1 := requests_after_chunkCall s
  have hsmall : reply.totalBytesWritten < 2 ^ 32 := by
    have := htotal rk dst ⟨offset, offset, chunkLength size chunkBytes offset⟩ s.world
    unfold chunkCall at hanswer
    rwa [hanswer] at this
  -- from here on only the number of requests counts
  generalize s.after lib (chunkCall rk dst size chunkBytes offset) = s₁ at hcount ⊢
  have hlast : requests s₁.trace ≤ bound := by omega
  refine wp_ite (fun _ => ?_) (fun hrc => ?_)
  · refine wp_ite (fun _ => hlast) (fun hsome => ?_)
    rw [wp_bind]
    -- some bytes were copied: the offset has gone up
    refine (wp_checked_ok (addU_ok (by omega))).mpr ⟨⟨hchunk, ?_⟩, ?_⟩
    · simp only [slack] at hbound ⊢
      omega
    · simp only [slack]
      omega
  -- a lower limit was named: the chunk size has gone down
  · refine wp_ite (fun hlower => ⟨⟨hlower.1, ?_⟩, ?_⟩) (fun _ => ?_)
    · simp only [slack] at hbound ⊢
      omega
    · simp only [slack]
      omega
    · refine wp_classifyCopyFailure_of (fun _ => hlast)
        (fun hneg _ => ⟨nofun, fun hcodes => hneg ?_⟩)
      have := hcodes.chunk rk dst ⟨offset, offset, chunkLength size chunkBytes offset⟩ s.world
      unfold chunkCall at hanswer
      rw [hanswer] at this
      dsimp only at this
      omega

/-- **The server's copy ends against any server.** Whatever the answers are, the loop does not run
    on: it has returned after at most `size + COPY_CHUNK_BYTES` requests for a chunk, unless a
    return code cannot be negated where the failure is classified. -/
theorem copyServerSide_ends (lib : Libsmb2 W)
    (htotal : ∀ rk fh chunk w, (lib.call (.copychunk rk fh chunk) w).1.2.totalBytesWritten < 2 ^ 32)
    (src dst : Fh) (size : Nat) (hsize : size < 2 ^ 63) (fuel : Nat)
    (hfuel : size + copyChunkBytes ≤ fuel) (s : Ctx W) :
    (∀ s', copyServerSide lib src dst size fuel s ≠ .error (.fuel, s')) ∧
      (∀ r s', copyServerSide lib src dst size fuel s = .ok (r, s') →
        requests s'.trace ≤ requests s.trace + (size + copyChunkBytes)) ∧
      (ReturnsErrno lib → ∃ r s', copyServerSide lib src dst size fuel s = .ok (r, s')) := by
  -- at the start there is slack for the size and a whole chunk
  have hends : wp (copyServerSide lib src dst size fuel)
      (endsPost lib (requests s.trace + (size + copyChunkBytes))) s := by
    have hsame : requests (s.after lib (.requestResumeKey src)).trace = requests s.trace := by
      simp [requests, Ctx.after]
    rw [copyServerSide, wp_bind, wp_ffi]
    refine wp_ite (fun _ => ?_) (fun _ => ?_)
    · refine wp_classifyCopyFailure_of (fun _ => ?_)
        (fun hneg _ => ⟨by simp, fun hcodes => hneg ?_⟩)
      · show requests (s.after lib (.requestResumeKey src)).trace ≤ _
        omega
      · exact neg_lt.mp (hcodes.resumeKey src s.world)
    · refine wp_iterate _ _ (wp_copyServerSideTurn_ends hsize htotal) ⟨by decide, ?_⟩ (.inl ?_)
      · rw [hsame]
        simp only [slack, copyChunkBytes]
        omega
      · simp only [slack, copyChunkBytes] at hfuel ⊢
        omega
  refine ⟨fun s' hfuel => (stop_of_run hends hfuel).1 rfl, fun r s' hrun => ?_, fun hcodes => ?_⟩
  · rcases post_of_run hends hrun with ⟨n, -, hbound⟩ | ⟨e, -, hbound⟩
    · exact hbound
    · exact hbound
  · cases hrun : copyServerSide lib src dst size fuel s with
    | error t => exact absurd hcodes (stop_of_run hends hrun).2
    | ok ended => exact ⟨ended.1, ended.2, rfl⟩

/-- A server that credits every chunk with one byte is asked three times. -/
theorem copyServerSide_ends_crediting :
    ∃ r s', copyServerSide (MemServer.crediting 1) 1 2 3 (3 + copyChunkBytes)
      ⟨MemServer.ready, []⟩ = .ok (r, s') := by
  refine (copyServerSide_ends (MemServer.crediting 1) (fun _ _ _ _ => Nat.one_lt_two_pow (by decide))
    1 2 3 (by decide) (3 + copyChunkBytes) le_rfl ⟨MemServer.ready, []⟩).2.2
    ⟨fun fh m => ?_, fun _ _ _ _ => ?_⟩
  · show -2 ^ 31 < (MemServer.answer .none (.requestResumeKey fh) m).1.1
    cases h : m.files.lookup fh with
    | some path =>
      simp only [MemServer.answer, h]
      norm_num
    | none =>
      simp only [MemServer.answer, h]
      norm_num
  · show -2 ^ 31 < (0 : Int)
    decide

/-! ### A server with a limit -/

/-- A server that grants resume keys, refuses chunks above `limit` and says what the limit is, and
    copies a part of any other chunk that lies in the source. -/
structure Limited (lib : Libsmb2 W) (view : W → Share κ) (limit : Nat) : Prop where
  grants : ∀ fh w k, (view w).handles fh = some k →
    (lib.call (.requestResumeKey fh) w).1.1 = (0 : Int)
  refuses : ∀ rk fh chunk w k l S D, (view w).handles fh = some k →
    (view w).nodes k = some (.file D) → (view w).keys rk = some l →
    (view w).nodes l = some (.file S) → limit < chunk.length →
    (lib.call (.copychunk rk fh chunk) w).1.1 ≠ (0 : Int) ∧
      (lib.call (.copychunk rk fh chunk) w).1.2.chunkBytesWritten = limit
  copies : ∀ rk fh chunk w k l S D, (view w).handles fh = some k →
    (view w).nodes k = some (.file D) → (view w).keys rk = some l →
    (view w).nodes l = some (.file S) → 0 < chunk.length → chunk.length ≤ limit →
    chunk.sourceOffset + chunk.length ≤ S.length →
    (lib.call (.copychunk rk fh chunk) w).1.1 = (0 : Int) ∧
      0 < (lib.call (.copychunk rk fh chunk) w).1.2.totalBytesWritten ∧
      (lib.call (.copychunk rk fh chunk) w).1.2.totalBytesWritten ≤ chunk.length

/-- A chunk that is requested has a byte at least and lies in the source, at the same place in the
    destination. -/
def ChunkWithin (size : Nat) : Call → Prop
  | .copychunk _ _ chunk => 0 < chunk.length ∧ chunk.sourceOffset + chunk.length ≤ size ∧
      chunk.targetOffset = chunk.sourceOffset
  | _ => True

/-- At the head of the loop: what has been reached, within the source, by chunks that lie in it. -/
structure Negotiating (lib : Libsmb2 W) (view : W → Share κ) (src dst : Fh) (l k : κ)
    (S : List UInt8) (rk : List UInt8) (start : Ctx W) (b : Nat × Nat) (s : Ctx W) : Prop where
  serving : Serving view src dst l k (.file S) rk b s
  chunk : 0 < b.1
  within : b.2 ≤ S.length
  requests : Led lib (ChunkWithin S.length) start s

/-- What is left to copy, and the one time that the limit can be learnt. -/
def turnsLeft (limit size : Nat) (b : Nat × Nat) : Nat :=
  size - b.2 + if limit < b.1 then 1 else 0

/-- What a copy that was limited leaves behind. -/
def negotiatedPost (lib : Libsmb2 W) (view : W → Share κ) (k : κ) (S : List UInt8)
    (start : Ctx W) : Post CopyFailed (Ctx W) Nat where
  ret := fun n s => n = S.length ∧ (view s.world).nodes k = some (.file S) ∧
    Led lib (ChunkWithin S.length) start s
  fail := fun _ _ => False
  stop := fun _ => False

/-- **Step lemma.** A turn copies a part of its chunk, or learns the limit. -/
theorem wp_copyServerSideTurn_limited (h : Truthful lib view key) (hlimited : Limited lib view limit)
    (hlimit : 0 < limit) (hsize : S.length < 2 ^ 63) {start : Ctx W} (b : Nat × Nat) (s : Ctx W)
    (hs : Negotiating lib view src dst l k S rk start b s) :
    wp (copyServerSideTurn lib rk dst S.length b)
      (turnPost (Negotiating lib view src dst l k S rk start)
        (fun b _ => turnsLeft limit S.length b)
        (negotiatedPost lib view k S start) (turnsLeft limit S.length b)) s := by
  obtain ⟨chunkBytes, offset⟩ := b
  obtain ⟨⟨hkey, hreached⟩, hchunk, hwithin, hrequests⟩ := hs
  dsimp only at hreached hchunk hwithin
  refine wp_copyServerSideTurn_of (fun hend => ?_) (fun hin rc reply hanswer => ?_)
  · -- the offset never passes the end
    obtain rfl : offset = S.length := by omega
    obtain ⟨D, hcopy, hland⟩ := hreached
    obtain ⟨-, rfl⟩ := hland.all le_rfl
    exact ⟨rfl, hcopy.target, hrequests⟩
  obtain ⟨hlen, hle, hinside⟩ := chunkLength_within hchunk hin
  obtain ⟨hkey', hkept, hmoved⟩ :=
    h.copychunk_reached hkey hreached hin (chunkLength S.length chunkBytes offset)
  have hrequests' : Led lib (ChunkWithin S.length) start
      (s.after lib (chunkCall rk dst S.length chunkBytes offset)) :=
    hrequests.tail ⟨chunkCall rk dst S.length chunkBytes offset, ⟨hlen, hinside, rfl⟩, rfl⟩
  -- what the server answers, with the chunk within its limit and above it
  obtain ⟨D, hcopy, -⟩ := id hreached
  have hcopies := hlimited.copies rk dst ⟨offset, offset, chunkLength S.length chunkBytes offset⟩
    s.world k l S D hcopy.dst hcopy.target hkey hcopy.source hlen
  have hrefuses := hlimited.refuses rk dst ⟨offset, offset, chunkLength S.length chunkBytes offset⟩
    s.world k l S D hcopy.dst hcopy.target hkey hcopy.source
  unfold chunkCall at hanswer hrequests' ⊢
  rw [hanswer] at hmoved hcopies hrefuses
  refine wp_ite (fun hrc => ?_) (fun hrc => ?_)
  · -- a chunk that is copied is not above the limit
    have hfits : chunkLength S.length chunkBytes offset ≤ limit := by
      by_contra hover
      exact (hrefuses (Nat.not_le.mp hover)).1 hrc
    obtain ⟨-, hsome, hpart⟩ := hcopies hfits hinside
    dsimp only at hsome hpart
    refine wp_ite (fun hnone => absurd hsome (by omega)) (fun _ => ?_)
    rw [wp_bind]
    apply (wp_checked_ok (addU_ok (by omega))).mpr
    refine ⟨⟨⟨hkey', hmoved hrc⟩, hchunk, ?_, hrequests'⟩, ?_⟩
    · dsimp only
      omega
    · simp only [turnsLeft]
      omega
  · -- a chunk that is refused is above the limit, and so is the chunk size
    have hover : limit < chunkLength S.length chunkBytes offset := by
      by_contra hfits
      exact hrc (hcopies (Nat.not_lt.mp hfits) hinside).1
    have hlearnt : reply.chunkBytesWritten = limit := (hrefuses hover).2
    have hlower : limit < chunkBytes := lt_of_lt_of_le hover hle
    refine wp_ite (fun _ => ?_) (fun hno => absurd (by omega) hno)
    refine ⟨⟨⟨hkey', hkept⟩, ?_, hwithin, hrequests'⟩, ?_⟩
    · dsimp only
      omega
    · simp only [turnsLeft, hlearnt, if_pos hlower, lt_irrefl, if_false]
      omega

/-- **The negotiation finds any limit.** With a resume key and a limit of a byte at least, the copy
    of a source of any size returns its length, the destination is the source, and every chunk
    that was requested had a byte at least and lay in the source. -/
theorem copyServerSide_finds_limit (h : Truthful lib view key) (limit : Nat) (hlimit : 0 < limit)
    (hlimited : Limited lib view limit) (src dst : Fh) (l k : κ) (S : List UInt8)
    (hsize : S.length < 2 ^ 63) (fuel : Nat) (hfuel : S.length + 2 ≤ fuel) (s : Ctx W)
    (hstart : Copying view src dst l k (.file S) [] s.world) :
    ∃ s' calls, copyServerSide lib src dst S.length fuel s = .ok (.ok S.length, s') ∧
      (view s'.world).nodes k = some (.file S) ∧ s'.trace = s.trace ++ calls ∧
      ∀ ev ∈ calls, ChunkWithin S.length ev.call := by
  have hcopied : wp (copyServerSide lib src dst S.length fuel)
      (negotiatedPost lib view k S s) s := by
    -- the resume key is granted, and nothing else has changed
    obtain ⟨keys, hview⟩ := h.requestResumeKey src s.world
    have hkey := h.resumeKey src s.world l hstart.src
    have hgranted := hlimited.grants src s.world l hstart.src
    have hstart' : Copying view src dst l k (.file S) []
        (s.after lib (.requestResumeKey src)).world :=
      hstart.of_eq (by rw [Ctx.after_world, hview]) (by rw [Ctx.after_world, hview])
    rw [copyServerSide, wp_bind, wp_ffi]
    refine wp_ite (fun hrefused => absurd hgranted hrefused) (fun _ => ?_)
    refine wp_iterate _ _ (wp_copyServerSideTurn_limited h hlimited hlimit hsize)
      ⟨⟨hkey hgranted, [], hstart', landed_nil _⟩, by decide, Nat.zero_le _,
        .single ⟨.requestResumeKey src, trivial, rfl⟩⟩ (.inl ?_)
    simp only [turnsLeft]
    split <;> omega
  obtain ⟨n, s', hrun, rfl, hcontent, hled⟩ := exists_of_wp hcopied
  obtain ⟨calls, htrace, hcalls⟩ := hled.trace
  exact ⟨s', calls, hrun, hcontent, htrace, hcalls⟩

/-- Nothing fails, and chunks have a limit. -/
def Quirks.limited (limit : Nat) : Quirks := ⟨fun _ => false, 0, limit, 2 ^ 32⟩

/-- The server in memory has the limit it is given. -/
theorem limited_memServer (limit : Nat) :
    Limited (MemServer.lib (.limited limit)) MemServer.view limit where
  grants := by
    intro fh m path hfh
    have hfh' : m.files.lookup fh = some path := hfh
    show (MemServer.answer (.limited limit) (.requestResumeKey fh) m).1.1 = 0
    simp only [MemServer.answer, hfh']
  refuses := by
    intro rk fh chunk m k l S D hfh hnode hkey hsource hover
    have hsrc : (m.keys rk).bind m.nodes = some (.file S) := Option.bind_eq_some_iff.mpr
      ⟨l, hkey, hsource⟩
    have hrefused : ¬ (chunk.length ≤ limit ∧ chunk.sourceOffset + chunk.length ≤ S.length) := by
      omega
    show (m.copychunk limit rk fh chunk).1.1 ≠ 0 ∧
      (m.copychunk limit rk fh chunk).1.2.chunkBytesWritten = limit
    simp [MemServer.copychunk, hsrc, MemServer.nodeOf_eq hfh hnode, hrefused]
  copies := by
    intro rk fh chunk m k l S D hfh hnode hkey hsource hlen hfits hinside
    have hsrc : (m.keys rk).bind m.nodes = some (.file S) := Option.bind_eq_some_iff.mpr
      ⟨l, hkey, hsource⟩
    show (m.copychunk limit rk fh chunk).1.1 = 0 ∧
      0 < (m.copychunk limit rk fh chunk).1.2.totalBytesWritten ∧
      (m.copychunk limit rk fh chunk).1.2.totalBytesWritten ≤ chunk.length
    simp [MemServer.copychunk, hsrc, MemServer.nodeOf_eq hfh hnode, hfits, hinside, hlen]

/-- Three bytes, with a limit of two. -/
theorem copyServerSide_finds_two :
    ∃ s' calls, copyServerSide (MemServer.lib (.limited 2)) 1 2 3 5
        ⟨MemServer.ready, []⟩ = .ok (.ok 3, s') ∧
      s'.world.nodes "b" = some (.file [1, 2, 3]) ∧ s'.trace = [] ++ calls ∧
      ∀ ev ∈ calls, ChunkWithin 3 ev.call :=
  copyServerSide_finds_limit (MemServer.truthful _) 2 (by decide) (limited_memServer 2) 1 2 "a" "b"
    [1, 2, 3] (by decide) 5 (by decide) ⟨MemServer.ready, []⟩
    ⟨rfl, rfl, rfl, rfl, by decide⟩

end Krystallos.Smb
