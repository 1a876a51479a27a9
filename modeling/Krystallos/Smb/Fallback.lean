import Krystallos.Smb.Faithful

namespace Krystallos.Smb

open Checked Prog Slices

/-!
# Starting over

`copy_through_here` asks for an empty destination and is given whatever the server's copy left
behind.  That is a prefix of the source, so that writing over it from the start ends where
writing to an empty file does.
-/

variable {W κ : Type} [DecidableEq κ] {lib : Libsmb2 W} {view : W → Share κ} {key : String → κ}
  {src dst : Fh} {l k : κ} {S D : List UInt8} {offset : Nat}

/-- A prefix of the source that reaches its end is the source. -/
theorem Landed.all (h : Landed (.file S) offset D) (hend : S.length ≤ offset) :
    offset = S.length ∧ D = S := by
  obtain ⟨m, hoff, hm, rfl⟩ := h
  exact ⟨by omega, List.take_of_length_le (by omega)⟩

/-- The fallback, started on any prefix of the source, ends with the source. -/
theorem copyThroughHere_exact (h : Truthful lib view key) {s s' : Ctx W} {fuel n : Nat}
    (hs : Reached view src dst l k (.file S) 0 s.world)
    (hrun : copyThroughHere lib src dst S.length fuel s = .ok (.ok n, s')) :
    n = S.length ∧ (view s'.world).nodes k = some (.file S) := by
  have hsize : S.length = (Node.file S).size := rfl
  have hpassed : wp (copyThroughHere lib src dst S.length fuel)
      (movedPost view src dst l k (.file S) S.length) s :=
    wp_iterate_partial (Passing view src dst l k (.file S)) trivial
      (wp_copyThroughHereTurn h hsize fuel) fuel ⟨hs, List.length_replicate⟩
  obtain ⟨hend, D, hcopy, hland⟩ := wp_ret hpassed hrun
  obtain ⟨hn, rfl⟩ := hland.all hend
  exact ⟨hn, hcopy.target⟩

/-- **Falling back is harmless.** Where the server's copy stops unsupported, whatever it moved
    before, and the fallback then returns `Ok`, it returns the length of the source and leaves the
    source's bytes, as every run of it on an empty destination does. -/
theorem fallback_harmless (h : Truthful lib view key) (src dst : Fh) (l k : κ) (S : List UInt8)
    (fuel fuel' n : Nat) (s s₁ s₂ : Ctx W)
    (hstart : Copying view src dst l k (.file S) [] s.world)
    (hserved : copyServerSide lib src dst S.length fuel s = .ok (.error .unsupported, s₁))
    (hpassed : copyThroughHere lib src dst S.length fuel' s₁ = .ok (.ok n, s₂)) :
    n = S.length ∧ (view s₂.world).nodes k = some (.file S) ∧
      ∀ (fuel₀ n₀ : Nat) (s₀ s₃ : Ctx W), Copying view src dst l k (.file S) [] s₀.world →
        copyThroughHere lib src dst S.length fuel₀ s₀ = .ok (.ok n₀, s₃) →
        n₀ = n ∧ (view s₃.world).nodes k = (view s₂.world).nodes k := by
  have hleft : Reached view src dst l k (.file S) 0 s₁.world :=
    wp_fail_of_run (wp_copyServerSide h ⟨[], hstart, landed_nil _⟩ rfl fuel) hserved rfl
  obtain ⟨hn, hcontent⟩ := copyThroughHere_exact h hleft hpassed
  refine ⟨hn, hcontent, fun fuel₀ n₀ s₀ s₃ hempty hrun => ?_⟩
  obtain ⟨hn₀, hcontent₀⟩ := copyThroughHere_exact h ⟨[], hempty, landed_nil _⟩ hrun
  exact ⟨hn₀.trans hn.symm, hcontent₀.trans hcontent.symm⟩

omit [DecidableEq κ] in
/-- A turn of the writing loop whose call succeeds. -/
theorem wp_writeTurn_ok {dst : Fh} {buf : List UInt8} {read written n written' : Int}
    {offset pos : Nat} {p : Post Error (Ctx W) (Turn Int Unit)} {s : Ctx W}
    (hmore : written < read) (hpos : addU 64 offset written.toNat = .ok pos)
    (hcall : (lib.call (.pwrite dst ((buf.drop written.toNat).take (read - written).toNat) pos)
      s.world).1 = n)
    (hn : 0 < n) (hsum : addI 32 written n = .ok written')
    (hret : p.ret (.again written')
      (s.after lib (.pwrite dst ((buf.drop written.toNat).take (read - written).toNat) pos))) :
    wp (writeTurn lib dst buf read offset written) p s := by
  refine wp_ite (fun _ => ?_) (fun hdone => absurd hmore hdone)
  rw [wp_bind]
  refine (wp_checked_ok hpos).mpr ((wp_bind (ffi lib (.pwrite dst _ _)) _).mpr (wp_ffi.mpr ?_))
  rw [hcall]
  refine wp_ite (fun hfailed => absurd hn (Int.not_lt.mpr hfailed)) (fun _ => ?_)
  rw [wp_bind]
  exact (wp_checked_ok hsum).mpr hret

omit [DecidableEq κ] in
/-- With everything written, the loop is left. -/
theorem wp_writeTurn_done {dst : Fh} {buf : List UInt8} {read written : Int} {offset : Nat}
    {p : Post Error (Ctx W) (Turn Int Unit)} {s : Ctx W} (hdone : ¬ written < read)
    (hret : p.ret (.leave ()) s) : wp (writeTurn lib dst buf read offset written) p s :=
  wp_ite (fun hmore => absurd hmore hdone) (fun _ => hret)

omit [DecidableEq κ] in
/-- With the whole size reached, the fallback's loop is left. -/
theorem wp_copyThroughHereTurn_done {src dst : Fh} {size fuel offset : Nat} {buf : List UInt8}
    {p : Post Error (Ctx W) (Turn (Nat × List UInt8) Nat)} {s : Ctx W} (hdone : ¬ offset < size)
    (hret : p.ret (.leave offset) s) :
    wp (copyThroughHereTurn lib src dst size fuel (offset, buf)) p s :=
  wp_ite (fun hmore => absurd hmore hdone) (fun _ => hret)

omit [DecidableEq κ] in
/-- A turn of the fallback whose read finds something. -/
theorem wp_copyThroughHereTurn_ok {src dst : Fh} {size fuel offset want : Nat}
    {buf bytes : List UInt8} {read : Int} {p : Post Error (Ctx W) (Turn (Nat × List UInt8) Nat)}
    {s : Ctx W} (hin : offset < size)
    (hwant : castU 32 (min (size - offset) buf.length) = want)
    (hcall : (lib.call (.pread src want offset) s.world).1 = (read, bytes)) (hread : 0 < read)
    (hwrites : wp (iterate fuel (writeTurn lib dst (fillBuf buf want bytes) read offset) 0)
      ⟨fun _ s' => wp (checked (addU 64 offset read.toNat) >>= fun offset' =>
          pure (.again (offset', fillBuf buf want bytes))) p s', p.fail, p.stop⟩
      (s.after lib (.pread src want offset))) :
    wp (copyThroughHereTurn lib src dst size fuel (offset, buf)) p s := by
  refine wp_ite (fun _ => ?_) (fun hend => absurd hin hend)
  rw [hwant, wp_bind, wp_ffi]
  show wp _ _ (s.after lib (.pread src want offset))
  generalize s.after lib (.pread src want offset) = s₁ at hwrites ⊢
  generalize lib.call (.pread src want offset) s.world = answer at hcall ⊢
  obtain ⟨⟨read', bytes'⟩, w⟩ := answer
  obtain ⟨rfl, rfl⟩ := Prod.mk.inj hcall
  refine wp_ite (fun hfailed => absurd hread (Int.not_lt.mpr (le_of_lt hfailed))) (fun _ => ?_)
  refine wp_ite (fun hnone => absurd hnone (ne_of_gt hread)) (fun _ => ?_)
  rw [wp_bind]
  exact hwrites

omit [DecidableEq κ] in
/-- A source that one read finds and one write is credited with, or with more than it. -/
theorem copyThroughHere_once {src dst : Fh} {size : Nat} {bytes : List UInt8} {n : Int}
    {s : Ctx W} (hpos : 0 < size) (hsize : size ≤ copyChunkBytes)
    (hread : (lib.call (.pread src size 0) s.world).1 = ((size : Int), bytes))
    (hwritten : ∀ buf, (lib.call (.pwrite dst (((fillBuf buf size bytes).drop (0 : Int).toNat).take
      ((size : Int) - 0).toNat) 0) (lib.call (.pread src size 0) s.world).2).1 = n)
    (hall : (size : Int) ≤ n) (hn : n < 2 ^ 31) :
    ∃ data, data.length ≤ size ∧ copyThroughHere lib src dst size 2 s =
      .ok (.ok size, (s.after lib (.pread src size 0)).after lib (.pwrite dst data 0)) := by
  have hbuf : (List.replicate copyChunkBytes (0 : UInt8)).length = copyChunkBytes :=
    List.length_replicate
  unfold copyThroughHere
  generalize List.replicate copyChunkBytes (0 : UInt8) = buf at hbuf
  have hwant : castU 32 (min (size - 0) buf.length) = size := by
    unfold copyChunkBytes at hsize hbuf
    rw [castU_of_lt (by omega)]
    omega
  have hsum : addI 32 0 n = .ok n := by
    rw [addI, if_pos (by omega), Int.zero_add]
  have hend : addU 64 0 (size : Int).toNat = .ok size := by
    unfold copyChunkBytes at hsize
    rw [addU_ok (by omega), Int.toNat_natCast, Nat.zero_add]
  -- one read, one write, and a look at what is left on either side
  obtain ⟨_, _, hrun, rfl, rfl⟩ := exists_of_wp (m := iterate 2
    (copyThroughHereTurn lib src dst size 2) (0, buf)) (s := s) (Q := fun a s' => a = size ∧
      s' = (s.after lib (.pread src size 0)).after lib (.pwrite dst
        (((fillBuf buf size bytes).drop (0 : Int).toNat).take ((size : Int) - 0).toNat) 0)) (by
    apply wp_iterate_succ.mpr
    refine wp_copyThroughHereTurn_ok hpos hwant hread (by omega) (wp_iterate_succ.mpr ?_)
    apply wp_writeTurn_ok (by omega) rfl (hwritten buf) (by omega) hsum
    refine wp_iterate_succ.mpr (wp_writeTurn_done (by omega) ?_)
    refine (wp_bind _ _).mpr ((wp_checked_ok hend).mpr ?_)
    exact wp_iterate_succ.mpr (wp_copyThroughHereTurn_done (lt_irrefl _) ⟨rfl, rfl⟩))
  exact ⟨_, List.length_take_le _ _, hrun⟩

/-- A server that copies two bytes at a time, and none at offset two. -/
def stopsAtTwo : Quirks :=
  ⟨fun | .copychunk _ _ chunk => chunk.sourceOffset == 2 | _ => false, Status.notSupported, 2, 2⟩

/-- What the server leaves behind. -/
def halfMoved : MemServer where
  nodes := Function.update MemServer.ready.nodes "b" (some (.file [1, 2]))
  files := [(2, "b"), (1, "a")]
  keys := Function.update (fun _ => none) [1] "a"
  next := 3

theorem halfMoved_served : ∃ s₁, copyServerSide (MemServer.lib stopsAtTwo) 1 2 3 4
    ⟨MemServer.ready, []⟩ = .ok (.error .unsupported, s₁) ∧ s₁.world = halfMoved :=
  ⟨_, rfl, rfl⟩

/-- One turn of the fallback moves the three bytes. -/
theorem halfMoved_passed (trace : List Event) :
    ∃ s₂, copyThroughHere (MemServer.lib stopsAtTwo) 1 2 3 2 ⟨halfMoved, trace⟩ =
      .ok (.ok 3, s₂) := by
  have hread : ((MemServer.lib stopsAtTwo).call (.pread 1 3 0) halfMoved).1 =
      (((3 : Nat) : Int), [1, 2, 3]) := rfl
  have hwritten : ∀ buf, ((MemServer.lib stopsAtTwo).call (.pwrite 2
      (((fillBuf buf 3 [1, 2, 3]).drop (0 : Int).toNat).take (((3 : Nat) : Int) - 0).toNat) 0)
      halfMoved).1 = (3 : Int) := fun _ => rfl
  obtain ⟨_, -, hrun⟩ := copyThroughHere_once (s := ⟨halfMoved, trace⟩) (by decide) (by decide)
    hread hwritten le_rfl (by decide)
  exact ⟨_, hrun⟩

/-- Two of three bytes were copied by the server. -/
theorem fallback_after_two : ∃ s₁ s₂, copyServerSide (MemServer.lib stopsAtTwo) 1 2 3 4
      ⟨MemServer.ready, []⟩ = .ok (.error .unsupported, s₁) ∧
    copyThroughHere (MemServer.lib stopsAtTwo) 1 2 3 2 s₁ = .ok (.ok 3, s₂) ∧
    s₂.world.nodes "b" = some (.file [1, 2, 3]) := by
  obtain ⟨⟨world, trace⟩, hserved, hworld⟩ := halfMoved_served
  dsimp only at hworld
  subst hworld
  obtain ⟨s₂, hpassed⟩ := halfMoved_passed trace
  have hstart : Copying MemServer.view 1 2 "a" "b" (.file [1, 2, 3]) [] MemServer.ready :=
    ⟨rfl, rfl, rfl, rfl, by decide⟩
  have hexact := fallback_harmless (MemServer.truthful stopsAtTwo) 1 2 "a" "b" [1, 2, 3] 4 2 3
    ⟨MemServer.ready, []⟩ _ s₂ hstart hserved hpassed
  exact ⟨_, s₂, hserved, hpassed, hexact.2.1⟩

end Krystallos.Smb
