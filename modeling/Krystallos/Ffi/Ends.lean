import Krystallos.Ffi.Disconnect
import Krystallos.Smb.Stays

namespace Krystallos.Ffi

open Prog Resource

/-!
# What a session of the FFI gives back

A caller of the FFI may forget its files, call them in any order, and go on calling after the
disconnect.  Over SMB nothing is left of it: once a disconnect has returned, in whatever way, the
session's thread is over for good, and every handle was closed as often as it was opened.
-/

variable {W : Type} {lib : Smb.Libsmb2 W} {limits : Smb.Limits} {fuel : Nat} {w : W}

/-- **A disconnect gives everything back**, whatever was called before it and is called after it, one
    call after the other and none with a panic, and however it ended itself. -/
theorem disconnected_ends {opened : W → Finset Smb.Fh} (ht : Smb.Tracks lib opened)
    (hw : opened w = ∅) {before after : List Call} {r : Except KernelError Answer}
    {s₁ s₂ s : Session (Smb.Sys W)}
    (hbefore : Lts.run (Session.step (Smb.backend lib limits fuel))
      (Session.connected (Smb.Sys.init w)) before = some s₁)
    (hdisc : Session.perform (Smb.backend lib limits fuel) .disconnect s₁ = .ok (r, s₂))
    (hafter : Lts.run (Session.step (Smb.backend lib limits fuel)) s₂ after = some s) :
    s.world.phase = .exited ∧ replay s.world.uses = some .ended ∧
      ∀ fh, s.world.uses.count (.release fh) = s.world.uses.count (.acquire fh) := by
  have hinit : OnSmb lib limits w false [] (Smb.Sys.init w) :=
    ⟨⟨⟨[], rfl⟩, nofun⟩, rfl, fun j f h => nomatch h⟩
  obtain ⟨hclosed, flags, hm⟩ := Session.held_of_runs tracks_smb hinit hbefore hdisc hafter
  obtain ⟨⟨hreached, hexited⟩, -⟩ := hm.world
  have hover : Smb.Sys.Over lib limits w s.world := ⟨hexited (hclosed rfl), hreached⟩
  exact hover.given_back ht hw

/-- A file is opened, and read after the disconnect. -/
theorem disconnected_ends_share : ∃ s₁ s₂ s,
    Lts.run (Session.step oneShare.backend)
      (Session.connected (oneShare.start (Smb.MemServer.holding "a" (.file [1, 2, 3])))) [openA false]
      = some s₁ ∧
    Session.perform oneShare.backend .disconnect s₁ = .ok (.ok .unit, s₂) ∧
    Lts.run (Session.step oneShare.backend) s₂ [.file 0 (.readAt 0 3)] = some s ∧
    Smb.Sys.phase s.world = .exited ∧ replay (Smb.Sys.uses s.world) = some .ended ∧
    ∀ fh, (Smb.Sys.uses s.world).count (.release fh) = (Smb.Sys.uses s.world).count (.acquire fh) := by
  have hcheck : ((Lts.run (Session.step oneShare.backend)
      (Session.connected (oneShare.start (Smb.MemServer.holding "a" (.file [1, 2, 3]))))
      [openA false]).bind fun s₁ => (afterDisconnect oneShare.backend s₁).bind fun s₂ =>
        Lts.run (Session.step oneShare.backend) s₂ [.file 0 (.readAt 0 3)]).isSome = true := by
    decide +kernel
  obtain ⟨s, hs⟩ := Option.isSome_iff_exists.mp hcheck
  obtain ⟨s₁, hrun, hdown⟩ := Option.bind_eq_some_iff.mp hs
  obtain ⟨s₂, hafter, hread⟩ := Option.bind_eq_some_iff.mp hdown
  have hdisc := perform_of_afterDisconnect hafter
  exact ⟨s₁, s₂, s, hrun, hdisc, hread,
    disconnected_ends (Smb.MemServer.tracks .none) rfl hrun hdisc hread⟩

end Krystallos.Ffi
