import Krystallos.Core.Hosted

namespace Krystallos

open Prog

/-!
# A backend in a larger world

A program that can use several backends has a world for each.  A backend acts on its own part, and
hosts there what it hosts by itself.
-/

variable {σ τ : Type}

/-- The handle's calls, on a part of the world. -/
def FileHandle.onPart (proj : τ → σ) (put : σ → τ → τ) (h : FileHandle σ) : FileHandle τ where
  readAt offset len := zoom proj put (h.readAt offset len)
  writeAt offset buf := zoom proj put (h.writeAt offset buf)
  setLen len := zoom proj put (h.setLen len)
  flush := zoom proj put h.flush
  close := zoom proj put h.close
  len t := h.len (proj t)

/-- What is opened acts on the part too. -/
def openOnPart (proj : τ → σ) (put : σ → τ → τ) (m : Prog Error σ (FileHandle σ)) :
    Prog Error τ (FileHandle τ) := do
  let h ← zoom proj put m
  pure (h.onPart proj put)

/-- The backend's calls, on a part of the world. -/
def TreeBackend.onPart (proj : τ → σ) (put : σ → τ → τ) (b : TreeBackend σ) : TreeBackend τ where
  stat path := zoom proj put (b.stat path)
  openFile path mode := openOnPart proj put (b.openFile path mode)
  shutdown := zoom proj put b.shutdown
  list path := zoom proj put (b.list path)
  removeFile path := zoom proj put (b.removeFile path)
  removeDir path := zoom proj put (b.removeDir path)
  rename fromPath toPath := zoom proj put (b.rename fromPath toPath)
  copy fromPath toPath := zoom proj put (b.copy fromPath toPath)
  mkdir path := zoom proj put (b.mkdir path)

variable {proj : τ → σ} {put : σ → τ → τ} {h : FileHandle σ} {R : PlainFile → σ → Prop}

/-- What a program does on a part of the world. -/
theorem wp_onPart {ε α : Type} {m : Prog ε σ α} {p : Post ε σ α} {t : τ}
    (hput : ∀ s t, proj (put s t) = s) (hm : wp m p (proj t)) :
    wp (zoom proj put m)
      ⟨fun a t' => p.ret a (proj t'), fun e t' => p.fail e (proj t'), p.stop⟩ t := by
  refine (wp_zoom proj put m).mpr (wp_mono hm (fun a s hs => ?_) (fun e s hs => ?_) (fun _ h => h))
  · show p.ret a (proj (put s t))
    rwa [hput]
  · show p.fail e (proj (put s t))
    rwa [hput]

/-- A plain file is one in a larger world. -/
theorem FileHandle.IsPlain.onPart (hput : ∀ s t, proj (put s t) = s) (hshort : h.IsShort R) :
    (h.onPart proj put).IsShort fun x t => R x (proj t) where
  readAt offset len x _ hR hoff hreach :=
    wp_onPart hput (hshort.readAt offset len x _ hR hoff hreach)
  writeAt offset data x _ hR hoff := wp_onPart hput (hshort.writeAt offset data x _ hR hoff)
  setLen len x _ hR hlen := wp_onPart hput (hshort.setLen len x _ hR hlen)
  flush x _ hR := wp_onPart hput (hshort.flush x _ hR)

/-- A backend hosts on its part what it hosts. -/
theorem StorageBackend.Hosts.onPart {b : TreeBackend σ} {up left : FileContent → σ → Prop}
    {path : VfsPath} (hput : ∀ s t, proj (put s t) = s)
    (hhosts : b.toStorageBackend.Hosts up left path) :
    (b.onPart proj put).toStorageBackend.Hosts (fun F t => up F (proj t))
      (fun F t => left F (proj t)) path where
  stat F t hup := wp_onPart hput (hhosts.stat F _ hup)
  openFile mode F t hup := by
    refine wp_bind_done (wp_onPart hput (hhosts.openFile mode F _ hup)) ?_
    rintro h t' ⟨R, hR, hshort, hclose⟩
    exact ⟨_, hR, hshort.onPart hput, fun x u hu => wp_onPart hput (hclose x _ hu)⟩
  shutdown F t hup := wp_onPart hput (hhosts.shutdown F _ hup)

end Krystallos
