import Krystallos.Core.Zoomed

namespace Krystallos

open Prog

/-!
# What a backend keeps

Whatever is called on a backend that is connected, in any order and whether it succeeds or not,
`P` holds, and once it was shut down `Q` does.
-/

variable {σ τ : Type}

/-- Every call of the handle keeps `P`. -/
structure FileHandle.Stays (h : FileHandle σ) (P : σ → Prop) : Prop where
  readAt : ∀ offset len s, P s → wp (h.readAt offset len) (keeping P) s
  writeAt : ∀ offset buf s, P s → wp (h.writeAt offset buf) (keeping P) s
  setLen : ∀ len s, P s → wp (h.setLen len) (keeping P) s
  flush : ∀ s, P s → wp h.flush (keeping P) s
  close : ∀ s, P s → wp h.close (keeping P) s

/-- An open keeps `P`, and so does the handle it gives. -/
def opening (P : σ → Prop) : Post Error σ (FileHandle σ) :=
  ⟨fun h s => P s ∧ h.Stays P, fun _ s => P s, fun _ => True⟩

/-- Every call of the backend keeps `P`, and a shutdown leaves `Q`. -/
structure StorageBackend.Stays (b : StorageBackend σ) (P Q : σ → Prop) : Prop where
  stat : ∀ path s, P s → wp (b.stat path) (keeping P) s
  openFile : ∀ path mode s, P s → wp (b.openFile path mode) (opening P) s
  shutdown : ∀ s, P s → wp b.shutdown (keeping Q) s

/-- So does every call on its tree of files. -/
structure TreeBackend.Stays (b : TreeBackend σ) (P Q : σ → Prop) : Prop where
  storage : b.toStorageBackend.Stays P Q
  list : ∀ path s, P s → wp (b.list path) (keeping P) s
  removeFile : ∀ path s, P s → wp (b.removeFile path) (keeping P) s
  removeDir : ∀ path s, P s → wp (b.removeDir path) (keeping P) s
  rename : ∀ fromPath toPath s, P s → wp (b.rename fromPath toPath) (keeping P) s
  copy : ∀ fromPath toPath s, P s → wp (b.copy fromPath toPath) (keeping P) s
  mkdir : ∀ path s, P s → wp (b.mkdir path) (keeping P) s

/-! ### In a larger world -/

variable {proj : τ → σ} {put : σ → τ → τ}

theorem FileHandle.Stays.onPart {h : FileHandle σ} {P : σ → Prop}
    (hput : ∀ s t, proj (put s t) = s) (hh : h.Stays P) :
    (h.onPart proj put).Stays fun t => P (proj t) where
  readAt offset len _ hP := wp_onPart hput (hh.readAt offset len _ hP)
  writeAt offset buf _ hP := wp_onPart hput (hh.writeAt offset buf _ hP)
  setLen len _ hP := wp_onPart hput (hh.setLen len _ hP)
  flush _ hP := wp_onPart hput (hh.flush _ hP)
  close _ hP := wp_onPart hput (hh.close _ hP)

/-- A backend keeps of its part what it keeps. -/
theorem TreeBackend.Stays.onPart {b : TreeBackend σ} {P Q : σ → Prop}
    (hput : ∀ s t, proj (put s t) = s) (hb : b.Stays P Q) :
    (b.onPart proj put).Stays (fun t => P (proj t)) fun t => Q (proj t) where
  storage :=
    { stat := fun path _ hP => wp_onPart hput (hb.storage.stat path _ hP)
      openFile := by
        intro path mode t hP
        refine (wp_bind _ _).mpr (wp_mono (wp_onPart hput (hb.storage.openFile path mode _ hP)) ?_
          (fun _ _ h => h) (fun _ h => h))
        exact fun h t' hh => ⟨hh.1, hh.2.onPart hput⟩
      shutdown := fun _ hP => wp_onPart hput (hb.storage.shutdown _ hP) }
  list path _ hP := wp_onPart hput (hb.list path _ hP)
  removeFile path _ hP := wp_onPart hput (hb.removeFile path _ hP)
  removeDir path _ hP := wp_onPart hput (hb.removeDir path _ hP)
  rename fromPath toPath _ hP := wp_onPart hput (hb.rename fromPath toPath _ hP)
  copy fromPath toPath _ hP := wp_onPart hput (hb.copy fromPath toPath _ hP)
  mkdir path _ hP := wp_onPart hput (hb.mkdir path _ hP)

variable {P : τ → Prop} {t : τ}

/-- What happens in one part of the world is nothing to what `P` says of the rest. -/
theorem wp_elsewhere {ε α : Type} {m : Prog ε σ α} (hput : ∀ s t, P t → P (put s t)) (hP : P t) :
    wp (zoom proj put m) (keeping P) t :=
  (wp_zoom proj put m).mpr
    (wp_of_forall (fun _ _ => hput _ _ hP) (fun _ _ => hput _ _ hP) (fun _ => trivial))

/-- A backend keeps what is said of the rest of the world. -/
theorem TreeBackend.stays_elsewhere (b : TreeBackend σ) (hput : ∀ s t, P t → P (put s t)) :
    (b.onPart proj put).Stays P P where
  storage :=
    { stat := fun _ _ hP => wp_elsewhere hput hP
      openFile := by
        intro path mode t hP
        refine (wp_bind _ _).mpr (wp_mono (wp_elsewhere hput hP) ?_ (fun _ _ h => h) (fun _ h => h))
        intro h t' hP'
        exact ⟨hP', ⟨fun _ _ _ hP => wp_elsewhere hput hP, fun _ _ _ hP => wp_elsewhere hput hP,
          fun _ _ hP => wp_elsewhere hput hP, fun _ hP => wp_elsewhere hput hP,
          fun _ hP => wp_elsewhere hput hP⟩⟩
      shutdown := fun _ hP => wp_elsewhere hput hP }
  list _ _ hP := wp_elsewhere hput hP
  removeFile _ _ hP := wp_elsewhere hput hP
  removeDir _ _ hP := wp_elsewhere hput hP
  rename _ _ _ hP := wp_elsewhere hput hP
  copy _ _ _ hP := wp_elsewhere hput hP
  mkdir _ _ hP := wp_elsewhere hput hP

end Krystallos
