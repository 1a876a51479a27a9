import Krystallos.Cli.Commands
import Krystallos.Core.Zoomed
import Krystallos.Local.Hosted
import Krystallos.Smb.Hosted

namespace Krystallos

open Prog

/-!
# The program

`main` registers the local driver and the SMB driver, and runs one command.  The world of a run is
that of the file system beside that of the SMB session.
-/

/-- What the program runs on: the file system, the SMB library, and what connecting to either finds
    in a world. -/
structure Machine (W V : Type) where
  fs : Local.LocalFs W
  localHost : W → Local.LocalHost
  lib : Smb.Libsmb2 V
  smbHost : V → Smb.ConnectHost V
  limits : Smb.Limits
  fuel : Nat

/-- A driver that acts on a part of the world. -/
def BackendDriver.onPart {σ τ : Type} (proj : τ → σ) (put : σ → τ → τ) (d : BackendDriver σ) :
    BackendDriver τ where
  scheme := d.scheme
  connect endpoint credentials options := do
    let backend ← zoom proj put (d.connect endpoint credentials options)
    pure (backend.onPart proj put)

namespace Machine

variable {W V : Type} (m : Machine W V)

/-- `LocalDriver::new`. -/
def localDriver : BackendDriver (W × Smb.Sys V) :=
  BackendDriver.onPart Prod.fst (fun w t => (w, t.2))
    ⟨"file", Local.connectTo m.fs m.localHost m.fuel⟩

/-- `SmbDriver::new`. -/
def smbDriver : BackendDriver (W × Smb.Sys V) :=
  BackendDriver.onPart Prod.snd (fun s t => (t.1, s))
    ⟨"smb", Smb.connectTo m.lib m.smbHost m.limits m.fuel⟩

/-- The registry of available backends. -/
def registry : BackendRegistry (W × Smb.Sys V) :=
  (BackendRegistry.registerAll [m.localDriver, m.smbDriver]).1

/-- `main`, up to its exit code. -/
def main {δ : Type} (outside : Outside δ) (fuel : Nat) (args : Args) :
    Prog Error (Cli (W × Smb.Sys V) δ) Unit :=
  args.run m.registry outside fuel

/-- The driver that a scheme leads to. -/
theorem lookup_registry (scheme : String) : m.registry.drivers.lookup scheme =
    if scheme = "smb" then some m.smbDriver
    else if scheme = "file" then some m.localDriver else none := by
  have hlower : asciiLower "smb" = "smb" ∧ asciiLower "file" = "file" := by decide
  have hsmb : m.smbDriver.key = "smb" := hlower.1
  have hfile : m.localDriver.key = "file" := hlower.2
  rw [registry, BackendRegistry.lookup_registerAll, BackendRegistry.lastFor]
  simp only [List.reverse_cons, List.reverse_nil, List.nil_append, List.singleton_append,
    List.find?_cons, List.find?_nil, hsmb, hfile]
  by_cases hs : scheme = "smb"
  · subst hs
    rfl
  · by_cases hf : scheme = "file"
    · subst hf
      rfl
    · simp [hs, hf, Ne.symm hs, Ne.symm hf]

end Machine

end Krystallos
