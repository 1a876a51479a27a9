import Krystallos.Core.Backend
import Krystallos.Core.Registry
import Krystallos.Lib.Assoc

namespace Krystallos

open Prog

/-!
# `BackendRegistry`

Drivers by the scheme of the URIs they connect to, whatever its case.  A driver registered later
wins, and the one it displaces is handed back: `registered` says so of any number of them.
-/

/-- `str::to_ascii_lowercase`. -/
def asciiLower (s : String) : String := String.ofList (s.toList.map Char.toLower)

/-- Opens sessions for one URI scheme. -/
structure BackendDriver (σ : Type) where
  scheme : String
  connect : Endpoint → Credentials → ConnectionOptions → Prog Error σ (TreeBackend σ)

/-- The key of a driver. -/
def BackendDriver.key {σ : Type} (d : BackendDriver σ) : String := asciiLower d.scheme

/-- Maps URI schemes to drivers. A `HashMap` promises no order; entries are kept as inserted. -/
structure BackendRegistry (σ : Type) where
  drivers : List (String × BackendDriver σ)
  keys : (drivers.map Prod.fst).Nodup
  named : ∀ e ∈ drivers, e.1 = e.2.key

namespace BackendRegistry

variable {σ : Type}

/-- `BackendRegistry::new`. -/
def new : BackendRegistry σ := ⟨[], List.nodup_nil, nofun⟩

/-- `BackendRegistry::register`: the driver it displaced. -/
def register (reg : BackendRegistry σ) (driver : BackendDriver σ) :
    BackendRegistry σ × Option (BackendDriver σ) where
  fst :=
    { drivers := reg.drivers.filter (·.1 ≠ driver.key) ++ [(driver.key, driver)]
      keys := by
        rw [List.map_append, List.nodup_append]
        refine ⟨reg.keys.sublist (List.filter_sublist.map _), by simp, ?_⟩
        rintro k hk _ hnew rfl
        obtain ⟨e, he, rfl⟩ := List.mem_map.mp hk
        have hne := (List.mem_filter.mp he).2
        simp_all
      named := by
        intro e he
        rcases List.mem_append.mp he with hold | hnew
        · exact reg.named e (List.mem_of_mem_filter hold)
        · rw [List.mem_singleton.mp hnew] }
  snd := reg.drivers.lookup driver.key

/-- `BackendRegistry::driver_for`. -/
def driverFor (reg : BackendRegistry σ) (scheme : String) : Option (BackendDriver σ) :=
  reg.drivers.lookup (asciiLower scheme)

/-- `BackendRegistry::schemes`, sorted. -/
def schemes (reg : BackendRegistry σ) : List String :=
  (reg.drivers.map Prod.fst).mergeSort fun a b => decide (a ≤ b)

/-- `BackendRegistry::connect_with`. -/
def connectWith (reg : BackendRegistry σ) (uri : String) (credentials : Credentials)
    (options : ConnectionOptions) : Prog Error σ (TreeBackend σ) := do
  let endpoint ← ofExcept (Endpoint.parse uri)
  match reg.drivers.lookup endpoint.scheme with
  | none => fail (.unsupported "connect: no driver registered for this scheme")
  | some driver => driver.connect endpoint credentials options

/-- Drivers registered one after the other, and those that were handed back. -/
def registerAll (ds : List (BackendDriver σ)) : BackendRegistry σ × List (BackendDriver σ) :=
  ds.foldl (fun r d => ((r.1.register d).1, r.2 ++ (r.1.register d).2.toList)) (new, [])

/-! ### One registration -/

variable {reg : BackendRegistry σ} {driver : BackendDriver σ} {key : String}

/-- The driver registered last for a key is the one found. -/
theorem lookup_register (reg : BackendRegistry σ) (driver : BackendDriver σ) (key : String) :
    (reg.register driver).1.drivers.lookup key
      = if key = driver.key then some driver else reg.drivers.lookup key := by
  show (reg.drivers.filter (·.1 ≠ driver.key) ++ [(driver.key, driver)]).lookup key = _
  rw [List.lookup_append, Assoc.lookup_filter_ne]
  by_cases hkey : key = driver.key
  · simp [hkey]
  · simp [hkey, List.lookup_cons, beq_eq_false_iff_ne.mpr hkey]

/-- No driver is lost. -/
theorem perm_register (reg : BackendRegistry σ) (driver : BackendDriver σ) :
    ((reg.register driver).1.drivers.map Prod.snd ++ (reg.register driver).2.toList).Perm
      (reg.drivers.map Prod.snd ++ [driver]) := by
  show ((reg.drivers.filter (·.1 ≠ driver.key) ++ [(driver.key, driver)]).map Prod.snd ++
    (reg.drivers.lookup driver.key).toList).Perm _
  cases hold : reg.drivers.lookup driver.key with
  | none =>
    rw [Assoc.filter_ne_of_lookup hold]
    simp
  | some old =>
    have hperm := (Assoc.perm_of_lookup reg.keys hold).map Prod.snd
    rw [List.map_cons] at hperm
    simp only [List.map_append, List.map_cons, List.map_nil, Option.toList_some]
    -- the displaced one is what the filter has taken out
    exact List.perm_append_singleton old _ |>.trans (hperm.symm.append_right [driver])

/-! ### Any number of registrations -/

/-- The driver registered last for a key. -/
def lastFor (ds : List (BackendDriver σ)) (key : String) : Option (BackendDriver σ) :=
  ds.reverse.find? fun d => d.key = key

/-- One more driver. -/
theorem registerAll_concat (ds : List (BackendDriver σ)) (d : BackendDriver σ) :
    registerAll (ds ++ [d]) = (((registerAll ds).1.register d).1,
      (registerAll ds).2 ++ ((registerAll ds).1.register d).2.toList) := by
  rw [registerAll, List.foldl_append]
  rfl

/-- Every driver is registered or was handed back. -/
theorem perm_registerAll (ds : List (BackendDriver σ)) :
    ((registerAll ds).1.drivers.map Prod.snd ++ (registerAll ds).2).Perm ds := by
  induction ds using List.reverseRecOn with
  | nil => exact .nil
  | append_singleton ds d ih =>
    rw [registerAll_concat]
    let handed := ((registerAll ds).1.register d).2.toList
    have hshift : (((registerAll ds).1.register d).1.drivers.map Prod.snd ++
        ((registerAll ds).2 ++ handed)).Perm
        ((((registerAll ds).1.register d).1.drivers.map Prod.snd ++ handed) ++
          (registerAll ds).2) := by
      rw [List.append_assoc]
      exact List.perm_append_comm.append_left _
    have hstep := (perm_register (registerAll ds).1 d).append_right (registerAll ds).2
    -- those handed back before stand behind what this registration has added
    have hback : (((registerAll ds).1.drivers.map Prod.snd ++ [d]) ++ (registerAll ds).2).Perm
        (((registerAll ds).1.drivers.map Prod.snd ++ (registerAll ds).2) ++ [d]) := by
      rw [List.append_assoc, List.append_assoc]
      exact List.perm_append_comm.append_left _
    exact hshift.trans (hstep.trans (hback.trans (ih.append_right [d])))

/-- So it is after any number of them. -/
theorem lookup_registerAll (ds : List (BackendDriver σ)) (key : String) :
    (registerAll ds).1.drivers.lookup key = lastFor ds key := by
  induction ds using List.reverseRecOn with
  | nil => rfl
  | append_singleton ds d ih =>
    rw [registerAll_concat, lookup_register, ih, lastFor, lastFor, List.reverse_append,
      List.reverse_singleton, List.singleton_append, List.find?_cons]
    by_cases hkey : d.key = key
    · simp [hkey]
    · simp [hkey, Ne.symm hkey]

/-- The schemes listed are those with a driver. -/
theorem mem_schemes {scheme : String} :
    scheme ∈ reg.schemes ↔ (reg.drivers.lookup scheme).isSome = true := by
  rw [schemes, List.mem_mergeSort, List.lookup_isSome_iff]
  simp

/-- The schemes are sorted, and none is listed twice. -/
theorem pairwise_schemes (reg : BackendRegistry σ) : reg.schemes.Pairwise (· < ·) := by
  have htotal : ∀ a b : String, (decide (a ≤ b) || decide (b ≤ a)) = true := by
    intro a b
    rw [Bool.or_eq_true, decide_eq_true_eq, decide_eq_true_eq]
    exact le_total a b
  have htrans : ∀ a b c : String, decide (a ≤ b) = true → decide (b ≤ c) = true →
      decide (a ≤ c) = true := by
    intro a b c hab hbc
    exact decide_eq_true (le_trans (of_decide_eq_true hab) (of_decide_eq_true hbc))
  have hsorted : reg.schemes.Pairwise fun a b => decide (a ≤ b) = true :=
    List.pairwise_mergeSort htrans htotal _
  have hnodup : reg.schemes.Nodup := (List.mergeSort_perm _ _).nodup_iff.mpr reg.keys
  exact (hsorted.and hnodup).imp fun h => lt_of_le_of_ne (of_decide_eq_true h.1) h.2

/-- **Registrations.** However many drivers are registered, none is lost: each is in the registry or
    was handed back.  The one registered last for a scheme, in whatever case, is the one that is
    found and connected through; and the schemes are listed in order, each once. -/
theorem registered (ds : List (BackendDriver σ)) :
    ((registerAll ds).1.drivers.map Prod.snd ++ (registerAll ds).2).Perm ds ∧
    (∀ scheme, (registerAll ds).1.driverFor scheme = lastFor ds (asciiLower scheme)) ∧
    (∀ uri credentials options, (registerAll ds).1.connectWith uri credentials options = do
      let endpoint ← ofExcept (Endpoint.parse uri)
      match lastFor ds endpoint.scheme with
      | none => fail (.unsupported "connect: no driver registered for this scheme")
      | some driver => driver.connect endpoint credentials options) ∧
    (registerAll ds).1.schemes.Pairwise (· < ·) ∧
    ∀ scheme, scheme ∈ (registerAll ds).1.schemes ↔ ∃ d ∈ ds, d.key = scheme := by
  refine ⟨perm_registerAll ds, fun scheme => lookup_registerAll ds _, ?_, pairwise_schemes _, ?_⟩
  · intro uri credentials options
    simp only [connectWith, lookup_registerAll]
  · intro scheme
    rw [mem_schemes, lookup_registerAll, lastFor, List.find?_isSome]
    simp

end BackendRegistry

end Krystallos
