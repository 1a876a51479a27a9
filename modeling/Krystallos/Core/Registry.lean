import Krystallos.Core.Error
import Krystallos.Lib.Assoc
import Krystallos.Lib.Escape

namespace Krystallos

/-!
# Credentials, endpoints, and how they are shown

`registry.rs`, with the `Debug` of the standard library that its types are shown by: a text
shown in quotes can be read back (`debugStr_injective`), whatever tables say which characters
are printable.
-/

/-! ### `Debug` -/

/-- What the standard library knows of characters: which extend the one before, and which are
    printable. -/
structure CharTables where
  graphemeExtended : Char → Bool
  printable : Char → Bool

/-- The characters that have an escape of their own, and its letter. -/
def letterEscapes : List (Char × Char) :=
  [('\x00', '0'), ('\t', 't'), ('\r', 'r'), ('\n', 'n'), ('\\', '\\'), ('\x22', '\x22')]

/-- `char::escape_debug_ext`, as the `Debug` of `str` calls it. -/
def escapeDebug (t : CharTables) (c : Char) : List Char :=
  match letterEscapes.lookup c with
  | some letter => ['\\', letter]
  | none =>
    if !t.graphemeExtended c && t.printable c then [c]
    else '\\' :: 'u' :: '\x7b' :: (Nat.toDigits 16 c.toNat ++ ['\x7d'])

/-- The `Debug` of a `str`. -/
def debugStr (t : CharTables) (s : String) : String :=
  String.ofList ('\x22' :: (s.toList.flatMap (escapeDebug t) ++ ['\x22']))

/-- The `Debug` of an `Option`. -/
def debugOption {α : Type} (show' : α → String) : Option α → String
  | none => "None"
  | some a => "Some(" ++ show' a ++ ")"

/-- The `Debug` of a `bool`. -/
def debugBool (b : Bool) : String := if b then "true" else "false"

/-- What `debug_struct` and a derived `Debug` write, from the texts of the fields. -/
def debugStruct (name : String) (fields : List (String × String)) : String :=
  name ++ " \x7b " ++ ", ".intercalate (fields.map fun f => f.1 ++ ": " ++ f.2) ++ " \x7d"

/-- An escaped character is itself, or a backslash, a letter, and what the letter calls for. -/
theorem escapeDebug_cases (t : CharTables) (c : Char) :
    (escapeDebug t c = [c] ∧ c ≠ '\\') ∨
    (∃ letter, escapeDebug t c = ['\\', letter] ∧ (c, letter) ∈ letterEscapes) ∨
    escapeDebug t c = '\\' :: 'u' :: '\x7b' :: (Nat.toDigits 16 c.toNat ++ ['\x7d']) := by
  unfold escapeDebug
  split
  · next letter h => exact .inr (.inl ⟨letter, rfl, Assoc.mem_of_lookup h⟩)
  · next h =>
    split
    · refine .inl ⟨rfl, ?_⟩
      rintro rfl
      exact absurd h (by decide)
    · exact .inr (.inr rfl)

/-- Different characters have different letters, and none has the `u` of a number. -/
theorem letterEscapes_inj : ∀ x ∈ letterEscapes, x.2 ≠ 'u' ∧
    ∀ y ∈ letterEscapes, x.2 = y.2 → x.1 = y.1 := by
  decide

theorem brace_not_mem_hex (n : Nat) : '\x7d' ∉ Nat.toDigits 16 n := by
  intro h
  obtain ⟨d, hd, heq⟩ := Escape.mem_hex h
  revert d
  decide

/-- **Escapes** can be read back. -/
theorem instant_escapeDebug (t : CharTables) : Escape.Instant (escapeDebug t) where
  nonempty := by
    intro c
    rcases escapeDebug_cases t c with ⟨h, -⟩ | ⟨letter, h, -⟩ | h <;> rw [h] <;> exact nofun
  decode := by
    intro c d xs ys heq
    -- an escape begins with a backslash, and what stands behind it tells which kind it is
    rcases escapeDebug_cases t c with ⟨hc, hne⟩ | ⟨l, hc, hl⟩ | hc <;>
      rcases escapeDebug_cases t d with ⟨hd, hne'⟩ | ⟨l', hd, hl'⟩ | hd <;>
      rw [hc, hd] at heq
    · simpa using heq
    · exact absurd (List.cons.inj heq).1 hne
    · exact absurd (List.cons.inj heq).1 hne
    · exact absurd (List.cons.inj heq).1.symm hne'
    · -- both have a letter
      simp only [List.cons_append, List.nil_append, List.cons.injEq, true_and] at heq
      exact ⟨(letterEscapes_inj _ hl).2 _ hl' heq.1, heq.2⟩
    · simp only [List.cons_append, List.nil_append, List.cons.injEq, true_and] at heq
      exact absurd heq.1 (letterEscapes_inj _ hl).1
    · exact absurd (List.cons.inj heq).1.symm hne'
    · simp only [List.cons_append, List.nil_append, List.cons.injEq, true_and] at heq
      exact absurd heq.1.symm (letterEscapes_inj _ hl').1
    · -- both are given by number, which the brace ends
      simp only [List.cons_append, List.append_assoc, List.nil_append, List.cons.injEq,
        true_and] at heq
      obtain ⟨hhex, hrest⟩ :=
        Escape.eq_of_append_cons (brace_not_mem_hex _) (brace_not_mem_hex _) heq
      exact ⟨Char.toNat_inj.mp (Escape.hex_injective hhex), hrest⟩

/-- **A text that is shown can be read.** -/
theorem debugStr_injective (t : CharTables) : Function.Injective (debugStr t) := by
  intro s s' h
  have hlist := String.ofList_injective h
  have hmid := (List.append_inj' (List.cons.inj hlist).2 rfl).1
  exact String.toList_injective ((instant_escapeDebug t).flatMap_injective hmid)

/-! ### Credentials -/

/-- Credentials for a connection attempt. -/
structure Credentials where
  username : Option String
  password : Option String
  domain : Option String
deriving DecidableEq, Repr

/-- The `Debug` of `Credentials`: secrets are never printed. -/
def Credentials.debug (t : CharTables) (c : Credentials) : String :=
  debugStruct "Credentials"
    [("username", debugOption (debugStr t) c.username),
     ("password", debugOption (debugStr t) (c.password.map fun _ => "<redacted>")),
     ("domain", debugOption (debugStr t) c.domain)]

/-- Per-connection settings that are neither credentials nor part of the URI. -/
structure ConnectionOptions where
  settings : String → Option String

namespace ConnectionOptions

/-- `ConnectionOptions::new`. -/
def new : ConnectionOptions := ⟨fun _ => none⟩

/-- `ConnectionOptions::set`. -/
def set (o : ConnectionOptions) (key value : String) : ConnectionOptions :=
  ⟨Function.update o.settings key (some value)⟩

/-- `ConnectionOptions::get`. -/
def get (o : ConnectionOptions) (key : String) : Option String := o.settings key

end ConnectionOptions

/-! ### Endpoints -/

/-- `str::split_once`, on the characters. -/
def splitOnce (pat : List Char) : List Char → Option (List Char × List Char)
  | [] => if pat = [] then some ([], []) else none
  | c :: cs =>
    if pat.isPrefixOf (c :: cs) then some ([], (c :: cs).drop pat.length)
    else (splitOnce pat cs).map fun (front, rest) => (c :: front, rest)

/-- What is split at the pattern holds it, between the two parts. -/
theorem eq_append_of_splitOnce {pat l front rest : List Char}
    (h : splitOnce pat l = some (front, rest)) : l = front ++ pat ++ rest := by
  induction l generalizing front with
  | nil =>
    simp only [splitOnce, Option.ite_none_right_eq_some, Option.some.injEq, Prod.mk.injEq] at h
    obtain ⟨rfl, rfl, rfl⟩ := h
    rfl
  | cons c cs ih =>
    rw [splitOnce] at h
    split at h
    · next hprefix =>
      obtain ⟨t, ht⟩ := List.isPrefixOf_iff_prefix.mp hprefix
      simp only [← ht, List.drop_left, Option.some.injEq, Prod.mk.injEq] at h
      obtain ⟨rfl, rfl⟩ := h
      exact ht.symm
    · obtain ⟨⟨front', rest'⟩, hsplit, heq⟩ := Option.map_eq_some_iff.mp h
      obtain ⟨rfl, rfl⟩ := Prod.mk.inj heq
      rw [ih hsplit]
      rfl

/-- A text is split at the first place where the pattern's first character stands. -/
theorem splitOnce_append {c : Char} {front : List Char} (hfront : c ∉ front)
    (cs rest : List Char) :
    splitOnce (c :: cs) (front ++ (c :: cs) ++ rest) = some (front, rest) := by
  induction front with
  | nil =>
    have hprefix : (c :: cs).isPrefixOf (c :: (cs ++ rest)) = true :=
      List.isPrefixOf_iff_prefix.mpr (List.prefix_append (c :: cs) rest)
    show splitOnce (c :: cs) (c :: (cs ++ rest)) = _
    rw [splitOnce, if_pos hprefix]
    simp
  | cons d front ih =>
    obtain ⟨hne, hrest⟩ := not_or.mp (fun h => hfront (List.mem_cons.mpr h))
    have hnot : ¬ (c :: cs).isPrefixOf (d :: (front ++ (c :: cs) ++ rest)) = true := by
      simp [hne]
    show splitOnce (c :: cs) (d :: (front ++ (c :: cs) ++ rest)) = _
    rw [splitOnce, if_neg hnot, ih hrest]
    rfl

/-- A text without the pattern's first character is not split. -/
theorem splitOnce_eq_none {c : Char} {l : List Char} (hl : c ∉ l) (cs : List Char) :
    splitOnce (c :: cs) l = none := by
  cases h : splitOnce (c :: cs) l with
  | none => rfl
  | some parts =>
    have heq := eq_append_of_splitOnce h
    exact absurd (by rw [heq]; simp) hl

/-- A parsed endpoint URI. -/
structure Endpoint where
  scheme : String
  authorityAndPath : String
  raw : String
deriving DecidableEq, Repr

/-- `char::is_ascii_alphanumeric`, or one of the other characters of a scheme. -/
def isSchemeChar (c : Char) : Bool :=
  ('a' ≤ c && c ≤ 'z') || ('A' ≤ c && c ≤ 'Z') || ('0' ≤ c && c ≤ '9') || c == '+' || c == '-' ||
    c == '.'

/-- Parse `scheme://rest`, with the scheme in lower case. -/
def Endpoint.parse (uri : String) : Result Endpoint :=
  match splitOnce "://".toList uri.toList with
  | none => .error (.invalidPath uri "endpoint is missing a `scheme://` prefix")
  | some (scheme, rest) =>
    if scheme = [] then .error (.invalidPath uri "endpoint has an empty scheme")
    else if !scheme.all isSchemeChar then
      .error (.invalidPath uri ("`" ++ String.ofList scheme ++ "` is not a valid URI scheme"))
    else .ok ⟨String.ofList (scheme.map Char.toLower), String.ofList rest, uri⟩

/-- A text with a scheme in front of it. -/
theorem Endpoint.parse_scheme {scheme : String} (hne : scheme ≠ "")
    (hscheme : scheme.toList.all isSchemeChar = true) (rest : String) :
    Endpoint.parse (scheme ++ "://" ++ rest) = .ok
      ⟨String.ofList (scheme.toList.map Char.toLower), rest, scheme ++ "://" ++ rest⟩ := by
  have hcolon : ':' ∉ scheme.toList := by
    intro hmem
    exact absurd (List.all_eq_true.mp hscheme _ hmem) (by decide)
  have htext : (scheme ++ "://" ++ rest).toList =
      scheme.toList ++ [':', '/', '/'] ++ rest.toList := by
    simp
  have hnil : scheme.toList ≠ [] := fun h => hne (String.ext (by simp [h]))
  have hpat : "://".toList = [':', '/', '/'] := rfl
  rw [Endpoint.parse, htext, hpat, splitOnce_append hcolon]
  simp [hnil, hscheme]

end Krystallos
