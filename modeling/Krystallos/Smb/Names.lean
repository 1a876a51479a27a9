import Krystallos.Smb.Classify

namespace Krystallos.Smb

/-!
# A status as a code and as a name

A status reaches `from_parts` as a code or as its name in the message.  The names are in one
table and the codes that are classified in another; `channels_alike_iff` says for which codes
the two come to the same, whatever is around the name.
-/

/-! ### The first occurrence -/

section

variable {q before after : List Char} {c : Char}

/-- A pattern at the front is found there. -/
theorem findFrom_of_prefix {pat cs : List Char} (h : pat <+: cs) : findFrom pat cs = some cs := by
  cases cs with
  | nil => rw [findFrom, if_pos (List.prefix_nil.mp h)]
  | cons c cs => rw [findFrom, if_pos (List.isPrefixOf_iff_prefix.mpr h)]

/-- A pattern that ends in a character it has nowhere else does not begin before its first
    occurrence and end in it. -/
theorem not_prefix_append (hc : c ∉ q) (hne : before ≠ []) (h : ¬ q ++ [c] <+: before) :
    ¬ q ++ [c] <+: before ++ (q ++ [c] ++ after) := by
  intro hpre
  rcases List.prefix_or_prefix_of_prefix hpre (List.prefix_append _ _) with hin | ⟨t, ht⟩
  · exact h hin
  -- the rest of the pattern begins the pattern, so its last character is in `q`
  have hover : t <+: q ++ [c] ++ after :=
    (List.prefix_append_right_inj before).mp (by rw [ht]; exact hpre)
  have hlen : before.length + t.length = q.length + 1 := by
    rw [← List.length_append, ht, List.length_append, List.length_singleton]
  have hpos : 0 < before.length := List.length_pos_iff.mpr hne
  have hq : q <+: q ++ [c] ++ after := by
    rw [List.append_assoc]
    exact List.prefix_append _ _
  have htq : t <+: q := List.prefix_of_prefix_length_le hover hq (by omega)
  rcases List.eq_nil_or_concat t with rfl | ⟨t', d, rfl⟩
  · exact h (by rw [← ht, List.append_nil])
  · rw [List.concat_eq_append, ← List.append_assoc] at ht
    obtain ⟨-, hd⟩ := List.append_inj' ht rfl
    obtain rfl : d = c := List.singleton_inj.mp hd
    exact hc (htq.subset (by simp))

/-- Such a pattern is found where the text before it ends. -/
theorem findFrom_append (hc : c ∉ q) (h : ¬ q ++ [c] <:+: before) :
    findFrom (q ++ [c]) (before ++ (q ++ [c] ++ after)) = some (q ++ [c] ++ after) := by
  induction before with
  | nil => exact findFrom_of_prefix (List.prefix_append _ _)
  | cons b before ih =>
    have hhere : ¬ q ++ [c] <+: b :: before ++ (q ++ [c] ++ after) :=
      not_prefix_append hc (List.cons_ne_nil b before) fun hpre => h hpre.isInfix
    have hlater : ¬ q ++ [c] <:+: before := fun hin => h (List.infix_cons hin)
    rw [List.cons_append] at hhere ⊢
    rw [findFrom, if_neg (fun hpre => hhere (List.isPrefixOf_iff_prefix.mp hpre)), ih hlater]

end

/-! ### The name in a message -/

/-- The characters after which a name ends. -/
def EndsToken (after : String) : Prop := ∀ c ∈ after.toList.head?, isTokenChar c = false

/-- A name is the token of a message that has no other before it and goes on after it with what
    cannot be part of it. -/
theorem statusToken_append {before name after : String}
    (hbefore : ¬ "STATUS_".toList <:+: before.toList) (hname : "STATUS_".toList <+: name.toList)
    (htoken : ∀ c ∈ name.toList, isTokenChar c = true) (hafter : EndsToken after) :
    statusToken (before ++ name ++ after) = some name := by
  have hpat : "STATUS_".toList = "STATUS".toList ++ ['_'] := rfl
  obtain ⟨rest, hrest⟩ := hname
  have hmessage : (before ++ name ++ after).toList =
      before.toList ++ ("STATUS_".toList ++ (rest ++ after.toList)) := by
    rw [String.toList_append, String.toList_append, ← hrest]
    simp only [List.append_assoc]
  -- the first `STATUS_` is the name's
  have hfound : findFrom "STATUS_".toList (before ++ name ++ after).toList =
      some (name.toList ++ after.toList) := by
    rw [hmessage, ← hrest, List.append_assoc]
    rw [hpat] at hbefore ⊢
    exact findFrom_append (by decide) hbefore
  -- and the token ends where the name does
  have hstop : after.toList.takeWhile isTokenChar = [] := by
    unfold EndsToken at hafter
    cases h : after.toList with
    | nil => rfl
    | cons c cs =>
      rw [h] at hafter
      rw [List.takeWhile_cons, hafter c rfl]
      rfl
  rw [statusToken, hfound, Option.map_some, List.takeWhile_append_of_pos htoken, hstop,
    List.append_nil, String.ofList_toList]

/-! ### The two tables -/

/-- The constants of `mod status`, with the names that the protocol gives them. -/
def Status.constants : List (String × Nat) :=
  Status.names ++ [("STATUS_INVALID_DEVICE_REQUEST", Status.invalidDeviceRequest)]

/-- The codes that are classified are the constants. -/
theorem classified_iff (code : Nat) :
    (statusVariant code).isSome ↔ code ∈ Status.constants.map Prod.snd := by
  constructor
  · have hone : ∀ {l : List Nat}, l ⊆ Status.constants.map Prod.snd → code ∈ l →
        code ∈ Status.constants.map Prod.snd := fun hl h => hl h
    have hall : ∀ e, fromStatus code "" none = some e → code ∈ Status.constants.map Prod.snd := by
      dsimp only [fromStatus]
      simp only [← List.mem_singleton (a := code)]
      repeat refine of_ite_some (hone (by decide +kernel)) ?_
      simp
    intro hsome
    rw [statusVariant, Option.isSome_map] at hsome
    obtain ⟨e, he⟩ := Option.isSome_iff_exists.mp hsome
    exact hall e he
  · have hall : ∀ code ∈ Status.constants.map Prod.snd, (statusVariant code).isSome := by
      decide +kernel
    exact hall code

/-- Every constant is spelled as a token. -/
theorem spelled_of_mem {name : String} {code : Nat} (h : (name, code) ∈ Status.constants) :
    "STATUS_".toList <+: name.toList ∧ ∀ c ∈ name.toList, isTokenChar c = true := by
  have hall : Status.constants.all (fun p => "STATUS_".toList.isPrefixOf p.1.toList &&
      p.1.toList.all isTokenChar) = true := by
    decide +kernel
  have hone := List.all_eq_true.mp hall _ h
  rw [Bool.and_eq_true, List.isPrefixOf_iff_prefix, List.all_eq_true] at hone
  exact hone

/-- Every entry of the table of names is found under its name. -/
theorem statusFromName_of_mem {name : String} {code : Nat} (h : (name, code) ∈ Status.names) :
    statusFromName name = some code := by
  have hall : Status.names.map (fun p => statusFromName p.1) =
      Status.names.map fun p => some p.2 := by
    decide +kernel
  exact List.map_inj_left.mp hall _ h

/-- The one constant that the table of names does not have. -/
theorem statusFromName_invalidDeviceRequest :
    statusFromName "STATUS_INVALID_DEVICE_REQUEST" = none := by
  decide +kernel

/-! ### The two channels -/

section

open Checked

variable {plat : Errno} {statusName : Nat → String} {nterror code : Nat} {rc : Int}
  {message name : String} {path : Option String} {e : Error}

/-- A status that is classified decides. -/
theorem fromParts_of_status (hzero : nterror ≠ 0) (h : fromStatus nterror message path = some e) :
    fromParts plat statusName nterror rc message path = .ok e := by
  simp only [fromParts, if_pos hzero, h]

/-- So does one that the message names, where there is no status. -/
theorem fromParts_of_name (hcode : (statusToken message).bind statusFromName = some code)
    (h : fromStatus code message path = some e) :
    fromParts plat statusName 0 rc message path = .ok e := by
  simp only [fromParts, ne_eq, not_true, if_false, hcode, Option.bind_some, h]

/-- What a server that does not do something is reported as. -/
def unsupportedHere : Error := .unsupported "this operation on this server"

/-- The platform gives `EINVAL` a number of its own, which is not that of `EPERM`. -/
structure Errno.Apart (plat : Errno) : Prop where
  others : plat.einval ∉
    [plat.enoent, plat.eacces, plat.enotdir, plat.eisdir, plat.enotempty, plat.econnrefused]
  one_lt : 1 < plat.einval
  lt : plat.einval < 2 ^ 31

theorem Errno.apart_linux : Errno.linux.Apart := ⟨by decide, by decide, by decide⟩

theorem Errno.apart_windows : Errno.windows.Apart := ⟨by decide, by decide, by decide⟩

/-- `EINVAL`, and nothing else, is taken for what is unsupported. -/
theorem fromErrno_unsupported_iff (hplat : plat.Apart) {errno : Int} :
    fromErrno plat errno message path = some unsupportedHere ↔ errno = plat.einval := by
  have hothers := hplat.others
  simp only [List.mem_cons, List.not_mem_nil, or_false, not_or] at hothers
  obtain ⟨hnoent, hacces, hnotdir, hisdir, hnotempty, hrefused⟩ := hothers
  unfold fromErrno unsupportedHere
  split_ifs <;> simp only [Option.some.injEq, reduceCtorEq, false_iff, true_iff] <;> omega

/-- Without a status or a known name, a message is classified by the return value. -/
theorem fromParts_unnamed (hnone : (statusToken message).bind statusFromName = none)
    (hmessage : message ≠ "") :
    fromParts plat statusName 0 rc message path =
      if rc = -1 then .ok (.connectionLost message)
      else if rc = 0 then .ok (.backend message)
      else if -rc < 2 ^ 31 then .ok ((fromErrno plat (-rc) message path).getD (.backend message))
      else .error .subOverflow := by
  -- what is not classified carries the message, and no path can be put in
  have hbackend : (do
      let e ← unclassified statusName 0 rc message
      return tapPath e (path.getD "") : Except Panic Error) = .ok (.backend message) := by
    rw [unclassified, if_neg hmessage]
    exact congrArg Except.ok (tapPath_backend _ _)
  simp only [fromParts, ne_eq, not_true, if_false, hnone, Option.bind_none, hbackend,
    if_neg hmessage]
  split_ifs with hlost hzero hneg
  · rfl
  · rfl
  · rw [negI_ok hneg]
    cases h : fromErrno plat (-rc) message path with
    | none => simp only [bind, Except.bind, pure, Except.pure, h, Option.getD_none]
    | some e => simp only [bind, Except.bind, pure, Except.pure, h, Option.getD_some]
  · rw [negI_overflow hneg]
    rfl

/-- It is the return value that says that a server does not do something. -/
theorem fromParts_unnamed_iff (hplat : plat.Apart)
    (hnone : (statusToken message).bind statusFromName = none) (hmessage : message ≠ "") :
    fromParts plat statusName 0 rc message path = .ok unsupportedHere ↔ rc = -plat.einval := by
  have hone := hplat.one_lt
  have hlt := hplat.lt
  rw [fromParts_unnamed hnone hmessage]
  split_ifs with hlost hzero hneg
  · exact iff_of_false (by simp [unsupportedHere]) (by omega)
  · exact iff_of_false (by simp [unsupportedHere]) (by omega)
  · have hgetD : (fromErrno plat (-rc) message path).getD (.backend message) = unsupportedHere ↔
        fromErrno plat (-rc) message path = some unsupportedHere := by
      cases fromErrno plat (-rc) message path with
      | none => simp [unsupportedHere]
      | some e => simp
    rw [Except.ok.injEq, hgetD, fromErrno_unsupported_iff hplat]
    omega
  · exact iff_of_false (by simp) (by omega)

end

/-- **The two channels classify alike**: a message that names a constant comes to what the
    constant's code does, for every return value and path and whatever is around the name, if and
    only if the constant is not `INVALID_DEVICE_REQUEST` or the return value is `-EINVAL`. -/
theorem channels_alike_iff {plat : Errno} (hplat : plat.Apart) (statusName : Nat → String)
    {name : String} {code : Nat} (hconstant : (name, code) ∈ Status.constants)
    {before after : String} (hbefore : ¬ "STATUS_".toList <:+: before.toList)
    (hafter : EndsToken after) (rc : Int) (path : Option String) :
    fromParts plat statusName 0 rc (before ++ name ++ after) path =
        fromParts plat statusName code rc (before ++ name ++ after) path ↔
      code ≠ Status.invalidDeviceRequest ∨ rc = -plat.einval := by
  obtain ⟨hname, htoken⟩ := spelled_of_mem hconstant
  have hmessage := statusToken_append hbefore hname htoken hafter
  generalize hm : before ++ name ++ after = message at hmessage ⊢
  -- the code is classified by itself
  obtain ⟨e, he⟩ : ∃ e, fromStatus code message path = some e := by
    have hsome := (classified_iff code).mpr (List.mem_map_of_mem hconstant)
    rw [← map_fromStatus code message path, Option.isSome_map] at hsome
    exact Option.isSome_iff_exists.mp hsome
  have hzero : code ≠ 0 := by
    rintro rfl
    cases he
  rw [fromParts_of_status hzero he]
  rcases List.mem_append.mp hconstant with hlisted | hother
  · have hcode : (statusToken message).bind statusFromName = some code := by
      rw [hmessage, Option.bind_some, statusFromName_of_mem hlisted]
    have hne : code ≠ Status.invalidDeviceRequest := by
      have hall : ∀ p ∈ Status.names, p.2 ≠ Status.invalidDeviceRequest := by decide +kernel
      exact hall _ hlisted
    exact iff_of_true (fromParts_of_name hcode he) (.inl hne)
  · obtain ⟨rfl, rfl⟩ := Prod.mk.inj (List.mem_singleton.mp hother)
    have hnone : (statusToken message).bind statusFromName = none := by
      rw [hmessage, Option.bind_some, statusFromName_invalidDeviceRequest]
    have hne : message ≠ "" := by
      rintro rfl
      cases hmessage
    obtain rfl : unsupportedHere = e := Option.some.inj he
    rw [fromParts_unnamed_iff hplat hnone hne]
    simp

/-- A directory that cannot be made, as the text libsmb2 has for it. -/
theorem channels_alike_collision :
    fromParts .linux (fun _ => "") 0 (-17)
        ("Create failed with status " ++ "STATUS_OBJECT_NAME_COLLISION" ++ ".") (some "/a") =
      fromParts .linux (fun _ => "") Status.objectNameCollision (-17)
        ("Create failed with status " ++ "STATUS_OBJECT_NAME_COLLISION" ++ ".") (some "/a") := by
  have hstop : EndsToken "." := by
    intro c hc
    obtain rfl : '.' = c := Option.some.inj hc
    rfl
  exact (channels_alike_iff Errno.apart_linux (fun _ => "") (by decide +kernel)
    (by decide +kernel) hstop (-17) (some "/a")).mpr (.inl (by decide))

/-- **A status with no entry in the table of names** is a lost connection in a message, and an
    operation that is not supported as a code. -/
theorem invalidDeviceRequest_differs :
    ("STATUS_INVALID_DEVICE_REQUEST", Status.invalidDeviceRequest) ∈ Status.constants ∧
    fromParts .linux (fun _ => "") 0 (-1) "Ioctl failed with status STATUS_INVALID_DEVICE_REQUEST."
        none = .ok (.connectionLost "Ioctl failed with status STATUS_INVALID_DEVICE_REQUEST.") ∧
    fromParts .linux (fun _ => "") Status.invalidDeviceRequest (-1)
        "Ioctl failed with status STATUS_INVALID_DEVICE_REQUEST." none = .ok unsupportedHere := by
  refine ⟨by decide +kernel, rfl, rfl⟩

end Krystallos.Smb
