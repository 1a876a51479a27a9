import Krystallos.Smb.Connect

namespace Krystallos.Smb

/-!
# Endpoints, written and read

`ParsedEndpoint::parse` takes an endpoint apart at the first separator of each kind, and `label`
writes the canonical form, without the user and the domain.  `Reading` says how a text is taken
apart; `endpoints_iff` says when the label reads back as what it was written from: where the text
is written as the grammar `[domain;][user@]server/share` has it, the server's name free of
separators.
-/

/-- A text with an optional part and its separator in front. -/
def withPart (sep : Char) : Option (List Char) → List Char → List Char
  | none, l => l
  | some part, l => part ++ sep :: l

/-- Take an optional part off the front. -/
def optionalPart (sep : Char) (l : List Char) : Option (List Char) × List Char :=
  match splitOnce [sep] l with
  | some (part, rest) => (some part, rest)
  | none => (none, l)

/-- A text in four parts, each cut off at the first separator of its kind. -/
structure Reading (s : String) (domain user : Option (List Char)) (server rest : List Char) :
    Prop where
  text : s.toList = withPart ';' domain (withPart '@' user server) ++ '/' :: rest
  noSlash : '/' ∉ withPart ';' domain (withPart '@' user server)
  domainCut : ∀ d ∈ domain, ';' ∉ d
  noDomain : domain = none → ';' ∉ withPart '@' user server
  userCut : ∀ u ∈ user, '@' ∉ u
  noUser : user = none → '@' ∉ server

/-- The text is written as the grammar has it: no separator in the server's name, no `@` in the
    user, and no `;` in the domain, nor in the user where there is no domain. -/
def Grammatical (s : String) : Prop :=
  ∃ domain user server rest,
    s.toList = withPart ';' domain (withPart '@' user server) ++ '/' :: rest ∧
    (∀ d ∈ domain, ';' ∉ d ∧ '/' ∉ d) ∧
    (∀ u ∈ user, '@' ∉ u ∧ '/' ∉ u ∧ (domain = none → ';' ∉ u)) ∧
    '/' ∉ server ∧ ';' ∉ server ∧ '@' ∉ server

/-- What is behind the scheme of the label reads as the same server and share, and names nobody. -/
def Relabels (p : ParsedEndpoint) : Prop :=
  ∃ rest, p.label = "smb://" ++ rest ∧
    ParsedEndpoint.parse rest = .ok ⟨p.server, p.share, none, none⟩

/-- A text that can be a part of an endpoint. -/
structure Plain (s : String) : Prop where
  nonempty : s ≠ ""
  noSlash : '/' ∉ s.toList
  noSemicolon : ';' ∉ s.toList
  noAt : '@' ∉ s.toList

/-- `[domain;][user@]server/share[/path]`. -/
def endpointText (domain user : Option String) (server share : String) (path : Option String) :
    String :=
  domain.elim "" (· ++ ";") ++ user.elim "" (· ++ "@") ++ server ++ "/" ++ share ++
    path.elim "" ("/" ++ ·)

/-! ### Optional parts -/

variable {sep : Char} {part : Option (List Char)} {l : List Char}

theorem optionalPart_withPart (hpart : ∀ a ∈ part, sep ∉ a) (hnone : part = none → sep ∉ l) :
    optionalPart sep (withPart sep part l) = (part, l) := by
  cases part with
  | none =>
    rw [withPart, optionalPart, splitOnce_eq_none (hnone rfl)]
  | some a =>
    have hsplit := splitOnce_append (hpart a rfl) [] l
    rw [List.append_assoc] at hsplit
    show (match splitOnce [sep] (a ++ ([sep] ++ l)) with
      | some (part, rest) => (some part, rest)
      | none => (none, a ++ ([sep] ++ l))) = _
    rw [hsplit]

/-- What is taken off was in front. -/
theorem exists_withPart (sep : Char) (l : List Char) : ∃ part rest, l = withPart sep part rest ∧
    (∀ a ∈ part, sep ∉ a) ∧ (part = none → sep ∉ rest) := by
  by_cases hmem : sep ∈ l
  · obtain ⟨a, b, rfl, ha⟩ := List.eq_append_cons_of_mem hmem
    exact ⟨some a, b, rfl, by simpa using ha, by simp⟩
  · exact ⟨none, l, rfl, by simp, fun _ => hmem⟩

theorem mem_withPart {c : Char} :
    c ∈ withPart sep part l ↔ (∃ a ∈ part, c ∈ a ∨ c = sep) ∨ c ∈ l := by
  cases part with
  | none => simp [withPart]
  | some a => simp [withPart, or_assoc]

theorem length_le_withPart (sep : Char) (part : Option (List Char)) (l : List Char) :
    l.length ≤ (withPart sep part l).length := by
  cases part with
  | none => exact le_rfl
  | some a => simp only [withPart, List.length_append, List.length_cons]; omega

/-- A part in front makes a text longer. -/
theorem eq_none_of_withPart_le (sep : Char) (l : List Char)
    (h : (withPart sep part l).length ≤ l.length) : part = none := by
  cases part with
  | none => rfl
  | some a =>
    simp only [withPart, List.length_append, List.length_cons] at h
    omega

/-! ### Reading -/

variable {s : String} {domain user : Option (List Char)} {server rest : List Char}
  {p : ParsedEndpoint}

/-- The parser, once it has the authority. -/
theorem parse_of_splitOnce {authority : List Char}
    (h : splitOnce ['/'] s.toList = some (authority, rest)) :
    ParsedEndpoint.parse s =
      if rest.takeWhile (· ≠ '/') = [] then .error (.invalidPath s "the share name is empty")
      else if (optionalPart '@' (optionalPart ';' authority).2).2 = [] then
        .error (.invalidPath s "the server name is empty")
      else .ok
        { server := String.ofList (optionalPart '@' (optionalPart ';' authority).2).2
          share := String.ofList (rest.takeWhile (· ≠ '/'))
          user := ((optionalPart '@' (optionalPart ';' authority).2).1.filter (· ≠ [])).map
            String.ofList
          domain := ((optionalPart ';' authority).1.filter (· ≠ [])).map String.ofList } := by
  rw [ParsedEndpoint.parse, h]
  rfl

/-- **The parser** gives the parts of the text's reading. -/
theorem parse_of_reading (h : Reading s domain user server rest) :
    ParsedEndpoint.parse s =
      if rest.takeWhile (· ≠ '/') = [] then .error (.invalidPath s "the share name is empty")
      else if server = [] then .error (.invalidPath s "the server name is empty")
      else .ok ⟨String.ofList server, String.ofList (rest.takeWhile (· ≠ '/')),
        (user.filter (· ≠ [])).map String.ofList, (domain.filter (· ≠ [])).map String.ofList⟩ := by
  have hauthority : splitOnce ['/'] s.toList =
      some (withPart ';' domain (withPart '@' user server), rest) := by
    have hsplit := splitOnce_append h.noSlash [] rest
    rw [List.append_assoc] at hsplit
    rw [h.text]
    exact hsplit
  rw [parse_of_splitOnce hauthority, optionalPart_withPart h.domainCut h.noDomain,
    optionalPart_withPart h.userCut h.noUser]

theorem exists_reading (h : '/' ∈ s.toList) :
    ∃ domain user server rest, Reading s domain user server rest := by
  obtain ⟨authority, rest, htext, hslash⟩ := List.eq_append_cons_of_mem h
  obtain ⟨domain, behind, rfl, hdomain, hnoDomain⟩ := exists_withPart ';' authority
  obtain ⟨user, server, rfl, huser, hnoUser⟩ := exists_withPart '@' behind
  exact ⟨domain, user, server, rest, htext, hslash, hdomain, hnoDomain, huser, hnoUser⟩

/-- What is accepted has a reading, and its parts are the reading's. -/
theorem exists_reading_of_parse (h : ParsedEndpoint.parse s = .ok p) :
    ∃ domain user server rest, Reading s domain user server rest ∧
      server ≠ [] ∧ rest.takeWhile (· ≠ '/') ≠ [] ∧
      p = ⟨String.ofList server, String.ofList (rest.takeWhile (· ≠ '/')),
        (user.filter (· ≠ [])).map String.ofList, (domain.filter (· ≠ [])).map String.ofList⟩ := by
  have hslash : '/' ∈ s.toList := by
    by_contra hnot
    rw [ParsedEndpoint.parse, splitOnce_eq_none hnot] at h
    cases h
  obtain ⟨domain, user, server, rest, hreading⟩ := exists_reading hslash
  rw [parse_of_reading hreading] at h
  split at h
  · cases h
  · next hshare =>
    split at h
    · cases h
    · next hserver =>
      exact ⟨domain, user, server, rest, hreading, hserver, hshare, (Except.ok.inj h).symm⟩

/-- The share of an endpoint that is accepted. -/
theorem share_of_parse (h : ParsedEndpoint.parse s = .ok p) :
    p.share ≠ "" ∧ '/' ∉ p.share.toList := by
  obtain ⟨domain, user, server, rest, -, -, hshare, rfl⟩ := exists_reading_of_parse h
  refine ⟨fun hnil => hshare (String.ofList_injective hnil), ?_⟩
  rw [String.toList_ofList]
  exact fun hmem => absurd (List.mem_takeWhile_imp hmem) (by simp)

/-! ### The label -/

/-- The label of a server and a share without separators reads back. -/
theorem relabels_of_free {server share : List Char} (hserver : server ≠ []) (hshare : share ≠ [])
    (hslash : '/' ∉ server) (hsemicolon : ';' ∉ server) (hat : '@' ∉ server)
    (hshareSlash : '/' ∉ share) (user domain : Option String) :
    Relabels ⟨String.ofList server, String.ofList share, user, domain⟩ := by
  have hreading : Reading (String.ofList server ++ "/" ++ String.ofList share) none none server
      share := by
    refine ⟨?_, hslash, by simp, fun _ => hsemicolon, by simp, fun _ => hat⟩
    simp [withPart]
  have htake : share.takeWhile (· ≠ '/') = share :=
    List.takeWhile_eq_self_iff.mpr fun c hc => decide_eq_true fun heq => hshareSlash (heq ▸ hc)
  refine ⟨_, ?_, (parse_of_reading hreading).trans ?_⟩
  · simp [ParsedEndpoint.label, String.append_assoc]
  · rw [htake, if_neg hshare, if_neg hserver]
    rfl

/-- A label that reads back has a server without separators. -/
theorem free_of_relabels {server share : List Char} {user domain : Option String}
    (hslash : '/' ∉ server)
    (h : Relabels ⟨String.ofList server, String.ofList share, user, domain⟩) :
    ';' ∉ server ∧ '@' ∉ server := by
  obtain ⟨text, hlabel, hparse⟩ := h
  have htext : text.toList = server ++ '/' :: share := by
    have heq := congrArg String.toList hlabel
    simpa [ParsedEndpoint.label] using heq.symm
  obtain ⟨domain', user', server', rest, hreading, -, -, hparts⟩ := exists_reading_of_parse hparse
  obtain rfl : server = server' := by
    have heq := congrArg (fun p => p.server.toList) hparts
    simpa using heq
  -- both texts are cut at their first slash, so that the parts make up the server alone
  have hcut := hreading.text
  rw [htext] at hcut
  have hsplit := splitOnce_append hslash [] share
  have hsplit' := splitOnce_append hreading.noSlash [] rest
  rw [List.append_assoc] at hsplit hsplit'
  have hsame : some (server, share) =
      some (withPart ';' domain' (withPart '@' user' server), rest) :=
    hsplit.symm.trans ((congrArg _ hcut).trans hsplit')
  have hserver : withPart ';' domain' (withPart '@' user' server) = server :=
    (Prod.mk.inj (Option.some.inj hsame)).1.symm
  -- a part in front would make the server longer than it is
  have hlength := congrArg List.length hserver
  have huserLength := length_le_withPart '@' user' server
  obtain rfl : domain' = none :=
    eq_none_of_withPart_le ';' (withPart '@' user' server) (by omega)
  obtain rfl : user' = none := eq_none_of_withPart_le '@' server (le_of_eq hlength)
  exact ⟨hreading.noDomain rfl, hreading.noUser rfl⟩

/-- A grammatical text reads as it is written. -/
theorem exists_reading_of_grammatical (h : Grammatical s) : ∃ domain user server rest,
    Reading s domain user server rest ∧ '/' ∉ server ∧ ';' ∉ server ∧ '@' ∉ server := by
  obtain ⟨domain, user, server, rest, htext, hdomain, huser, hslash, hsemicolon, hat⟩ := h
  refine ⟨domain, user, server, rest, ⟨htext, ?_, fun d hd => (hdomain d hd).1, ?_,
    fun u hu => (huser u hu).1, fun _ => hat⟩, hslash, hsemicolon, hat⟩
  · simp only [mem_withPart, not_or, not_exists, not_and]
    exact ⟨fun d hd => ⟨(hdomain d hd).2, by decide⟩,
      fun u hu => ⟨(huser u hu).2.1, by decide⟩, hslash⟩
  · intro hnone
    simp only [mem_withPart, not_or, not_exists, not_and]
    exact ⟨fun u hu => ⟨(huser u hu).2.2 hnone, by decide⟩, hsemicolon⟩

/-- **The label** of an accepted text reads back exactly where the text is grammatical. -/
theorem relabels_iff (h : ParsedEndpoint.parse s = .ok p) : Relabels p ↔ Grammatical s := by
  constructor
  · intro hrelabels
    obtain ⟨domain, user, server, rest, hreading, -, -, rfl⟩ := exists_reading_of_parse h
    -- the reading is the grammar, but for the separators of the server
    have hslash := hreading.noSlash
    simp only [mem_withPart, not_or, not_exists, not_and] at hslash
    obtain ⟨hdomain, huser, hserver⟩ := hslash
    obtain ⟨hsemicolon, hat⟩ := free_of_relabels hserver hrelabels
    refine ⟨domain, user, server, rest, hreading.text,
      fun d hd => ⟨hreading.domainCut d hd, (hdomain d hd).1⟩,
      fun u hu => ⟨hreading.userCut u hu, (huser u hu).1, fun hnone hmem => ?_⟩,
      hserver, hsemicolon, hat⟩
    exact hreading.noDomain hnone (mem_withPart.mpr (.inl ⟨u, hu, .inl hmem⟩))
  · intro hgrammar
    obtain ⟨domain, user, server, rest, hreading, hslash, hsemicolon, hat⟩ :=
      exists_reading_of_grammatical hgrammar
    rw [parse_of_reading hreading] at h
    split at h
    · cases h
    next hshare =>
    split at h
    · cases h
    next hserver =>
    obtain rfl := Except.ok.inj h
    refine relabels_of_free hserver hshare hslash hsemicolon hat (fun hmem => ?_) _ _
    exact absurd (List.mem_takeWhile_imp hmem) (by simp)

/-! ### Plain parts -/

theorem Plain.toList_ne_nil {t : String} (h : Plain t) : t.toList ≠ [] :=
  fun hnil => h.nonempty (String.ext (by simp [hnil]))

/-- A part that is not empty is kept as it is. -/
theorem filter_plain {part : Option String} (h : ∀ a ∈ part, Plain a) :
    ((part.map String.toList).filter (· ≠ [])).map String.ofList = part := by
  cases part with
  | none => rfl
  | some a => simp [Option.filter, (h a rfl).toList_ne_nil]

/-- The text of plain parts reads as these parts. -/
theorem reading_endpointText {domain user path : Option String} {server share : String}
    (hdomain : ∀ d ∈ domain, Plain d) (huser : ∀ u ∈ user, Plain u) (hserver : Plain server) :
    Reading (endpointText domain user server share path) (domain.map String.toList)
      (user.map String.toList) server.toList
      (share.toList ++ (path.elim "" ("/" ++ ·)).toList) where
  text := by
    cases domain <;> cases user <;> simp [endpointText, withPart, String.append_assoc]
  noSlash := by
    simp only [mem_withPart, Option.mem_map, not_or, not_exists, not_and]
    refine ⟨?_, ?_, hserver.noSlash⟩
    · rintro _ ⟨d, hd, rfl⟩
      exact ⟨(hdomain d hd).noSlash, by decide⟩
    · rintro _ ⟨u, hu, rfl⟩
      exact ⟨(huser u hu).noSlash, by decide⟩
  domainCut := by
    rintro _ hd
    obtain ⟨d, hd', rfl⟩ := Option.mem_map.mp hd
    exact (hdomain d hd').noSemicolon
  noDomain := by
    intro _
    simp only [mem_withPart, Option.mem_map, not_or, not_exists, not_and]
    refine ⟨?_, hserver.noSemicolon⟩
    rintro _ ⟨u, hu, rfl⟩
    exact ⟨(huser u hu).noSemicolon, by decide⟩
  userCut := by
    rintro _ hu
    obtain ⟨u, hu', rfl⟩ := Option.mem_map.mp hu
    exact (huser u hu').noAt
  noUser := fun _ => hserver.noAt

/-- The share is the first component behind the server. -/
theorem takeWhile_share {share : String} (hshare : Plain share) (path : Option String) :
    (share.toList ++ (path.elim "" ("/" ++ ·)).toList).takeWhile (· ≠ '/') = share.toList := by
  have hall : ∀ c ∈ share.toList, decide (c ≠ '/') = true := fun c hc =>
    decide_eq_true fun heq => hshare.noSlash (heq ▸ hc)
  rw [List.takeWhile_append_of_pos hall]
  cases path with
  | none => simp
  | some q => simp

/-- **Plain parts** are read as they were written. -/
theorem parse_endpointText {domain user path : Option String} {server share : String}
    (hdomain : ∀ d ∈ domain, Plain d) (huser : ∀ u ∈ user, Plain u) (hserver : Plain server)
    (hshare : Plain share) : ParsedEndpoint.parse (endpointText domain user server share path) =
      .ok ⟨server, share, user, domain⟩ := by
  rw [parse_of_reading (reading_endpointText hdomain huser hserver), takeWhile_share hshare,
    if_neg hshare.toList_ne_nil, if_neg hserver.toList_ne_nil, filter_plain huser,
    filter_plain hdomain, String.ofList_toList, String.ofList_toList]

/-- **Endpoints are read as they are written.** For every text that is accepted, the label reads
    back as the same server and share with no user and no domain if and only if the text is
    grammatical; and a text written from plain parts is read as these parts. -/
theorem endpoints_iff (s : String) (domain user path : Option String) (server share : String) :
    (∀ p, ParsedEndpoint.parse s = .ok p → (Relabels p ↔ Grammatical s)) ∧
    ((∀ d ∈ domain, Plain d) → (∀ u ∈ user, Plain u) → Plain server → Plain share →
      ParsedEndpoint.parse (endpointText domain user server share path) =
        .ok ⟨server, share, user, domain⟩) :=
  ⟨fun _ h => relabels_iff h, parse_endpointText⟩

/-- **A user with an `@`** leaves a part of itself in the server, and so in the label. -/
theorem label_shows_user :
    ParsedEndpoint.parse "alice@corp@nas/media" = .ok ⟨"corp@nas", "media", some "alice", none⟩ ∧
    ParsedEndpoint.label ⟨"corp@nas", "media", some "alice", none⟩ = "smb://corp@nas/media" ∧
    ParsedEndpoint.parse "corp@nas/media" = .ok ⟨"nas", "media", some "corp", none⟩ ∧
    ¬ Relabels ⟨"corp@nas", "media", some "alice", none⟩ := by
  refine ⟨by decide, by decide, by decide, ?_⟩
  rintro ⟨rest, hlabel, hparse⟩
  obtain rfl : "corp@nas/media" = rest := by
    apply String.ext
    have htext := congrArg String.toList hlabel
    simpa [ParsedEndpoint.label] using htext
  revert hparse
  decide

end Krystallos.Smb
