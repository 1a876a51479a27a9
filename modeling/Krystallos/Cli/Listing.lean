import Krystallos.Cli.Commands
import Krystallos.Lib.Split

namespace Krystallos

open Prog Separated

/-!
# What `ls` prints can be read back

The columns are fixed, but a size may be too wide for its column, and a name may hold any number of
blanks.  A line still says what it was made of, the missing time and the epoch apart; and so does
the listing, unless a name holds a newline.
-/

/-! ### Reading a line -/

/-- What a line shows of an entry. -/
structure Shown where
  kind : EntryKind
  len : Nat
  modified : Option String
  name : String
deriving DecidableEq, Repr

/-- What is shown of an entry. -/
def Entry.shown (rfc3339 : SystemTime → String) (entry : Entry) : Shown where
  kind := entry.metadata.kind
  len := entry.metadata.len
  modified := entry.metadata.modified.map rfc3339
  name := entry.name

/-- The kind that a character stands for. -/
def readKind : List Char → Option EntryKind
  | ['d'] => some .directory
  | ['f'] => some .file
  | ['l'] => some .symlink
  | ['?'] => some .other
  | _ => none

/-- The time in a cell. -/
def readTime (cell : List Char) : Option String :=
  if cell = ['-'] then none else some (String.ofList cell)

/-- Read a line: the columns up to a blank each, and the name from behind two. -/
def readLine (line : List Char) : Option Shown := do
  let (kindCell, rest) ← splitOnce [' '] line
  let (sizeCell, rest) ← splitOnce [' '] (rest.dropWhile (· = ' '))
  let (timeCell, name) ← splitOnce [' ', ' '] rest
  let kind ← readKind kindCell
  let len ← (String.ofList sizeCell).toNat?
  pure ⟨kind, len, readTime timeCell, String.ofList name⟩

/-- Read a listing. -/
def readListing (text : List Char) : Option (List Shown) :=
  ((text.splitOnP (· = '\n')).dropLast).mapM readLine

/-- How times are written: with no blank and no newline, and not as the dash that stands for none. -/
structure TimeTexts (rfc3339 : SystemTime → String) : Prop where
  blank : ∀ t, ' ' ∉ (rfc3339 t).toList
  newline : ∀ t, '\n' ∉ (rfc3339 t).toList
  dash : ∀ t, (rfc3339 t).toList ≠ ['-']

variable {rfc3339 : SystemTime → String}

/-- A kind is told by its letter. -/
theorem readKind_kindChar (kind : EntryKind) : readKind [kindChar kind] = some kind := by
  cases kind <;> rfl

theorem kindChar_ne (kind : EntryKind) : kindChar kind ≠ ' ' ∧ kindChar kind ≠ '\n' := by
  cases kind <;> decide

/-- The digits of a number. -/
theorem not_mem_toString {c : Char} (hc : c.isDigit = false) (n : Nat) : c ∉ (toString n).toList := by
  intro hmem
  have hdigits : (toString n).toList = Nat.toDigits 10 n := Nat.toList_repr
  rw [hdigits] at hmem
  rw [Nat.isDigit_of_mem_toDigits (by decide) (by decide) hmem] at hc
  cases hc

theorem toString_ne_nil (n : Nat) : (toString n).toList ≠ [] := by
  have hdigits : (toString n).toList = Nat.toDigits 10 n := Nat.toList_repr
  rw [hdigits]
  exact Nat.toDigits_ne_nil

/-- The blanks in front of a size are skipped. -/
theorem dropWhile_padLeft (n : Nat) (rest : List Char) :
    ((padLeft (toString n)).toList ++ rest).dropWhile (· = ' ') = (toString n).toList ++ rest := by
  obtain ⟨c, cs, hcs⟩ := List.exists_cons_of_ne_nil (toString_ne_nil n)
  have hne : c ≠ ' ' := by
    rintro rfl
    exact not_mem_toString (c := ' ') (by decide) n (by rw [hcs]; exact List.mem_cons_self)
  rw [padLeft, String.toList_append, String.toList_ofList, List.append_assoc,
    List.dropWhile_append_of_pos (by simp), hcs, List.cons_append,
    List.dropWhile_cons_of_neg (by simpa using hne)]

/-- A time is written without a character that its texts do not have. -/
theorem not_mem_timeCell {c : Char} (hc : c ≠ '-') (htexts : ∀ t, c ∉ (rfc3339 t).toList)
    (t : Option SystemTime) : c ∉ (timeCell rfc3339 t).toList := by
  cases t with
  | none => simpa [timeCell] using hc
  | some t => exact htexts t

/-- A time is told by its cell. -/
theorem readTime_timeCell (htexts : TimeTexts rfc3339) (t : Option SystemTime) :
    readTime (timeCell rfc3339 t).toList = t.map rfc3339 := by
  cases t with
  | none => exact if_pos (show "-".toList = ['-'] by decide)
  | some t =>
    show (if (rfc3339 t).toList = ['-'] then none else some (String.ofList (rfc3339 t).toList)) = _
    rw [if_neg (htexts.dash t), String.ofList_toList]
    rfl

/-- **A line** says what it was made of. -/
theorem readLine_entryLine (htexts : TimeTexts rfc3339) (entry : Entry) :
    readLine (entryLine rfc3339 entry).toList = some (entry.shown rfc3339) := by
  have hline : (entryLine rfc3339 entry).toList = [kindChar entry.metadata.kind] ++ [' '] ++
      ((padLeft (toString entry.metadata.len)).toList ++ ([' '] ++
        ((timeCell rfc3339 entry.metadata.modified).toList ++ [' ', ' '] ++ entry.name.toList))) := by
    simp [entryLine]
  have hkind : ' ' ∉ [kindChar entry.metadata.kind] := by
    rw [List.mem_singleton]
    exact (kindChar_ne _).1.symm
  have hsize := not_mem_toString (c := ' ') (by decide) entry.metadata.len
  have htime := not_mem_timeCell (by decide) htexts.blank entry.metadata.modified
  rw [hline, readLine, splitOnce_append hkind]
  simp only [bind, Option.bind]
  rw [dropWhile_padLeft, ← List.append_assoc, splitOnce_append hsize]
  have hlen : (toString entry.metadata.len).toNat? = some entry.metadata.len := Nat.toNat?_repr _
  simp only [splitOnce_append htime, readKind_kindChar, String.ofList_toList, hlen,
    readTime_timeCell htexts]
  rfl

/-! ### Reading a listing -/

/-- An entry is one line. -/
theorem newline_not_mem_entryLine (htexts : TimeTexts rfc3339) {entry : Entry}
    (hname : '\n' ∉ entry.name.toList) : '\n' ∉ (entryLine rfc3339 entry).toList := by
  have hsize := not_mem_toString (c := '\n') (by decide) entry.metadata.len
  have htime := not_mem_timeCell (by decide) htexts.newline entry.metadata.modified
  simp only [entryLine, padLeft, String.toList_append, String.toList_singleton, String.toList_ofList,
    List.mem_append, not_or]
  refine ⟨⟨⟨⟨⟨⟨?_, by decide⟩, ?_, hsize⟩, by decide⟩, htime⟩, by decide⟩, hname⟩
  · rw [List.mem_singleton]
    exact (kindChar_ne _).2.symm
  · exact fun h => absurd (List.eq_of_mem_replicate h) (by decide)

/-- The text of a listing. -/
def listingText (rfc3339 : SystemTime → String) (entries : List Entry) : List Char :=
  terminated '\n' (entries.map fun entry => (entryLine rfc3339 entry).toList)

/-- **A listing** says what its entries were. -/
theorem readListing_listingText (htexts : TimeTexts rfc3339) {entries : List Entry}
    (hnames : ∀ entry ∈ entries, '\n' ∉ entry.name.toList) :
    readListing (listingText rfc3339 entries) = some (entries.map (Entry.shown rfc3339)) := by
  have hlines : ∀ line ∈ entries.map (fun entry => (entryLine rfc3339 entry).toList),
      ∀ c ∈ line, decide (c = '\n') = false := by
    intro line hline c hc
    obtain ⟨entry, hentry, rfl⟩ := List.mem_map.mp hline
    refine decide_eq_false ?_
    rintro rfl
    exact newline_not_mem_entryLine htexts (hnames entry hentry) hc
  rw [readListing, listingText, splitOnP_terminated (by decide) _ hlines, List.dropLast_concat]
  clear hlines hnames
  induction entries with
  | nil => rfl
  | cons entry entries ih =>
    rw [List.map_cons, List.mapM_cons, readLine_entryLine htexts, ih]
    rfl

/-! ### What `ls` writes -/

/-- Texts one after the other are bytes one after the other. -/
theorem utf8_append (s t : String) : utf8 (s ++ t) = utf8 s ++ utf8 t := by
  simp [utf8]

namespace Cli

variable {σ δ : Type} {sink : Sink δ} {s : Cli σ δ}

/-- The lines are written behind what was written before. -/
theorem wp_writeLines (entries : List Entry) :
    wp (writeLines sink rfc3339 entries) (ifDone fun _ s' =>
      s'.out = s.out ++ utf8 (String.ofList (listingText rfc3339 entries))) s := by
  induction entries generalizing s with
  | nil =>
    show s.out = s.out ++ _
    simp [listingText, terminated, utf8]
  | cons entry entries ih =>
    refine (wp_bind _ _).mpr (wp_writeAll (fun d => ?_) (fun _ _ => trivial))
    refine wp_done ih fun _ s' hout => ?_
    have htext : String.ofList (listingText rfc3339 (entry :: entries))
        = entryLine rfc3339 entry ++ "\n" ++ String.ofList (listingText rfc3339 entries) := by
      rw [← String.toList_inj]
      simp [listingText, terminated]
    replace hout : s'.out = s.out ++ utf8 (entryLine rfc3339 entry ++ "\n") ++ _ := hout
    show s'.out = _
    rw [hout, htext, utf8_append (_ ++ "\n"), List.append_assoc]

variable {connect : Prog Error σ (TreeBackend σ)} {path : String} {E : List Entry → Prop}

/-- What a backend lists at a path of the endpoint, where it succeeds, is as `E` says. -/
def Lists (connect : Prog Error σ (TreeBackend σ)) (path : String) (E : List Entry → Prop) (w : σ) :
    Prop :=
  wp connect (ifDone fun b w' => ∀ p, VfsPath.new path = .ok p →
    wp (b.list p) (ifDone fun entries _ => E entries) w') w

/-- **What `ls` writes can be read back**: where it succeeds, it has written a text from which every
    entry of the listing can be told, in order, with its kind, its size, its time if it had one, and
    its name. -/
theorem ls_readable (htexts : TimeTexts rfc3339) (hlists : Lists connect path E s.world.1)
    (hnames : ∀ entries, E entries → ∀ entry ∈ entries, '\n' ∉ entry.name.toList)
    (hout : s.out = []) {s' : Cli σ δ}
    (hrun : ls connect sink rfc3339 path s = .ok (.ok (), s')) :
    ∃ entries text, E entries ∧ s'.out = utf8 text ∧
      readListing text.toList = some (entries.map (Entry.shown rfc3339)) := by
  let Q (out : List UInt8) : Prop := ∃ entries text, E entries ∧ out = utf8 text ∧
    readListing text.toList = some (entries.map (Entry.shown rfc3339))
  have hls : wp (ls connect sink rfc3339 path) (ifDone fun _ s' => Q s'.out) s := by
    refine wp_command_done TreeBackend.toStorageBackend hlists fun b w hb => ?_
    refine wp_path_done fun p hpath => ?_
    refine (wp_bind _ _).mpr (wp_onBackend.mpr (wp_done (hb p hpath) fun entries w' hE => ?_))
    refine wp_bind_done (wp_writeLines entries) fun _ s₁ hout₁ => ?_
    -- flushing writes nothing either
    refine (wp_zoom _ _ _).mpr (wp_of_forall (fun _ d => ?_) (fun _ _ => trivial) (fun _ => trivial))
    have hwritten : s₁.out = utf8 (String.ofList (listingText rfc3339 entries)) := by
      refine hout₁.trans ?_
      show s.out ++ _ = _
      rw [hout, List.nil_append]
    refine wp_shutdown_out (Q := Q) ⟨entries, _, hE, hwritten, ?_⟩
    rw [String.toList_ofList]
    exact readListing_listingText htexts (hnames entries hE)
  exact wp_ret hls hrun

/-- A backend with nothing but a listing. -/
def listingOnly (entries : List Entry) : TreeBackend Unit where
  stat _ := fail (.unsupported "stat")
  openFile _ _ := fail (.unsupported "open")
  shutdown := pure ()
  list _ := pure entries
  removeFile _ := fail (.unsupported "remove_file")
  removeDir _ := fail (.unsupported "remove_dir")
  rename _ _ := fail (.unsupported "rename")
  copy _ _ := fail (.unsupported "copy")
  mkdir _ := fail (.unsupported "mkdir")

/-- A directory without a time and a large file from the epoch, with blanks in their names. -/
def twoEntries : List Entry :=
  [⟨" a  b", ⟨.directory, 0, none, none, none, false⟩⟩,
    ⟨"-", ⟨.file, 12345678901234, some ⟨0, 0⟩, none, none, true⟩⟩]

/-- Both are told from what is written. -/
theorem ls_readable_twoEntries : ∃ s',
    ls (pure (listingOnly twoEntries)) Sink.memory (fun _ => "1970-01-01T00:00:00Z") "/"
      (⟨((), ReadAhead.init), (), []⟩ : Cli Unit Unit) = .ok (.ok (), s') ∧
    ∃ entries text, entries = twoEntries ∧ s'.out = utf8 text ∧ readListing text.toList =
      some (entries.map (Entry.shown fun _ => "1970-01-01T00:00:00Z")) := by
  have htexts : TimeTexts fun _ => "1970-01-01T00:00:00Z" :=
    ⟨fun _ => by decide, fun _ => by decide, fun _ => by decide⟩
  have hlists : Lists (pure (listingOnly twoEntries)) "/" (· = twoEntries) () := fun _ _ => rfl
  have hreturned : (returned (ls (pure (listingOnly twoEntries)) Sink.memory
      (fun _ => "1970-01-01T00:00:00Z") "/" (⟨((), ReadAhead.init), (), []⟩ : Cli Unit Unit))).isSome
        = true := by
    decide +kernel
  obtain ⟨⟨⟩, s', -, hrun⟩ := exists_of_returned hreturned
  refine ⟨s', hrun, ls_readable htexts hlists ?_ rfl hrun⟩
  rintro _ rfl entry hentry
  simp only [twoEntries, List.mem_cons, List.not_mem_nil, or_false] at hentry
  rcases hentry with rfl | rfl <;> decide

end Cli

end Krystallos
