import RubyOutline.Files.FileSystem

namespace RubyOutline

namespace Entry

theorem get?_append (names more : List String) (e : Entry) :
    get? (names ++ more) e = (get? names e).bind (get? more) := by
  induction names generalizing e with
  | nil => rfl
  | cons name names ih =>
    cases e with
    | directory entries =>
      simp only [List.cons_append, get?]
      cases find? name entries with
      | none => rfl
      | some below => exact ih below
    | file | device => rfl

theorem isSome_get?_dropLast {place : List String} {e : Entry} (h : (get? place e).isSome) :
    (get? place.dropLast e).isSome := by
  cases hlast : place.getLast? with
  | none =>
    rw [List.getLast?_eq_none_iff.1 hlast]
    rfl
  | some name =>
    rw [List.getLast?_eq_some_iff] at hlast
    obtain ⟨names, rfl⟩ := hlast
    rw [get?_append] at h
    rw [List.dropLast_concat]
    exact Option.isSome_of_isSome_bind h

/-- What is put below an entry is put there whatever leads to the entry. -/
theorem get?_put_append {names : List String} {e below : Entry} (h : get? names e = some below)
    (rest : List String) (x : Entry) :
    get? (names ++ rest) (put e (names ++ rest) x) = get? rest (put below rest x) := by
  induction names generalizing e with
  | nil =>
    cases h
    rfl
  | cons name names ih =>
    cases e with
    | directory entries =>
      simp only [get?] at h
      cases hfind : find? name entries with
      | none => simp [hfind] at h
      | some entry =>
        simp only [List.cons_append, put, get?, find?_insert, if_true, hfind, Option.getD_some,
          Option.bind_some]
        rw [hfind] at h
        exact ih h
    | file | device => cases h

/-- A directory stays where it is, with all its names, when something is put where no directory
is. -/
theorem get?_put_directory {place other : List String} {e : Entry}
    {entries : List (String × Entry)} (x : Entry)
    (hplace : ∀ entries, get? place e ≠ some (.directory entries))
    (h : get? other e = some (.directory entries)) :
    ∃ entries', get? other (put e place x) = some (.directory entries') ∧
      ∀ name, (find? name entries).isSome → (find? name entries').isSome := by
  -- along the place: the directory is above it, beside it, or further down the same way
  induction place generalizing e other with
  | nil =>
    cases e with
    | directory entries => exact absurd rfl (hplace entries)
    | file | device => cases other <;> simp [get?] at h
  | cons first names ih =>
    cases e with
    | file | device => exact ⟨entries, h, fun _ hname => hname⟩
    | directory all =>
      cases other with
      | nil =>
        simp only [get?, Option.some.injEq, directory.injEq] at h
        subst h
        refine ⟨_, rfl, fun name hname => ?_⟩
        rw [find?_insert]
        split
        · rfl
        · exact hname
      | cons second others =>
        simp only [put, get?, find?_insert] at h hplace ⊢
        split
        · rename_i hsame
          subst hsame
          cases hfind : find? first all with
          | none => simp [hfind] at h
          | some below =>
            simp only [hfind, Option.bind_some, Option.getD_some] at h hplace ⊢
            exact ih hplace h
        · exact ⟨entries, h, fun _ hname => hname⟩

end Entry

namespace FileSystem

variable {fs fs' : FileSystem} {place next : List String} {name : String}

/-- All directories of a file system are in the other one too, with all their names. -/
def DirectoriesKept (fs fs' : FileSystem) : Prop :=
  ∀ place entries, fs.entry? place = some (.directory entries) →
    ∃ entries', fs'.entry? place = some (.directory entries') ∧
      ∀ name, (Entry.find? name entries).isSome → (Entry.find? name entries').isSome

theorem step_of_directory {entries : List (String × Entry)}
    (h : fs.entry? place = some (.directory entries)) :
    fs.step place name =
      if name = "" ∨ name = "." then .ok place
      else if name = ".." then .ok place.dropLast
      else if maxNameLength < name.utf8ByteSize then .error .nameTooLong
      else if (Entry.find? name entries).isSome then .ok (place ++ [name])
      else .error .notFound := by
  rw [step, h]

/-- A name is followed from a directory only. -/
theorem directory_of_step {result : Except FileFault (List String)}
    (h : fs.step place name = result) (hresult : result ≠ .error .notDirectory) :
    ∃ entries, fs.entry? place = some (.directory entries) := by
  unfold step at h
  split at h
  · rename_i entries hentry
    exact ⟨entries, hentry⟩
  · exact absurd h.symm hresult

theorem directory_of_step_ok (h : fs.step place name = .ok next) :
    ∃ entries, fs.entry? place = some (.directory entries) := by
  apply directory_of_step h
  intro hsame
  cases hsame

theorem DirectoriesKept.step_eq (hkept : DirectoriesKept fs fs')
    (h : fs.step place name = .ok next) : fs'.step place name = .ok next := by
  obtain ⟨entries, hentry⟩ := directory_of_step_ok h
  obtain ⟨entries', hentry', hnames⟩ := hkept place entries hentry
  rw [step_of_directory hentry] at h
  rw [step_of_directory hentry']
  grind

theorem DirectoriesKept.follow_eq (hkept : DirectoriesKept fs fs') {names : List String}
    (h : fs.follow place names = .ok next) : fs'.follow place names = .ok next := by
  induction names generalizing place with
  | nil => exact h
  | cons name names ih =>
    simp only [follow] at h ⊢
    cases hstep : fs.step place name with
    | error fault =>
      rw [hstep] at h
      cases h
    | ok middle =>
      rw [hstep] at h
      rw [hkept.step_eq hstep]
      exact ih h

theorem follow_append {names : List String} (h : fs.follow place names = .ok next)
    (more : List String) : fs.follow place (names ++ more) = fs.follow next more := by
  induction names generalizing place with
  | nil =>
    cases h
    rfl
  | cons name names ih =>
    simp only [follow, List.cons_append] at h ⊢
    cases hstep : fs.step place name with
    | error fault =>
      rw [hstep] at h
      cases h
    | ok middle =>
      rw [hstep] at h
      exact ih h

/-- Where a name leads there is an entry. -/
theorem isSome_of_step (h : fs.step place name = .ok next) : (fs.entry? next).isSome := by
  obtain ⟨entries, hentry⟩ := directory_of_step_ok h
  rw [step_of_directory hentry] at h
  split at h
  · cases h
    simp [hentry]
  · split at h
    · cases h
      exact Entry.isSome_get?_dropLast (by rw [← entry?, hentry]; rfl)
    · split at h
      · cases h
      · split at h
        · rename_i hfind
          cases h
          rw [ entry?, Entry.get?_append, ← entry?, hentry]
          simpa [Entry.get?] using hfind
        · cases h

/-- A place where a path can be written: there is nothing yet, or a file. -/
def HasPlaceFor (fs : FileSystem) (path : String) (place : List String) : Prop :=
  fs.placeFor path = .ok place ∧ ∀ entry, fs.entry? place = some entry → entry.isFile = true

def withFile (fs : FileSystem) (place : List String) (bytes : List UInt8) : FileSystem :=
  { fs with root := fs.root.put place (.file bytes) }

variable {path last : String} {names : List String}

theorem HasPlaceFor.not_directory (h : fs.HasPlaceFor path place)
    (entries : List (String × Entry)) : fs.entry? place ≠ some (.directory entries) := by
  intro hentry
  cases h.2 _ hentry

theorem HasPlaceFor.write_eq (h : fs.HasPlaceFor path place) (bytes : List UInt8) :
    fs.write path bytes = .ok (fs.withFile place bytes) := by
  rw [write, h.1]
  cases hentry : fs.entry? place with
  | none => simp only [hentry, withFile]
  | some entry =>
    cases entry with
    | file old => simp only [hentry, withFile]
    | device | directory => cases h.2 _ hentry

theorem HasPlaceFor.directoriesKept (h : fs.HasPlaceFor path place) (bytes : List UInt8) :
    DirectoriesKept fs (fs.withFile place bytes) :=
  fun _ _ hother => Entry.get?_put_directory (.file bytes) h.not_directory hother

/-- The place for a path that does not end in a slash: where its last name leads, or would lead. -/
theorem placeFor_cases (hpieces : Path.pieces path = names ++ [last]) (hlast : last ≠ "")
    (h : fs.placeFor path = .ok place) :
    pathFault? path = none ∧ ∃ directory, fs.follow (fs.origin path) names = .ok directory ∧
      (fs.step directory last = .ok place ∨
        fs.step directory last = .error .notFound ∧ place = directory ++ [last]) := by
  have hsplit : (Path.pieces path).reverse.dropWhile (· == "") = last :: names.reverse := by
    simp [hpieces, hlast]
  unfold placeFor at h
  split at h
  · cases h
  · rename_i hfault
    refine ⟨hfault, ?_⟩
    simp only [hsplit, List.reverse_reverse] at h
    cases hfollow : fs.follow (fs.origin path) names with
    | error fault =>
      rw [hfollow] at h
      cases h
    | ok directory =>
      refine ⟨directory, rfl, ?_⟩
      simp only [hfollow, bind, Except.bind] at h
      split at h
      · rename_i hstep
        cases h
        exact .inr ⟨hstep, rfl⟩
      · cases h
      · rename_i hstep
        cases h
        exact .inl hstep

/-- The last name of the path leads to the new file. -/
theorem withFile_step {directory : List String} (bytes : List UInt8)
    (hplace : fs.HasPlaceFor path place)
    (h : fs.step directory last = .ok place ∨
      fs.step directory last = .error .notFound ∧ place = directory ++ [last]) :
    (fs.withFile place bytes).step directory last = .ok place ∧
      entry? (fs.withFile place bytes) place = some (.file bytes) := by
  have hkept := hplace.directoriesKept bytes
  -- either the name leads to a file already, or it is new in its directory
  obtain hfound | ⟨hfree, rfl⟩ := h
  · refine ⟨hkept.step_eq hfound, ?_⟩
    obtain ⟨old, hold⟩ := Option.isSome_iff_exists.1 (isSome_of_step hfound)
    have hnew := Entry.get?_put_append hold [] (.file bytes)
    rw [List.append_nil] at hnew
    exact hnew
  · obtain ⟨entries, hentry⟩ := directory_of_step hfree nofun
    have hnew : entry? (fs.withFile (directory ++ [last]) bytes) (directory ++ [last]) =
        some (.file bytes) := by
      refine (Entry.get?_put_append hentry [last] (.file bytes)).trans ?_
      simp [Entry.put, Entry.get?, Entry.find?_insert]
    refine ⟨?_, hnew⟩
    obtain ⟨entries', hentry', -⟩ := hkept directory entries hentry
    have hfind : (Entry.find? last entries').isSome := by
      rw [ entry?, Entry.get?_append, ← entry?, hentry'] at hnew
      cases hfind : Entry.find? last entries' with
      | none => simp [Entry.get?, hfind] at hnew
      | some entry => rfl
    rw [step_of_directory hentry] at hfree
    rw [step_of_directory hentry']
    grind

/-- What is written to a path that does not end in a slash is what is read there. -/
theorem read_withFile (bytes : List UInt8) (hpieces : Path.pieces path = names ++ [last])
    (hlast : last ≠ "") (hplace : fs.HasPlaceFor path place) :
    (fs.withFile place bytes).read path = .ok bytes := by
  obtain ⟨hfault, directory, hfollow, hstep⟩ := placeFor_cases hpieces hlast hplace.1
  obtain ⟨hstep', hentry⟩ := withFile_step bytes hplace hstep
  have horigin : (fs.withFile place bytes).origin path = fs.origin path := rfl
  have hresolve : (fs.withFile place bytes).resolve path = .ok place := by
    simp only [resolve, hfault, horigin, hpieces]
    rw [follow_append ((hplace.directoriesKept bytes).follow_eq hfollow)]
    simp only [follow, hstep']
  simp only [read, lookup, hresolve, bind, Except.bind, hentry]

end FileSystem

end RubyOutline
