import RubyOutline.Files.Collection
import RubyOutline.Proofs.PathText
import RubyOutline.Proofs.WriteRead

namespace RubyOutline

namespace Entry

mutual

/-- The names of all entries below an entry. -/
def names : Entry → List String
  | .directory entries => namesOf entries
  | .file _ | .device => []

def namesOf : List (String × Entry) → List String
  | [] => []
  | (name, entry) :: rest => name :: (names entry ++ namesOf rest)

end

theorem mem_namesOf_of_find? {name other : String} {e : Entry} {entries : List (String × Entry)}
    (h : find? name entries = some e) (hother : other ∈ e.names) : other ∈ namesOf entries := by
  induction entries with
  | nil => simp [find?] at h
  | cons first rest ih =>
    obtain ⟨key, entry⟩ := first
    simp only [find?, List.find?_cons] at h
    split at h
    · cases h
      simp [namesOf, hother]
    · simp [namesOf, ih h]

theorem mem_names_of_get? {place : List String} {name : String} {e below : Entry}
    (h : get? place e = some below) (hname : name ∈ below.names) : name ∈ e.names := by
  induction place generalizing e with
  | nil =>
    cases h
    exact hname
  | cons first place ih =>
    cases e with
    | directory entries =>
      simp only [get?] at h
      obtain ⟨entry, hfind, hentry⟩ := Option.bind_eq_some_iff.1 h
      exact mem_namesOf_of_find? hfind (ih hentry)
    | file | device => cases h

end Entry

/-- A path that leads to an entry has no null character, and it is followed to that entry. -/
theorem FileSystem.lookup_ok {fs : FileSystem} {path : String} {entry : Entry}
    (h : fs.lookup path = .ok entry) :
    Path.hasNull path = false ∧ ∃ place,
      fs.follow (fs.origin path) (Path.pieces path) = .ok place ∧ fs.entry? place = some entry := by
  unfold lookup at h
  cases hresolve : fs.resolve path with
  | error fault =>
    rw [hresolve] at h
    cases h
  | ok place =>
    simp only [hresolve, bind, Except.bind] at h
    have hentry : fs.entry? place = some entry := by
      split at h
      · cases h
        assumption
      · cases h
    unfold resolve at hresolve
    split at hresolve
    · cases hresolve
    · rename_i hfault
      have hnull : Path.hasNull path = false := by
        rw [Bool.eq_false_iff]
        intro hnull
        simp [pathFault?, hnull] at hfault
      exact ⟨hnull, place, hresolve, hentry⟩

namespace Collection

mutual

/-- The names on the way to a chosen entry. -/
theorem mem_of_mem_below {directories path : List String} {name : String} :
    (entries : List (String × Entry)) → path ∈ below directories entries → name ∈ path →
      name ∈ directories ∨ name ∈ Entry.namesOf entries
  | [], hpath, _ => by cases hpath
  | (key, entry) :: rest, hpath, hname => by
    rw [below, List.mem_append, List.mem_append] at hpath
    obtain (hpath | hpath) | hpath := hpath
    · split at hpath
      · rw [List.mem_singleton] at hpath
        subst hpath
        simp only [List.mem_append, List.mem_singleton] at hname
        exact hname.imp_right fun hkey => by simp [Entry.namesOf, hkey]
      · cases hpath
    · obtain hname | hname := mem_of_mem_belowEntry entry hpath hname
      · simp only [List.mem_append, List.mem_singleton] at hname
        exact hname.imp_right fun hkey => by simp [Entry.namesOf, hkey]
      · exact .inr (by simp [Entry.namesOf, hname])
    · exact (mem_of_mem_below rest hpath hname).imp_right fun hrest => by
        simp [Entry.namesOf, hrest]

theorem mem_of_mem_belowEntry {directories path : List String} {name : String} :
    (entry : Entry) → path ∈ belowEntry directories entry → name ∈ path →
      name ∈ directories ∨ name ∈ entry.names
  | .directory entries, hpath, hname => mem_of_mem_below entries hpath hname
  | .file _, hpath, _ => by cases hpath
  | .device, hpath, _ => by cases hpath

end

/-- No collected path has a null character, if no name in the file system has one. -/
theorem hasNull_of_mem_collect {fs : FileSystem} {input : String} {paths : List String}
    (hnames : ∀ name ∈ fs.root.names, Path.hasNull name = false)
    (h : collect fs input = .ok paths) : ∀ path ∈ paths, Path.hasNull path = false := by
  intro path hpath
  unfold collect at h
  cases hlookup : fs.lookup (Path.tidy input) with
  | error fault =>
    cases fault <;> simp only [hlookup] at h <;> cases h <;> cases hpath
  | ok entry =>
    obtain ⟨hstart, place, -, hentry⟩ := FileSystem.lookup_ok hlookup
    cases entry with
    | file bytes =>
      simp only [hlookup] at h
      cases h
      rw [List.mem_singleton.1 hpath]
      exact hstart
    | device =>
      simp only [hlookup] at h
      cases h
      cases hpath
    | directory entries =>
      simp only [hlookup] at h
      split at h
      · cases h
      · cases h
        rw [sorted, List.mem_mergeSort] at hpath
        obtain ⟨names, hbelow, rfl⟩ := List.mem_map.1 hpath
        refine Path.hasNull_below hstart fun name hname => hnames name ?_
        obtain hnone | hname := mem_of_mem_below entries hbelow hname
        · cases hnone
        · exact Entry.mem_names_of_get? hentry hname

/-- A name with more bytes than a name may have ends the collection. -/
theorem collect_of_long_name {fs : FileSystem} {name : String} {entries : List (String × Entry)}
    (horigin : fs.entry? (fs.origin name) = some (.directory entries))
    (hslash : '/' ∉ name.toList) (hnull : Path.hasNull name = false)
    (hlong : FileSystem.maxNameLength < name.utf8ByteSize)
    (hpath : FileSystem.isTooLong name = false) :
    collect fs name = .error ⟨.nameTooLong, name⟩ := by
  -- the names that stand for no entry of their own are short
  have hne : ∀ other : String, other.utf8ByteSize ≤ FileSystem.maxNameLength → name ≠ other := by
    rintro other hother rfl
    exact absurd hother (Nat.not_le.2 hlong)
  have hempty := hne "" (by decide)
  have hdot := hne "." (by decide)
  have hdots := hne ".." (by decide)
  have hfault : FileSystem.pathFault? name = none := by
    simp [FileSystem.pathFault?, hnull, hpath, hempty]
  have hstep : fs.step (fs.origin name) name = .error .nameTooLong := by
    rw [FileSystem.step_of_directory horigin]
    simp [hempty, hdot, hdots, hlong]
  have hlookup : fs.lookup name = .error .nameTooLong := by
    simp only [FileSystem.lookup, FileSystem.resolve, hfault, Path.pieces_of_not_mem hslash,
      FileSystem.follow, hstep, bind, Except.bind]
  simp only [Collection.collect, Path.tidy_of_not_mem hslash hempty hdot, hlookup]

end Collection

end RubyOutline
