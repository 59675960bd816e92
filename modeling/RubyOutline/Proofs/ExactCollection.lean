import Mathlib
import RubyOutline.Files.Collection
import RubyOutline.Proofs.Contents

namespace RubyOutline.Collection

open Entry (contents contentsOf)

variable {start input name : String} {names : List String}
  {entries : List (String × Entry)} {fs : FileSystem}

/-- Whether a walk chooses the entry that the given names lead to. -/
def isChosen (names : List String) : Bool :=
  isSourceName (names.getLastD "") && !isSkipped names.dropLast

theorem isChosen_concat (directories : List String) (name : String) :
    isChosen (directories ++ [name]) = (isSourceName name && !isSkipped directories) := by
  simp [isChosen]

mutual

theorem below_eq (outer : List String) : (entries : List (String × Entry)) →
    below outer entries = ((contents outer entries).filter fun found => isChosen found.1).map
      Prod.fst
  | [] => by simp [below, contents]
  | (name, entry) :: rest => by
    rw [below, contents, belowEntry_eq (outer ++ [name]) entry, below_eq outer rest,
      List.filter_append, List.filter_cons, isChosen_concat, List.map_append]
    split <;> simp

theorem belowEntry_eq (here : List String) : (entry : Entry) →
    belowEntry here entry = ((contentsOf here entry).filter fun found => isChosen found.1).map
      Prod.fst
  | .directory entries => by rw [belowEntry, contentsOf, below_eq here entries]
  | .file _ | .device => by simp [belowEntry, contentsOf]

end

mutual

theorem directories_eq (outer : List String) : (entries : List (String × Entry)) →
    directories outer entries = ((contents outer entries).filter fun found =>
      found.2.isDirectory).map Prod.fst
  | [] => by simp [directories, contents]
  | (name, entry) :: rest => by
    rw [directories, contents, directoriesFrom_eq (outer ++ [name]) entry,
      directories_eq outer rest, List.filter_append, List.map_append]

theorem directoriesFrom_eq (here : List String) : (entry : Entry) →
    directoriesFrom here entry = (((here, entry) :: contentsOf here entry).filter fun found =>
      found.2.isDirectory).map Prod.fst
  | .directory entries => by
    rw [directoriesFrom, contentsOf, directories_eq here entries]
    simp [Entry.isDirectory]
  | .file _ | .device => by simp [directoriesFrom, contentsOf, Entry.isDirectory]

end

/-- An entry below the given ones that a collection chooses: it has the name of a source file and is
not below a skipped directory. -/
structure Chosen (entries : List (String × Entry)) (directories : List String) (name : String)
    (entry : Entry) : Prop where
  get? : Entry.get? (directories ++ [name]) (.directory entries) = some entry
  isSource : isSourceName name = true
  kept : isSkipped directories = false

theorem mem_below_iff (h : (Entry.directory entries).IsTree) :
    names ∈ below [] entries ↔
      ∃ directories name entry, names = directories ++ [name] ∧
        Chosen entries directories name entry := by
  rw [below_eq, List.mem_map]
  constructor
  · rintro ⟨⟨names, entry⟩, hfound, rfl⟩
    obtain ⟨hmem, hchosen⟩ := List.mem_filter.1 hfound
    obtain ⟨hne, hget⟩ := h.mem_contentsOf.1 hmem
    obtain ⟨directories, name, rfl⟩ : ∃ directories name, names = directories ++ [name] :=
      ⟨_, _, (List.dropLast_concat_getLast hne).symm⟩
    rw [isChosen_concat, Bool.and_eq_true, Bool.not_eq_true'] at hchosen
    exact ⟨directories, name, entry, rfl, hget, hchosen.1, hchosen.2⟩
  · rintro ⟨directories, name, entry, rfl, hget, hsource, hkept⟩
    have hmem : (directories ++ [name], entry) ∈ contents [] entries :=
      h.mem_contentsOf.2 ⟨by simp, hget⟩
    have hchosen : isChosen (directories ++ [name]) = true := by
      rw [isChosen_concat, hsource, hkept]
      rfl
    exact ⟨(directories ++ [name], entry), List.mem_filter.2 ⟨hmem, hchosen⟩, rfl⟩

theorem nodup_below (h : (Entry.directory entries).IsTree) : (below [] entries).Nodup := by
  have hcontents : ((contents [] entries).map Prod.fst).Nodup :=
    Entry.nodup_contents entries h.1 h.2
  rw [below_eq]
  exact hcontents.sublist (List.filter_sublist.map Prod.fst)

theorem mem_directories_iff (h : (Entry.directory entries).IsTree) :
    names ∈ directories [] entries ↔
      names ≠ [] ∧ ∃ inside, Entry.get? names (.directory entries) = some (.directory inside) := by
  rw [directories_eq, List.mem_map]
  constructor
  · rintro ⟨⟨names, entry⟩, hfound, rfl⟩
    obtain ⟨hmem, hdirectory⟩ := List.mem_filter.1 hfound
    obtain ⟨hne, hget⟩ := h.mem_contentsOf.1 hmem
    cases entry with
    | directory inside => exact ⟨hne, inside, hget⟩
    | file | device => cases hdirectory
  · rintro ⟨hne, inside, hget⟩
    have hmem : (names, .directory inside) ∈ contents [] entries := h.mem_contentsOf.2 ⟨hne, hget⟩
    exact ⟨(names, .directory inside), List.mem_filter.2 ⟨hmem, rfl⟩, rfl⟩

/-- The names on the way to a chosen entry can all be names. -/
theorem isName_of_mem_below (h : (Entry.directory entries).IsTree)
    (hnames : names ∈ below [] entries) : names ≠ [] ∧ ∀ name ∈ names, Path.IsName name := by
  obtain ⟨directories, name, entry, rfl, hchosen⟩ := (mem_below_iff h).1 hnames
  exact ⟨by simp, (h.of_get? hchosen.get?).1⟩

/-- A directory below the start has too long a path to be looked through. -/
def OutOfReach (start : String) (entries : List (String × Entry)) : Prop :=
  ∃ place inside, place ≠ [] ∧
    Entry.get? place (.directory entries) = some (.directory inside) ∧
      FileSystem.isTooLong (Path.below start place) = true

theorem not_outOfReach (h : (Entry.directory entries).IsTree)
    (hall : ∀ place ∈ directories [] entries,
      FileSystem.isTooLong (Path.below start place) = false) : ¬ OutOfReach start entries := by
  rintro ⟨place, inside, hne, hget, hlong⟩
  have hshort := hall place ((mem_directories_iff h).2 ⟨hne, inside, hget⟩)
  rw [hlong] at hshort
  cases hshort

/-- The paths that a collection comes to from a directory. -/
def pathsFrom (start : String) (entries : List (String × Entry)) : List String :=
  sorted ((below [] entries).map (Path.below start))

/-- A collection from a directory fails on a directory out of reach, and otherwise comes to an
end. -/
theorem collect_cases (hstart : fs.lookup (Path.tidy input) = .ok (.directory entries))
    (h : (Entry.directory entries).IsTree) :
    OutOfReach (Path.tidy input) entries ∧ (∃ e, collect fs input = .error e) ∨
      ¬ OutOfReach (Path.tidy input) entries ∧
        collect fs input = .ok (pathsFrom (Path.tidy input) entries) := by
  simp only [collect, hstart]
  split
  · rename_i path hfind
    obtain ⟨place, hplace, rfl⟩ := List.mem_map.1 (List.mem_of_find?_eq_some hfind)
    obtain ⟨hne, inside, hget⟩ := (mem_directories_iff h).1 hplace
    exact .inl ⟨⟨place, inside, hne, hget, List.find?_some hfind⟩, _, rfl⟩
  · rename_i hfind
    refine .inr ⟨?_, rfl⟩
    apply not_outOfReach h
    intro place hplace
    rw [List.find?_eq_none] at hfind
    exact Bool.eq_false_iff.2 (hfind _ (List.mem_map_of_mem hplace))

theorem collect_error_iff (hstart : fs.lookup (Path.tidy input) = .ok (.directory entries))
    (h : (Entry.directory entries).IsTree) :
    (∃ e, collect fs input = .error e) ↔ OutOfReach (Path.tidy input) entries := by
  obtain ⟨hlong, hfails⟩ | ⟨hshort, hok⟩ := collect_cases hstart h
  · exact ⟨fun _ => hlong, fun _ => hfails⟩
  · constructor
    · intro ⟨e, herror⟩
      cases hok.symm.trans herror
    · intro hlong
      exact absurd hlong hshort

theorem collect_eq (hstart : fs.lookup (Path.tidy input) = .ok (.directory entries))
    (h : (Entry.directory entries).IsTree) (hreach : ¬ OutOfReach (Path.tidy input) entries) :
    collect fs input = .ok (pathsFrom (Path.tidy input) entries) := by
  obtain ⟨hlong, -⟩ | ⟨-, hcollect⟩ := collect_cases hstart h
  · exact absurd hlong hreach
  · exact hcollect

/-- The paths from a directory are those of the chosen entries. -/
theorem mem_pathsFrom_iff (h : (Entry.directory entries).IsTree) {path : String} :
    path ∈ pathsFrom start entries ↔ ∃ directories name entry,
      Chosen entries directories name entry ∧ path = Path.below start (directories ++ [name]) := by
  rw [pathsFrom, sorted, List.mem_mergeSort, List.mem_map]
  constructor
  · rintro ⟨names, hnames, rfl⟩
    obtain ⟨directories, name, entry, rfl, hchosen⟩ := (mem_below_iff h).1 hnames
    exact ⟨directories, name, entry, hchosen, rfl⟩
  · rintro ⟨directories, name, entry, hchosen, rfl⟩
    exact ⟨_, (mem_below_iff h).2 ⟨directories, name, entry, rfl, hchosen⟩, rfl⟩

/-- A path below the start is collected exactly if the entry that it leads to is chosen. -/
theorem below_mem_pathsFrom_iff (h : (Entry.directory entries).IsTree) {directories : List String}
    {entry : Entry}
    (hget : Entry.get? (directories ++ [name]) (.directory entries) = some entry) :
    Path.below start (directories ++ [name]) ∈ pathsFrom start entries ↔
      isSourceName name = true ∧ isSkipped directories = false := by
  rw [mem_pathsFrom_iff h]
  constructor
  · rintro ⟨directories', name', entry', hchosen, hpath⟩
    have hsame : directories ++ [name] = directories' ++ [name'] :=
      Path.eq_of_below_eq (by simp) (h.of_get? hget).1 (by simp) (h.of_get? hchosen.get?).1 hpath
    obtain ⟨rfl, hlast⟩ := List.append_inj' hsame rfl
    cases hlast
    exact ⟨hchosen.isSource, hchosen.kept⟩
  · rintro ⟨hsource, hkept⟩
    exact ⟨directories, name, entry, ⟨hget, hsource, hkept⟩, rfl⟩

theorem pairwise_sorted {paths : List String} (h : paths.Nodup) :
    (sorted paths).Pairwise (· < ·) := by
  have hle (a b : String) : (!decide (b < a)) = true ↔ a ≤ b := by
    rw [Bool.not_eq_true', decide_eq_false_iff_not, String.not_lt]
  have hordered : (sorted paths).Pairwise fun a b => (!decide (b < a)) = true := by
    apply List.pairwise_mergeSort
    · intro a b c hab hbc
      rw [hle] at hab hbc ⊢
      exact String.le_trans hab hbc
    · intro a b
      rw [Bool.or_eq_true, hle, hle]
      exact String.le_total a b
  have hdistinct : (sorted paths).Nodup := (List.mergeSort_perm paths _).nodup_iff.2 h
  refine (hordered.and hdistinct).imp ?_
  rintro a b ⟨hab, hne⟩
  rw [hle] at hab
  rw [← String.not_le]
  intro hba
  exact hne (String.le_antisymm hab hba)

/-- The paths from a directory are in order, and none is there twice. -/
theorem pairwise_pathsFrom (start : String) (h : (Entry.directory entries).IsTree) :
    (pathsFrom start entries).Pairwise (· < ·) := by
  apply pairwise_sorted
  refine List.Nodup.map_on ?_ (nodup_below h)
  intro names hnames names' hnames' hsame
  obtain ⟨hne, hall⟩ := isName_of_mem_below h hnames
  obtain ⟨hne', hall'⟩ := isName_of_mem_below h hnames'
  exact Path.eq_of_below_eq hne hall hne' hall' hsame

theorem isSkipped_eq_false_iff {directories : List String} :
    isSkipped directories = false ↔
      (∀ directory ∈ directories, directory.startsWith "." = false ∧ directory ≠ "vendor" ∧
        directory ≠ "node_modules") ∧
      directories.head? ≠ some "tmp" ∧ directories.head? ≠ some "log" := by
  have hfirst : (directories.head?.map buildOutput.contains).getD false = false ↔
      directories.head? ≠ some "tmp" ∧ directories.head? ≠ some "log" := by
    cases directories with
    | nil => simp
    | cons first rest => simp [buildOutput]
  rw [isSkipped, Bool.or_eq_false_iff, hfirst, List.any_eq_false, and_comm]
  simp [dependencies]

/-- A collection from a directory fails exactly if some directory below has too long a path. Any
other comes to a list of paths in strictly increasing order; and a file below the start is in it
exactly if its name ends like that of a source file, no directory on the way from the start is
hidden or one of dependencies, and the first of them is not one of build output. -/
theorem collection_is_exact (fs : FileSystem) (input : String) (entries : List (String × Entry))
    (hstart : fs.lookup (Path.tidy input) = .ok (.directory entries))
    (htree : (Entry.directory entries).IsTree) :
    ((∃ e, collect fs input = .error e) ↔ OutOfReach (Path.tidy input) entries) ∧
    (¬ OutOfReach (Path.tidy input) entries → ∃ paths, collect fs input = .ok paths ∧
      paths.Pairwise (· < ·) ∧
      ∀ (directories : List String) (name : String) (bytes : List UInt8),
        Entry.get? (directories ++ [name]) (.directory entries) = some (.file bytes) →
          (Path.below (Path.tidy input) (directories ++ [name]) ∈ paths ↔
            name.endsWith ".rb" = true ∧
            (∀ directory ∈ directories, directory.startsWith "." = false ∧
              directory ≠ "vendor" ∧ directory ≠ "node_modules") ∧
            directories.head? ≠ some "tmp" ∧ directories.head? ≠ some "log")) := by
  refine ⟨collect_error_iff hstart htree, ?_⟩
  intro hreach
  refine ⟨_, collect_eq hstart htree hreach, pairwise_pathsFrom _ htree, ?_⟩
  intro directories name bytes hget
  rw [below_mem_pathsFrom_iff htree hget, isSkipped_eq_false_iff]
  rfl

/-- Two files in directories of the same name, of which one is right below the start. -/
def logEntries : List (String × Entry) :=
  [("log", .directory [("a.rb", .file [])]),
    ("lib", .directory [("log", .directory [("b.rb", .file [])])])]

theorem isTree_logEntries : (Entry.directory logEntries).IsTree := by
  decide +kernel

/-- A start that has the name of a skipped directory is not skipped, and of the directories below
it only the first is. -/
theorem collection_is_exact_logEntries :
    let fs : FileSystem := ⟨.directory [("vendor", .directory logEntries)], []⟩
    ∃ paths, collect fs "vendor" = .ok paths ∧ paths.Pairwise (· < ·) ∧
      "vendor/lib/log/b.rb" ∈ paths ∧ "vendor/log/a.rb" ∉ paths := by
  intro fs
  have hstart : fs.lookup (Path.tidy "vendor") = .ok (.directory logEntries) := by cbv
  have hreach : ¬ OutOfReach (Path.tidy "vendor") logEntries :=
    not_outOfReach isTree_logEntries (by decide +kernel)
  obtain ⟨paths, hcollect, hordered, hmem⟩ :=
    (collection_is_exact fs "vendor" _ hstart isTree_logEntries).2 hreach
  have ha : Path.below (Path.tidy "vendor") (["log"] ++ ["a.rb"]) = "vendor/log/a.rb" := by
    decide +kernel
  have hb : Path.below (Path.tidy "vendor") (["lib", "log"] ++ ["b.rb"]) =
      "vendor/lib/log/b.rb" := by decide +kernel
  have hmema := hmem ["log"] "a.rb" [] rfl
  have hmemb := hmem ["lib", "log"] "b.rb" [] rfl
  rw [ha] at hmema
  rw [hb] at hmemb
  refine ⟨paths, hcollect, hordered, hmemb.2 (by decide +kernel), ?_⟩
  intro hpath
  exact (hmema.1 hpath).2.2.2 rfl

end RubyOutline.Collection
