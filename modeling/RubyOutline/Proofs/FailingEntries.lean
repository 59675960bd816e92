import RubyOutline.Proofs.ExactCollection
import RubyOutline.Proofs.WholeRun

namespace RubyOutline

namespace FileSystem

variable {fs : FileSystem} {place next pieces relative : List String} {name path start : String}
  {e entry : Entry}

/-- Empty names and single dots lead nowhere else. -/
theorem follow_filter (h : fs.follow place pieces = .ok next) :
    fs.follow place (pieces.filter fun name => name != "" && name != ".") = .ok next := by
  induction pieces generalizing place with
  | nil => exact h
  | cons name pieces ih =>
    rw [follow] at h
    cases hstep : fs.step place name with
    | error fault =>
      rw [hstep] at h
      cases h
    | ok middle =>
      rw [hstep] at h
      have hrest := ih h
      by_cases hstay : name = "" ∨ name = "."
      · obtain ⟨entries, hentry⟩ := directory_of_step_ok hstep
        rw [step_of_directory hentry, if_pos hstay] at hstep
        cases hstep
        rw [List.filter_cons_of_neg (by simpa [or_iff_not_imp_left] using hstay)]
        exact hrest
      · rw [List.filter_cons_of_pos (by simpa [not_or] using hstay), follow, hstep]
        exact hrest

/-- Names of entries lead down, one level each. -/
theorem eq_append_of_follow (hnames : ∀ name ∈ relative, Path.IsName name)
    (h : fs.follow place relative = .ok next) : next = place ++ relative := by
  induction relative generalizing place with
  | nil =>
    cases h
    simp
  | cons name rest ih =>
    obtain ⟨hname, hrest⟩ := List.forall_mem_cons.1 hnames
    rw [follow] at h
    cases hstep : fs.step place name with
    | error fault =>
      rw [hstep] at h
      cases h
    | ok middle =>
      rw [hstep] at h
      have hmiddle : middle = place ++ [name] := by
        obtain ⟨entries, hentry⟩ := directory_of_step_ok hstep
        rw [step_of_directory hentry] at hstep
        have hstay : ¬ (name = "" ∨ name = ".") := not_or.2 ⟨hname.ne_empty, hname.ne_dot⟩
        rw [if_neg hstay, if_neg hname.ne_dots] at hstep
        split at hstep
        · cases hstep
        · split at hstep
          · exact (Except.ok.inj hstep).symm
          · cases hstep
      rw [ih hrest h, hmiddle, List.append_assoc]
      rfl

/-- What the path of an entry below a directory leads to is that entry. -/
theorem get?_of_lookup_below (hstart : fs.lookup start = .ok entry) (hne : relative ≠ [])
    (hnames : ∀ name ∈ relative, Path.IsName name)
    (h : fs.lookup (Path.below start relative) = .ok e) : Entry.get? relative entry = some e := by
  obtain ⟨-, place, hfollow, hentry⟩ := lookup_ok hstart
  obtain ⟨-, place', hfollow', hentry'⟩ := lookup_ok h
  have horigin : fs.origin (Path.below start relative) = fs.origin start := by
    rw [origin, origin, Path.isAbsolute_below start hne hnames]
  have hdown : fs.follow place relative = .ok place' := by
    have hall := follow_filter hfollow'
    rw [horigin, ← Path.names, Path.names_below start hne hnames] at hall
    rw [← hall]
    exact (follow_append (follow_filter hfollow) relative).symm
  have hplace := eq_append_of_follow hnames hdown
  rw [hplace, entry?, Entry.get?_append, ← entry?, hentry] at hentry'
  exact hentry'

/-- A directory below the start cannot be read. -/
theorem readText_below_directory {inside : List (String × Entry)}
    (hstart : fs.lookup start = .ok entry) (hne : relative ≠ [])
    (hnames : ∀ name ∈ relative, Path.IsName name)
    (hget : Entry.get? relative entry = some (.directory inside)) :
    ∃ e, fs.readText (Path.below start relative) = .error e := by
  obtain ⟨e, hread⟩ : ∃ e, fs.read (Path.below start relative) = .error e := by
    cases hlookup : fs.lookup (Path.below start relative) with
    | error fault => exact ⟨_, by rw [read, hlookup]⟩
    | ok found =>
      have hfound := get?_of_lookup_below hstart hne hnames hlookup
      cases hget.symm.trans hfound
      exact ⟨_, by rw [read, hlookup]⟩
  refine ⟨.unreadable e, ?_⟩
  rw [readText, hread]
  rfl

end FileSystem

namespace Run

open Collection (Chosen OutOfReach pathsFrom)

variable {w : World} {o : Options} {entries : List (String × Entry)} {path start : String}

/-- A run that does nothing but report on what it collects from a directory. -/
structure FromDirectory (w : World) (o : Options) (entries : List (String × Entry)) : Prop where
  noDump : o.dumpAst = false
  noCheck : o.checkParser = false
  lenient : o.strict = false
  unsaved : o.outputDir = none
  lookup : w.files.lookup (Path.tidy o.inputPath) = .ok (.directory entries)
  isTree : (Entry.directory entries).IsTree

/-- A path that makes a run fail: it is that of a chosen entry, which is a directory or a file that
cannot be read, parsed or lowered. -/
def Spoils (w : World) (start : String) (entries : List (String × Entry)) (path : String) : Prop :=
  ∃ directories name entry, Chosen entries directories name entry ∧
    path = Path.below start (directories ++ [name]) ∧
      (entry.isDirectory = true ∨ Source.found w.files w.parser path = none)

theorem hasNull_of_mem_pathsFrom (hstart : w.files.lookup start = .ok (.directory entries))
    (htree : (Entry.directory entries).IsTree) :
    ∀ path ∈ pathsFrom start entries, Path.hasNull path = false := by
  intro path hpath
  obtain ⟨directories, name, entry, hchosen, rfl⟩ := (Collection.mem_pathsFrom_iff htree).1 hpath
  apply Path.hasNull_below (FileSystem.lookup_ok hstart).1
  intro name hname
  exact Path.hasNull_eq_false.2 ((htree.of_get? hchosen.get?).1 name hname).no_null

/-- The files that a run from a directory marks. -/
theorem mem_failedFiles_iff (hstart : w.files.lookup start = .ok (.directory entries))
    (htree : (Entry.directory entries).IsTree) :
    path ∈ ((Project.ofPaths (pathsFrom start entries)).run w.files w.parser).failedFiles ↔
      Spoils w start entries path := by
  rw [Project.mem_failedFiles_run_ofPaths (hasNull_of_mem_pathsFrom hstart htree),
    Collection.mem_pathsFrom_iff htree]
  constructor
  · rintro ⟨⟨directories, name, entry, hchosen, hpath⟩, hnone⟩
    exact ⟨directories, name, entry, hchosen, hpath, .inr hnone⟩
  · rintro ⟨directories, name, entry, hchosen, hpath, hspoiled⟩
    refine ⟨⟨directories, name, entry, hchosen, hpath⟩, ?_⟩
    cases entry with
    | directory inside =>
      obtain ⟨e, hread⟩ := FileSystem.readText_below_directory hstart (by simp)
        (htree.of_get? hchosen.get?).1 hchosen.get?
      rw [hpath]
      exact Source.found_of_unread hread
    | file | device => exact hspoiled.resolve_left Bool.false_ne_true

theorem FromDirectory.pathsFrom_ne_nil (h : FromDirectory w o entries)
    (hsome : ∃ directories name bytes, Chosen entries directories name (.file bytes)) :
    pathsFrom (Path.tidy o.inputPath) entries ≠ [] := by
  obtain ⟨directories, name, bytes, hchosen⟩ := hsome
  have hmem : Path.below (Path.tidy o.inputPath) (directories ++ [name]) ∈
      pathsFrom (Path.tidy o.inputPath) entries :=
    (Collection.mem_pathsFrom_iff h.isTree).2 ⟨directories, name, _, hchosen, rfl⟩
  exact List.ne_nil_of_mem hmem

/-- The status of a run from a directory tells whether a file is marked. -/
theorem FromDirectory.ending_eq (h : FromDirectory w o entries)
    (hreach : ¬ OutOfReach (Path.tidy o.inputPath) entries)
    (hne : pathsFrom (Path.tidy o.inputPath) entries ≠ []) :
    (withOptions w o).ending = .exit
      (if ((Project.ofPaths (pathsFrom (Path.tidy o.inputPath) entries)).run w.files
        w.parser).failedFiles = [] then 0 else 1) := by
  have hcollect := Collection.collect_eq h.lookup h.isTree hreach
  have hnull := hasNull_of_mem_pathsFrom h.lookup h.isTree
  have hsave : CanSave w.files o := by
    intro directory hdirectory
    simp [reportDirectory?, h.unsaved] at hdirectory
  obtain ⟨-, hending, -⟩ := extractFiles_ok hnull hsave rfl
  obtain ⟨hstatus, hone⟩ := verdict_cases o
    ((Project.ofPaths (pathsFrom (Path.tidy o.inputPath) entries)).run w.files w.parser)
  rw [withOptions_of_collect h.noDump h.noCheck hcollect hne, hending, Ending.exit.injEq]
  simp only [h.lenient, Bool.false_eq_true, false_and, or_false] at hone
  split
  · rename_i hnone
    have hzero : ¬ _ = 1 := fun hstatus => hone.1 hstatus hnone
    exact hstatus.resolve_right hzero
  · rename_i hsome
    exact hone.2 hsome

/-- A run from a directory with a source file fails by the chosen entries that are directories and
by the chosen files that cannot be read, parsed or lowered: these and no others are marked, and the
status is one if there are any and zero if there are none, whatever else the directory holds. It
ends without a status only if a directory has too long a path to be looked through. -/
theorem run_fails_by_chosen_entries (w : World) (o : Options) (entries : List (String × Entry))
    (h : FromDirectory w o entries)
    (hsome : ∃ directories name bytes, Chosen entries directories name (.file bytes)) :
    (OutOfReach (Path.tidy o.inputPath) entries →
      ∃ e, (withOptions w o).ending = .crash (.files e)) ∧
    (¬ OutOfReach (Path.tidy o.inputPath) entries →
      ∃ paths, Collection.collect w.files o.inputPath = .ok paths ∧
        (∀ path, path ∈ ((Project.ofPaths paths).run w.files w.parser).failedFiles ↔
          Spoils w (Path.tidy o.inputPath) entries path) ∧
        ((∀ path, ¬ Spoils w (Path.tidy o.inputPath) entries path) →
          ((Project.ofPaths paths).run w.files w.parser).failedFiles = [] ∧
            (withOptions w o).ending = .exit 0) ∧
        ((∃ path, Spoils w (Path.tidy o.inputPath) entries path) →
          (withOptions w o).ending = .exit 1)) := by
  refine ⟨?_, ?_⟩
  · intro hlong
    obtain ⟨-, e, herror⟩ | ⟨hshort, -⟩ := Collection.collect_cases h.lookup h.isTree
    · refine ⟨e, ?_⟩
      simp only [withOptions, herror]
      rfl
    · exact absurd hlong hshort
  · intro hreach
    have hne := h.pathsFrom_ne_nil hsome
    have hfailed : ∀ path, path ∈ ((Project.ofPaths
        (pathsFrom (Path.tidy o.inputPath) entries)).run w.files w.parser).failedFiles ↔
          Spoils w (Path.tidy o.inputPath) entries path := by
      intro path
      exact mem_failedFiles_iff h.lookup h.isTree
    refine ⟨_, Collection.collect_eq h.lookup h.isTree hreach, hfailed, ?_, ?_⟩
    · intro hnone
      have hempty := List.eq_nil_iff_forall_not_mem.2 fun path hpath =>
        hnone path ((hfailed path).1 hpath)
      rw [h.ending_eq hreach hne, if_pos hempty]
      exact ⟨hempty, rfl⟩
    · rintro ⟨path, hspoils⟩
      have hmarked := List.ne_nil_of_mem ((hfailed path).2 hspoils)
      rw [h.ending_eq hreach hne, if_neg hmarked]

/-- A file and a directory, both with the name of a source file. -/
def namedAlike : List (String × Entry) := [("a.rb", .file []), ("b.rb", .directory [])]

/-- The files are empty, and so are the programs in them. -/
def namedWorld : World where
  files := ⟨.directory [("lib", .directory namedAlike)], []⟩
  parser := fun _ => .ok { type := "program" }

theorem fromDirectory_namedWorld : FromDirectory namedWorld { inputPath := "lib" } namedAlike where
  noDump := rfl
  noCheck := rfl
  lenient := rfl
  unsaved := rfl
  lookup := by cbv
  isTree := by decide +kernel

theorem inReach_namedAlike : ¬ OutOfReach (Path.tidy "lib") namedAlike :=
  Collection.not_outOfReach fromDirectory_namedWorld.isTree (by decide +kernel)

theorem chosen_namedAlike : Chosen namedAlike [] "a.rb" (.file []) where
  get? := rfl
  isSource := by decide +kernel
  kept := rfl

/-- The only chosen file. -/
theorem eq_of_chosen_namedAlike {directories : List String} {name : String} {bytes : List UInt8}
    (h : Chosen namedAlike directories name (.file bytes)) : directories ++ [name] = ["a.rb"] := by
  have hmem := (Collection.mem_below_iff fromDirectory_namedWorld.isTree).2
    ⟨directories, name, _, rfl, h⟩
  have hbelow : Collection.below [] namedAlike = [["a.rb"], ["b.rb"]] := by decide +kernel
  rw [hbelow, List.mem_pair] at hmem
  obtain hfile | hdirectory := hmem
  · exact hfile
  · have hget := h.get?
    rw [hdirectory] at hget
    cases hget

/-- The directory is chosen for its name, and a directory cannot be read. -/
theorem spoils_namedWorld : Spoils namedWorld (Path.tidy "lib") namedAlike "lib/b.rb" := by
  have hchosen : Chosen namedAlike [] "b.rb" (.directory []) := ⟨rfl, by decide +kernel, rfl⟩
  exact ⟨[], "b.rb", .directory [], hchosen, by decide +kernel, .inl rfl⟩

/-- The run fails by the directory, which is marked. -/
theorem run_fails_by_chosen_entries_namedWorld :
    ∃ paths, Collection.collect namedWorld.files "lib" = .ok paths ∧
      "lib/b.rb" ∈ ((Project.ofPaths paths).run namedWorld.files namedWorld.parser).failedFiles ∧
      (withOptions namedWorld { inputPath := "lib" }).ending = .exit 1 := by
  obtain ⟨-, hrun⟩ := run_fails_by_chosen_entries namedWorld { inputPath := "lib" } namedAlike
    fromDirectory_namedWorld ⟨[], "a.rb", [], chosen_namedAlike⟩
  obtain ⟨paths, hcollect, hfailed, -, hone⟩ := hrun inReach_namedAlike
  exact ⟨paths, hcollect, (hfailed _).2 spoils_namedWorld, hone ⟨_, spoils_namedWorld⟩⟩

/-- A run can fail although each of its files can be read, parsed and lowered. -/
theorem directory_named_like_source_fails_the_run :
    ¬ ∀ (w : World) (o : Options) (entries : List (String × Entry)), FromDirectory w o entries →
      ¬ OutOfReach (Path.tidy o.inputPath) entries →
      (∃ directories name bytes, Chosen entries directories name (.file bytes)) →
      (∀ directories name bytes, Chosen entries directories name (.file bytes) →
        (Source.found w.files w.parser
          (Path.below (Path.tidy o.inputPath) (directories ++ [name]))).isSome = true) →
      (withOptions w o).ending = .exit 0 := by
  intro hclaim
  have h := fromDirectory_namedWorld
  have hsome : ∃ directories name bytes, Chosen namedAlike directories name (.file bytes) :=
    ⟨[], "a.rb", [], chosen_namedAlike⟩
  have hzero := hclaim namedWorld { inputPath := "lib" } namedAlike h inReach_namedAlike hsome ?_
  · have hmarked := List.ne_nil_of_mem ((mem_failedFiles_iff h.lookup h.isTree).2 spoils_namedWorld)
    rw [h.ending_eq inReach_namedAlike (h.pathsFrom_ne_nil hsome), if_neg hmarked] at hzero
    cases hzero
  · intro directories name bytes hchosen
    rw [eq_of_chosen_namedAlike hchosen]
    cbv

end Run

end RubyOutline
