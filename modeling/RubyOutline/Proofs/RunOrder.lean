import Mathlib
import RubyOutline.Proofs.FileRun

namespace RubyOutline

namespace Project

variable (fs : FileSystem) (parser : Parser)

/-- Files run one after the other. -/
def runFiles (calls : List String) (p : Project) : Project :=
  calls.foldl (fun p path => p.runFile fs parser path) p

/-- A call changes the file that it names and no other. -/
theorem runFile_other {p : Project} {path : String} {i : Nat} {f : SourceFile}
    (hf : p.files[i]? = some f) (hne : f.path ≠ path) :
    (p.runFile fs parser path).files[i]? = some f := by
  rw [runFile, modify, List.getElem?_map, hf, Option.map_some, if_neg hne]

/-- After some calls each file that was named is as after one run of it alone. -/
theorem runFiles_files (calls : List String) (p : Project) :
    (p.runFiles fs parser calls).files =
      p.files.map fun f => if f.path ∈ calls then (f.run fs parser).1 else f := by
  induction calls generalizing p with
  | nil => simp [runFiles]
  | cons path calls ih =>
    have hstep : p.runFiles fs parser (path :: calls) =
        (p.runFile fs parser path).runFiles fs parser calls := rfl
    rw [hstep, ih, runFile, modify, List.map_map]
    refine List.map_congr_left fun f _ => ?_
    have hpath := (SourceFile.run_runsTo fs parser f).path
    simp only [Function.comp_apply, List.mem_cons]
    by_cases hfirst : f.path = path
    -- the file has been run, so any later run of it changes nothing
    · by_cases hrest : f.path ∈ calls
      · simp only [hfirst, if_true] at hpath hrest ⊢
        simp only [hpath, hrest, if_true, true_or, SourceFile.run_run]
      · simp only [hfirst, if_true] at hpath hrest ⊢
        simp only [hpath, hrest, if_false, true_or, if_true]
    · simp only [hfirst, if_false, false_or]

/-- After calls that name every file, each is as after one run of it alone. -/
theorem runFiles_ofPaths {paths calls : List String} (hcalls : ∀ path ∈ paths, path ∈ calls) :
    ((ofPaths paths).runFiles fs parser calls).files =
      (ofPaths paths).files.map fun f => (f.run fs parser).1 := by
  rw [runFiles_files]
  refine List.map_congr_left fun f hf => if_pos (hcalls f.path ?_)
  obtain ⟨path, hpath, rfl⟩ := List.mem_map.1 hf
  exact List.mem_eraseDups.1 hpath

/-- As long as no file is refused, a run of all files is the run of each. -/
theorem take_run_files {p : Project} {n : Nat} (h : ∀ f ∈ p.files.take n, f.refusal? = none) :
    (p.run fs parser).files.take n = (p.files.take n).map fun f => (f.run fs parser).1 := by
  obtain ⟨files⟩ := p
  simp only [run, accepted, pending] at h ⊢
  induction files generalizing n with
  | nil => simp
  | cons f rest ih =>
    cases n with
    | zero => rfl
    | succ n =>
      have hfirst : f.refusal?.isNone = true := by simp [h f (by simp)]
      have hrest := ih (n := n) fun g hg => h g (by simp [hg])
      simp only [List.takeWhile_cons_of_pos (p := fun f : SourceFile => f.refusal?.isNone) hfirst,
        List.dropWhile_cons_of_pos (p := fun f : SourceFile => f.refusal?.isNone) hfirst,
        List.map_cons, List.cons_append, List.take_succ_cons, hrest]

theorem ofPaths_files_take (paths : List String) (n : Nat) :
    (ofPaths paths).files.take n = (paths.eraseDups.take n).map fun path => { path } := by
  rw [ofPaths, List.map_take]

/-- Calls that name every file, in any order and any number of times, make of each file up to the
first path with a null character what one run of all files makes of it; and no call changes a file
that it does not name. -/
theorem files_run_in_any_order (paths calls : List String)
    (hcalls : ∀ path ∈ paths, path ∈ calls) :
    (∀ n, (∀ path ∈ paths.eraseDups.take n, Path.hasNull path = false) →
      ((ofPaths paths).runFiles fs parser calls).files.take n =
        ((ofPaths paths).run fs parser).files.take n) ∧
    ((∀ path ∈ paths, Path.hasNull path = false) →
      (ofPaths paths).runFiles fs parser calls = (ofPaths paths).run fs parser ∧
      ((ofPaths paths).runFiles fs parser calls).features =
        ((ofPaths paths).run fs parser).features ∧
      ((ofPaths paths).runFiles fs parser calls).diagnostics =
        ((ofPaths paths).run fs parser).diagnostics ∧
      ((ofPaths paths).runFiles fs parser calls).failedFiles =
        ((ofPaths paths).run fs parser).failedFiles) ∧
    ∀ (p : Project) (path : String) (i : Nat) (f : SourceFile),
      p.files[i]? = some f → f.path ≠ path → (p.runFile fs parser path).files[i]? = some f := by
  have hcalled := runFiles_ofPaths fs parser hcalls
  have hupto : ∀ n, (∀ path ∈ paths.eraseDups.take n, Path.hasNull path = false) →
      ((ofPaths paths).runFiles fs parser calls).files.take n =
        ((ofPaths paths).run fs parser).files.take n := by
    intro n hn
    rw [hcalled, ← List.map_take, take_run_files]
    intro f hf
    rw [ofPaths_files_take] at hf
    obtain ⟨path, hpath, rfl⟩ := List.mem_map.1 hf
    exact SourceFile.refusal?_fresh (hn path hpath)
  refine ⟨hupto, fun hpaths => ?_, fun p path i f hf hne => runFile_other fs parser hf hne⟩
  have hall : (ofPaths paths).runFiles fs parser calls = (ofPaths paths).run fs parser := by
    have hfiles : ((ofPaths paths).run fs parser).files = _ := run_files (refusal?_ofPaths hpaths)
    exact congrArg Project.mk (hcalled.trans hfiles.symm)
  exact ⟨hall, congrArg features hall, congrArg diagnostics hall, congrArg failedFiles hall⟩

/-- A directory with one file, whose text is one letter. -/
def oneLetterFile : FileSystem := ⟨.directory [("a.rb", .file [97])], []⟩

/-- A parser for which every text is an empty program. -/
def emptyProgram : Parser := fun _ => .ok { type := "program" }

/-- The file that is there and one that is not, each named twice and last first. -/
theorem files_run_in_any_order_missingFile :
    (∀ path ∈ ["a.rb", "b.rb"], path ∈ ["b.rb", "a.rb", "b.rb", "a.rb"]) ∧
    (∀ path ∈ ["a.rb", "b.rb"], Path.hasNull path = false) ∧
    (ofPaths ["a.rb", "b.rb"]).runFiles oneLetterFile emptyProgram
        ["b.rb", "a.rb", "b.rb", "a.rb"] =
      (ofPaths ["a.rb", "b.rb"]).run oneLetterFile emptyProgram ∧
    ((ofPaths ["a.rb", "b.rb"]).run oneLetterFile emptyProgram).failedFiles = ["b.rb"] := by
  have hcalls : ∀ path ∈ ["a.rb", "b.rb"], path ∈ ["b.rb", "a.rb", "b.rb", "a.rb"] := by decide
  have hpaths : ∀ path ∈ ["a.rb", "b.rb"], Path.hasNull path = false := by
    simp [Path.hasNull, String.contains_char_eq]
  refine ⟨hcalls, hpaths, ?_, ?_⟩
  · exact ((files_run_in_any_order oneLetterFile emptyProgram _ _ hcalls).2.1 hpaths).1
  · cbv

/-- A path with a null character stops a run of all files, and the files after it are not run,
though a call for each of them would run it. -/
theorem null_character_stops_the_run :
    ¬ ∀ (fs : FileSystem) (parser : Parser) (paths calls : List String),
      (∀ path ∈ paths, path ∈ calls) →
        ((ofPaths paths).runFiles fs parser calls).failedFiles =
          ((ofPaths paths).run fs parser).failedFiles := by
  intro h
  have hfailed := h ⟨.directory [], []⟩ emptyProgram ["a\x00.rb", "b.rb"] ["b.rb", "a\x00.rb"]
    (by decide)
  have hcalled : ((ofPaths ["a\x00.rb", "b.rb"]).runFiles ⟨.directory [], []⟩ emptyProgram
      ["b.rb", "a\x00.rb"]).failedFiles = ["b.rb"] := by cbv
  have hrun : ((ofPaths ["a\x00.rb", "b.rb"]).run ⟨.directory [], []⟩
      emptyProgram).failedFiles = [] := by cbv
  rw [hcalled, hrun] at hfailed
  cases hfailed

end Project

end RubyOutline
